import DistributionOperator.Cluster.Child
import DistributionOperator.Cluster.Error
import DistributionOperator.Distribution.Basic

/-! The calls that the operator makes to the store of the cluster. A call is data, and its result
has a type of its own. There is no call that changes or deletes a claim. -/

namespace DistributionOperator

inductive StoreCall where
  | getDistribution (k : Key)
  | updateStatus (k : Key) (resourceVersion : Option String) (status : Status)
  | get (kind : ChildKind) (k : Key)
  | create (kind : ChildKind) (space : String) (child : Child)
  | replace (kind : Managed) (space : String) (child : Child)
  | deletePolicy (k : Key)
  | getConfigMap (k : Key)
  | createConfigMap (space : String) (map : ConfigMap)
deriving DecidableEq

/-- What a call gives when it succeeds. A deletion tells whether there was anything to delete. -/
abbrev StoreCall.Result : StoreCall → Type
  | .getDistribution _ => Option Distribution
  | .updateStatus _ _ _ => Unit
  | .get _ _ => Option Child
  | .create _ _ _ => Child
  | .replace _ _ _ => Child
  | .deletePolicy _ => Bool
  | .getConfigMap _ => Option ConfigMap
  | .createConfigMap _ _ => ConfigMap

abbrev StoreCall.Answer (c : StoreCall) : Type := Except StoreError c.Result

end DistributionOperator
