import DistributionOperator.Cluster.Error
import DistributionOperator.Distribution.Spec

/-! What can go wrong in the operator itself. Each error says what was being done to what. -/

namespace DistributionOperator

inductive OperatorError where
  | client (f : ApiFailure)
  | store (operation resource : String) (source : StoreError)
  | invalidDistribution (e : ChoiceError)
  | distributionNotFound (name : String)
  | ownershipConflict (kind name : String)
  | build (kind message : String)
  | featureFlags (message : String)
  | invalidConfig (message : String)
  | metrics (message : String)
  | watch (message : String)
deriving DecidableEq

namespace OperatorError

def message : OperatorError → String
  | .client f => "Kubernetes error: " ++ f.text
  | .store operation resource source =>
    "failed to " ++ operation ++ " " ++ resource ++ ": " ++ source.message
  | .invalidDistribution e => "invalid distribution: " ++ e.message
  | .distributionNotFound name => "distribution not found: " ++ name
  | .ownershipConflict kind name => kind ++ " " ++ name ++ " is controlled by another owner"
  | .build kind m => "failed to build " ++ kind ++ ": " ++ m
  | .featureFlags m => "failed to parse feature flags: " ++ m
  | .invalidConfig m => "Invalid configuration: " ++ m
  | .metrics m => "Metrics error: " ++ m
  | .watch m => "Resource watch failed: " ++ m

def source? : OperatorError → Option String
  | .client f => some f.text
  | .store _ _ source => some source.message
  | .invalidDistribution e => some e.message
  | _ => none

def label : OperatorError → String
  | .client _ => "kube"
  | .store _ _ source => if source.isConflict then "conflict" else "cluster"
  | .invalidDistribution _ | .distributionNotFound _ => "distribution"
  | .ownershipConflict _ _ => "ownership"
  | .build _ _ => "build"
  | .featureFlags _ | .invalidConfig _ => "config"
  | .metrics _ => "metrics"
  | .watch _ => "watch"

end OperatorError

end DistributionOperator
