import DistributionOperator.Distribution.Spec
import DistributionOperator.Distribution.Status
import DistributionOperator.Metadata

/-! Distributions: the declared servers that the operator runs, with the names and labels of their
children. -/

namespace DistributionOperator

structure Distribution where
  metadata : ObjectMeta
  spec : Spec
  status : Option Status
deriving DecidableEq

namespace Distribution

def apiVersion : String := "llamastack.io/v1alpha1"

def kind : String := "LlamaStackDistribution"

def record : Record Distribution where
  name := kind
  strict := true
  blank := ⟨.blank, ⟨1, .blank⟩, none⟩
  fields := [
    .needed "metadata" ObjectMeta.record.codec (·.metadata) ({ · with metadata := · }),
    .needed "spec" Spec.record.codec (·.spec) ({ · with spec := · }),
    .optional "status" Status.record.codec (·.status) ({ · with status := · })]

/-- Written with its version and kind, whatever was read. -/
def codec : Codec Distribution where
  decode := record.decode
  encode d := ((record.encode d).setMember "apiVersion" (.string apiVersion)).setMember "kind"
    (.string kind)

def name (d : Distribution) : String := d.metadata.anyName

def space (d : Distribution) : String := d.metadata.spaceOrDefault

def key (d : Distribution) : Key := ⟨d.space, d.name⟩

def ports (d : Distribution) : List Int32 := d.spec.server.container.ports

def hasPorts (d : Distribution) : Bool := !d.ports.isEmpty

def defaultPort : Int32 := 8321

def servicePort (d : Distribution) : Int32 := d.ports.head?.getD defaultPort

/-- The default name of the container, and what peers say that they are part of. -/
def stackName : String := "llama-stack"

def containerName (d : Distribution) : String :=
  (nonEmpty d.spec.server.container.name).getD stackName

def serviceName (d : Distribution) : String := d.name ++ "-service"

def claimName (d : Distribution) : String := d.name ++ "-pvc"

def policyName (d : Distribution) : String := d.name ++ "-network-policy"

/-- The labels by which the pods of a distribution are found, wherever they are looked for. -/
def selectorLabels (d : Distribution) : StringMap String :=
  .ofList [("app", stackName), ("app.kubernetes.io/instance", d.name)]

/-- The distribution as status tells it; an invalid choice has none. -/
def active? (d : Distribution) : Option String :=
  match d.spec.server.choice.validate with
  | .ok (.named name) => some name
  | .ok (.explicit _) => some "custom"
  | .error _ => none

def ownerReference? (d : Distribution) : Option OwnerReference := do
  let name ← d.metadata.name
  let uid ← d.metadata.uid
  return ⟨apiVersion, kind, name, uid, some true, none⟩

end Distribution

end DistributionOperator
