import DistributionOperator.Metadata

/-! The objects that the operator makes for a distribution. They are kept as the cluster writes
them: metadata, and a spec and a status as JSON. -/

namespace DistributionOperator

/-- The kinds of children that are brought in line with the distribution at every pass. -/
inductive Managed where
  | deployment
  | service
  | policy
deriving DecidableEq

/-- All kinds of children; a claim is made once and then left alone. -/
inductive ChildKind where
  | claim
  | managed (m : Managed)
deriving DecidableEq

namespace Managed

def kind : Managed → String
  | .deployment => "Deployment"
  | .service => "Service"
  | .policy => "NetworkPolicy"

end Managed

namespace ChildKind

abbrev deployment : ChildKind := .managed .deployment

abbrev service : ChildKind := .managed .service

abbrev policy : ChildKind := .managed .policy

def all : List ChildKind := [claim, deployment, service, policy]

def kind : ChildKind → String
  | .claim => "PersistentVolumeClaim"
  | .managed m => m.kind

def apiVersion : ChildKind → String
  | .claim => "v1"
  | .managed .deployment => "apps/v1"
  | .managed .service => "v1"
  | .managed .policy => "networking.k8s.io/v1"

/-- The objects that a spec of this kind must have; an empty one stands for one that is missing. -/
def specObjects : ChildKind → List String
  | .managed .deployment => ["selector", "template"]
  | .managed .policy => ["podSelector"]
  | _ => []

end ChildKind

structure Child where
  metadata : ObjectMeta
  spec : Option Json
  status : Option Json
deriving DecidableEq

structure ConfigMap where
  metadata : ObjectMeta
  data : Option (StringMap String)
  binaryData : Option (StringMap String)
  immutable : Option Bool
deriving DecidableEq

/-- A field that says the same in every object of a kind. -/
def Field.constant {α : Type} (name value : String) : Field α :=
  ⟨name, [], false, Unit, fun _ => (), fun a _ => a,
    fun src d => do
      let s ← Codec.string.decode src d
      if s = value then .ok () else .error (.data (.wrongValue (.string s) value)),
    fun _ => some (.string value)⟩

def Codec.jsonObject (name : String) : Codec Json where
  decode src d := match d with
    | .object _ _ _ => Codec.json.decode src d
    | d => .error (d.unwanted name)
  encode := id

/-- The object with empty objects for those members that it lacks. -/
def Json.withObjects (names : List String) (j : Json) : Json :=
  names.foldl (fun j n => if (j.member? n).isNone then j.setMember n (.object []) else j) j

namespace Child

def blank : Child := ⟨.blank, none, none⟩

instance : Inhabited Child := ⟨blank⟩

def specCodec (k : ChildKind) : Codec Json where
  decode src d := ((Codec.jsonObject (k.kind ++ "Spec")).decode src d).map
    (Json.withObjects k.specObjects)
  encode := id

def statusFields (k : ChildKind) : List (Field Child) :=
  match k with
  | .managed .policy => []
  | k => [.optional "status" (.jsonObject (k.kind ++ "Status")) (·.status) ({ · with status := · })]

def record (k : ChildKind) : Record Child where
  name := k.kind
  strict := false
  blank := blank
  fields := [
    .constant "apiVersion" k.apiVersion,
    .constant "kind" k.kind,
    .lenient "metadata" ObjectMeta.record.codec .blank (·.metadata) ({ · with metadata := · }),
    .optional "spec" (specCodec k) (·.spec) ({ · with spec := · })] ++ statusFields k

def codec (k : ChildKind) : Codec Child := (record k).codec

def statusInt? (c : Child) (key : String) : Option Int32 := do
  let n ← (← (← c.status).member? key).int?
  return Int32.ofInt n

def readyReplicas (c : Child) : Int32 := (c.statusInt? "readyReplicas").getD 0

/-- The phase of a claim; one without a phase has the empty one. -/
def claimPhase (c : Child) : String :=
  ((do (← (← c.status).member? "phase").string?) : Option String).getD ""

end Child

namespace ConfigMap

def record : Record ConfigMap where
  name := "ConfigMap"
  strict := false
  blank := ⟨.blank, none, none, none⟩
  fields := [
    .constant "apiVersion" "v1",
    .constant "kind" "ConfigMap",
    .lenient "metadata" ObjectMeta.record.codec .blank (·.metadata) ({ · with metadata := · }),
    .optional "data" (.map .string) (·.data) ({ · with data := · }),
    .optional "binaryData" (.map .string) (·.binaryData) ({ · with binaryData := · }),
    .optional "immutable" .bool (·.immutable) ({ · with immutable := · })]

def codec : Codec ConfigMap := record.codec

end ConfigMap

end DistributionOperator
