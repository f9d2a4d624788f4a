import DistributionOperator.Json.Containment
import DistributionOperator.Program
import DistributionOperator.Sha256

/-! Bringing one child in line with what is wanted. Nothing is written as long as the live child
holds all that is wanted; since a part that is no longer wanted would go unseen that way, the digest
of what was last wanted is kept with the child. -/

namespace DistributionOperator

inductive Applied where
  | created
  | updated
  | unchanged
deriving DecidableEq

namespace Applied

def name : Applied → String
  | .created => "Created"
  | .updated => "Updated"
  | .unchanged => "Unchanged"

end Applied

namespace Child

def hashAnnotation : String := "llamastack.io/applied-hash"

/-- The text that stands for labels and spec; what is absent is null. -/
def wantedText (labels : Option (StringMap String)) (spec : Option Json) : String :=
  (Json.array [(labels.map Json.ofStrings).getD .null, spec.getD .null]).text

def appliedHash (labels : Option (StringMap String)) (spec : Option Json) : String :=
  Sha256.hex (wantedText labels spec)

def withOwner (c : Child) (owner : OwnerReference) : Child :=
  { c with metadata := { c.metadata with ownerReferences := some [owner] } }

def withHash (c : Child) : Child :=
  { c with
    metadata := { c.metadata with
      annotations := some ((c.metadata.annotations.getD .empty).insert hashAnnotation
        (appliedHash c.metadata.labels c.spec)) } }

def prepare (c : Child) (owner : OwnerReference) : Child := c.withHash.withOwner owner

def labelsJson (c : Child) : Json := (c.metadata.labels.map Json.ofStrings).getD .null

def specJson (c : Child) : Json := c.spec.getD .null

/-- Whether a live child has the owner, the labels, the spec and the digest of a wanted one. -/
def inLine (wanted live : Child) (owner : OwnerReference) : Bool :=
  live.metadata.ownedBy owner.uid &&
    wanted.labelsJson.containedIn live.labelsJson &&
    wanted.specJson.containedIn live.specJson &&
    wanted.metadata.annotation? hashAnnotation = live.metadata.annotation? hashAnnotation

def takeMember (source : Json) (k : String) (j : Json) : Json :=
  match source.member? k with
  | some v => j.setMember k v
  | none => j.eraseMember k

/-- The addresses of a service are given by the cluster and must not change. -/
def keepAddresses (live wanted : Child) : Child :=
  match wanted.spec, live.spec with
  | some w, some l =>
    { wanted with spec := some (takeMember l "clusterIPs" (takeMember l "clusterIP" w)) }
  | _, _ => wanted

/-- The child to write over a live one, for the version that was read. -/
def replacing (m : Managed) (live wanted : Child) : Child :=
  let c := match m with
    | .service => keepAddresses live wanted
    | _ => wanted
  { c with metadata := { c.metadata with resourceVersion := live.metadata.resourceVersion } }

end Child

open Program

/-- Creates the claim if there is none; one that is there is left alone. -/
def applyClaim (space : String) (owner : OwnerReference) (wanted : Child) :
    Program (Except OperatorError Applied) :=
  let kind := ChildKind.claim
  (attempt "get" kind.kind (.get kind ⟨space, wanted.metadata.name.getD ""⟩)).andThen fun
    | some _ => done (.ok .unchanged)
    | none => (attempt "create" kind.kind (.create kind space (wanted.withOwner owner))).andThen
        fun _ => done (.ok .created)

/-- Creates the child, replaces it if it is out of line, and refuses to touch one that somebody else
controls. -/
def applyChild (m : Managed) (space : String) (owner : OwnerReference) (wanted : Child) :
    Program (Except OperatorError Applied) :=
  let kind := ChildKind.managed m
  let wanted := wanted.prepare owner
  (attempt "get" kind.kind (.get kind ⟨space, wanted.metadata.name.getD ""⟩)).andThen fun
    | none => (attempt "create" kind.kind (.create kind space wanted)).andThen
        fun _ => done (.ok .created)
    | some live =>
      if live.metadata.controlledByOther owner.uid then
        done (.error (.ownershipConflict kind.kind (live.metadata.name.getD "")))
      else if wanted.inLine live owner then done (.ok .unchanged)
      else (attempt "update" kind.kind (.replace m space (Child.replacing m live wanted))).andThen
        fun _ => done (.ok .updated)

def removePolicy (k : Key) : Program (Except OperatorError Bool) :=
  attempt "delete" ChildKind.policy.kind (.deletePolicy k)

end DistributionOperator
