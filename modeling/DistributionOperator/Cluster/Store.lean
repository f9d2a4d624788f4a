import DistributionOperator.Cluster.Call
import DistributionOperator.Json.Patch

/-! A store in memory. One counter numbers the versions of all objects, every write is logged, and a
write that names another version than the stored one is refused. -/

namespace DistributionOperator

abbrev Table (α : Type) := Key → Option α

def Table.empty {α : Type} : Table α := fun _ => none

def Table.set {α : Type} (t : Table α) (k : Key) (a : Option α) : Table α :=
  fun j => if j = k then a else t j

@[simp] theorem Table.set_same {α : Type} (t : Table α) (k : Key) (a : Option α) :
    t.set k a k = a := by simp [Table.set]

@[simp] theorem Table.set_other {α : Type} (t : Table α) {j k : Key} (a : Option α) (h : j ≠ k) :
    t.set k a j = t j := by simp [Table.set, h]

inductive WriteOp where
  | create
  | replace
  | delete
  | status
deriving DecidableEq

def WriteOp.name : WriteOp → String
  | .create => "create"
  | .replace => "replace"
  | .delete => "delete"
  | .status => "status"

structure WriteEntry where
  op : WriteOp
  kind : String
  key : Key
deriving DecidableEq

def WriteEntry.text (w : WriteEntry) : String := w.op.name ++ " " ++ w.kind ++ " " ++ w.key.text

/-- The log keeps the order of the writes. Two kinds of calls can be made to fail. -/
structure Store where
  distributions : Table Distribution
  children : ChildKind → Table Child
  configMaps : Table ConfigMap
  version : Nat
  log : List WriteEntry
  statusFault : Option String
  deploymentReadFault : Option String

namespace Store

def empty : Store := ⟨.empty, fun _ => .empty, .empty, 0, [], none, none⟩

instance : Inhabited Store := ⟨empty⟩

def setChild (s : Store) (kind : ChildKind) (k : Key) (c : Option Child) : Store :=
  { s with children := fun j => if j = kind then (s.children kind).set k c else s.children j }

def record (s : Store) (op : WriteOp) (kind : String) (k : Key) : Store :=
  { s with log := s.log ++ [⟨op, kind, k⟩] }

def bump (s : Store) : Store := { s with version := s.version + 1 }

def nextVersion (s : Store) : String := toString (s.version + 1)

def stamp (s : Store) (space : String) (m : ObjectMeta) : ObjectMeta :=
  { m with space := some space, resourceVersion := some s.nextVersion }

def keyIn (space : String) (m : ObjectMeta) : Key := ⟨space, m.name.getD ""⟩

/-- Whether a write that names a version, or none, may follow upon a stored version. -/
def current (named stored : Option String) : Bool := named.isNone || named = stored

def create (s : Store) (kind : ChildKind) (space : String) (c : Child) :
    Except StoreError Child × Store :=
  let k := keyIn space c.metadata
  match s.children kind k with
  | some _ => (.error (.conflict (kind.kind ++ " " ++ k.text ++ " already exists")), s)
  | none =>
    let stored := { c with metadata := s.stamp space c.metadata }
    (.ok stored, ((s.setChild kind k (some stored)).bump).record .create kind.kind k)

def replace (s : Store) (m : Managed) (space : String) (c : Child) :
    Except StoreError Child × Store :=
  let k := keyIn space c.metadata
  match s.children (.managed m) k with
  | none => (.error (.notFound (m.kind ++ " " ++ k.text)), s)
  | some live =>
    if current c.metadata.resourceVersion live.metadata.resourceVersion then
      let stored := { c with metadata := s.stamp space c.metadata }
      (.ok stored, ((s.setChild (.managed m) k (some stored)).bump).record .replace m.kind k)
    else (.error (.conflict (m.kind ++ " " ++ k.text ++ " was modified")), s)

def deletePolicy (s : Store) (k : Key) : Except StoreError Bool × Store :=
  match s.children .policy k with
  | none => (.ok false, s)
  | some _ => (.ok true, (s.setChild .policy k none).record .delete ChildKind.policy.kind k)

def createConfigMap (s : Store) (space : String) (m : ConfigMap) :
    Except StoreError ConfigMap × Store :=
  let k := keyIn space m.metadata
  match s.configMaps k with
  | some _ => (.error (.conflict ("ConfigMap " ++ k.text ++ " already exists")), s)
  | none =>
    let stored := { m with metadata := s.stamp space m.metadata }
    (.ok stored,
      ({ s with configMaps := s.configMaps.set k (some stored) }.bump).record .create "ConfigMap" k)

def patchStatus (old : Option Status) (new : Status) : Except DecodeError (Option Status) :=
  let c := Status.record.codec
  c.option.decode.ofJson (Json.mergePatch (c.option.encode old) (c.encode new))

def updateStatus (s : Store) (k : Key) (resourceVersion : Option String) (status : Status) :
    Except StoreError Unit × Store :=
  match s.statusFault with
  | some message => (.error (.api message), s)
  | none =>
    match s.distributions k with
    | none => (.error (.notFound (Distribution.kind ++ " " ++ k.text)), s)
    | some d =>
      if current resourceVersion d.metadata.resourceVersion then
        match patchStatus d.status status with
        | .error e => (.error (.serialization e.message), s)
        | .ok new =>
          let stored := { d with
            status := new
            metadata := { d.metadata with resourceVersion := some s.nextVersion } }
          (.ok (), ({ s with distributions := s.distributions.set k (some stored) }.bump).record
            .status Distribution.kind k)
      else (.error (.conflict (Distribution.kind ++ " " ++ k.text ++ " was modified")), s)

def get (s : Store) (kind : ChildKind) (k : Key) : Except StoreError (Option Child) :=
  match kind, s.deploymentReadFault with
  | .managed .deployment, some message => .error (.api message)
  | kind, _ => .ok (s.children kind k)

def answer (s : Store) : (c : StoreCall) → c.Answer × Store
  | .getDistribution k => (.ok (s.distributions k), s)
  | .updateStatus k v status => s.updateStatus k v status
  | .get kind k => (s.get kind k, s)
  | .create kind space c => s.create kind space c
  | .replace m space c => s.replace m space c
  | .deletePolicy k => s.deletePolicy k
  | .getConfigMap k => (.ok (s.configMaps k), s)
  | .createConfigMap space m => s.createConfigMap space m

def childWrites (s : Store) : List WriteEntry := s.log.filter (·.op ≠ .status)

def clearLog (s : Store) : Store := { s with log := [] }

def addDistribution (s : Store) (d : Distribution) : Store :=
  let stored := { d with metadata := { d.metadata with resourceVersion := some s.nextVersion } }
  { s with distributions := s.distributions.set (keyIn d.space d.metadata) (some stored) }.bump

def addChild (s : Store) (kind : ChildKind) (space : String) (c : Child) : Store :=
  s.setChild kind (keyIn space c.metadata) (some c)

def addConfigMap (s : Store) (space : String) (m : ConfigMap) : Store :=
  { s with configMaps := s.configMaps.set (keyIn space m.metadata) (some m) }

def setChildStatus (s : Store) (kind : ChildKind) (k : Key) (status : Json) : Store :=
  s.setChild kind k ((s.children kind k).map fun c => { c with status := some status })

def setReadyReplicas (s : Store) (k : Key) (ready : Int32) : Store :=
  s.setChildStatus .deployment k (.mkObject [("readyReplicas", .int ready.toInt)])

def setClaimPhase (s : Store) (k : Key) (phase : String) : Store :=
  s.setChildStatus .claim k (.mkObject [("phase", .string phase)])

end Store

end DistributionOperator
