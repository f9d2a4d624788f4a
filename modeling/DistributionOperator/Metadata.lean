import DistributionOperator.Json.Record
import DistributionOperator.Timestamp

/-! What the cluster keeps about every object: its name and space, its version, its labels, and the
objects that own it. -/

namespace DistributionOperator

/-- The place of an object of one kind in the cluster. -/
structure Key where
  space : String
  name : String
deriving DecidableEq, Hashable

def Key.text (k : Key) : String := k.space ++ "/" ++ k.name

structure OwnerReference where
  apiVersion : String
  kind : String
  name : String
  uid : String
  controller : Option Bool
  blockOwnerDeletion : Option Bool
deriving DecidableEq

structure ObjectMeta where
  name : Option String
  generateName : Option String
  space : Option String
  uid : Option String
  resourceVersion : Option String
  generation : Option Int64
  labels : Option (StringMap String)
  annotations : Option (StringMap String)
  ownerReferences : Option (List OwnerReference)
  creationTimestamp : Option Timestamp
  deletionTimestamp : Option Timestamp
  deletionGracePeriodSeconds : Option Int64
  finalizers : Option (List String)
  managedFields : Option (List Json)
  selfLink : Option String
deriving DecidableEq

def OwnerReference.blank : OwnerReference := ⟨"", "", "", "", none, none⟩

def OwnerReference.record : Record OwnerReference where
  name := "OwnerReference"
  strict := false
  blank := .blank
  fields := [
    .lenient "apiVersion" .string "" (·.apiVersion) ({ · with apiVersion := · }),
    .optional "blockOwnerDeletion" .bool (·.blockOwnerDeletion)
      ({ · with blockOwnerDeletion := · }),
    .optional "controller" .bool (·.controller) ({ · with controller := · }),
    .lenient "kind" .string "" (·.kind) ({ · with kind := · }),
    .lenient "name" .string "" (·.name) ({ · with name := · }),
    .lenient "uid" .string "" (·.uid) ({ · with uid := · })]

namespace ObjectMeta

def blank : ObjectMeta :=
  ⟨none, none, none, none, none, none, none, none, none, none, none, none, none, none, none⟩

instance : Inhabited ObjectMeta := ⟨blank⟩

def record : Record ObjectMeta where
  name := "ObjectMeta"
  strict := false
  blank := blank
  fields := [
    .optional "annotations" (.map .string) (·.annotations) ({ · with annotations := · }),
    .optional "creationTimestamp" Timestamp.codec (·.creationTimestamp)
      ({ · with creationTimestamp := · }),
    .optional "deletionGracePeriodSeconds" .int64 (·.deletionGracePeriodSeconds)
      ({ · with deletionGracePeriodSeconds := · }),
    .optional "deletionTimestamp" Timestamp.codec (·.deletionTimestamp)
      ({ · with deletionTimestamp := · }),
    .optional "finalizers" (.list .string) (·.finalizers) ({ · with finalizers := · }),
    .optional "generateName" .string (·.generateName) ({ · with generateName := · }),
    .optional "generation" .int64 (·.generation) ({ · with generation := · }),
    .optional "labels" (.map .string) (·.labels) ({ · with labels := · }),
    .optional "managedFields" (.list .json) (·.managedFields) ({ · with managedFields := · }),
    .optional "name" .string (·.name) ({ · with name := · }),
    .optional "namespace" .string (·.space) ({ · with space := · }),
    .optional "ownerReferences" (.list OwnerReference.record.codec) (·.ownerReferences)
      ({ · with ownerReferences := · }),
    .optional "resourceVersion" .string (·.resourceVersion) ({ · with resourceVersion := · }),
    .optional "selfLink" .string (·.selfLink) ({ · with selfLink := · }),
    .optional "uid" .string (·.uid) ({ · with uid := · })]

def anyName (m : ObjectMeta) : String := (m.name.or m.generateName).getD ""

def spaceOrDefault (m : ObjectMeta) : String := m.space.getD "default"

def annotation? (m : ObjectMeta) (key : String) : Option String :=
  m.annotations.bind (·.get? key)

def owners (m : ObjectMeta) : List OwnerReference := m.ownerReferences.getD []

def ownedBy (m : ObjectMeta) (uid : String) : Bool := m.owners.any (·.uid = uid)

/-- Whether somebody else than the object with this uid controls the object. -/
def controlledByOther (m : ObjectMeta) (uid : String) : Bool :=
  m.owners.any fun r => r.controller = some true && r.uid ≠ uid

end ObjectMeta

end DistributionOperator
