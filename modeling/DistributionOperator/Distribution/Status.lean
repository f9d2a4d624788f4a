import DistributionOperator.Json.Record
import DistributionOperator.Timestamp

/-! What the operator reports about a distribution: its phase, a condition for each aspect that it
looks at, and what the running server says of itself. -/

namespace DistributionOperator

/-- The phases in the order of a life that goes well, and then the one that does not. -/
inductive Phase where
  | pending
  | initializing
  | ready
  | failed
deriving DecidableEq

namespace Phase

def all : List Phase := [.pending, .initializing, .ready, .failed]

def name : Phase → String
  | .pending => "Pending"
  | .initializing => "Initializing"
  | .ready => "Ready"
  | .failed => "Failed"

def codec : Codec Phase :=
  .variants [⟨.pending, "Pending", ["pending"]⟩, ⟨.initializing, "Initializing", ["initializing"]⟩,
    ⟨.ready, "Ready", ["ready"]⟩, ⟨.failed, "Failed", ["failed"]⟩] name

end Phase

structure Condition where
  type : String
  status : String
  reason : String
  message : String
  lastTransitionTime : Option Timestamp
deriving DecidableEq

structure ProviderHealth where
  status : String
  message : Option String
deriving DecidableEq

structure Provider where
  api : String
  providerId : String
  providerType : String
  health : Option ProviderHealth
deriving DecidableEq

/-- The distribution in use, those that the operator can resolve, and the server's providers. -/
structure Summary where
  activeDistribution : Option String
  availableDistributions : StringMap String
  providers : List Provider
deriving DecidableEq

structure Versions where
  operatorVersion : Option String
  llamaStackServerVersion : Option String
  lastUpdated : Option Timestamp
deriving DecidableEq

structure Status where
  phase : Phase
  conditions : List Condition
  availableReplicas : Int32
  summary : Summary
  versions : Versions
deriving DecidableEq

def Condition.record : Record Condition where
  name := "Condition"
  strict := true
  blank := ⟨"", "", "", "", none⟩
  fields := [
    .needed "type" .string (·.type) ({ · with type := · }),
    .needed "status" .string (·.status) ({ · with status := · }),
    .needed "reason" .string (·.reason) ({ · with reason := · }),
    .needed "message" .string (·.message) ({ · with message := · }),
    .optional "lastTransitionTime" Timestamp.codec (·.lastTransitionTime)
      ({ · with lastTransitionTime := · })]

def ProviderHealth.record : Record ProviderHealth where
  name := "ProviderHealth"
  strict := true
  blank := ⟨"", none⟩
  fields := [
    .defaulted "status" .string (·.status) ({ · with status := · }),
    .optional "message" .string (·.message) ({ · with message := · })]

def Provider.record : Record Provider where
  name := "ProviderInfo"
  strict := true
  blank := ⟨"", "", "", none⟩
  fields := [
    .defaulted "api" .string (·.api) ({ · with api := · }),
    (Field.defaulted "providerId" .string (·.providerId)
      ({ · with providerId := · })).withAlias "provider_id",
    (Field.defaulted "providerType" .string (·.providerType)
      ({ · with providerType := · })).withAlias "provider_type",
    .optional "health" ProviderHealth.record.codec (·.health) ({ · with health := · })]

def Summary.blank : Summary := ⟨none, .empty, []⟩

def Summary.record : Record Summary where
  name := "DistributionConfig"
  strict := true
  blank := .blank
  fields := [
    .nullable "activeDistribution" .string (·.activeDistribution)
      ({ · with activeDistribution := · }),
    .defaulted "availableDistributions" (.map .string) (·.availableDistributions)
      ({ · with availableDistributions := · }),
    .defaulted "providers" (.list Provider.record.codec) (·.providers) ({ · with providers := · })]

def Versions.blank : Versions := ⟨none, none, none⟩

def Versions.record : Record Versions where
  name := "VersionInfo"
  strict := true
  blank := .blank
  fields := [
    .nullable "operatorVersion" .string (·.operatorVersion) ({ · with operatorVersion := · }),
    .nullable "llamaStackServerVersion" .string (·.llamaStackServerVersion)
      ({ · with llamaStackServerVersion := · }),
    .nullable "lastUpdated" Timestamp.codec (·.lastUpdated) ({ · with lastUpdated := · })]

def Status.blank : Status := ⟨.pending, [], 0, .blank, .blank⟩

def Status.record : Record Status where
  name := "LlamaStackDistributionStatus"
  strict := true
  blank := .blank
  fields := [
    .defaulted "phase" Phase.codec (·.phase) ({ · with phase := · }),
    .defaulted "conditions" (.list Condition.record.codec) (·.conditions)
      ({ · with conditions := · }),
    .defaulted "availableReplicas" .int32 (·.availableReplicas) ({ · with availableReplicas := · }),
    .defaulted "distributionConfig" Summary.record.codec (·.summary) ({ · with summary := · }),
    .defaulted "version" Versions.record.codec (·.versions) ({ · with versions := · })]

def truth (b : Bool) : String := if b then "True" else "False"

def Condition.isTrue (c : Condition) : Bool := c.status = "True"

/-- The condition as newly observed; its time moves only when its status does. -/
def Condition.update (c : Condition) (ready : Bool) (reason message : String) (now : Timestamp) :
    Condition :=
  { c with
    status := truth ready
    reason := reason
    message := message
    lastTransitionTime := if c.status = truth ready then c.lastTransitionTime else some now }

/-- The first condition of a type is replaced; without one there is a new condition at the end. -/
def setCondition (type : String) (ready : Bool) (reason message : String) (now : Timestamp) :
    List Condition → List Condition
  | [] => [⟨type, truth ready, reason, message, some now⟩]
  | c :: r =>
    if c.type = type then c.update ready reason message now :: r
    else c :: setCondition type ready reason message now r

inductive Aspect where
  | deployment
  | storage
  | service
  | health
deriving DecidableEq

namespace Aspect

def type : Aspect → String
  | .deployment => "DeploymentReady"
  | .storage => "StorageReady"
  | .service => "ServiceReady"
  | .health => "HealthCheck"

def reason : Aspect → Bool → String
  | .deployment, true => "DeploymentReady"
  | .deployment, false => "DeploymentNotReady"
  | .storage, true => "StorageReady"
  | .storage, false => "StorageNotReady"
  | .service, true => "ServiceReady"
  | .service, false => "ServiceNotReady"
  | .health, true => "HealthCheckPassed"
  | .health, false => "HealthCheckFailed"

end Aspect

namespace Status

def condition? (s : Status) (type : String) : Option Condition :=
  s.conditions.find? (·.type = type)

def report (s : Status) (a : Aspect) (ready : Bool) (message : String) (now : Timestamp) : Status :=
  { s with conditions := setCondition a.type ready (a.reason ready) message now s.conditions }

def clearProviders (s : Status) : Status := { s with summary := { s.summary with providers := [] } }

/-- The patch that writes a whole status. All fields of a status are written, so that what was
cleared is cleared in the store; with a version the patch holds for that version only. -/
def patch (s : Status) (resourceVersion : Option String) : Json :=
  .ofPresent [
    ("metadata", resourceVersion.map fun v => .mkObject [("resourceVersion", .string v)]),
    ("status", some (record.encode s))]

end Status

end DistributionOperator
