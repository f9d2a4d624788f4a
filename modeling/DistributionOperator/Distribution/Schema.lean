import DistributionOperator.Distribution.Basic

/-! The schema of distributions, as it is registered with a cluster. -/

namespace DistributionOperator

abbrev Schema := Json

namespace Schema

def ofType (name : String) : Schema := .mkObject [("type", .string name)]

def string : Schema := ofType "string"

def int32 : Schema := (ofType "integer").setMember "format" (.string "int32")

def dateTime : Schema := string.setMember "format" (.string "date-time")

def oneOf (names : List String) : Schema := string.setMember "enum" (.array (names.map .string))

def listOf (item : Schema) : Schema := (ofType "array").setMember "items" item

def mapOf (value : Schema) : Schema := (ofType "object").setMember "additionalProperties" value

def record (properties : List (String × Schema)) : Schema :=
  (ofType "object").setMember "properties" (.mkObject properties)

def needing (names : List String) (s : Schema) : Schema :=
  s.setMember "required" (.array (names.map .string))

def about (description : String) (s : Schema) : Schema :=
  s.setMember "description" (.string description)

def orNull (s : Schema) : Schema := s.setMember "nullable" (.bool true)

def default (v : Json) (s : Schema) : Schema := s.setMember "default" v

def optionalString (description : String) : Schema := about description (orNull string)

def resources : Schema :=
  record [("limits", mapOf string), ("requests", mapOf string)]
    |> orNull |> about "Compute resources as quantity strings (e.g. \"500m\", \"2Gi\")"

def env : Schema :=
  needing ["name"] (record [("name", string), ("value", default (.string "") string)])

def container : Schema :=
  record [
    ("args", about "Arguments override" (listOf string)),
    ("command", about "Entrypoint override" (listOf string)),
    ("env", about "Environment variables" (listOf env)),
    ("name", optionalString "Container name (defaults to \"llama-stack\")"),
    ("ports", about "Ports served by the container; the first one is exposed by the Service"
      (listOf int32)),
    ("resources", resources)]
    |> about "Container settings" |> default (.object [])

def choice : Schema :=
  record [
    ("image", optionalString "Explicit container image"),
    ("name", optionalString "Named distribution resolved through the operator's image map")]
    |> about "Which server image to run"

def podOverrides : Schema :=
  record [("serviceAccountName", optionalString "Service account the server pods run as")]
    |> orNull |> about "Pod-level overrides applied after the computed defaults"

def storage : Schema :=
  record [
    ("mountPath", optionalString "Where the volume is mounted (defaults to /.llama)"),
    ("size", optionalString
      "Requested size (defaults to 10Gi). Ignored once the claim exists.")]
    |> orNull |> about "Persistent storage for the server (emptyDir when absent)"

def server : Schema :=
  record [("containerSpec", container), ("distribution", choice), ("podOverrides", podOverrides),
      ("storage", storage)]
    |> needing ["distribution"] |> about "Server configuration"

def spec : Schema :=
  needing ["server"] (record [
    ("replicas", int32 |> about "Desired number of server replicas" |> default (.int 1)),
    ("server", server)])

def condition : Schema :=
  record [
    ("lastTransitionTime", dateTime |> orNull |> about "Last time the status flipped"),
    ("message", about "Human-readable message" string),
    ("reason", about "Machine-readable reason" string),
    ("status", about "\"True\" or \"False\"" string),
    ("type", about "Type of condition (DeploymentReady, StorageReady, ...)" string)]
    |> needing ["message", "reason", "status", "type"]
    |> about "Condition represents one observed aspect of the distribution"

def health : Schema :=
  orNull (record [("message", orNull string), ("status", default (.string "") string)])

def provider : Schema :=
  record [("api", default (.string "") string), ("health", health),
      ("providerId", default (.string "") string), ("providerType", default (.string "") string)]
    |> about "A provider as reported by the server's `/v1/providers` endpoint"

def summary : Schema :=
  record [
    ("activeDistribution", optionalString "Distribution in use (\"custom\" for explicit images)"),
    ("availableDistributions", mapOf string |> default (.object [])
      |> about "Distributions this operator can resolve (name -> image)"),
    ("providers", listOf provider |> default (.array [])
      |> about "Providers reported by the running server")]
    |> about "Distribution summary" |> default (Summary.record.encode Summary.record.blank)

def versions : Schema :=
  record [("lastUpdated", orNull dateTime), ("llamaStackServerVersion", orNull string),
      ("operatorVersion", orNull string)]
    |> about "Version metadata" |> default (Versions.record.encode Versions.record.blank)

def status : Schema :=
  orNull (record [
    ("availableReplicas", int32 |> default (.int 0)
      |> about "Ready replicas last observed on the Deployment"),
    ("conditions", listOf condition |> default (.array [])
      |> about "One condition per monitored aspect"),
    ("distributionConfig", summary),
    ("phase", oneOf (Phase.all.map Phase.name) |> default (.string Phase.pending.name)
      |> about "Coarse-grained state of the distribution"),
    ("version", versions)])

def distribution : Schema :=
  record [("spec", spec), ("status", status)] |> needing ["spec"]
    |> about "Auto-generated derived type for LlamaStackDistributionSpec via `CustomResource`"
    |>.setMember "title" (.string Distribution.kind)

def strings (members : List (String × String)) : Json :=
  .mkObject (members.map fun m => (m.1, .string m.2))

def plural : String := "llamastackdistributions"

def group : String := "llamastack.io"

def names : Json :=
  .mkObject [
    ("categories", .array []),
    ("kind", .string Distribution.kind),
    ("plural", .string plural),
    ("shortNames", .array [.string "llsd"]),
    ("singular", .string "llamastackdistribution")]

def columns : Json :=
  .array [
    strings [("jsonPath", ".status.phase"), ("name", "Phase"), ("type", "string")],
    strings [("jsonPath", ".status.availableReplicas"), ("name", "Available"), ("type", "integer")]]

def version : Json :=
  .mkObject [
    ("additionalPrinterColumns", columns),
    ("name", .string "v1alpha1"),
    ("schema", .mkObject [("openAPIV3Schema", distribution)]),
    ("served", .bool true),
    ("storage", .bool true),
    ("subresources", .mkObject [("status", .object [])])]

def definition : Json :=
  .mkObject [
    ("apiVersion", .string "apiextensions.k8s.io/v1"),
    ("kind", .string "CustomResourceDefinition"),
    ("metadata", strings [("name", plural ++ "." ++ group)]),
    ("spec", .mkObject [
      ("group", .string group),
      ("names", names),
      ("scope", .string "Namespaced"),
      ("versions", .array [version])])]

end Schema

end DistributionOperator
