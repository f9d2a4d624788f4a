import DistributionOperator.Cluster.Call
import DistributionOperator.Http.Message

/-! The calls to the store as requests to the API server, and its answers read back. Each call is at
most one request. -/

namespace DistributionOperator.Http

open DistributionOperator

/-- The name under which writes are recorded. -/
def fieldManager : String := "llama-stack-operator"

structure ApiResource where
  kind : String
  root : String
  plural : String
deriving DecidableEq

def ApiResource.distribution : ApiResource :=
  ⟨Distribution.kind, "/apis/" ++ Distribution.apiVersion, "llamastackdistributions"⟩

def ApiResource.configMap : ApiResource := ⟨"ConfigMap", "/api/v1", "configmaps"⟩

def ApiResource.child : ChildKind → ApiResource
  | .claim => ⟨"PersistentVolumeClaim", "/api/v1", "persistentvolumeclaims"⟩
  | .managed .deployment => ⟨"Deployment", "/apis/apps/v1", "deployments"⟩
  | .managed .service => ⟨"Service", "/api/v1", "services"⟩
  | .managed .policy => ⟨"NetworkPolicy", "/apis/networking.k8s.io/v1", "networkpolicies"⟩

def ApiResource.inSpace (e : ApiResource) (space : String) : String :=
  e.root ++ "/namespaces/" ++ space ++ "/" ++ e.plural

def ApiResource.everywhere (e : ApiResource) : String := e.root ++ "/" ++ e.plural

def unsent (why : String) : StoreError := .failure (.unanswered why)

def request (method target : String) (contentType : Option String) (body : Option Json) :
    Except StoreError Request :=
  match target? target with
  | some (path, query) => .ok ⟨method, path, query, contentType, body⟩
  | none => .error (unsent "failed to build request: invalid uri character")

def named (e : ApiResource) (space name : String) : Except StoreError String :=
  if name = "" then .error (unsent "A resource name cannot be empty")
  else .ok (e.inSpace space ++ "/" ++ name)

def managerQuery : String := "?&fieldManager=" ++ fieldManager

def jsonType : Option String := some "application/json"

def getRequest (e : ApiResource) (k : Key) : Except StoreError Request := do
  request "GET" (← named e k.space k.name) none none

def createRequest (e : ApiResource) (space : String) (body : Json) : Except StoreError Request :=
  request "POST" (e.inSpace space ++ managerQuery) jsonType (some body)

def replaceRequest (e : ApiResource) (space : String) (name : Option String) (body : Json) :
    Except StoreError Request :=
  match name with
  | none => .error (.api ("cannot replace " ++ e.kind ++ " without a name"))
  | some name => do
    request "PUT" ((← named e space name) ++ managerQuery) jsonType (some body)

def requestOf : StoreCall → Except StoreError Request
  | .getDistribution k => getRequest .distribution k
  | .updateStatus k version status => do
    request "PATCH" ((← named .distribution k.space k.name) ++ "/status" ++ managerQuery)
      (some "application/merge-patch+json") (some (status.patch version))
  | .get kind k => getRequest (.child kind) k
  | .create kind space c => createRequest (.child kind) space ((Child.codec kind).encode c)
  | .replace m space c =>
    replaceRequest (.child (.managed m)) space c.metadata.name
      ((Child.codec (.managed m)).encode c)
  | .deletePolicy k => do
    request "DELETE" (← named (.child .policy) k.space k.name) jsonType (some (.object []))
  | .getConfigMap k => getRequest .configMap k
  | .createConfigMap space m => createRequest .configMap space (ConfigMap.codec.encode m)

def contextOf : StoreCall → String
  | .getDistribution k => "get " ++ Distribution.kind ++ " " ++ k.text
  | .updateStatus k _ _ => "update status of " ++ Distribution.kind ++ " " ++ k.text
  | .get kind k => "get " ++ kind.kind ++ " " ++ k.text
  | .create kind space c =>
    "create " ++ kind.kind ++ " " ++ space ++ "/" ++ c.metadata.name.getD ""
  | .replace m space c => "replace " ++ m.kind ++ " " ++ space ++ "/" ++ c.metadata.name.getD ""
  | .deletePolicy k => "delete " ++ ChildKind.policy.kind ++ " " ++ k.text
  | .getConfigMap k => "get ConfigMap " ++ k.text
  | .createConfigMap space m => "create ConfigMap " ++ space ++ "/" ++ m.metadata.name.getD ""

def ApiStatus.record : Record ApiStatus where
  name := "ErrorResponse"
  strict := true
  blank := ⟨"", "", "", 0⟩
  fields := [
    .needed "status" .string (·.status) ({ · with status := · }),
    .defaulted "message" .string (·.message) ({ · with message := · }),
    .defaulted "reason" .string (·.reason) ({ · with reason := · }),
    .needed "code" .uint16 (·.code) ({ · with code := · })]

/-- The account of a refusal: the server's own, or one made up from the status line and the body. -/
def refusal (code : Nat) (text : String) : ApiStatus :=
  match ApiStatus.record.decode.ofText text with
  | .ok status => status
  | .error _ =>
    ⟨statusLine code, quoted text, "Failed to parse error data", UInt16.ofNat code⟩

def textOf (r : Option Response) : Except ApiFailure String :=
  match r with
  | none => .error (.unanswered "no response")
  | some r =>
    match decodeUtf8? r.body with
    | none => .error (.unanswered "invalid utf-8 sequence")
    | some text => if r.isError then .error (.refused (refusal r.status text)) else .ok text

def objectOf {α : Type} (c : Codec α) (r : Option Response) : Except ApiFailure α := do
  let text ← textOf r
  match c.decode.ofText text with
  | .ok a => .ok a
  | .error e => .error (.unanswered ("Error deserializing response: " ++ e.message))

/-- A read that is refused for the reason `NotFound` finds nothing. -/
def optionalOf {α : Type} (c : Codec α) (r : Option Response) : Except ApiFailure (Option α) :=
  match objectOf c r with
  | .ok a => .ok (some a)
  | .error (.refused status) =>
    if status.reason = "NotFound" then .ok none else .error (.refused status)
  | .error f => .error f

/-- The summary that a server may send instead of the deleted object. -/
inductive Outcome where
  | success
  | failure
deriving DecidableEq

def Outcome.codec : Codec Outcome :=
  .variants [⟨.success, "Success", []⟩, ⟨.failure, "Failure", []⟩] fun
    | .success => "Success"
    | .failure => "Failure"

structure Receipt where
  status : Option Outcome
  code : UInt16
  message : String
  reason : String
deriving DecidableEq

def Receipt.record : Record Receipt where
  name := "Status"
  strict := true
  blank := ⟨none, 0, "", ""⟩
  fields := [
    .optional "status" Outcome.codec (·.status) ({ · with status := · }),
    .defaulted "code" .uint16 (·.code) ({ · with code := · }),
    .defaulted "message" .string (·.message) ({ · with message := · }),
    .defaulted "reason" .string (·.reason) ({ · with reason := · })]

/-- A deletion answers with the deleted object or with a receipt; code 404 is no error. -/
def deletionOf (r : Option Response) : Except ApiFailure Bool :=
  match objectOf .json r with
  | .error (.refused status) => if status.code = 404 then .ok false else .error (.refused status)
  | .error f => .error f
  | .ok j =>
    if j.member? "kind" = some (.string "Status") then
      (objectOf Receipt.record.codec r).map fun _ => true
    else (objectOf (Child.codec .policy) r).map fun _ => true

def answerOf (c : StoreCall) (r : Option Response) : c.Answer :=
  (match c with
    | .getDistribution _ => optionalOf Distribution.codec r
    | .updateStatus _ _ _ => (objectOf Distribution.codec r).map fun _ => ()
    | .get kind _ => optionalOf (Child.codec kind) r
    | .create kind _ _ => objectOf (Child.codec kind) r
    | .replace m _ _ => objectOf (Child.codec (.managed m)) r
    | .deletePolicy _ => deletionOf r
    | .getConfigMap _ => optionalOf ConfigMap.codec r
    | .createConfigMap _ _ => objectOf ConfigMap.codec r : Except ApiFailure c.Result).mapError
    (StoreError.ofFailure (contextOf c))

def perform (send : Transport) (c : StoreCall) : c.Answer × Option Request :=
  match requestOf c with
  | .error e => (.error e, none)
  | .ok q => (answerOf c (send q), some q)

end DistributionOperator.Http
