import DistributionOperator.Json.Decode

/-! What can go wrong between the operator and the store of the cluster. -/

namespace DistributionOperator

structure ApiStatus where
  status : String
  message : String
  reason : String
  code : UInt16
deriving DecidableEq

def ApiStatus.text (s : ApiStatus) : String :=
  s!"ApiError: {s.message}: {s.reason} (ErrorResponse \x7b status: {quoted s.status}, " ++
    s!"message: {quoted s.message}, reason: {quoted s.reason}, code: {s.code.toNat} \x7d)"

/-- A request that got no answer to use: it was refused, or there is no answer that can be read. -/
inductive ApiFailure where
  | refused (status : ApiStatus)
  | unanswered (message : String)
deriving DecidableEq

def ApiFailure.text : ApiFailure → String
  | .refused status => status.text
  | .unanswered message => message

inductive StoreError where
  | failure (f : ApiFailure)
  | conflict (message : String)
  | notFound (message : String)
  | serialization (message : String)
  | api (message : String)
deriving DecidableEq

namespace StoreError

def message : StoreError → String
  | .failure f => "Kubernetes error: " ++ f.text
  | .conflict m => "Conflict: " ++ m
  | .notFound m => "Not found: " ++ m
  | .serialization m => "Serialization error: " ++ m
  | .api m => "API error: " ++ m

def isConflict : StoreError → Bool
  | .conflict _ => true
  | _ => false

/-- A failed request in its context; the codes 409 and 404 have errors of their own. -/
def ofFailure (context : String) : ApiFailure → StoreError
  | .refused status =>
    if status.code = 409 then .conflict (context ++ ": " ++ status.message)
    else if status.code = 404 then .notFound (context ++ ": " ++ status.message)
    else .failure (.refused status)
  | f => .failure f

end StoreError

end DistributionOperator
