import DistributionOperator.Probe.Endpoint

/-! The two questions that the operator asks a running server. -/

namespace DistributionOperator

inductive ProbeCall where
  | health (e : Endpoint)
  | providers (e : Endpoint)
deriving DecidableEq

/-- Whether the server is healthy, or what providers it has. -/
abbrev ProbeCall.Result : ProbeCall → Type
  | .health _ => Bool
  | .providers _ => List Provider

inductive ProbeError where
  | http (message : String)
  | status (code : Nat)
  | serialization (e : DecodeError)
  | unreachable (message : String)
deriving DecidableEq

namespace ProbeError

def message : ProbeError → String
  | .http m => "HTTP error: " ++ m
  | .status code => "server returned status code " ++ toString code
  | .serialization e => "Serialization error: " ++ e.message
  | .unreachable m => "server unreachable: " ++ m

/-- Whether there was no answer at all. -/
def isTransport : ProbeError → Bool
  | .http _ | .unreachable _ => true
  | _ => false

end ProbeError

abbrev ProbeCall.Answer (c : ProbeCall) : Type := Except ProbeError c.Result

/-- The envelope in which a server lists its providers. -/
structure ProviderList where
  data : List Provider
deriving DecidableEq

def ProviderList.record : Record ProviderList where
  name := "ProvidersResponse"
  strict := true
  blank := ⟨[]⟩
  fields := [.needed "data" (.list Provider.record.codec) (·.data) ({ · with data := · })]

end DistributionOperator
