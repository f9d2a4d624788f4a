import DistributionOperator.Probe.Call

/-! A probe with canned answers, which remembers whom it was asked about. -/

namespace DistributionOperator

inductive HealthAnswer where
  | healthy
  | unhealthy
  | unreachable (message : String)
deriving DecidableEq

structure CannedProbe where
  health : HealthAnswer
  providers : Except String (List Provider)
  healthCalls : List String
  providerCalls : List String

namespace CannedProbe

def initial : CannedProbe := ⟨.healthy, .ok [], [], []⟩

def checkHealth (p : CannedProbe) : Except ProbeError Bool :=
  match p.health with
  | .healthy => .ok true
  | .unhealthy => .ok false
  | .unreachable m => .error (.unreachable m)

def answer (p : CannedProbe) : (c : ProbeCall) → c.Answer × CannedProbe
  | .health e => (p.checkHealth, { p with healthCalls := p.healthCalls ++ [e.baseUrl] })
  | .providers e =>
    (p.providers.mapError .unreachable, { p with providerCalls := p.providerCalls ++ [e.baseUrl] })

end CannedProbe

end DistributionOperator
