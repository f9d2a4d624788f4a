import DistributionOperator.Http.ApiClient
import DistributionOperator.Probe.Client
import DistributionOperator.Program

/-! Sessions: programs at work over HTTP, on an API server and on the servers that they probe. -/

namespace DistributionOperator

/-- The requests are those to the API server, in the order in which they were sent. -/
structure Session where
  memory : Memory
  clock : Timestamp
  requests : List Http.Request

namespace Session

def start (clock : Timestamp) : Session := ⟨.initial, clock, []⟩

def answer (api servers : Http.Transport) : Program.Handler Session
  | .store c, s =>
    let performed := Http.perform api c
    (performed.1, { s with requests := s.requests ++ performed.2.toList })
  | .probe c, s => ((Probe.perform servers c).1, s)
  | .memory c, s =>
    let answered := s.memory.answer c
    (answered.1, { s with memory := answered.2 })
  | .now, s => (s.clock, s)

end Session

end DistributionOperator
