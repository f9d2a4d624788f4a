import DistributionOperator.Cluster.Store
import DistributionOperator.Probe.Canned
import DistributionOperator.Program

/-! Rehearsals: programs at work on a store in memory and a canned probe, while a clock is set by
hand and calls of one's choice fail. -/

namespace DistributionOperator

/-- What a call to the store does, whatever it does it to. -/
inductive StoreOperation where
  | getDistribution
  | updateStatus
  | get (kind : ChildKind)
  | create (kind : ChildKind)
  | replace (kind : Managed)
  | deletePolicy
  | getConfigMap
  | createConfigMap
deriving DecidableEq

namespace StoreCall

def operation : StoreCall → StoreOperation
  | getDistribution _ => .getDistribution
  | updateStatus _ _ _ => .updateStatus
  | get kind _ => .get kind
  | create kind _ _ => .create kind
  | replace kind _ _ => .replace kind
  | deletePolicy _ => .deletePolicy
  | getConfigMap _ => .getConfigMap
  | createConfigMap _ _ => .createConfigMap

def missed? : (c : StoreCall) → Option c.Answer
  | getDistribution _ | get _ _ | getConfigMap _ => some (.ok none)
  | _ => none

end StoreCall

/-- How an operation goes wrong: it fails, or it finds nothing if it is a read. -/
inductive Disturbance where
  | fails (e : StoreError)
  | misses
deriving DecidableEq

structure Rehearsal where
  store : Store
  disturbed : StoreOperation → Option Disturbance
  probe : CannedProbe
  memory : Memory
  clock : Timestamp

namespace Rehearsal

def start (clock : Timestamp) : Rehearsal := ⟨.empty, fun _ => none, .initial, .initial, clock⟩

def disturb (r : Rehearsal) (op : StoreOperation) (d : Option Disturbance) : Rehearsal :=
  { r with disturbed := fun o => if o = op then d else r.disturbed o }

def reachStore (r : Rehearsal) (c : StoreCall) : c.Answer × Rehearsal :=
  let answered := r.store.answer c
  (answered.1, { r with store := answered.2 })

/-- A disturbed call does not reach the store, unless there is nothing that it could miss. -/
def askStore (r : Rehearsal) (c : StoreCall) : c.Answer × Rehearsal :=
  match r.disturbed c.operation with
  | none => r.reachStore c
  | some (.fails e) => (.error e, r)
  | some .misses =>
    match c.missed? with
    | some answer => (answer, r)
    | none => r.reachStore c

def answer : Program.Handler Rehearsal
  | .store c, r => r.askStore c
  | .probe c, r =>
    let answered := r.probe.answer c
    (answered.1, { r with probe := answered.2 })
  | .memory c, r =>
    let answered := r.memory.answer c
    (answered.1, { r with memory := answered.2 })
  | .now, r => (r.clock, r)

end Rehearsal

end DistributionOperator
