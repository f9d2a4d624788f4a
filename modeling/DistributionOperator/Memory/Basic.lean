import DistributionOperator.Distribution.Change
import DistributionOperator.Memory.Backoff
import DistributionOperator.Memory.Metrics

/-! What the operator remembers between passes: the last spec of each distribution, its failures in
a row, and what it counts and shows. -/

namespace DistributionOperator

structure Memory where
  specs : String → Option Spec
  failures : String → Option UInt32
  metrics : Metrics

inductive MemoryCall where
  | observe (k : Key) (spec : Spec)
  | resetFailures (k : Key)
  | nextDelay (k : Key)
  | forget (k : Key)
  | countSuccess
  | countFailure (label : String)
  | showPhase (k : Key) (phase : Phase)
  | becomeReady
deriving DecidableEq

/-- A spec that is observed answers with its change, and a failure with a delay and the count. -/
abbrev MemoryCall.Answer : MemoryCall → Type
  | .observe _ _ => SpecChange
  | .nextDelay _ => Nat × UInt32
  | _ => Unit

namespace Memory

def initial : Memory := ⟨fun _ => none, fun _ => none, .initial⟩

def set {α : Type} (f : String → Option α) (k : String) (a : Option α) : String → Option α :=
  fun j => if j = k then a else f j

/-- The first spec of a key is no change. -/
def observe (m : Memory) (k : String) (spec : Spec) : SpecChange × Memory :=
  let change := match m.specs k with
    | some old => SpecChange.between old spec
    | none => SpecChange.none
  (change, { m with specs := set m.specs k (some spec) })

def resetFailures (m : Memory) (k : String) : Memory :=
  match m.failures k with
  | some _ => { m with failures := set m.failures k (some 0) }
  | none => m

def nextDelay (m : Memory) (k : String) : (Nat × UInt32) × Memory :=
  let n := Backoff.more ((m.failures k).getD 0)
  ((Backoff.delay n, n), { m with failures := set m.failures k (some n) })

def forgetSpec (m : Memory) (k : String) : Memory := { m with specs := set m.specs k none }

def forget (m : Memory) (k : Key) : Memory where
  specs := set m.specs k.text none
  failures := set m.failures k.text none
  metrics := m.metrics.forget k

def answer (m : Memory) : (c : MemoryCall) → c.Answer × Memory
  | .observe k spec => m.observe k.text spec
  | .resetFailures k => ((), m.resetFailures k.text)
  | .nextDelay k => m.nextDelay k.text
  | .forget k => ((), m.forget k)
  | .countSuccess => ((), { m with metrics := m.metrics.countSuccess })
  | .countFailure label => ((), { m with metrics := m.metrics.countFailure label })
  | .showPhase k phase => ((), { m with metrics := m.metrics.showPhase k phase })
  | .becomeReady => ((), { m with metrics := m.metrics.withReady true })

end Memory

end DistributionOperator
