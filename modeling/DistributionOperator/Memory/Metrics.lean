import DistributionOperator.Distribution.Status
import DistributionOperator.Metadata

/-! What the operator counts and shows: its passes by their outcome, the failed ones by their error,
and the phase of each distribution. -/

namespace DistributionOperator

/-- Series of numbers by their label values; no labels have two series. -/
abbrev Family := List (List String × Nat)

namespace Family

def get? (f : Family) (labels : List String) : Option Nat :=
  (f.find? (·.1 = labels)).map (·.2)

def put (labels : List String) (n : Nat) : Family → Family
  | [] => [(labels, n)]
  | e :: r => if e.1 = labels then (labels, n) :: r else e :: put labels n r

def add (f : Family) (labels : List String) : Family :=
  f.put labels ((f.get? labels).getD 0 + 1)

def remove (f : Family) (labels : List String) : Family := f.filter (·.1 ≠ labels)

def sorted (f : Family) : Family := f.mergeSort fun a b => !decide (b.1 < a.1)

end Family

structure Metrics where
  passes : Family
  failures : Family
  phases : Family
  ready : Bool

namespace Metrics

def initial : Metrics := ⟨[], [], [], false⟩

def countSuccess (m : Metrics) : Metrics := { m with passes := m.passes.add ["success"] }

def countFailure (m : Metrics) (label : String) : Metrics :=
  { m with passes := m.passes.add ["error"], failures := m.failures.add [label] }

def phaseLabels (k : Key) (p : Phase) : List String := [k.name, k.space, p.name]

/-- One for the phase and zero for the others. -/
def showPhase (m : Metrics) (k : Key) (phase : Phase) : Metrics :=
  { m with
    phases := Phase.all.foldl (fun f p => f.put (phaseLabels k p) (if p = phase then 1 else 0))
      m.phases }

def forget (m : Metrics) (k : Key) : Metrics :=
  { m with phases := Phase.all.foldl (fun f p => f.remove (phaseLabels k p)) m.phases }

def withReady (m : Metrics) (ready : Bool) : Metrics := { m with ready := ready }

end Metrics

end DistributionOperator
