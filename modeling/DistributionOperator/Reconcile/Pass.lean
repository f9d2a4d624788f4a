import DistributionOperator.Reconcile.Evaluate

/-! One pass over a distribution: read it, bring its children in line, and write its status whether
that worked or not. -/

namespace DistributionOperator

open Program

/-- A distribution that is gone has no phase. The delay is in seconds. -/
structure Outcome where
  phase : Option Phase
  requeueAfter : Option Nat
deriving DecidableEq

/-- A distribution that is starting up is looked at again soon. -/
def Outcome.ofPhase (p : Phase) : Outcome :=
  ⟨some p, if p = .initializing then some 10 else none⟩

/-- The outcome of a pass from those of its two parts; a failed synchronization is the one told. -/
def passResult : Except OperatorError Unit → Except OperatorError Phase →
    Except OperatorError Outcome
  | .error e, _ => .error e
  | .ok _, .error e => .error e
  | .ok _, .ok p => .ok (.ofPhase p)

def failureOf {α : Type} : Except OperatorError α → Option OperatorError
  | .ok _ => none
  | .error e => some e

def workOn (o : Operator) (d : Distribution) : Program (Except OperatorError Outcome) :=
  (synchronize o d).bind fun synced =>
    (updateStatus o d (failureOf synced)).bind fun written => done (passResult synced written)

/-- A pass without its bookkeeping: failures in a row are forgotten when the spec has changed, and
everything when the distribution is gone. -/
def visit (o : Operator) (k : Key) : Program (Except OperatorError Outcome) :=
  (attempt "get" Distribution.kind (.getDistribution k)).andThen fun
    | none => (memory (.forget k)).bind fun _ => done (.ok ⟨none, none⟩)
    | some d =>
      (memory (.observe k d.spec)).bind fun change =>
        if change.changed then (memory (.resetFailures k)).bind fun _ => workOn o d
        else workOn o d

def showPhase (k : Key) : Option Phase → Program Unit
  | some p => memory (.showPhase k p)
  | none => done ()

def bookkeep (k : Key) : Except OperatorError Outcome → Program Unit
  | .error e => memory (.countFailure e.label)
  | .ok outcome =>
    (memory .countSuccess).bind fun _ =>
      (showPhase k outcome.phase).bind fun _ => memory (.resetFailures k)

def pass (o : Operator) (k : Key) : Program (Except OperatorError Outcome) :=
  (visit o k).bind fun result => (bookkeep k result).bind fun _ => done result

def retryDelay (k : Key) : Program Nat :=
  (memory (.nextDelay k)).bind fun r => done r.1

end DistributionOperator
