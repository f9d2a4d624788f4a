import DistributionOperator.Cluster.Call
import DistributionOperator.Error
import DistributionOperator.Memory.Basic
import DistributionOperator.Probe.Call

/-! Programs that talk to the store, to running servers, to the clock and to the operator's memory.
A program is a tree of calls, and goes on with whatever the call is answered, so that the same
program runs on a store in memory, over HTTP, and in step with others. -/

namespace DistributionOperator

inductive Call where
  | store (c : StoreCall)
  | probe (c : ProbeCall)
  | memory (c : MemoryCall)
  | now
deriving DecidableEq

abbrev Call.Answer : Call → Type
  | .store c => c.Answer
  | .probe c => c.Answer
  | .memory c => c.Answer
  | .now => Timestamp

inductive Program (α : Type) where
  | done (a : α)
  | ask (c : Call) (next : c.Answer → Program α)

namespace Program

variable {α β : Type}

def bind : Program α → (α → Program β) → Program β
  | done a, f => f a
  | ask c next, f => ask c fun answer => bind (next answer) f

instance : Monad Program where
  pure := done
  bind := bind

theorem bind_done (p : Program α) : p.bind done = p := by
  induction p with
  | done a => rfl
  | ask c next ih => simp [bind, ih]

theorem bind_assoc {γ : Type} (p : Program α) (f : α → Program β) (g : β → Program γ) :
    (p.bind f).bind g = p.bind fun a => (f a).bind g := by
  induction p with
  | done a => rfl
  | ask c next ih => simp [bind, ih]

def call (c : Call) : Program c.Answer := ask c done

def store (c : StoreCall) : Program c.Answer := call (.store c)

def probe (c : ProbeCall) : Program c.Answer := call (.probe c)

def memory (c : MemoryCall) : Program c.Answer := call (.memory c)

def now : Program Timestamp := call .now

/-- What answers calls, and how it changes by that. -/
abbrev Handler (σ : Type) := (c : Call) → σ → c.Answer × σ

def run {σ : Type} (h : Handler σ) : Program α → σ → α × List Call × σ
  | done a, s => (a, [], s)
  | ask c next, s =>
    let answered := h c s
    let rest := run h (next answered.1) answered.2
    (rest.1, c :: rest.2.1, rest.2.2)

@[simp] theorem run_done {σ : Type} (h : Handler σ) (a : α) (s : σ) :
    (done a).run h s = (a, [], s) := rfl

@[simp] theorem run_bind {σ : Type} (h : Handler σ) (p : Program α) (f : α → Program β) (s : σ) :
    (p.bind f).run h s =
      let first := p.run h s
      let second := (f first.1).run h first.2.2
      (second.1, first.2.1 ++ second.2.1, second.2.2) := by
  induction p generalizing s with
  | done a => simp [bind, run]
  | ask c next ih => simp [bind, run, ih]

/-- Goes on with the value of a success; a failure is the outcome. -/
def andThen {ε : Type} (p : Program (Except ε α)) (f : α → Program (Except ε β)) :
    Program (Except ε β) :=
  p.bind fun
    | .ok a => f a
    | .error e => done (.error e)

/-- A call to the store, whose failure is one of the operator. -/
def attempt (operation resource : String) (c : StoreCall) :
    Program (Except OperatorError c.Result) :=
  (store c).bind fun answer => done (answer.mapError (.store operation resource))

end Program

end DistributionOperator
