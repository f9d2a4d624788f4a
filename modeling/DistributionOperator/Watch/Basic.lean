import DistributionOperator.Reconcile.Pass
import DistributionOperator.Watch.Listening

/-! Watching the cluster. Events about distributions and their children trigger visits, and a visit
is a pass, or the end of what is remembered of a distribution that is gone. -/

namespace DistributionOperator

namespace Watch

/-- A visit, and in how many milliseconds to come again if at all. -/
def visit (o : Operator) (ref : Reference) (known : Option Distribution) : Program (Option Nat) :=
  match known with
  | none => (Program.memory (.forget ref.key)).bind fun _ => .done none
  | some d =>
    let k : Key := ⟨d.metadata.spaceOrDefault, d.metadata.anyName⟩
    (pass o k).bind fun
      | .ok outcome => .done (outcome.requeueAfter.map (· * 1000))
      | .error _ => (retryDelay k).bind fun seconds => .done (some (seconds * 1000))

inductive Mark where
  | pass
  | status (p : Phase)
deriving DecidableEq

/-- What can be seen of a visit: that a distribution was read or its status written. -/
structure Sight where
  time : Nat
  key : Key
  mark : Mark
deriving DecidableEq

def Sight.ofCall? (time : Nat) : Call → Option Sight
  | .store (.getDistribution k) => some ⟨time, k, .pass⟩
  | .store (.updateStatus k _ s) => some ⟨time, k, .status s.phase⟩
  | _ => none

def requeue (q : Queue) (s : Slot) (delay : Option Nat) : Queue :=
  match delay with
  | none => q.erase s
  | some d => Queue.trigger s.ref (s.due + d) (q.erase s)

theorem slack_requeue_lt {limit : Nat} {q : Queue} {s : Slot} (delay : Option Nat)
    (h : q.next? limit = some s) : (requeue q s delay).slack limit < q.slack limit := by
  obtain ⟨hm, hs⟩ := Queue.next?_mem h
  have he := Queue.slack_erase limit hm
  cases delay with
  | none =>
    simp only [requeue]
    omega
  | some d =>
    have ht := Queue.slack_trigger_le limit s.ref (s.due + d) (q.erase s)
    simp only [requeue]
    simp only [Queue.settling] at ht
    omega

/-- What comes next: listening goes on after a lull, or a visit is made. -/
inductive Turn where
  | resume (l : Lull)
  | visit (slot : Slot)

/-- What comes next, if it comes before a time. Listening goes on before what is due at once. -/
def next? (limit : Nat) (w : Watch) : Option Turn :=
  match w.queue.next? limit, w.lull with
  | some slot, some l => if l.ends ≤ slot.due then some (.resume l) else some (.visit slot)
  | some slot, none => some (.visit slot)
  | none, some l => if l.ends < limit then some (.resume l) else none
  | none, none => none

theorem next?_resume {limit : Nat} {w : Watch} {l : Lull} (h : w.next? limit = some (.resume l)) :
    w.lull = some l := by
  simp only [next?] at h
  split at h
  · split at h <;> simp_all
  · simp_all
  · split at h <;> simp_all
  · simp_all

theorem next?_visit {limit : Nat} {w : Watch} {slot : Slot}
    (h : w.next? limit = some (.visit slot)) : w.queue.next? limit = some slot := by
  simp only [next?] at h
  split at h
  · split at h <;> simp_all
  · simp_all
  · split at h <;> simp_all
  · simp_all

/-- Lets time pass: what was seen of the visits due before a time, and how things are then. -/
def advance {σ : Type} (o : Operator) (h : Program.Handler σ) (a : Surroundings) (limit : Nat)
    (w : Watch) (s : σ) : List Sight × Watch × σ :=
  match _ : w.next? limit with
  | none => ([], w, s)
  | some (.resume l) => advance o h a limit (w.resume a l) s
  | some (.visit slot) =>
    let visited := (visit o slot.ref (w.find slot.ref)).run h s
    let requeued := { w with queue := requeue w.queue slot visited.1 }
    let later := advance o h a limit requeued visited.2.2
    (visited.2.1.filterMap (Sight.ofCall? slot.due) ++ later.1, later.2)
termination_by (w.pending, w.queue.slack limit)
decreasing_by
  · exact .left _ _ (pending_resume_lt a (next?_resume ‹_›))
  · exact .right _ (slack_requeue_lt _ (next?_visit ‹_›))

def paths (space : Option String) : List String :=
  (Watched.all.map fun r => match space with
    | some space => r.resource.inSpace space
    | none => r.resource.everywhere).mergeSort fun a b => !decide (b < a)

end Watch

end DistributionOperator
