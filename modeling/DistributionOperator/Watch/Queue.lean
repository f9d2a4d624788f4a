import DistributionOperator.Metadata

/-! The queue of visits. A distribution has one slot, and a burst of triggers makes one visit, once
it has been quiet for a while. Times are in milliseconds. -/

namespace DistributionOperator

structure Reference where
  space : Option String
  name : String
deriving DecidableEq

namespace Reference

def ofMeta (m : ObjectMeta) : Reference := ⟨m.space, m.anyName⟩

/-- The key under which nothing but a space can be missing. -/
def key (r : Reference) : Key := ⟨r.space.getD "", r.name⟩

end Reference

structure Slot where
  ref : Reference
  due : Nat
deriving DecidableEq

abbrev Queue := List Slot

namespace Queue

def settling : Nat := 1000

/-- A trigger that asks for a visit at a time. A slot that is due before that time stands. -/
def trigger (ref : Reference) (time : Nat) : Queue → Queue
  | [] => [⟨ref, time + settling⟩]
  | s :: q =>
    if s.ref = ref then (if time ≤ s.due then ⟨ref, time + settling⟩ else s) :: q
    else s :: trigger ref time q

/-- The earlier of two slots, the first of two that are due at once. -/
def earlier (s : Slot) (other : Option Slot) : Slot :=
  match other with
  | some t => if t.due < s.due then t else s
  | none => s

/-- The slot that is due first, and at most one of those due before a time. -/
def next? (limit : Nat) : Queue → Option Slot
  | [] => none
  | s :: q => if s.due < limit then some (earlier s (next? limit q)) else next? limit q

def slack (limit : Nat) : Queue → Nat
  | [] => 0
  | s :: q => limit - s.due + slack limit q

theorem slack_trigger_le (limit : Nat) (ref : Reference) (time : Nat) (q : Queue) :
    (q.trigger ref time).slack limit ≤ q.slack limit + (limit - (time + settling)) := by
  induction q with
  | nil => simp [trigger, slack]
  | cons s q ih =>
    by_cases h : s.ref = ref
    · by_cases ht : time ≤ s.due
      · simp only [trigger, h, ht, if_true, slack]
        omega
      · simp only [trigger, h, ht, if_true, if_false, slack]
        omega
    · simp only [trigger, h, if_false, slack]
      omega

theorem next?_mem {limit : Nat} {q : Queue} {s : Slot} (h : q.next? limit = some s) :
    s ∈ q ∧ s.due < limit := by
  induction q generalizing s with
  | nil => simp [next?] at h
  | cons t q ih =>
    by_cases ht : t.due < limit
    · simp only [next?, ht, if_true, Option.some.injEq] at h
      cases hn : next? limit q with
      | none =>
        simp only [hn, earlier] at h
        exact h ▸ ⟨List.mem_cons_self, ht⟩
      | some u =>
        simp only [hn, earlier] at h
        obtain ⟨hm, hu⟩ := ih hn
        by_cases hd : u.due < t.due
        · rw [if_pos hd] at h
          exact h ▸ ⟨List.mem_cons_of_mem _ hm, hu⟩
        · rw [if_neg hd] at h
          exact h ▸ ⟨List.mem_cons_self, ht⟩
    · simp only [next?, ht, if_false] at h
      obtain ⟨hm, hs⟩ := ih h
      exact ⟨List.mem_cons_of_mem _ hm, hs⟩

theorem slack_erase (limit : Nat) {q : Queue} {s : Slot} (h : s ∈ q) :
    slack limit (q.erase s) + (limit - s.due) = q.slack limit := by
  induction q with
  | nil => simp at h
  | cons t q ih =>
    by_cases ht : t = s
    · subst ht
      simp only [List.erase_cons_head, slack]
      omega
    · have hm : s ∈ q := by simpa [Ne.symm ht] using h
      rw [List.erase_cons_tail (by simpa using ht)]
      have := ih hm
      simp only [slack]
      omega

end Queue

end DistributionOperator
