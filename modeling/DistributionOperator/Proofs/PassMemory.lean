import DistributionOperator.Proofs.PhaseGauge

/-! What a pass does to the memory of the operator. It depends on what the pass reads of its
distribution and on how it ends, and on nothing that is done in between. -/

namespace DistributionOperator

open Program

/-- What is heard by reading a distribution: that there is none, or its spec. -/
def Exchange.specRead? : Exchange → Option (Option Spec)
  | ⟨.store (.getDistribution _), .ok found⟩ => some (found.map (·.spec))
  | _ => none

namespace Memory

/-- The memory after a distribution was read, if it was: a spec is noted, and failures are forgotten
when it has changed; one that is gone is forgotten. -/
def heard (m : Memory) (k : Key) : Option (Option Spec) → Memory
  | none => m
  | some none => m.forget k
  | some (some spec) =>
    let noted := m.observe k.text spec
    if noted.1.changed then noted.2.resetFailures k.text else noted.2

/-- The memory once the end of a pass was noted. -/
def bookkept (m : Memory) (k : Key) : Except OperatorError Outcome → Memory
  | .error e => { m with metrics := m.metrics.countFailure e.label }
  | .ok outcome =>
    let counted := m.metrics.countSuccess
    { m with metrics := outcome.phase.elim counted (counted.showPhase k) }.resetFailures k.text

end Memory

def Call.LeavesMemory : Call → Prop
  | .memory _ => False
  | _ => True

namespace Scene

variable {s s' : Scene} {t : List Exchange}

theorem step_leavesMemory {x : Exchange} (h : s.Step x s') (hx : x.call.LeavesMemory) :
    s'.memory = s.memory := by
  cases h with
  | recalled c => exact hx.elim
  | _ => rfl

theorem through_leavesMemory (h : s.Through t s') (ht : ∀ x ∈ t, x.call.LeavesMemory) :
    s'.memory = s.memory :=
  through_preserves (P := fun u => u.memory = s.memory) h
    (fun _ _ _ hm hx hu => (step_leavesMemory hx (ht _ hm)).trans hu) rfl

theorem step_recalled {c : MemoryCall} {a : c.Answer} (h : s.Step ⟨.memory c, a⟩ s') :
    a = (s.memory.answer c).1 ∧ s'.memory = (s.memory.answer c).2 := by
  cases h
  exact ⟨rfl, rfl⟩

end Scene

variable {o : Operator} {d : Distribution} {k : Key} {s s' : Scene} {t : List Exchange}

theorem performs_recall {c : MemoryCall} {a : c.Answer} (h : (memory c).Performs s t a s') :
    a = (s.memory.answer c).1 ∧ s'.memory = (s.memory.answer c).2 :=
  Scene.step_recalled (performs_memory h).2

theorem workOn_leavesMemory (o : Operator) (d : Distribution) :
    (workOn o d).Within Call.LeavesMemory := by
  have hsynced : (synchronize o d).Within Call.LeavesMemory := by
    refine (synchronize_within o d).mono fun c hc => ?_
    cases c with
    | memory c => exact hc
    | _ => exact trivial
  have hevaluated : ∀ failure, (evaluate o d failure).Within Call.LeavesMemory := by
    refine fun failure => (evaluate_within o d failure).mono fun c hc => ?_
    cases c with
    | memory c => exact hc
    | _ => exact trivial
  refine hsynced.bind fun synced => .bind ?_ fun _ => trivial
  exact (hevaluated _).andThen fun _ => .andThen (.attempt trivial _ _) fun _ => trivial

theorem workOn_memory {r : Except OperatorError Outcome} (h : (workOn o d).Performs s t r s') :
    s'.memory = s.memory :=
  Scene.through_leavesMemory h.through ((workOn_leavesMemory o d).of_dialogue h.dialogue)

theorem bookkeep_memory {r : Except OperatorError Outcome} {a : Unit}
    (h : (bookkeep k r).Performs s t a s') : s'.memory = s.memory.bookkept k r := by
  cases r with
  | error e => exact (performs_recall h).2
  | ok outcome =>
    obtain ⟨_, _, _, u, rfl, hcount, h⟩ := performs_bind.mp h
    obtain ⟨_, _, _, v, rfl, hshow, hreset⟩ := performs_bind.mp h
    have hu := (performs_recall hcount).2
    rw [(performs_recall hreset).2]
    cases hp : outcome.phase with
    | none =>
      rw [hp] at hshow
      obtain ⟨_, _, rfl⟩ := performs_done.mp hshow
      rw [hu]
      simp [Memory.bookkept, Memory.answer, hp]
    | some p =>
      rw [hp] at hshow
      rw [(performs_recall hshow).2, hu]
      simp [Memory.bookkept, Memory.answer, hp]

theorem visit_memory {r : Except OperatorError Outcome} (h : (visit o k).Performs s t r s') :
    t ≠ [] ∧ s'.memory = s.memory.heard k (t.head?.bind (·.specRead?)) := by
  rcases performs_andThen.mp h with ⟨e, he, rfl⟩ | ⟨found, _, _, u, rfl, hf, hw⟩
  · obtain ⟨a, rfl, ha, hx⟩ := performs_attempt.mp he
    refine ⟨by simp, (Scene.step_leavesMemory hx trivial).trans ?_⟩
    cases a with
    | error cause => rfl
    | ok found => cases ha
  · obtain ⟨rfl, hx⟩ := performs_attempt_ok.mp hf
    have hu := Scene.step_leavesMemory hx trivial
    refine ⟨by simp, ?_⟩
    cases found with
    | none =>
      obtain ⟨_, _, _, v, rfl, hm, hd⟩ := performs_bind.mp hw
      obtain ⟨rfl, rfl, rfl⟩ := performs_done.mp hd
      rw [(performs_recall hm).2, hu]
      rfl
    | some d =>
      obtain ⟨change, _, _, v, rfl, hm, hw⟩ := performs_bind.mp hw
      have hchange : change = (s.memory.observe k.text d.spec).1 := by
        rw [(performs_recall hm).1, hu]
        rfl
      have hv : v.memory = (s.memory.observe k.text d.spec).2 := by
        rw [(performs_recall hm).2, hu]
        rfl
      show s'.memory = s.memory.heard k (some (some d.spec))
      rw [Memory.heard]
      by_cases hc : (s.memory.observe k.text d.spec).1.changed = true
      · rw [hchange, if_pos hc] at hw
        obtain ⟨_, _, _, w, rfl, hm', hw⟩ := performs_bind.mp hw
        simp only [hc, if_true]
        rw [workOn_memory hw, (performs_recall hm').2, hv]
        rfl
      · rw [hchange, if_neg hc] at hw
        simp only [hc, if_false, Bool.false_eq_true]
        rw [workOn_memory hw, hv]

/-- A pass notes what it reads, and then how it ends. -/
theorem pass_memory {r : Except OperatorError Outcome} (h : (pass o k).Performs s t r s') :
    s'.memory = (s.memory.heard k (t.head?.bind (·.specRead?))).bookkept k r := by
  obtain ⟨r', t₁, _, u, rfl, hv, h⟩ := performs_bind.mp h
  obtain ⟨_, _, _, w, rfl, hb, h⟩ := performs_bind.mp h
  obtain ⟨rfl, rfl, rfl⟩ := performs_done.mp h
  obtain ⟨hne, hu⟩ := visit_memory hv
  rw [bookkeep_memory hb, hu, List.head?_append_of_ne_nil _ hne]

end DistributionOperator
