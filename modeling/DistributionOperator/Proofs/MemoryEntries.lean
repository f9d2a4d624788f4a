import DistributionOperator.Proofs.Regions
import DistributionOperator.Proofs.RetryDelays

/-! What the operator remembers under a key: the last spec, the failures in a row and the phase that
is shown. What is done under one key leaves the others alone. -/

namespace DistributionOperator

open Program

/-- What is remembered under a key. -/
structure Memory.Entry where
  spec : Option Spec
  failures : Option UInt32
  phases : Phase → Option Nat

namespace Memory

def Entry.none : Entry := ⟨.none, .none, fun _ => .none⟩

def entry (m : Memory) (k : Key) : Entry := ⟨m.specs k.text, m.failures k.text, m.metrics.phase? k⟩

variable {m : Memory} {j k : Key}

theorem entry_eq {m' : Memory} (hs : m'.specs k.text = m.specs k.text)
    (hf : m'.failures k.text = m.failures k.text)
    (hp : ∀ q, m'.metrics.phase? k q = m.metrics.phase? k q) : m'.entry k = m.entry k := by
  rw [entry, entry, hs, hf, funext hp]

theorem specs_none (h : m.entry k = .none) : m.specs k.text = .none := congrArg Entry.spec h

theorem failures_none (h : m.entry k = .none) : m.failures k.text = .none :=
  congrArg Entry.failures h

/-- Without a phase to show, a pass leaves nothing where there was nothing. -/
theorem bookkept_none {r : Except OperatorError Outcome} (h : m.entry k = .none)
    (hr : ∀ outcome, r = .ok outcome → outcome.phase = .none) : (m.bookkept k r).entry k = .none := by
  cases r with
  | error e => exact h
  | ok outcome =>
    simp only [bookkept, hr outcome rfl, Option.elim_none, resetFailures, failures_none h]
    exact h

theorem forget_entry (m : Memory) (k : Key) : (m.forget k).entry k = .none := by
  have hp : (m.forget k).metrics.phase? k = fun _ => .none :=
    funext fun q => by rw [forget, Metrics.phase?_forget, if_pos rfl]
  rw [entry, hp]
  simp [forget, set, Entry.none]

section Other

variable (hj : j.Plain) (hk : k.Plain) (hne : j ≠ k)

include hj hk hne

theorem text_ne : j.text ≠ k.text := fun h => hne (Key.text_inj hj hk h)

theorem forget_other : (m.forget k).entry j = m.entry j := by
  have ht := text_ne hj hk hne
  refine entry_eq (if_neg ht) (if_neg ht) fun q => ?_
  rw [forget, Metrics.phase?_forget, if_neg hne]

theorem observe_other (spec : Spec) : (m.observe k.text spec).2.entry j = m.entry j :=
  entry_eq (if_neg (text_ne hj hk hne)) rfl fun _ => rfl

theorem resetFailures_other : (m.resetFailures k.text).entry j = m.entry j := by
  unfold resetFailures
  split
  · exact entry_eq rfl (if_neg (text_ne hj hk hne)) fun _ => rfl
  · rfl

theorem nextDelay_other : (m.nextDelay k.text).2.entry j = m.entry j :=
  entry_eq rfl (if_neg (text_ne hj hk hne)) fun _ => rfl

theorem heard_other (found : Option (Option Spec)) : (m.heard k found).entry j = m.entry j := by
  rcases found with _ | _ | spec
  · rfl
  · exact forget_other hj hk hne
  · simp only [heard]
    split
    · rw [resetFailures_other hj hk hne, observe_other hj hk hne]
    · exact observe_other hj hk hne spec

theorem bookkept_other (r : Except OperatorError Outcome) : (m.bookkept k r).entry j = m.entry j := by
  cases r with
  | error e => rfl
  | ok outcome =>
    unfold bookkept
    rw [resetFailures_other hj hk hne]
    refine entry_eq rfl rfl fun q => ?_
    cases outcome.phase with
    | none => rfl
    | some p => exact (Metrics.phase?_showPhase _ _ _ _ _).trans (if_neg hne)

end Other

end Memory

/-! What a pass leaves and hears. -/

variable {o : Operator} {k : Key} {s s' : Scene}

theorem pass_gone {p : PassRecord} (hp : p.Made)
    (hgone : p.exchanges.head?.bind (·.specRead?) = some none) :
    ∀ outcome, p.result = .ok outcome → outcome.phase = none := by
  rcases pass_dialogue hp.dialogue with ⟨_, _, _, _, _, hphase⟩ | ⟨d, _, _, _, ht, _⟩
  · exact hphase
  · rw [ht] at hgone
    cases hgone

/-- Calls that take note of no spec. -/
def Call.NotesNoSpec (c : Call) : Prop := ∀ k spec, c ≠ .memory (.observe k spec)

theorem bookkeep_notes (k : Key) (result : Except OperatorError Outcome) :
    (bookkeep k result).Within Call.NotesNoSpec := by
  cases result with
  | error e => exact .call fun _ _ => by simp
  | ok outcome =>
    refine .bind (.call fun _ _ => by simp) fun _ => .bind ?_ fun _ => .call fun _ _ => by simp
    cases outcome.phase with
    | none => exact trivial
    | some p => exact .call fun _ _ => by simp

theorem workOn_notes (o : Operator) (d : Distribution) :
    (workOn o d).Within Call.NotesNoSpec := by
  refine (workOn_leavesMemory o d).mono fun c hc k spec hs => ?_
  rw [hs] at hc
  exact hc

/-- The change that a pass hears of is the one since the spec that was remembered. -/
theorem pass_observes {t : List Exchange} {result : Except OperatorError Outcome} {j : Key}
    {spec : Spec} {change : SpecChange} (h : (pass o k).Performs s t result s')
    (hx : ⟨.memory (.observe j spec), change⟩ ∈ t) :
    j = k ∧ change = (s.memory.observe k.text spec).1 := by
  obtain ⟨result, t₁, _, v, rfl, hv, h⟩ := performs_bind.mp h
  obtain ⟨_, t₂, _, w, rfl, hb, h⟩ := performs_bind.mp h
  obtain ⟨rfl, rfl, rfl⟩ := performs_done.mp h
  have hbook := (bookkeep_notes k result).of_dialogue hb.dialogue
  have hvisited : ⟨.memory (.observe j spec), change⟩ ∈ t₁ := by
    simp only [List.append_nil, List.mem_append] at hx
    exact hx.resolve_right fun hlate => hbook _ hlate _ _ rfl
  rcases performs_andThen.mp hv with ⟨e, he, rfl⟩ | ⟨found, _, t₃, u, rfl, hf, hw⟩
  · obtain ⟨a, rfl, ha, hstep⟩ := performs_attempt.mp he
    simp at hvisited
  · obtain ⟨rfl, hstep⟩ := performs_attempt_ok.mp hf
    have hu := Scene.step_leavesMemory hstep trivial
    cases found with
    | none =>
      obtain ⟨_, t₄, _, _, rfl, hforget, hdone⟩ := performs_bind.mp hw
      obtain ⟨rfl, _⟩ := performs_done.mp hdone
      have hforgets : (memory (.forget k)).Within Call.NotesNoSpec := .call fun _ _ => by simp
      have hquiet := hforgets.of_dialogue hforget.dialogue
      exact absurd rfl (hquiet _ (by simpa using hvisited) j spec)
    | some d =>
      obtain ⟨change', t₄, t₅, w', rfl, hm, hworks⟩ := performs_bind.mp hw
      obtain ⟨rfl, _⟩ := performs_memory hm
      have hrest : ∀ x ∈ t₅, x.call.NotesNoSpec := by
        split at hworks
        · have hresets : (memory (.resetFailures k)).Within Call.NotesNoSpec :=
            .call fun _ _ => by simp
          exact (hresets.bind fun _ => workOn_notes o d).of_dialogue hworks.dialogue
        · exact (workOn_notes o d).of_dialogue hworks.dialogue
      have hnoted : (⟨.memory (.observe j spec), change⟩ : Exchange) =
          ⟨.memory (.observe k d.spec), change'⟩ := by
        simp only [List.cons_append, List.nil_append, List.mem_cons] at hvisited
        rcases hvisited with hread | hnote | hlate
        · cases hread
        · exact hnote
        · exact absurd rfl (hrest _ hlate j spec)
      cases hnoted
      have hchange := (performs_recall hm).1
      rw [hu] at hchange
      exact ⟨rfl, hchange⟩

end DistributionOperator
