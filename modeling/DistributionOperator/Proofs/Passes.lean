import DistributionOperator.Proofs.Evaluation
import DistributionOperator.Proofs.Scene

/-! Passes taken apart. A pass that finds its distribution synchronizes the children, evaluates the
status without a change to the store, and writes it. In a run others act between the passes; an
operator that starts anew is one of them. -/

namespace DistributionOperator

open Program

/-- A pass that was made: where it began, what it asked and was answered, and how it ended. -/
structure PassRecord where
  operator : Operator
  key : Key
  before : Scene
  exchanges : List Exchange
  result : Except OperatorError Outcome
  after : Scene

def PassRecord.Made (p : PassRecord) : Prop :=
  (pass p.operator p.key).Performs p.before p.exchanges p.result p.after

def PassRecord.Finds (p : PassRecord) (d : Distribution) : Prop :=
  p.before.store.distributions p.key = some d

namespace Scene

inductive Run (others : Scene → Scene → Prop) : Scene → List PassRecord → Scene → Prop where
  | start (s : Scene) : Run others s [] s
  | pass {s : Scene} {ps : List PassRecord} {p : PassRecord} (h : Run others s ps p.before)
      (hp : p.Made) : Run others s (ps ++ [p]) p.after
  | between {s u s' : Scene} {ps : List PassRecord} (h : Run others s ps u) (ho : others u s') :
      Run others s ps s'

theorem step_observes {s s' : Scene} {x : Exchange} (h : Step s x s') (hx : x.call.Observes) :
    s'.store = s.store := by
  cases h with
  | reached c =>
    cases c with
    | get kind k => rfl
    | _ => exact hx.elim
  | _ => rfl

theorem through_observes {s s' : Scene} {t : List Exchange} (h : Through s t s')
    (ht : ∀ x ∈ t, x.call.Observes) : s'.store = s.store :=
  through_preserves (P := fun u => u.store = s.store) h
    (fun _ _ _ hm hx hu => (step_observes hx (ht _ hm)).trans hu) rfl

end Scene

def Call.Recalls : Call → Prop
  | .memory _ => True
  | _ => False

theorem Scene.through_recalls {s s' : Scene} {t : List Exchange} (h : Through s t s')
    (ht : ∀ x ∈ t, x.call.Recalls) : s'.store = s.store := by
  refine through_preserves (P := fun u => u.store = s.store) h (fun u x u' hm hx hu => ?_) rfl
  have hne : ∀ c, x.call ≠ .store c := by
    intro c hc
    have hr := ht x hm
    rw [hc] at hr
    exact hr
  rw [step_other hx hne, hu]

variable {o : Operator} {d : Distribution} {k : Key} {s s' : Scene} {t : List Exchange}

theorem bookkeep_within (k : Key) (r : Except OperatorError Outcome) :
    (bookkeep k r).Within Call.Recalls := by
  cases r with
  | error e => exact .call trivial
  | ok outcome =>
    refine .bind (.call trivial) fun _ => .bind ?_ fun _ => .call trivial
    unfold showPhase
    split
    · exact .call trivial
    · exact trivial

theorem workOn_performs {r : Except OperatorError Outcome}
    (h : (workOn o d).Performs s t r s') :
    ∃ synced written t₁ t₂ u, t = t₁ ++ t₂ ∧ (synchronize o d).Performs s t₁ synced u ∧
      (updateStatus o d (failureOf synced)).Performs u t₂ written s' ∧
      r = passResult synced written := by
  obtain ⟨synced, t₁, _, u, rfl, hs, h⟩ := performs_bind.mp h
  obtain ⟨written, t₂, _, v, rfl, hw, h⟩ := performs_bind.mp h
  obtain ⟨rfl, rfl, rfl⟩ := performs_done.mp h
  exact ⟨synced, written, t₁, t₂, u, by simp, hs, hw, rfl⟩

theorem updateStatus_performs {failure : Option OperatorError} {r : Except OperatorError Phase}
    (h : (updateStatus o d failure).Performs s t r s') :
    (s'.store = s.store ∧ ∀ x ∈ t, x.call.Observes) ∨
      ∃ (new : Status) (a : Except StoreError Unit) (t₁ : List Exchange) (u : Scene),
        t = t₁ ++ [⟨.store (.updateStatus d.key d.metadata.resourceVersion new), a⟩] ∧
        (∀ x ∈ t₁, x.call.Observes) ∧ (evaluate o d failure).Dialogue t₁ (.ok new) ∧
        u.store = s.store ∧
        u.Step ⟨.store (.updateStatus d.key d.metadata.resourceVersion new), a⟩ s' := by
  have hobs := fun {t r} => (evaluate_within o d failure).of_dialogue (t := t) (a := r)
  rcases performs_andThen.mp h with ⟨e, he, _⟩ | ⟨new, t₁, t₂, u, rfl, hn, hw⟩
  · have ht := hobs he.dialogue
    exact .inl ⟨Scene.through_observes he.through ht, ht⟩
  · right
    have ht := hobs hn.dialogue
    have hu : u.store = s.store := Scene.through_observes hn.through ht
    rcases performs_andThen.mp hw with ⟨e, he, _⟩ | ⟨_, _, _, v, rfl, ha, hd⟩
    · obtain ⟨a, rfl, _, hx⟩ := performs_attempt.mp he
      exact ⟨new, a, t₁, u, rfl, ht, hn.dialogue, hu, hx⟩
    · obtain ⟨a, rfl, _, hx⟩ := performs_attempt.mp ha
      obtain ⟨rfl, _, rfl⟩ := performs_done.mp hd
      exact ⟨new, a, t₁, u, by simp, ht, hn.dialogue, hu, hx⟩

theorem visit_performs {r : Except OperatorError Outcome} (h : (visit o k).Performs s t r s') :
    (s'.store = s.store ∧ ∃ a t₁, t = ⟨.store (.getDistribution k), a⟩ :: t₁ ∧
        ∀ x ∈ t₁, x.call.Recalls) ∨
      ∃ d t₁ t₂ u, t = ⟨.store (.getDistribution k), .ok (some d)⟩ :: (t₁ ++ t₂) ∧
        (∀ x ∈ t₁, x.call.Recalls) ∧ s.store.distributions k = some d ∧ u.store = s.store ∧
        (workOn o d).Performs u t₂ r s' := by
  rcases performs_andThen.mp h with ⟨e, he, _⟩ | ⟨found, t₁, t₂, u, rfl, hf, hw⟩
  · obtain ⟨a, rfl, _, hx⟩ := performs_attempt.mp he
    exact .inl ⟨(Scene.step_getDistribution hx).1, a, [], rfl, by simp⟩
  · obtain ⟨rfl, hx⟩ := performs_attempt_ok.mp hf
    obtain ⟨hu, hfound⟩ := Scene.step_getDistribution hx
    cases found with
    | none =>
      obtain ⟨_, t₃, _, v, rfl, hm, hd⟩ := performs_bind.mp hw
      obtain ⟨rfl, _, rfl⟩ := performs_done.mp hd
      have ht : ∀ x ∈ t₃, x.call.Recalls := (Within.call trivial).of_dialogue hm.dialogue
      refine .inl ⟨?_, _, _, rfl, by simpa using ht⟩
      rw [Scene.through_recalls hm.through ht, hu]
    | some d =>
      obtain ⟨change, t₃, t₄, v, rfl, hm, hw⟩ := performs_bind.mp hw
      have ht : ∀ x ∈ t₃, x.call.Recalls := (Within.call trivial).of_dialogue hm.dialogue
      have hv : v.store = s.store := by rw [Scene.through_recalls hm.through ht, hu]
      right
      split at hw
      · obtain ⟨_, t₅, t₆, w, rfl, hm', hw⟩ := performs_bind.mp hw
        have ht' : ∀ x ∈ t₅, x.call.Recalls := (Within.call trivial).of_dialogue hm'.dialogue
        refine ⟨d, t₃ ++ t₅, t₆, w, by simp, ?_, hfound d rfl, ?_, hw⟩
        · intro x hxm
          exact (List.mem_append.mp hxm).elim (ht x) (ht' x)
        · rw [Scene.through_recalls hm'.through ht', hv]
      · exact ⟨d, t₃, t₄, v, rfl, ht, hfound d rfl, hv, hw⟩

/-- Around the work on a distribution that was found, a pass does nothing to the store. -/
theorem pass_performs {r : Except OperatorError Outcome} (h : (pass o k).Performs s t r s') :
    (s'.store = s.store ∧ ∃ a t₁, t = ⟨.store (.getDistribution k), a⟩ :: t₁ ∧
        ∀ x ∈ t₁, x.call.Recalls) ∨
      ∃ d t₁ t₂ t₃ u v,
        t = ⟨.store (.getDistribution k), .ok (some d)⟩ :: (t₁ ++ (t₂ ++ t₃)) ∧
        (∀ x ∈ t₁ ++ t₃, x.call.Recalls) ∧ s.store.distributions k = some d ∧
        u.store = s.store ∧ (workOn o d).Performs u t₂ r v ∧ s'.store = v.store := by
  obtain ⟨r', t₁, _, v, rfl, hv, h⟩ := performs_bind.mp h
  obtain ⟨_, t₂, _, w, rfl, hb, h⟩ := performs_bind.mp h
  obtain ⟨rfl, rfl, rfl⟩ := performs_done.mp h
  have ht₂ : ∀ x ∈ t₂, x.call.Recalls := (bookkeep_within k r).of_dialogue hb.dialogue
  have hs : s'.store = v.store := Scene.through_recalls hb.through ht₂
  rcases visit_performs hv with ⟨hvs, a, t₃, rfl, ht₃⟩ | ⟨d, t₃, t₄, u, rfl, ht₃, hd, hu, hw⟩
  · refine .inl ⟨hs.trans hvs, a, t₃ ++ t₂, by simp, fun x hx => ?_⟩
    exact (List.mem_append.mp hx).elim (ht₃ x) (ht₂ x)
  · refine .inr ⟨d, t₃, t₄, t₂, u, v, by simp, fun x hx => ?_, hd, hu, hw, hs⟩
    exact (List.mem_append.mp hx).elim (ht₃ x) (ht₂ x)

/-! A pass of the sample operator over the sample distribution, in a rehearsal. -/

def PassRecord.sample (r : Rehearsal) : PassRecord where
  operator := .sample
  key := ⟨"ai", "demo"⟩
  before := r.scene
  exchanges := (pass .sample ⟨"ai", "demo"⟩).transcript Rehearsal.answer r
  result := ((pass .sample ⟨"ai", "demo"⟩).run Rehearsal.answer r).1
  after := ((pass .sample ⟨"ai", "demo"⟩).run Rehearsal.answer r).2.2.scene

theorem sample_run (others : Scene → Scene → Prop) (r : Rehearsal) :
    Scene.Run others r.scene [.sample r] (PassRecord.sample r).after :=
  .pass (p := .sample r) (.start _) (r.performs _)

end DistributionOperator
