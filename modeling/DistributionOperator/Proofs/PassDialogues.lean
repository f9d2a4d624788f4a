import DistributionOperator.Proofs.Passes

/-! What passes say and hear, whatever the store does. The parts of a pass follow each other: it
reads its distribution, synchronizes the children, evaluates the status, and writes it. -/

namespace DistributionOperator

open Program

namespace Program

variable {α : Type}

/-- The answers settle how far a dialogue goes and how it ends. -/
theorem Dialogue.unique {p : Program α} {t t' r r' : List Exchange} {a a' : α}
    (h : p.Dialogue t a) (h' : p.Dialogue t' a') (he : t ++ r = t' ++ r') : t = t' ∧ a = a' := by
  induction h generalizing t' with
  | done b =>
    obtain ⟨rfl, rfl⟩ := dialogue_done.mp h'
    exact ⟨rfl, rfl⟩
  | ask h ih =>
    obtain ⟨x, t₁, rfl, hrest⟩ := dialogue_ask.mp h'
    simp only [List.cons_append, List.cons.injEq, Exchange.mk.injEq, heq_eq_eq, true_and] at he
    obtain ⟨rfl, he⟩ := he
    obtain ⟨rfl, rfl⟩ := ih hrest he
    exact ⟨rfl, rfl⟩

end Program

variable {o : Operator} {d : Distribution} {k : Key} {t : List Exchange}

theorem updateStatus_dialogue {failure : Option OperatorError} {r : Except OperatorError Phase}
    (h : (updateStatus o d failure).Dialogue t r) :
    (∃ e, r = .error e ∧ (evaluate o d failure).Dialogue t (.error e)) ∨
      ∃ (new : Status) (a : Except StoreError Unit) (t₁ : List Exchange),
        t = t₁ ++ [⟨.store (.updateStatus d.key d.metadata.resourceVersion new), a⟩] ∧
        (evaluate o d failure).Dialogue t₁ (.ok new) ∧
        r = (a.mapError (.store "update" (Distribution.kind ++ " status"))).map
          fun _ => new.phase := by
  rcases dialogue_andThen.mp h with ⟨e, he, rfl⟩ | ⟨new, t₁, t₂, rfl, hn, hw⟩
  · exact .inl ⟨e, rfl, he⟩
  · right
    rcases dialogue_andThen.mp hw with ⟨e, he, rfl⟩ | ⟨_, _, t₃, rfl, ha, hd⟩
    · obtain ⟨a, rfl, hae⟩ := dialogue_attempt.mp he
      refine ⟨new, a, t₁, rfl, hn, ?_⟩
      rw [← hae]
      rfl
    · obtain ⟨a, rfl, hae⟩ := dialogue_attempt.mp ha
      obtain ⟨rfl, rfl⟩ := dialogue_done.mp hd
      refine ⟨new, a, t₁, rfl, hn, ?_⟩
      rw [← hae]
      rfl

theorem workOn_dialogue {r : Except OperatorError Outcome} (h : (workOn o d).Dialogue t r) :
    ∃ synced written t₁ t₂, t = t₁ ++ t₂ ∧ (synchronize o d).Dialogue t₁ synced ∧
      (updateStatus o d (failureOf synced)).Dialogue t₂ written ∧
      r = passResult synced written := by
  obtain ⟨synced, t₁, _, rfl, hs, h⟩ := dialogue_bind.mp h
  obtain ⟨written, t₂, _, rfl, hw, h⟩ := dialogue_bind.mp h
  obtain ⟨rfl, rfl⟩ := dialogue_done.mp h
  exact ⟨synced, written, t₁, t₂, by simp, hs, hw, rfl⟩

/-- What a pass hears if it finds nothing to work on. -/
def PassesBy (k : Key) (t : List Exchange) (r : Except OperatorError Outcome) : Prop :=
  ∃ a t₁, t = ⟨.store (.getDistribution k), a⟩ :: t₁ ∧ (∀ x ∈ t₁, x.call.Recalls) ∧
    (∀ d, a ≠ .ok (some d)) ∧ ∀ outcome, r = .ok outcome → outcome.phase = none

/-- A pass over a distribution that it finds, in its parts. -/
def WorksOn (o : Operator) (k : Key) (d : Distribution) (t : List Exchange)
    (r : Except OperatorError Outcome) : Prop :=
  ∃ t₁ t₂ t₃, t = ⟨.store (.getDistribution k), .ok (some d)⟩ :: (t₁ ++ (t₂ ++ t₃)) ∧
    (∀ x ∈ t₁ ++ t₃, x.call.Recalls) ∧ (workOn o d).Dialogue t₂ r

theorem visit_dialogue {r : Except OperatorError Outcome} (h : (visit o k).Dialogue t r) :
    PassesBy k t r ∨ ∃ d, WorksOn o k d t r := by
  rcases dialogue_andThen.mp h with ⟨e, he, rfl⟩ | ⟨found, t₁, t₂, rfl, hf, hw⟩
  · obtain ⟨a, rfl, hae⟩ := dialogue_attempt.mp he
    refine .inl ⟨a, [], rfl, by simp, fun d hd => ?_, by simp⟩
    subst hd
    cases hae
  · rw [dialogue_attempt_ok] at hf
    subst hf
    cases found with
    | none =>
      obtain ⟨_, t₃, _, rfl, hm, hd⟩ := dialogue_bind.mp hw
      obtain ⟨rfl, rfl⟩ := dialogue_done.mp hd
      have ht : ∀ x ∈ t₃, x.call.Recalls := (Within.call trivial).of_dialogue hm
      refine .inl ⟨_, _, rfl, by simpa using ht, by simp, ?_⟩
      rintro _ ⟨⟩
      rfl
    | some d =>
      obtain ⟨change, t₃, t₄, rfl, hm, hw⟩ := dialogue_bind.mp hw
      have ht : ∀ x ∈ t₃, x.call.Recalls := (Within.call trivial).of_dialogue hm
      right
      split at hw
      · obtain ⟨_, t₅, t₆, rfl, hm', hw⟩ := dialogue_bind.mp hw
        have ht' : ∀ x ∈ t₅, x.call.Recalls := (Within.call trivial).of_dialogue hm'
        refine ⟨d, t₃ ++ t₅, t₆, [], by simp, ?_, hw⟩
        intro x hx
        rw [List.append_nil] at hx
        exact (List.mem_append.mp hx).elim (ht x) (ht' x)
      · exact ⟨d, t₃, t₄, [], by simp, by simpa using ht, hw⟩

theorem pass_dialogue {r : Except OperatorError Outcome} (h : (pass o k).Dialogue t r) :
    PassesBy k t r ∨ ∃ d, WorksOn o k d t r := by
  obtain ⟨r', t₁, _, rfl, hv, h⟩ := dialogue_bind.mp h
  obtain ⟨_, t₂, _, rfl, hb, h⟩ := dialogue_bind.mp h
  obtain ⟨rfl, rfl⟩ := dialogue_done.mp h
  have ht₂ : ∀ x ∈ t₂, x.call.Recalls := (bookkeep_within k r).of_dialogue hb
  rcases visit_dialogue hv with ⟨a, t₃, rfl, ht₃, ha, hr⟩ | ⟨d, t₃, t₄, t₅, rfl, ht, hw⟩
  · refine .inl ⟨a, t₃ ++ t₂, by simp, fun x hx => ?_, ha, hr⟩
    exact (List.mem_append.mp hx).elim (ht₃ x) (ht₂ x)
  · refine .inr ⟨d, t₃, t₄, t₅ ++ t₂, by simp, fun x hx => ?_, hw⟩
    rw [← List.append_assoc] at hx
    exact (List.mem_append.mp hx).elim (ht x) (ht₂ x)

end DistributionOperator
