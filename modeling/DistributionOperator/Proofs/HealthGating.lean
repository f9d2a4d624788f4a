import DistributionOperator.Proofs.Evaluation
import DistributionOperator.Proofs.Scene
import DistributionOperator.Proofs.Synchronization

/-! A server whose deployment is not ready is not asked, and nothing is reported of its providers.
Its health is reported as bad, except after a synchronization that failed: then the condition on
the health is the one of the status before. -/

namespace DistributionOperator

open Program

variable {o : Operator} {d : Distribution} {s : Status} {t : List Exchange}

theorem synchronize_asksNoServer {r : Except OperatorError Unit}
    (h : (synchronize o d).Dialogue t r) : AsksNoServer t := by
  intro x hx c hc
  have hs : o.SyncCall d x.call := (synchronize_within o d).of_dialogue h x hx
  rw [hc] at hs
  exact hs

@[simp] theorem startingStatus_verdict? (o : Operator) (d : Distribution) (a : Aspect) :
    (o.startingStatus d).verdict? a = (d.status.getD .blank).verdict? a := rfl

theorem skipHealth_gated {u : Status} (h : (skipHealth u).Dialogue t s) :
    s.summary.providers = [] ∧ AsksNoServer t ∧ s.verdict? .health = some (truth false) := by
  obtain ⟨now, rfl, rfl⟩ := skipHealth_dialogue h
  refine ⟨rfl, by simp [AsksNoServer], ?_⟩
  exact (Status.verdict?_report u .health .health false _ now).trans (if_pos rfl)

theorem checkHealth_deployment {u : Status} (h : (checkHealth d u).Dialogue t s) :
    s.verdict? .deployment = u.verdict? .deployment := by
  obtain ⟨a, now, ps, rfl, rfl⟩ := checkHealth_dialogue h
  exact (Status.verdict?_report (u.withPhase (healthReport a).1) .health .deployment _ _ now).trans
    (if_neg (by decide))

theorem evaluate_observed_gated (h : (evaluate o d none).Dialogue t (.ok s))
    (hd : s.verdict? .deployment = some (truth false)) :
    s.summary.providers = [] ∧ AsksNoServer t ∧ s.verdict? .health = some (truth false) := by
  rcases evaluate_observed_dialogue h with ⟨_, _, he⟩ | ⟨u, t₁, now, rfl, hu, hs⟩
  · cases he
  · cases hs
    obtain ⟨ready, v, t₂, t₃, rfl, hq, hj, hv⟩ := observedStatus_judged hu
    cases ready with
    | true =>
      -- a deployment that was found ready is not said to be otherwise later on
      have hdep : u.verdict? .deployment = some (truth true) :=
        (checkHealth_deployment hv).trans hj.verdict
      have hne : some (truth true) = some (truth false) := hdep.symm.trans hd
      simp at hne
    | false =>
      obtain ⟨hp, ha, hh⟩ := skipHealth_gated hv
      exact ⟨hp, (hq.append ha).append (by simp [AsksNoServer]), hh⟩

theorem evaluate_failed_gated {e : OperatorError} (h : (evaluate o d (some e)).Dialogue t (.ok s)) :
    s.summary.providers = [] ∧ AsksNoServer t ∧
      s.verdict? .health = (d.status.getD .blank).verdict? .health := by
  obtain ⟨t₁, t₂, rfl, hs⟩ := evaluate_failed_dialogue h
  cases hs
  refine ⟨rfl, by simp [AsksNoServer], ?_⟩
  exact (Status.verdict?_report _ .deployment .health false _ t₁).trans (if_neg (by decide))

/-- Where the deployment is reported as not ready, no server has been asked and no provider is
reported. The health is reported as bad unless the synchronization has failed; then it is as bad as
it was before. -/
theorem evaluate_gated {failure : Option OperatorError}
    (h : (evaluate o d failure).Dialogue t (.ok s))
    (hd : s.verdict? .deployment = some (truth false)) :
    s.summary.providers = [] ∧ AsksNoServer t ∧
      (∀ r u, (synchronize o d).Dialogue u r → AsksNoServer u) ∧
      (s.verdict? .health = some (truth false) ↔
        failure = none ∨ (d.status.getD .blank).verdict? .health = some (truth false)) := by
  cases failure with
  | none =>
    obtain ⟨hp, ha, hh⟩ := evaluate_observed_gated h hd
    exact ⟨hp, ha, fun _ _ => synchronize_asksNoServer, by simp [hh]⟩
  | some e =>
    obtain ⟨hp, ha, hh⟩ := evaluate_failed_gated h
    exact ⟨hp, ha, fun _ _ => synchronize_asksNoServer, by simp [hh]⟩

theorem evaluate_gated_missing : ∃ t s,
    (evaluate .sample .sample none).Dialogue t (.ok s) ∧
      s.verdict? .deployment = some (truth false) ∧ s.summary.providers = [] ∧ AsksNoServer t ∧
      s.verdict? .health = some (truth false) := by
  have h : (evaluate .sample .sample none).Dialogue
      [⟨.store (.get .deployment ⟨"ai", "demo"⟩), .ok none⟩, ⟨.now, .epoch⟩, ⟨.now, .epoch⟩,
        ⟨.now, .epoch⟩] (.ok _) :=
    .ask (.ask (.ask (.ask (.done _))))
  obtain ⟨hp, ha, _, hh⟩ := evaluate_gated h (by decide)
  exact ⟨_, _, h, by decide, hp, ha, hh.mpr (.inl rfl)⟩

/-- A server that was healthy before a synchronization failed. -/
def Distribution.sampleHealthy : Distribution :=
  { Distribution.sample with status := some (Status.blank.report .health true "passed" .epoch) }

theorem evaluate_keeps_stale_health : ¬ ∀ o d failure t s,
    (evaluate o d failure).Dialogue t (.ok s) →
      s.verdict? .deployment = some (truth false) → s.verdict? .health = some (truth false) := by
  intro h
  have hd : (evaluate .sample .sampleHealthy (some (.watch "lost"))).Dialogue
      [⟨.now, .epoch⟩, ⟨.now, .epoch⟩] (.ok _) :=
    .ask (.ask (.done _))
  exact absurd (h _ _ _ _ _ hd (by decide)) (by decide)

end DistributionOperator
