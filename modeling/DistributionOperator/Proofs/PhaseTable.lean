import DistributionOperator.Proofs.HealthGating
import DistributionOperator.Proofs.TwinEvaluations
import Mathlib.Data.List.Nodup

/-! The table of phases. What an evaluation says of the deployment and the health of a distribution
follows from the synchronization, from the deployment that is read and, once its replicas are ready,
from the server. Nothing else that it hears counts, and the status before only after a failure. -/

namespace DistributionOperator

open Program

/-- The calls that a phase depends on: those for a deployment, and those to a server. -/
def Exchange.decides (x : Exchange) : Bool :=
  match x.call with
  | .store (.get (.managed .deployment) _) | .probe _ => true
  | _ => false

/-- What a status says of the deployment and of the health of the server. -/
structure Status.Says (s : Status) (phase : Phase) (replicas : Int32) (deployment : Bool)
    (health : Option String) (providers : List Provider) : Prop where
  phase : s.phase = phase
  replicas : s.availableReplicas = replicas
  deployment : s.verdict? .deployment = some (truth deployment)
  health : s.verdict? .health = health
  providers : s.summary.providers = providers

/-- The rows for a deployment with all its replicas ready, by what its server answers. -/
inductive Status.Probed (s : Status) (ready : Int32) :
    Except ProbeError Bool → Except ProbeError (List Provider) → Prop where
  | unreachable {cause : ProbeError} {listed : Except ProbeError (List Provider)}
      (h : s.Says .initializing ready true (some (truth false)) []) :
      Probed s ready (.error cause) listed
  | unhealthy {listed : Except ProbeError (List Provider)}
      (h : s.Says .failed ready true (some (truth false)) []) : Probed s ready (.ok false) listed
  | unlisted {cause : ProbeError} (h : s.Says .ready ready true (some (truth true)) []) :
      Probed s ready (.ok true) (.error cause)
  | healthy {ps : List Provider} (h : s.Says .ready ready true (some (truth true)) ps) :
      Probed s ready (.ok true) (.ok ps)

def Distribution.deploymentRead (d : Distribution) (a : Except StoreError (Option Child)) :
    Exchange :=
  ⟨.store (.get .deployment d.key), a⟩

def Unsettled (ready wanted : Int32) : Prop := ready = 0 ∨ ready < wanted ∨ wanted < ready

/-- The table: how an evaluation ends, by the failure of the synchronization, if it failed, and by
what is heard that counts. -/
inductive Distribution.Assesses (d : Distribution) :
    Option OperatorError → List Exchange → Except OperatorError Status → Prop where
  | failed {e : OperatorError} {s : Status}
      (h : s.Says .failed (d.status.getD .blank).availableReplicas false
        ((d.status.getD .blank).verdict? .health) []) : Assesses d (some e) [] (.ok s)
  | unread {cause : StoreError} :
      Assesses d none [d.deploymentRead (.error cause)] (.error (.store "get" "Deployment" cause))
  | missing {s : Status} (h : s.Says .pending 0 false (some (truth false)) []) :
      Assesses d none [d.deploymentRead (.ok none)] (.ok s)
  | unsettled {live : Child} {s : Status} (hr : Unsettled live.readyReplicas d.spec.replicas)
      (h : s.Says .initializing live.readyReplicas false (some (truth false)) []) :
      Assesses d none [d.deploymentRead (.ok (some live))] (.ok s)
  | settled {live : Child} {a : Except ProbeError Bool}
      {listed : Except ProbeError (List Provider)} {s : Status} (hne : live.readyReplicas ≠ 0)
      (hr : live.readyReplicas = d.spec.replicas) (h : s.Probed live.readyReplicas a listed) :
      Assesses d none [d.deploymentRead (.ok (some live)), ⟨.probe (.health d.endpoint), a⟩,
        ⟨.probe (.providers d.endpoint), listed⟩] (.ok s)

/-- Phase and replicas of a status whose deployment was judged. -/
inductive Status.Matches (s : Status) (wanted : Int32) : Option Child → Bool → Prop where
  | missing (hp : s.phase = .pending) (hn : s.availableReplicas = 0) : Matches s wanted none false
  | unsettled {live : Child} (hr : Unsettled live.readyReplicas wanted)
      (hp : s.phase = .initializing) (hn : s.availableReplicas = live.readyReplicas) :
      Matches s wanted (some live) false
  | settled {live : Child} (hne : live.readyReplicas ≠ 0) (hr : live.readyReplicas = wanted)
      (hn : s.availableReplicas = live.readyReplicas) : Matches s wanted (some live) true

variable {o : Operator} {d : Distribution} {s s' u : Status} {t : List Exchange}

theorem unsettled_iff {ready wanted : Int32} :
    Unsettled ready wanted ↔ ¬(ready = wanted ∧ ready ≠ 0) := by
  constructor
  · rintro h ⟨rfl, hne⟩
    rcases h with h | h | h
    · exact hne h
    · exact Int32.lt_irrefl h
    · exact Int32.lt_irrefl h
  · intro h
    by_cases hz : ready = 0
    · exact .inl hz
    · by_cases hlt : ready < wanted
      · exact .inr (.inl hlt)
      · by_cases hgt : wanted < ready
        · exact .inr (.inr hgt)
        · have heq : ready = wanted :=
            Int32.le_antisymm (Int32.not_lt.mp hgt) (Int32.not_lt.mp hlt)
          exact absurd ⟨heq, hz⟩ h

theorem Status.Matches.congr {wanted : Int32} {live : Option Child} {ready : Bool}
    (h : s.Matches wanted live ready) (hp : s'.phase = s.phase)
    (hn : s'.availableReplicas = s.availableReplicas) : s'.Matches wanted live ready := by
  cases h with
  | missing hp' hn' => exact .missing (hp.trans hp') (hn.trans hn')
  | unsettled hr hp' hn' => exact .unsettled hr (hp.trans hp') (hn.trans hn')
  | settled hne hr hn' => exact .settled hne hr (hn.trans hn')

theorem judgeDeployment_matches {live : Option Child} {judged : Bool × Status}
    (h : (judgeDeployment o d live s).Dialogue t judged) :
    judged.2.Matches d.spec.replicas live judged.1 ∧
      ∃ message now,
        judged.2.conditions = (s.report .deployment judged.1 message now).conditions := by
  unfold judgeDeployment at h
  cases live with
  | none =>
    obtain ⟨now, _, rfl⟩ := reportNow_done_dialogue.mp h
    exact ⟨.missing rfl rfl, _, now, rfl⟩
  | some live =>
    cases htrouble : replicaTrouble live.readyReplicas d.spec.replicas with
    | some trouble =>
      simp only [htrouble] at h
      obtain ⟨now, _, rfl⟩ := reportNow_done_dialogue.mp h
      have hne : replicaTrouble live.readyReplicas d.spec.replicas ≠ none := by simp [htrouble]
      have hr := unsettled_iff.mpr fun hr => hne (replicaTrouble_eq_none.mpr hr)
      exact ⟨.unsettled hr rfl rfl, _, now, rfl⟩
    | none =>
      simp only [htrouble] at h
      obtain ⟨now, _, rfl⟩ := reportNow_done_dialogue.mp h
      have hr := replicaTrouble_eq_none.mp htrouble
      exact ⟨.settled hr.2 hr.1 rfl, _, now, rfl⟩

theorem evaluateStorage_undecided (h : (evaluateStorage d s).Dialogue t s') :
    t.filter (·.decides) = [] := by
  rcases evaluateStorage_dialogue h with ⟨_, rfl, _⟩ | ⟨a, now, _, rfl, _⟩
  · rfl
  · rfl

theorem evaluateService_undecided (h : (evaluateService d s).Dialogue t s') :
    t.filter (·.decides) = [] := by
  rcases evaluateService_dialogue h with ⟨_, rfl, _⟩ | ⟨a, now, _, rfl, _⟩
  · rfl
  · rfl

theorem skipHealth_says {phase : Phase} {replicas : Int32} (hp : u.phase = phase)
    (hn : u.availableReplicas = replicas) (hd : u.verdict? .deployment = some (truth false))
    (h : (skipHealth u).Dialogue t s) :
    t.filter (·.decides) = [] ∧ s.Says phase replicas false (some (truth false)) [] := by
  obtain ⟨now, rfl, rfl⟩ := skipHealth_dialogue h
  have hsame := Status.SameButFor.report .health u false "Deployment not ready" now
  have hhealth := Status.verdict?_report u .health .health false "Deployment not ready" now
  rw [if_pos rfl] at hhealth
  exact ⟨rfl, hp, hn, (hsame.verdicts .deployment (by decide)).trans hd, hhealth, rfl⟩

theorem reportedProviders_unhealthy (listed : Except ProbeError (List Provider)) :
    reportedProviders false listed = [] := by
  cases listed with
  | ok ps => rfl
  | error e => rfl

theorem checkHealth_probed {ready : Int32} (hn : u.availableReplicas = ready)
    (hd : u.verdict? .deployment = some (truth true)) (h : (checkHealth d u).Dialogue t s) :
    ∃ a listed, t.filter (·.decides) =
        [⟨.probe (.health d.endpoint), a⟩, ⟨.probe (.providers d.endpoint), listed⟩] ∧
      s.Probed ready a listed := by
  have hdep := (checkHealth_deployment h).trans hd
  obtain ⟨a, now, listed, rfl, rfl⟩ := checkHealth_dialogue h
  have hhealth : ((u.withPhase (healthReport a).1).report .health (healthReport a).2.1
      (healthReport a).2.2 now).verdict? .health = some (truth (healthReport a).2.1) := by
    rw [Status.verdict?_report, if_pos rfl]
  refine ⟨a, listed, rfl, ?_⟩
  cases a with
  | error cause =>
    exact .unreachable ⟨rfl, hn, hdep, hhealth, reportedProviders_unhealthy listed⟩
  | ok healthy =>
    cases healthy with
    | false =>
      exact .unhealthy ⟨rfl, hn, hdep, hhealth, reportedProviders_unhealthy listed⟩
    | true =>
      cases listed with
      | error e => exact .unlisted ⟨rfl, hn, hdep, hhealth, rfl⟩
      | ok ps => exact .healthy ⟨rfl, hn, hdep, hhealth, rfl⟩

theorem observedStatus_assesses {r : Except OperatorError Status}
    (h : (observedStatus o d s).Dialogue t r) : d.Assesses none (t.filter (·.decides)) r := by
  rcases observedStatus_dialogue h with ⟨cause, rfl, rfl⟩ |
    ⟨live, judged, t₁, t₂, t₃, t₄, s₂, s₃, s₄, rfl, h₁, h₂, h₃, h₄, rfl⟩
  · exact .unread
  · have hmatches := (judgeDeployment_matches h₁).1
    obtain ⟨⟨now, rfl⟩, hj⟩ := judgeDeployment_dialogue h₁
    have hs₂ := (evaluateStorage_same h₂).1
    have hs₃ := (evaluateService_same h₃).1
    have hmatches' : (o.summarize d s₃).Matches d.spec.replicas live judged.1 :=
      (hmatches.congr hs₂.phase hs₂.availableReplicas).congr hs₃.phase hs₃.availableReplicas
    have hverdict : (o.summarize d s₃).verdict? .deployment = some (truth judged.1) :=
      (((hj.of_same hs₂ (by decide)).of_same hs₃ (by decide)).summarize o).verdict
    have hasked : (⟨.store (.get .deployment d.key), .ok live⟩ ::
        ([⟨.now, now⟩] ++ (t₂ ++ (t₃ ++ t₄)))).filter (·.decides) =
        d.deploymentRead (.ok live) :: t₄.filter (·.decides) := by
      rw [List.filter_cons_of_pos rfl, List.filter_append, List.filter_append, List.filter_append,
        evaluateStorage_undecided h₂, evaluateService_undecided h₃]
      rfl
    rw [hasked]
    obtain ⟨ready, v⟩ := judged
    cases hmatches' with
    | missing hp hn =>
      obtain ⟨hnone, hsays⟩ := skipHealth_says hp hn hverdict h₄
      rw [hnone]
      exact .missing hsays
    | unsettled hr hp hn =>
      obtain ⟨hnone, hsays⟩ := skipHealth_says hp hn hverdict h₄
      rw [hnone]
      exact .unsettled hr hsays
    | settled hne hr hn =>
      obtain ⟨a, listed, hasks, hprobed⟩ := checkHealth_probed hn hverdict h₄
      rw [hasks]
      exact .settled hne hr hprobed

theorem Status.Says.stamped {phase : Phase} {replicas : Int32} {deployment : Bool}
    {health : Option String} {providers : List Provider}
    (h : s.Says phase replicas deployment health providers) (now : Timestamp) :
    (s.stampedAt now).Says phase replicas deployment health providers :=
  ⟨h.phase, h.replicas, h.deployment, h.health, h.providers⟩

theorem Distribution.Assesses.stamped {failure : Option OperatorError} {asked : List Exchange}
    (h : d.Assesses failure asked (.ok s)) (now : Timestamp) :
    d.Assesses failure asked (.ok (s.stampedAt now)) := by
  cases h with
  | failed h => exact .failed (h.stamped now)
  | missing h => exact .missing (h.stamped now)
  | unsettled hr h => exact .unsettled hr (h.stamped now)
  | settled hne hr h =>
    refine .settled hne hr ?_
    cases h with
    | unreachable h => exact .unreachable (h.stamped now)
    | unhealthy h => exact .unhealthy (h.stamped now)
    | unlisted h => exact .unlisted (h.stamped now)
    | healthy h => exact .healthy (h.stamped now)

theorem evaluate_assesses {failure : Option OperatorError} {r : Except OperatorError Status}
    (h : (evaluate o d failure).Dialogue t r) :
    d.Assesses failure (t.filter (·.decides)) r := by
  cases failure with
  | some e =>
    obtain ⟨t₁, t₂, rfl, rfl⟩ := evaluate_failed_dialogue h
    have hreported := Status.SameButFor.report .deployment ((o.startingStatus d).withPhase .failed)
      false ("Resource reconciliation failed: " ++ e.message) t₁
    have hdep := Status.verdict?_report ((o.startingStatus d).withPhase .failed) .deployment
      .deployment false ("Resource reconciliation failed: " ++ e.message) t₁
    rw [if_pos rfl] at hdep
    exact .failed ⟨rfl, rfl, hdep, hreported.verdicts .health (by decide), rfl⟩
  | none =>
    rcases evaluate_observed_dialogue h with ⟨e, he, rfl⟩ | ⟨v, t₁, now, rfl, hv, rfl⟩
    · exact observedStatus_assesses he
    · have hasked : (t₁ ++ [(⟨.now, now⟩ : Exchange)]).filter (·.decides) =
          t₁.filter (·.decides) := by
        rw [List.filter_append]
        exact List.append_nil _
      rw [hasked]
      exact (observedStatus_assesses hv).stamped now

structure Status.AgreesWith (s s' : Status) : Prop where
  phase : s.phase = s'.phase
  replicas : s.availableReplicas = s'.availableReplicas
  deployment : s.verdict? .deployment = s'.verdict? .deployment
  health : s.verdict? .health = s'.verdict? .health
  providers : s.summary.providers = s'.summary.providers

theorem Status.Says.agrees {phase : Phase} {replicas : Int32} {deployment : Bool}
    {health : Option String} {providers : List Provider}
    (h : s.Says phase replicas deployment health providers)
    (h' : s'.Says phase replicas deployment health providers) : s.AgreesWith s' where
  phase := h.phase.trans h'.phase.symm
  replicas := h.replicas.trans h'.replicas.symm
  deployment := h.deployment.trans h'.deployment.symm
  health := h.health.trans h'.health.symm
  providers := h.providers.trans h'.providers.symm

theorem Status.Probed.agrees {ready : Int32} {a : Except ProbeError Bool}
    {listed : Except ProbeError (List Provider)} (h : s.Probed ready a listed)
    (h' : s'.Probed ready a listed) : s.AgreesWith s' := by
  cases h with
  | unreachable h => cases h' with | unreachable h' => exact h.agrees h'
  | unhealthy h => cases h' with | unhealthy h' => exact h.agrees h'
  | unlisted h => cases h' with | unlisted h' => exact h.agrees h'
  | healthy h => cases h' with | healthy h' => exact h.agrees h'

theorem Distribution.Assesses.reads {asked : List Exchange} {r : Except OperatorError Status}
    (h : d.Assesses none asked r) : ∃ a rest, asked = d.deploymentRead a :: rest := by
  cases h with
  | unread => exact ⟨_, _, rfl⟩
  | missing => exact ⟨_, _, rfl⟩
  | unsettled => exact ⟨_, _, rfl⟩
  | settled => exact ⟨_, _, rfl⟩

/-- The table leaves no choice: what counts settles the row, and the row what is said. The status
before matters only after a failure. -/
theorem Distribution.Assesses.agree {failure : Option OperatorError} {previous : Option Status}
    {asked asked' : List Exchange} {r r' : Except OperatorError Status}
    (h : d.Assesses failure asked r)
    (h' : Assesses { d with status := previous } failure asked' r')
    (hprevious : failure ≠ none → previous = d.status)
    (hall : ∀ x ∈ asked, ∀ x' ∈ asked', x.call = x'.call → x = x') :
    ResultsAgree Status.AgreesWith r r' := by
  cases failure with
  | some e =>
    obtain rfl := hprevious (by simp)
    cases h with | failed h => cases h' with | failed h' => exact h.agrees h'
  | none =>
    obtain ⟨a, rest, rfl⟩ := h.reads
    obtain ⟨a', rest', rfl⟩ := h'.reads
    have hread := hall _ List.mem_cons_self _ List.mem_cons_self rfl
    obtain rfl : a = a' := by cases hread; rfl
    cases h with
    | unread => cases h' with | unread => rfl
    | missing h => cases h' with | missing h' => exact h.agrees h'
    | unsettled hr h =>
      cases h' with
      | unsettled _ h' => exact h.agrees h'
      | settled hne heq _ => exact absurd ⟨heq, hne⟩ (unsettled_iff.mp hr)
    | settled hne heq h =>
      cases h' with
      | unsettled hr _ => exact absurd ⟨heq, hne⟩ (unsettled_iff.mp hr)
      | settled _ _ h' =>
        have hhealth := hall _ (.tail _ (.head _)) _ (.tail _ (.head _)) rfl
        have hlisted := hall _ (.tail _ (.tail _ (.head _))) _ (.tail _ (.tail _ (.head _))) rfl
        cases hhealth
        cases hlisted
        exact h.agrees h'

/-- Every evaluation follows the table, and asks a server only where the table has it asked. Two
evaluations that are answered alike wherever that counts agree, whatever they hear of claim and
service, and whatever the status was before unless the synchronization failed. -/
theorem evaluate_table (o : Operator) (d : Distribution) (failure : Option OperatorError) :
    (∀ t r, (evaluate o d failure).Dialogue t r →
        d.Assesses failure (t.filter (·.decides)) r) ∧
      ∀ previous t t' r r', (failure ≠ none → previous = d.status) →
        (evaluate o d failure).Dialogue t r →
        (evaluate o { d with status := previous } failure).Dialogue t' r' →
        (∀ x ∈ t, ∀ x' ∈ t', x.decides = true → x.call = x'.call → x = x') →
        ResultsAgree Status.AgreesWith r r' := by
  refine ⟨fun t r => evaluate_assesses, fun previous t t' r r' hprevious h h' hall => ?_⟩
  refine (evaluate_assesses h).agree (evaluate_assesses h') hprevious fun x hx x' hx' => ?_
  have hx := List.mem_filter.mp hx
  exact hall x hx.1 x' (List.mem_filter.mp hx').1 hx.2

/-! A server that is ready and healthy. What is heard of claim and service and the status before
differ between two evaluations of it, to no effect on the phase. -/

def Child.oneReady : Child :=
  { Child.blank with status := some (.mkObject [("readyReplicas", .int 1)]) }

theorem alike_of_filter {t' : List Exchange} (h : t.filter (·.decides) = t'.filter (·.decides))
    (hn : ((t.filter (·.decides)).map (·.call)).Nodup) :
    ∀ x ∈ t, ∀ x' ∈ t', x.decides = true → x.call = x'.call → x = x' := by
  intro x hx x' hx' hd hc
  have hd' : x'.decides = true := by
    unfold Exchange.decides at hd ⊢
    rwa [hc] at hd
  have hm : x ∈ t.filter (·.decides) := List.mem_filter.mpr ⟨hx, hd⟩
  have hm' : x' ∈ t.filter (·.decides) := h ▸ List.mem_filter.mpr ⟨hx', hd'⟩
  exact List.inj_on_of_nodup_map hn hm hm' hc

theorem evaluate_table_healthy : ∃ t t' s s',
    (evaluate .sample .full none).Dialogue t (.ok s) ∧
      (evaluate .sample { Distribution.full with status := Distribution.sampleHealthy.status }
        none).Dialogue t' (.ok s') ∧
      s.Says .ready 1 true (some (truth true)) [] ∧ s.AgreesWith s' := by
  let d' := { Distribution.full with status := Distribution.sampleHealthy.status }
  have h : (evaluate .sample .full none).Dialogue
      [Distribution.full.deploymentRead (.ok (some .oneReady)), ⟨.now, .epoch⟩,
        ⟨.store (.get .claim ⟨"ai", "demo-pvc"⟩), .ok none⟩, ⟨.now, .epoch⟩,
        ⟨.store (.get .service ⟨"ai", "demo-service"⟩), .ok (some .blank)⟩, ⟨.now, .epoch⟩,
        ⟨.probe (.health Distribution.full.endpoint), .ok true⟩, ⟨.now, .epoch⟩,
        ⟨.probe (.providers Distribution.full.endpoint), .ok []⟩, ⟨.now, .epoch⟩] (.ok _) :=
    .ask (.ask (.ask (.ask (.ask (.ask (.ask (.ask (.ask (.ask (.done _))))))))))
  have h' : (evaluate .sample d' none).Dialogue
      [Distribution.full.deploymentRead (.ok (some .oneReady)), ⟨.now, .epoch⟩,
        ⟨.store (.get .claim ⟨"ai", "demo-pvc"⟩), .error (.api "busy")⟩, ⟨.now, .epoch⟩,
        ⟨.store (.get .service ⟨"ai", "demo-service"⟩), .ok none⟩, ⟨.now, .epoch⟩,
        ⟨.probe (.health Distribution.full.endpoint), .ok true⟩, ⟨.now, .epoch⟩,
        ⟨.probe (.providers Distribution.full.endpoint), .ok []⟩, ⟨.now, .epoch⟩] (.ok _) :=
    .ask (.ask (.ask (.ask (.ask (.ask (.ask (.ask (.ask (.ask (.done _))))))))))
  have htable := evaluate_table .sample .full none
  have hagrees := htable.2 Distribution.sampleHealthy.status _ _ _ _ (fun hn => absurd rfl hn) h h'
    (alike_of_filter rfl (by decide))
  refine ⟨_, _, _, _, h, h', ?_, hagrees⟩
  cases htable.1 _ _ h with
  | settled _ _ hprobed => cases hprobed with | healthy hsays => exact hsays

end DistributionOperator
