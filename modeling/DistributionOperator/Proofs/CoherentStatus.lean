import DistributionOperator.Proofs.HealthGating
import DistributionOperator.Proofs.PersistedStatuses
import DistributionOperator.Proofs.Resynchronization

/-! The parts of a status fit together: phase, conditions, replicas and providers tell one story, and
it is the story of the pass that wrote them. -/

namespace DistributionOperator

open Program

/-- A status that fits a number of wanted replicas and the providers that a server was heard to
list. -/
structure Status.Coherent (s : Status) (replicas : Int32) (heard : List Provider → Prop) :
    Prop where
  ready_iff : s.phase = .ready ↔ s.Holds .deployment ∧ s.Holds .health
  providers_ready : s.summary.providers ≠ [] → s.phase = .ready
  providers_heard : s.summary.providers ≠ [] → heard s.summary.providers
  ready_replicas : s.phase = .ready → s.availableReplicas = replicas ∧ s.availableReplicas ≠ 0
  pending_replicas : s.phase = .pending → s.availableReplicas = 0

/-- That a server was asked for its providers and listed these. -/
def Heard (d : Distribution) (t : List Exchange) (ps : List Provider) : Prop :=
  (⟨.probe (.providers d.endpoint), .ok ps⟩ : Exchange) ∈ t

variable {o : Operator} {d : Distribution} {s u : Status} {t : List Exchange}

theorem Status.Coherent.of_verdicts {replicas : Int32} {heard : List Provider → Prop}
    (ho : s.OneEach)
    (hready : s.phase = .ready ↔
      s.verdict? .deployment = some (truth true) ∧ s.verdict? .health = some (truth true))
    (hp : s.summary.providers ≠ [] → s.phase = .ready ∧ heard s.summary.providers)
    (hr : s.phase = .ready → s.availableReplicas = replicas ∧ s.availableReplicas ≠ 0)
    (hpend : s.phase = .pending → s.availableReplicas = 0) : s.Coherent replicas heard where
  ready_iff := by rw [ho.holds_iff, ho.holds_iff, hready]
  providers_ready h := (hp h).1
  providers_heard h := (hp h).2
  ready_replicas := hr
  pending_replicas := hpend

theorem skipHealth_coherent (hj : Judged d s false u) (ho : s.OneEach) {s' : Status}
    (h : (skipHealth u).Dialogue t s') :
    s'.OneEach ∧ s'.Coherent d.spec.replicas (Heard d t) := by
  obtain ⟨now, rfl, rfl⟩ := skipHealth_dialogue h
  have hs := Status.SameButFor.report .health u false "Deployment not ready" now
  have hdep : (u.report .health false "Deployment not ready" now).verdict? .deployment =
      some (truth false) := (hs.verdicts .deployment (by decide)).trans hj.verdict
  have hone := hs.oneEach (hj.oneEach ho)
  have hphase : u.phase ≠ .ready := fun hr => by simpa using hj.ready_iff.mp hr
  refine ⟨hone, .of_verdicts hone ?_ (fun hp => absurd rfl hp) (fun hr => absurd hr hphase)
    hj.pending_replicas⟩
  constructor
  · exact fun hr => absurd hr hphase
  · rintro ⟨ht, _⟩
    have hne : some (truth false) = some (truth true) := hdep.symm.trans ht
    simp at hne

theorem healthReport_ready_iff (a : Except ProbeError Bool) :
    (healthReport a).1 = .ready ↔ (healthReport a).2.1 = true := by
  rcases a with e | (_ | _) <;> simp [healthReport]

theorem healthReport_ne_pending (a : Except ProbeError Bool) : (healthReport a).1 ≠ .pending := by
  rcases a with e | (_ | _) <;> simp [healthReport]

theorem reportedProviders_ne_nil {healthy : Bool} {listed : Except ProbeError (List Provider)}
    (h : reportedProviders healthy listed ≠ []) :
    healthy = true ∧ listed = .ok (reportedProviders healthy listed) := by
  cases listed with
  | error e => exact absurd rfl h
  | ok ps =>
    cases healthy with
    | false => exact absurd rfl h
    | true => exact ⟨rfl, rfl⟩

theorem checkHealth_coherent (hj : Judged d s true u) (ho : s.OneEach) {s' : Status}
    (h : (checkHealth d u).Dialogue t s') :
    s'.OneEach ∧ s'.Coherent d.spec.replicas (Heard d t) := by
  have hdep : s'.verdict? .deployment = some (truth true) :=
    (checkHealth_deployment h).trans hj.verdict
  obtain ⟨a, now, ps, rfl, rfl⟩ := checkHealth_dialogue h
  have hs := Status.SameButFor.report .health (u.withPhase (healthReport a).1)
    (healthReport a).2.1 (healthReport a).2.2 now
  have hhealth : ((u.withPhase (healthReport a).1).report .health (healthReport a).2.1
      (healthReport a).2.2 now).verdict? .health = some (truth (healthReport a).2.1) := by
    rw [Status.verdict?_report, if_pos rfl]
  have hone := hs.oneEach (hj.oneEach ho)
  refine ⟨hone, .of_verdicts hone ?_ ?_ (fun _ => hj.ready_replicas rfl) ?_⟩
  · refine (healthReport_ready_iff a).trans ?_
    constructor
    · intro hr
      exact ⟨hdep, hhealth.trans (congrArg (fun b => some (truth b)) hr)⟩
    · rintro ⟨_, ht⟩
      simpa using hhealth.symm.trans ht
  · intro hp
    obtain ⟨hr, hps⟩ := reportedProviders_ne_nil hp
    refine ⟨(healthReport_ready_iff a).mpr hr, ?_⟩
    show Heard d _ (reportedProviders (healthReport a).2.1 ps)
    have hlast : (⟨.probe (.providers d.endpoint), ps⟩ : Exchange) =
        ⟨.probe (.providers d.endpoint), .ok (reportedProviders (healthReport a).2.1 ps)⟩ := by
      rw [← hps]
    simp [Heard, ← hlast]
  · exact fun hp => absurd hp (healthReport_ne_pending a)

theorem Status.Coherent.mono {replicas : Int32} {heard heard' : List Provider → Prop}
    (h : s.Coherent replicas heard) (hh : ∀ ps, heard ps → heard' ps) :
    s.Coherent replicas heard' :=
  { h with providers_heard := fun hp => hh _ (h.providers_heard hp) }

theorem heard_mono {t' : List Exchange} (h : ∀ x ∈ t, x ∈ t') {ps : List Provider}
    (hp : Heard d t ps) : Heard d t' ps := h _ hp

theorem Status.Coherent.congr {replicas : Int32} {heard : List Provider → Prop} {s' : Status}
    (h : s.Coherent replicas heard) (hphase : s'.phase = s.phase)
    (hconditions : s'.conditions = s.conditions)
    (hreplicas : s'.availableReplicas = s.availableReplicas)
    (hproviders : s'.summary.providers = s.summary.providers) : s'.Coherent replicas heard := by
  have hholds : ∀ a, s'.Holds a ↔ s.Holds a := fun a => by simp [Status.Holds, hconditions]
  exact ⟨by rw [hphase, hholds, hholds, h.ready_iff],
    by rw [hproviders, hphase]; exact h.providers_ready,
    by rw [hproviders]; exact h.providers_heard, by rw [hphase, hreplicas]; exact h.ready_replicas,
    by rw [hphase, hreplicas]; exact h.pending_replicas⟩

theorem evaluate_coherent {failure : Option OperatorError}
    (h : (evaluate o d failure).Dialogue t (.ok s)) (ho : (d.status.getD .blank).OneEach) :
    s.OneEach ∧ s.Coherent d.spec.replicas (Heard d t) := by
  have hstart : (o.startingStatus d).OneEach := ho
  cases failure with
  | none =>
    rcases evaluate_observed_dialogue h with ⟨_, _, he⟩ | ⟨v, t₁, now, rfl, hv, hs⟩
    · cases he
    · cases hs
      obtain ⟨ready, u, t₂, t₃, rfl, _, hj, hc⟩ := observedStatus_judged hv
      have hcoherent : v.OneEach ∧ v.Coherent d.spec.replicas (Heard d t₃) := by
        cases ready with
        | true => exact checkHealth_coherent hj hstart hc
        | false => exact skipHealth_coherent hj hstart hc
      refine ⟨hcoherent.1, (hcoherent.2.mono fun ps => heard_mono fun x hx => ?_).congr rfl rfl rfl
        rfl⟩
      simp [hx]
  | some e =>
    obtain ⟨t₁, t₂, rfl, hs⟩ := evaluate_failed_dialogue h
    cases hs
    have hone := hstart.report .deployment false
      ("Resource reconciliation failed: " ++ e.message) t₁
    refine ⟨hone, .of_verdicts hone ?_ (fun hp => absurd rfl hp) ?_ ?_⟩
    · constructor
      · intro hr
        cases hr
      · rintro ⟨ht, _⟩
        have hdep := Status.verdict?_report ((o.startingStatus d).withPhase .failed) .deployment
          .deployment false ("Resource reconciliation failed: " ++ e.message) t₁
        rw [if_pos rfl] at hdep
        have hne : some (truth false) = some (truth true) := hdep.symm.trans ht
        simp at hne
    · intro hr
      cases hr
    · intro hr
      cases hr

namespace Scene

/-- Every stored status has at most one condition of each type. -/
def OneEach (s : Scene) : Prop :=
  ∀ k d, s.store.distributions k = some d → ∀ st ∈ d.status, st.OneEach

/-- Whatever others do, they keep or drop the stored statuses, and write none of their own. -/
def StatusesKept (u u' : Scene) : Prop :=
  ∀ k d', u'.store.distributions k = some d' →
    d'.status = none ∨ ∃ d, u.store.distributions k = some d ∧ d'.status = d.status

theorem OneEach.kept {u u' : Scene} (h : u.OneEach) (hk : StatusesKept u u') : u'.OneEach := by
  intro k d' hd' st hst
  rcases hk k d' hd' with hnone | ⟨d, hd, hsame⟩
  · rw [hnone] at hst
    cases hst
  · exact h k d hd st (hsame ▸ hst)

theorem OneEach.writesOver {u u' : Scene} {k : Key} {new : Status} (h : u.OneEach)
    (hn : new.OneEach)
    (hw : WritesOver u.store.distributions u'.store.distributions k new) : u'.OneEach := by
  obtain ⟨d, version, hd, hset⟩ := hw
  intro j d' hd' st hst
  rw [hset] at hd'
  by_cases hj : j = k
  · subst hj
    rw [Table.set_same] at hd'
    cases hd'
    cases hst
    exact hn.congr rfl
  · rw [Table.set_other _ _ hj] at hd'
    exact h j d' hd' st hst

end Scene

/-- Every status that a pass persisted is coherent when the pass ends, with the spec and the answers
of that very pass. -/
def PassRecord.PersistsCoherently (p : PassRecord) : Prop :=
  ∀ j new, Persists p.exchanges j new →
    ∃ d d' st, p.Finds d ∧ p.after.store.distributions j = some d' ∧ d'.status = some st ∧
      st.OneEach ∧ st.Coherent d.spec.replicas (Heard d p.exchanges)

theorem pass_coherent {p : PassRecord} (h : p.Made) (ho : p.before.OneEach) :
    p.after.OneEach ∧ p.PersistsCoherently := by
  rcases pass_writes h with ⟨hs, hn⟩ | ⟨d, failure, new, t₁, hd, heval, ht₁, hw, hp⟩
  · exact ⟨fun k d hd => ho k d (hs ▸ hd), fun j new hp => absurd hp (hn j new)⟩
  · have hold : (d.status.getD .blank).OneEach := by
      cases hst : d.status with
      | none => exact List.nodup_nil
      | some st => exact ho p.key d hd st hst
    obtain ⟨hone, hco⟩ := evaluate_coherent heval hold
    refine ⟨ho.writesOver hone hw, fun j new' hpersists => ?_⟩
    obtain ⟨rfl, rfl⟩ := (hp j new').mp hpersists
    obtain ⟨d₀, version, _, hset⟩ := hw
    refine ⟨d, _, new'.over d₀.status, hd, by rw [hset, Table.set_same], rfl, hone.congr rfl, ?_⟩
    exact (hco.mono fun ps => heard_mono ht₁).congr rfl rfl rfl rfl

theorem run_oneEach {s s' : Scene} {ps : List PassRecord}
    (h : Scene.Run Scene.StatusesKept s ps s') (ho : s.OneEach) :
    s'.OneEach ∧ ∀ p ∈ ps, p.PersistsCoherently := by
  induction h with
  | start => exact ⟨ho, by simp⟩
  | @pass ps p _ hp ih =>
    obtain ⟨hafter, hlast⟩ := pass_coherent hp ih.1
    refine ⟨hafter, fun q hq => ?_⟩
    rcases List.mem_append.mp hq with hq | hq
    · exact ih.2 q hq
    · exact List.mem_singleton.mp hq ▸ hlast
  | between _ hk ih => exact ⟨ih.1.kept hk, ih.2⟩

/-- In every run of passes, whatever others do to specs, children and operators in between, every
status that is persisted is coherent. -/
theorem run_coherent {s s' : Scene} {ps : List PassRecord}
    (h : Scene.Run Scene.StatusesKept s ps s') (ho : s.OneEach) :
    ∀ p ∈ ps, p.PersistsCoherently :=
  (run_oneEach h ho).2

/-! A pass that finds the Deployment ready, over a status from the time when it was not. -/

/-- The sample distribution, stored when no replica was ready. -/
def Distribution.waiting : Distribution where
  metadata := { Distribution.sample.metadata with resourceVersion := some "1" }
  spec := Distribution.sample.spec
  status := some <|
    ((Status.blank.withPhase .pending).report .deployment false "Deployment is pending"
      .epoch).report .health false "Deployment not ready" .epoch

/-- The Deployment of the sample distribution. -/
def Child.sample : Child :=
  (Operator.sample.outline .sample (Config.imageFor "starter").2 .deployment).prepare .sample

/-- The Deployment has its replica, and the server lists a provider. -/
def Rehearsal.running : Rehearsal :=
  { Rehearsal.start .epoch with
    store := (Store.empty.addDistribution .waiting).addChild .deployment "ai"
      { Child.sample.storedAs "ai" "2" with
        status := some (.mkObject [("readyReplicas", .int 1)]) }
    probe := { CannedProbe.initial with
      providers := .ok [⟨"inference", "ollama", "remote::ollama", none⟩] } }

theorem running_settled (kind : ChildKind) :
    Operator.sample.Settled .waiting (Config.imageFor "starter").2 .sample kind
      (Rehearsal.running.store.children kind (Distribution.waiting.childKey kind)) := by
  cases kind with
  | claim => exact settled_of_unwanted rfl nofun
  | managed m =>
    cases m with
    | deployment =>
      have hwanted : Operator.sample.wanted .waiting (Config.imageFor "starter").2 .sample
          .deployment = some .sample := rfl
      have hgrown : (Child.sample.storedAs "ai" "2").Grows { Child.sample.storedAs "ai" "2" with
          status := some (.mkObject [("readyReplicas", .int 1)]) } := ⟨rfl, rfl, .inl rfl, .inl rfl⟩
      exact settled_of_wanted hwanted (hgrown.accepts (accepts_storedAs hwanted))
    | service => exact settled_of_unwanted rfl nofun
    | policy => exact settled_of_unwanted rfl fun _ => rfl

theorem running_oneEach : Rehearsal.running.scene.OneEach := by
  intro k d hd st hst
  change Table.empty.set _ _ k = some d at hd
  unfold Table.set at hd
  split at hd
  · cases hd
    cases hst
    have hblank : (Status.blank.withPhase .pending).OneEach := List.nodup_nil
    exact (hblank.report .deployment _ _ _).report .health _ _ _
  · cases hd

theorem sample_store (r : Rehearsal) : (PassRecord.sample r).after.store =
    ((pass .sample ⟨"ai", "demo"⟩).run Rehearsal.answer r).2.2.store := rfl

theorem run_coherent_ready :
    let p := PassRecord.sample .running
    ∃ d old new d' st, p.Finds d ∧ d.status = some old ∧ old.phase = .pending ∧
      old.conditions.length = 2 ∧ Persists p.exchanges ⟨"ai", "demo"⟩ new ∧
        p.after.store.distributions ⟨"ai", "demo"⟩ = some d' ∧ d'.status = some st ∧
          st.phase = .ready ∧ st.summary.providers ≠ [] ∧
            st.Coherent d.spec.replicas (Heard d p.exchanges) := by
  intro p
  have hd : Rehearsal.running.store.distributions ⟨"ai", "demo"⟩ = some .waiting := by
    decide +kernel
  have hafter : p.after.store = ((updateStatus .sample .waiting none).run Rehearsal.answer
      (Rehearsal.running.hearing ⟨"ai", "demo"⟩ Distribution.waiting.spec)).2.2.store :=
    (sample_store .running).trans
      (Rehearsal.Undisturbed.run_settled_pass ⟨fun _ => rfl, rfl⟩ hd rfl running_settled).2
  have htold : (p.after.store.distributions ⟨"ai", "demo"⟩).map
      (·.status.map fun st => (st.phase, st.summary.providers)) =
        some (some (.ready, [⟨"inference", "ollama", "remote::ollama", none⟩])) := by
    rw [hafter]
    decide +kernel
  rcases pass_writes (Rehearsal.running.performs _) with
    ⟨hsame, _⟩ | ⟨d, _, new, _, he, _, _, _, hp⟩
  · have hold : p.after.store.distributions = Rehearsal.running.store.distributions := hsame
    rw [hold, hd] at htold
    exact absurd htold (by decide)
  · obtain rfl : Distribution.waiting = d := Option.some.inj (hd.symm.trans he)
    have hnew : Persists p.exchanges ⟨"ai", "demo"⟩ new := (hp _ _).mpr ⟨rfl, rfl⟩
    obtain ⟨d, d', st, hfinds, hd', hst, _, hcoherent⟩ :=
      run_coherent (sample_run _ _) running_oneEach p (List.mem_singleton_self _) _ _ hnew
    obtain rfl : Distribution.waiting = d := Option.some.inj (hd.symm.trans hfinds)
    rw [hd', Option.map_some, hst, Option.map_some] at htold
    simp only [Option.some.injEq, Prod.mk.injEq] at htold
    refine ⟨_, _, new, d', st, hd, rfl, rfl, rfl, hnew, hd', hst, htold.1, ?_, hcoherent⟩
    simp [htold.2]

end DistributionOperator
