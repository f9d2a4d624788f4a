import DistributionOperator.Proofs.HealthGating
import DistributionOperator.Proofs.TransitionTimes

/-! The versions in a stored status. The operator fills in its own version and the one of the server
where they are missing, and never changes them afterwards, whatever versions it is configured with
later on; the time of the status is the last reading of the clock before it was written. -/

namespace DistributionOperator

open Program

def Store.versions? (s : Store) (j : Key) : Option Versions := (s.status? j).map (·.versions)

def Store.operatorVersion? (s : Store) (j : Key) : Option String :=
  (s.versions? j).bind (·.operatorVersion)

def Store.serverVersion? (s : Store) (j : Key) : Option String :=
  (s.versions? j).bind (·.llamaStackServerVersion)

section Evaluations

variable {o : Operator} {d : Distribution} {s s' : Status} {t : List Exchange}

/-- The versions with that of the server filled in, if it is ready. -/
def Versions.served (v : Versions) (o : Operator) (ready : Bool) : Versions :=
  if ready then
    { v with llamaStackServerVersion := v.llamaStackServerVersion.or o.config.stackVersion }
  else v

@[simp] theorem Versions.served_operatorVersion (v : Versions) (o : Operator) (ready : Bool) :
    (v.served o ready).operatorVersion = v.operatorVersion := by
  cases ready <;> rfl

@[simp] theorem Versions.served_serverVersion (v : Versions) (o : Operator) (ready : Bool) :
    (v.served o ready).llamaStackServerVersion =
      v.llamaStackServerVersion.or (if ready then o.config.stackVersion else none) := by
  cases ready <;> simp [served]

theorem judgeDeployment_versions {live : Option Child} {judged : Bool × Status}
    (h : (judgeDeployment o d live s).Dialogue t judged) :
    judged.2.versions = s.versions.served o judged.1 := by
  unfold judgeDeployment at h
  split at h
  · obtain ⟨now, _, rfl⟩ := reportNow_done_dialogue.mp h
    rfl
  · dsimp only at h
    split at h
    · obtain ⟨now, _, rfl⟩ := reportNow_done_dialogue.mp h
      rfl
    · obtain ⟨now, _, rfl⟩ := reportNow_done_dialogue.mp h
      rfl

theorem health_keeps {ready : Bool}
    (h : (if ready then checkHealth d s else skipHealth s).Dialogue t s') :
    s'.versions = s.versions ∧ s'.verdict? .deployment = s.verdict? .deployment := by
  cases ready with
  | true =>
    refine ⟨?_, checkHealth_deployment h⟩
    obtain ⟨a, now, ps, _, rfl⟩ := checkHealth_dialogue h
    rfl
  | false =>
    obtain ⟨now, _, rfl⟩ := skipHealth_dialogue h
    exact ⟨rfl, (Status.verdict?_report s .health .deployment _ _ now).trans (if_neg (by decide))⟩

theorem observedStatus_versions (h : (observedStatus o d s).Dialogue t (.ok s')) :
    ∃ ready, s'.verdict? .deployment = some (truth ready) ∧
      s'.versions = s.versions.served o ready := by
  rcases observedStatus_dialogue h with ⟨_, _, he⟩ |
    ⟨live, judged, t₁, t₂, t₃, t₄, s₂, s₃, s₄, rfl, h₁, h₂, h₃, h₄, hr⟩
  · cases he
  · cases hr
    obtain ⟨_, hjudged⟩ := judgeDeployment_dialogue h₁
    have hs₂ := (evaluateStorage_same h₂).1
    have hs₃ := (evaluateService_same h₃).1
    obtain ⟨hversions, hverdict⟩ := health_keeps h₄
    have hdep := (hs₃.verdicts .deployment (by decide)).trans (hs₂.verdicts .deployment (by decide))
    refine ⟨judged.1, hverdict.trans (hdep.trans hjudged.verdict), ?_⟩
    rw [hversions, ← judgeDeployment_versions h₁, ← hs₂.versions, ← hs₃.versions]
    rfl

/-- What an evaluation makes of the versions: it fills in what is missing of the two, that of the
server only once the deployment is ready, and tells the last time that it read. -/
theorem evaluate_versions {failure : Option OperatorError} {new : Status}
    (h : (evaluate o d failure).Dialogue t (.ok new)) :
    ∃ ready last, new.verdict? .deployment = some (truth ready) ∧
      (clockReadings t).getLast? = some last ∧
      new.versions = { (o.startingStatus d).versions.served o ready with
        lastUpdated := some last } := by
  obtain ⟨rs, last, _, hclock, _, hupdated⟩ := evaluate_reports h
  have hlast : (clockReadings t).getLast? = some last := by simp [hclock]
  cases failure with
  | some e =>
    obtain ⟨t₁, t₂, _, hr⟩ := evaluate_failed_dialogue h
    cases hr
    obtain rfl : t₂ = last := Option.some.inj hupdated
    exact ⟨false, t₂, (Status.verdict?_report _ _ _ _ _ _).trans (if_pos rfl), hlast, rfl⟩
  | none =>
    rcases evaluate_observed_dialogue h with ⟨_, _, he⟩ | ⟨v, t₁, t₂, _, hv, hr⟩
    · cases he
    · cases hr
      obtain rfl : t₂ = last := Option.some.inj hupdated
      obtain ⟨ready, hverdict, hversions⟩ := observedStatus_versions hv
      refine ⟨ready, t₂, hverdict, hlast, ?_⟩
      rw [← hversions]
      rfl

end Evaluations

/-- The sample operator with versions. -/
def Operator.versioned (own stack : String) : Operator :=
  { Operator.sample with config := { Operator.sample.config with
    operatorVersion := some own
    stackVersion := some stack } }

example :
    let ready := Store.empty.setChild .deployment ⟨"ai", "demo"⟩
      (some { Child.blank with status := some (.mkObject [("readyReplicas", .int 1)]) })
    ((evaluate (.versioned "1.0" "0.1") .sample none).run Rehearsal.answer
        { Rehearsal.start .epoch with store := ready }).1.map (·.versions) =
      .ok ⟨some "1.0", some "0.1", some .epoch⟩ := by
  decide +kernel

section Passes

variable {p : PassRecord} {d : Distribution} {j : Key} {new : Status}
  {r : Except OperatorError Unit}

/-- Versions that are stored stay as they are. -/
structure Store.KeepsVersions (s s' : Store) (j : Key) : Prop where
  operator : ∀ v, s.operatorVersion? j = some v → s'.operatorVersion? j = some v
  server : ∀ v, s.serverVersion? j = some v → s'.serverVersion? j = some v

theorem Store.KeepsVersions.of_status {s s' : Store} (h : s'.status? j = s.status? j) :
    s.KeepsVersions s' j where
  operator v hv := by rwa [operatorVersion?, versions?, h]
  server v hv := by rwa [serverVersion?, versions?, h]

theorem Store.KeepsVersions.trans {s u s' : Store} (h : s.KeepsVersions u j)
    (h' : u.KeepsVersions s' j) : s.KeepsVersions s' j where
  operator v hv := h'.operator v (h.operator v hv)
  server v hv := h'.server v (h.server v hv)

/-- What a pass does to the versions of a stored status. -/
structure PassRecord.Populates (p : PassRecord) (j : Key) : Prop where
  keeps : p.before.store.KeepsVersions p.after.store j
  unpersisted : (∀ new, ¬Persists p.exchanges j new) →
    p.after.store.status? j = p.before.store.status? j
  persisted : ∀ new, Persists p.exchanges j new → p.after.store.versions? j = some new.versions
  filled : ∀ new, Persists p.exchanges j new → p.operator.config.operatorVersion ≠ none →
    new.versions.operatorVersion ≠ none
  stamped : ∀ new, Persists p.exchanges j new → ∃ now,
    (clockReadings p.exchanges).getLast? = some now ∧ new.versions.lastUpdated = some now
  served : p.before.store.serverVersion? j = none → ∀ v, p.after.store.serverVersion? j = some v →
    p.after.store.verdict? j .deployment = some "True" ∧ p.operator.config.stackVersion = some v

theorem persists_unique {other : Status} (h : p.Made) (hp : Persists p.exchanges j new)
    (hp' : Persists p.exchanges j other) : new = other := by
  rcases pass_writes h with ⟨_, hnone⟩ | ⟨_, _, _, _, _, _, _, _, hiff⟩
  · exact absurd hp (hnone j new)
  · exact ((hiff j new).mp hp).2.trans ((hiff j other).mp hp').2.symm

/-- What a pass that persists a status makes of the versions before. -/
structure PassRecord.MakesVersions (p : PassRecord) (old new : Versions) (ready : Bool) : Prop where
  operator : new.operatorVersion = old.operatorVersion.or p.operator.config.operatorVersion
  server : new.llamaStackServerVersion =
    old.llamaStackServerVersion.or (if ready then p.operator.config.stackVersion else none)
  stamped : ∃ now, (clockReadings p.exchanges).getLast? = some now ∧ new.lastUpdated = some now

theorem PassRecord.Reports.versions (h : p.Reports j d r new) (hmade : p.Made) :
    ∃ ready, new.verdict? .deployment = some (truth ready) ∧
      p.MakesVersions (d.status.getD .blank).versions new.versions ready := by
  obtain ⟨t, heval, hclock⟩ := h.clock hmade
  obtain ⟨ready, last, hverdict, hlast, hversions⟩ := evaluate_versions heval
  refine ⟨ready, hverdict, ?_, ?_, last, hclock ▸ hlast, ?_⟩
  · simp [hversions, Operator.startingStatus]
  · simp [hversions, Operator.startingStatus]
  · rw [hversions]

/-- The stored versions are those before, and where there were none what the pass fills in. -/
theorem PassRecord.MakesVersions.stored {ready : Bool}
    (h : p.MakesVersions (d.status.getD .blank).versions new.versions ready)
    (hfound : p.before.store.status? j = d.status)
    (hstored : p.after.store.status? j = some (new.over d.status)) :
    p.after.store.operatorVersion? j =
        (p.before.store.operatorVersion? j).or p.operator.config.operatorVersion ∧
      p.after.store.serverVersion? j = (p.before.store.serverVersion? j).or
        (if ready then p.operator.config.stackVersion else none) := by
  have hold : p.before.store.versions? j = d.status.map (·.versions) := by
    rw [Store.versions?, hfound]
  have hnew : p.after.store.versions? j = some new.versions := by
    rw [Store.versions?, hstored]
    rfl
  have hoperator : p.before.store.operatorVersion? j =
      (d.status.getD .blank).versions.operatorVersion := by
    rw [Store.operatorVersion?, hold]
    cases d.status <;> rfl
  have hserver : p.before.store.serverVersion? j =
      (d.status.getD .blank).versions.llamaStackServerVersion := by
    rw [Store.serverVersion?, hold]
    cases d.status <;> rfl
  constructor
  · rw [hoperator, ← h.operator, Store.operatorVersion?, hnew]
    rfl
  · rw [hserver, ← h.server, Store.serverVersion?, hnew]
    rfl

theorem pass_populates (h : p.Made) (hs : ∀ k, p.before.store.Filed k) (j : Key) :
    p.Populates j := by
  rcases pass_status h hs j with ⟨hsame, hnone⟩ | ⟨d, r, new, hreports, hfound, hstored⟩
  · refine ⟨.of_status hsame, fun _ => hsame, ?_, ?_, ?_, ?_⟩
    · exact fun new hp => absurd hp (hnone new)
    · exact fun new hp => absurd hp (hnone new)
    · exact fun new hp => absurd hp (hnone new)
    · intro hbefore v hv
      rw [Store.serverVersion?, Store.versions?, hsame] at hv
      rw [Store.serverVersion?, Store.versions?, hv] at hbefore
      cases hbefore
  · obtain ⟨ready, hverdict, hmakes⟩ := hreports.versions h
    obtain ⟨hoperator, hserver⟩ := hmakes.stored hfound hstored
    have hone : ∀ other, Persists p.exchanges j other → other = new := fun other hp =>
      persists_unique h hp hreports.persists
    refine ⟨⟨?_, ?_⟩, ?_, ?_, ?_, ?_, ?_⟩
    · intro v hv
      rw [hoperator, hv, Option.some_or]
    · intro v hv
      rw [hserver, hv, Option.some_or]
    · exact fun hnone => absurd hreports.persists (hnone new)
    · intro other hp
      rw [hone other hp, Store.versions?, hstored]
      rfl
    · intro other hp hconfig
      rw [hone other hp, hmakes.operator]
      simp [Option.or_eq_none_iff, hconfig]
    · intro other hp
      rw [hone other hp]
      exact hmakes.stamped
    · intro hnone v hv
      rw [hserver, hnone, Option.none_or] at hv
      cases ready with
      | true =>
        refine ⟨?_, by simpa using hv⟩
        rw [Store.verdict?, Store.condition?, hstored]
        exact hverdict
      | false => cases hv

end Passes

section Runs

variable {others : Scene → Scene → Prop} {u u' : Scene} {ps : List PassRecord} {j : Key}

theorem run_keepsVersions (h : Scene.Run others u ps u') (ho : ∀ v w, others v w → v.Edits w)
    (hs : ∀ k, u.store.Filed k) : u.store.KeepsVersions u'.store j := by
  induction h with
  | start => exact .of_status rfl
  | pass hbefore hp ih => exact ih.trans (pass_populates hp (run_filed hbefore ho hs) j).keeps
  | between _ hu ih => exact ih.trans (.of_status ((ho _ _ hu).statuses j))

theorem run_unpersisted (h : Scene.Run others u ps u') (ho : ∀ v w, others v w → v.Edits w)
    (hs : ∀ k, u.store.Filed k) (hnone : ∀ p ∈ ps, ∀ new, ¬Persists p.exchanges j new) :
    u'.store.status? j = u.store.status? j := by
  induction h with
  | start => rfl
  | @pass ps p hbefore hp ih =>
    have hlast := hnone p (List.mem_append_right _ (List.mem_singleton_self p))
    rw [(pass_populates hp (run_filed hbefore ho hs) j).unpersisted hlast]
    exact ih fun q hq => hnone q (List.mem_append_left _ hq)
  | between _ hu ih => rw [(ho _ _ hu).statuses, ih hnone]

/-- A version of the server is first stored by a pass that finds the deployment ready, and it is
that of the operator of this pass. -/
theorem run_served (h : Scene.Run others u ps u') (ho : ∀ v w, others v w → v.Edits w)
    (hs : ∀ k, u.store.Filed k) (hnone : u.store.serverVersion? j = none) {v : String}
    (hv : u'.store.serverVersion? j = some v) :
    ∃ p ∈ ps, p.before.store.serverVersion? j = none ∧
      p.after.store.serverVersion? j = some v ∧
      p.after.store.verdict? j .deployment = some "True" ∧
      p.operator.config.stackVersion = some v := by
  induction h with
  | start =>
    rw [hnone] at hv
    cases hv
  | @pass ps p hbefore hp ih =>
    have hpopulates := pass_populates hp (run_filed hbefore ho hs) j
    cases hbetween : p.before.store.serverVersion? j with
    | none =>
      have hserved := hpopulates.served hbetween v hv
      exact ⟨p, List.mem_append_right _ (List.mem_singleton_self p), hbetween, hv, hserved⟩
    | some w =>
      obtain rfl := Option.some.inj ((hpopulates.keeps.server w hbetween).symm.trans hv)
      obtain ⟨q, hq, hserved⟩ := ih hbetween
      exact ⟨q, List.mem_append_left _ hq, hserved⟩
  | between _ hu ih =>
    refine ih ?_
    rwa [Store.serverVersion?, Store.versions?, (ho _ _ hu).statuses] at hv

/-- In every run of passes, by operators of any versions, each version that is stored stays as it
is, that of the server is first stored with a ready deployment, and a stored status bears the time
of the pass that persisted it. -/
theorem run_versions (h : Scene.Run others u ps u') (ho : ∀ v w, others v w → v.Edits w)
    (hs : ∀ k, u.store.Filed k) (j : Key) :
    u.store.KeepsVersions u'.store j ∧
      (u.store.serverVersion? j = none → ∀ v, u'.store.serverVersion? j = some v →
        ∃ p ∈ ps, p.before.store.serverVersion? j = none ∧
          p.after.store.serverVersion? j = some v ∧
          p.after.store.verdict? j .deployment = some "True" ∧
          p.operator.config.stackVersion = some v) ∧
      ∀ ps₁ p ps₂, ps = ps₁ ++ p :: ps₂ →
        p.Populates j ∧ p.after.store.KeepsVersions u'.store j ∧
          ((∀ q ∈ ps₂, ∀ new, ¬Persists q.exchanges j new) →
            u'.store.status? j = p.after.store.status? j) := by
  refine ⟨run_keepsVersions h ho hs, fun hnone v hv => run_served h ho hs hnone hv, ?_⟩
  rintro ps₁ p ps₂ rfl
  obtain ⟨hbefore, hmade⟩ := h.upTo
  have hafter := run_filed (.pass hbefore hmade) ho hs
  refine ⟨pass_populates hmade (run_filed hbefore ho hs) j, ?_, ?_⟩
  · exact run_keepsVersions h.after ho hafter
  · exact run_unpersisted h.after ho hafter

end Runs

/-! Two operators of different versions, over a distribution that has a version of the server. -/

/-- The sample distribution, known to be served by this version. -/
def Distribution.served (version : String) : Distribution :=
  { Distribution.sample with
    status := some { Status.blank with versions := ⟨none, some version, none⟩ } }

/-- The rehearsal after a pass of an operator. -/
def Rehearsal.passedBy (o : Operator) (r : Rehearsal) : Rehearsal :=
  ((pass o ⟨"ai", "demo"⟩).run answer r).2.2

/-- A pass of an operator over the sample distribution. -/
def PassRecord.madeBy (o : Operator) (r : Rehearsal) : PassRecord where
  operator := o
  key := ⟨"ai", "demo"⟩
  before := r.scene
  exchanges := (pass o ⟨"ai", "demo"⟩).transcript Rehearsal.answer r
  result := ((pass o ⟨"ai", "demo"⟩).run Rehearsal.answer r).1
  after := (r.passedBy o).scene

theorem madeBy_made (o : Operator) (r : Rehearsal) : (PassRecord.madeBy o r).Made :=
  r.performs _

theorem upgraded_run (o o' : Operator) (r : Rehearsal) :
    Scene.Run Scene.Edits r.scene ([.madeBy o r] ++ [.madeBy o' (r.passedBy o)])
      (PassRecord.madeBy o' (r.passedBy o)).after :=
  .pass (.pass (.start _) (madeBy_made o r)) (madeBy_made o' _)

/-- The first operator fills in its version, and neither changes that of the server. -/
theorem run_versions_upgrade :
    let r := (Rehearsal.start .epoch).edited (.served "0.1")
    let p := PassRecord.madeBy (.versioned "1.0" "0.2") r
    let p' := PassRecord.madeBy (.versioned "2.0" "0.3") (r.passedBy (.versioned "1.0" "0.2"))
    r.scene.store.operatorVersion? ⟨"ai", "demo"⟩ = none ∧
      p.after.store.operatorVersion? ⟨"ai", "demo"⟩ = some "1.0" ∧
      p'.after.store.operatorVersion? ⟨"ai", "demo"⟩ = some "1.0" ∧
      p'.after.store.serverVersion? ⟨"ai", "demo"⟩ = some "0.1" := by
  intro r p p'
  have hrun : Scene.Run Scene.Edits r.scene ([p] ++ [p']) p'.after := upgraded_run _ _ r
  have hown : p.after.store.operatorVersion? ⟨"ai", "demo"⟩ = some "1.0" := by decide +kernel
  obtain ⟨hkeeps, _, hpasses⟩ := run_versions hrun (fun _ _ h => h) (Rehearsal.first_filed rfl)
    ⟨"ai", "demo"⟩
  obtain ⟨_, hlater, _⟩ := hpasses [] p [p'] rfl
  exact ⟨rfl, hown, hlater.operator _ hown, hkeeps.server _ rfl⟩

end DistributionOperator
