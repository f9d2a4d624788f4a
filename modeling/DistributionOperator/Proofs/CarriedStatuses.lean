import DistributionOperator.Proofs.PhaseTable
import DistributionOperator.Proofs.StatusCourses

/-! What a status carries over from the one before. A condition, once there, stays whatever the spec
asks for later, and the distribution in use is told anew only by a pass whose synchronization went
well. -/

namespace DistributionOperator

open Program

namespace Status

def Tells (s : Status) (a : Aspect) : Prop := ∃ c ∈ s.conditions, c.type = a.type

variable {s s' : Status} {a b : Aspect}

theorem tells_iff : s.Tells a ↔ s.verdict? a ≠ none := by
  simp [Tells, verdict?, condition?]

theorem Tells.congr (h : s.conditions = s'.conditions) : s.Tells a ↔ s'.Tells a := by
  rw [Tells, Tells, h]

theorem tells_report (s : Status) (a b : Aspect) (ready : Bool) (message : String)
    (now : Timestamp) : (s.report a ready message now).Tells b ↔ b = a ∨ s.Tells b := by
  rw [tells_iff, tells_iff, verdict?_report]
  by_cases h : a = b
  · simp [h]
  · have hne : b ≠ a := fun he => h he.symm
    simp [h, hne]

end Status

/-- Whether a distribution asks for what an aspect is about. All have a deployment and a health. -/
def Distribution.Requests (d : Distribution) : Aspect → Prop
  | .storage => d.spec.server.storage ≠ none
  | .service => d.hasPorts = true
  | .deployment | .health => True

variable {o : Operator} {d : Distribution} {s s' : Status} {t : List Exchange} {a : Aspect}

theorem judgeDeployment_tells {live : Option Child} {judged : Bool × Status}
    (h : (judgeDeployment o d live s).Dialogue t judged) :
    judged.2.Tells a ↔ a = .deployment ∨ s.Tells a := by
  obtain ⟨_, message, now, hconditions⟩ := judgeDeployment_matches h
  rw [Status.Tells.congr hconditions, Status.tells_report]

theorem evaluateStorage_tells (h : (evaluateStorage d s).Dialogue t s') :
    s'.Tells a ↔ (a = .storage ∧ d.Requests .storage) ∨ s.Tells a := by
  rcases evaluateStorage_dialogue h with ⟨hnone, _, rfl⟩ | ⟨answer, now, hsome, _, rfl⟩
  · simp [Distribution.Requests, hnone]
  · rw [Status.tells_report]
    simp [Distribution.Requests, hsome]

theorem evaluateService_tells (h : (evaluateService d s).Dialogue t s') :
    s'.Tells a ↔ (a = .service ∧ d.Requests .service) ∨ s.Tells a := by
  rcases evaluateService_dialogue h with ⟨hnone, _, rfl⟩ | ⟨answer, now, hsome, _, rfl⟩
  · simp [Distribution.Requests, hnone]
  · rw [Status.tells_report]
    simp [Distribution.Requests, hsome]

theorem skipHealth_carries (h : (skipHealth s).Dialogue t s') :
    s'.summary.activeDistribution = s.summary.activeDistribution ∧
      (s'.Tells a ↔ a = .health ∨ s.Tells a) := by
  obtain ⟨now, _, rfl⟩ := skipHealth_dialogue h
  exact ⟨rfl, s.tells_report _ _ _ _ _⟩

theorem checkHealth_carries (h : (checkHealth d s).Dialogue t s') :
    s'.summary.activeDistribution = s.summary.activeDistribution ∧
      (s'.Tells a ↔ a = .health ∨ s.Tells a) := by
  obtain ⟨answer, now, listed, _, rfl⟩ := checkHealth_dialogue h
  exact ⟨rfl, s.tells_report _ _ _ _ _⟩

/-- An observation tells of the distribution in use and has a condition for all that is asked for,
beside those that were there. -/
theorem observedStatus_carries (h : (observedStatus o d s).Dialogue t (.ok s')) (a : Aspect) :
    s'.summary.activeDistribution = d.active? ∧ (s'.Tells a ↔ d.Requests a ∨ s.Tells a) := by
  rcases observedStatus_dialogue h with ⟨_, _, hr⟩ |
    ⟨live, judged, t₁, t₂, t₃, t₄, s₂, s₃, s₄, _, h₁, h₂, h₃, h₄, hr⟩
  · cases hr
  · cases hr
    have hdeployment := judgeDeployment_tells (a := a) h₁
    have hstorage := evaluateStorage_tells (a := a) h₂
    have hservice := evaluateService_tells (a := a) h₃
    have hsummary : (o.summarize d s₃).Tells a ↔ s₃.Tells a := Iff.rfl
    have hlast : s'.summary.activeDistribution =
        (o.summarize d s₃).summary.activeDistribution ∧
          (s'.Tells a ↔ a = .health ∨ (o.summarize d s₃).Tells a) := by
      obtain ⟨ready, v⟩ := judged
      cases ready with
      | true => exact checkHealth_carries h₄
      | false => exact skipHealth_carries h₄
    refine ⟨hlast.1, ?_⟩
    rw [hlast.2, hsummary, hservice, hstorage, hdeployment]
    cases a <;> simp [Distribution.Requests]

theorem evaluate_observed_carries {new : Status}
    (h : (evaluate o d none).Dialogue t (.ok new)) (a : Aspect) :
    new.summary.activeDistribution = d.active? ∧
      (new.Tells a ↔ d.Requests a ∨ (d.status.getD .blank).Tells a) := by
  rcases evaluate_observed_dialogue h with ⟨_, _, hr⟩ | ⟨v, t₁, now, _, hv, hr⟩
  · cases hr
  · cases hr
    exact observedStatus_carries hv a

theorem evaluate_failed_carries {e : OperatorError} {new : Status}
    (h : (evaluate o d (some e)).Dialogue t (.ok new)) (a : Aspect) :
    new.summary.activeDistribution = (d.status.getD .blank).summary.activeDistribution ∧
      (new.Tells a ↔ a = .deployment ∨ (d.status.getD .blank).Tells a) := by
  obtain ⟨t₁, t₂, _, hr⟩ := evaluate_failed_dialogue h
  cases hr
  exact ⟨rfl, Status.tells_report _ _ _ _ _ _⟩

section Runs

variable {others : Scene → Scene → Prop} {u u' : Scene} {ps : List PassRecord} {p : PassRecord}
  {j : Key} {r : Except OperatorError Unit} {new : Status} {start : Option Status}

/-! Conditions: what was told once is told ever after. -/

theorem told_getD (old : Option Status) :
    (old.getD .blank).Tells a ↔ ∃ st ∈ old, st.Tells a := by
  cases old with
  | none => simp [Status.Tells, Status.blank]
  | some st => simp

/-- Whether an aspect has a condition at the start, or some pass told of a distribution that asked
for it. -/
def ToldBefore (a : Aspect) (j : Key) (start : Option Status) (ps : List PassRecord) : Prop :=
  (∃ st ∈ start, st.Tells a) ∨ ∃ q ∈ ps, ∃ e, q.TellsOf j e ∧ e.Requests a

theorem toldBefore_snoc :
    ToldBefore a j start (ps ++ [p]) ↔
      ToldBefore a j start ps ∨ ∃ e, p.TellsOf j e ∧ e.Requests a := by
  simp only [ToldBefore, List.mem_append, List.mem_singleton, or_and_right, exists_or, or_assoc,
    exists_eq_left]

/-- A report has the conditions of the status before and, if the synchronization went well, those
that are asked for. -/
theorem PassRecord.Reports.tells (h : p.Reports j d r new) (ha : a ≠ .deployment) :
    (new.over d.status).Tells a ↔
      (∃ st ∈ d.status, st.Tells a) ∨ ∃ e, p.TellsOf j e ∧ e.Requests a := by
  have hover : (new.over d.status).Tells a ↔ new.Tells a := Iff.rfl
  obtain ⟨t, heval⟩ := h.evaluated
  simp only [h.tellsOf_iff]
  cases r with
  | ok x =>
    rw [hover, (evaluate_observed_carries heval a).2, told_getD]
    simp [or_comm]
  | error e =>
    rw [hover, (evaluate_failed_carries heval a).2, told_getD]
    simp [ha]

theorem run_told (h : Scene.Run others u ps u') (ho : ∀ v w, others v w → v.Edits w)
    (hs : ∀ k, u.store.Filed k) (ha : a ≠ .deployment) :
    (∃ st ∈ u'.store.status? j, st.Tells a) ↔ ToldBefore a j (u.store.status? j) ps := by
  refine run_status (P := fun ps old => (∃ st ∈ old, st.Tells a) ↔
    ToldBefore a j (u.store.status? j) ps) h ho hs (by simp [ToldBefore]) ?_ ?_
  · intro ps p old hnone ih
    rw [ih, toldBefore_snoc]
    simp [not_tellsOf hnone]
  · intro ps p d r new hreports ih
    have htells := hreports.tells ha
    simp only [Option.mem_some_iff, exists_eq_left', toldBefore_snoc, htells, ih]

/-- Whatever happened before, and whatever specs others wrote, a pass whose synchronization went
well leaves a condition for all that its spec asks for. There is one for what it does not ask for
just if an earlier pass told of a spec that did, or if there was one at the start. -/
theorem run_conditions (h : Scene.Run others u ps u') (ho : ∀ v w, others v w → v.Edits w)
    (hs : ∀ k, u.store.Filed k) :
    ∀ ps₁ p ps₂ j d, ps = ps₁ ++ p :: ps₂ → p.TellsOf j d →
      ∃ st, p.after.store.status? j = some st ∧
        ∀ a, st.Tells a ↔ d.Requests a ∨ ToldBefore a j (u.store.status? j) ps₁ := by
  rintro ps₁ p ps₂ j d rfl ⟨hsync, new, hp⟩
  obtain ⟨hbefore, hmade⟩ := h.upTo
  rcases pass_status hmade (run_filed hbefore ho hs) j with
    ⟨_, hnone⟩ | ⟨d', r, new', hreports, hfound, hstored⟩
  · exact absurd hp (hnone new)
  · obtain ⟨rfl, rfl⟩ := hsync.unique hreports.synchronized
    refine ⟨_, hstored, fun a => ?_⟩
    -- failed passes tell of the deployment too, but that one is asked for in any case
    by_cases ha : a = .deployment
    · obtain ⟨t, heval⟩ := hreports.evaluated
      have hrequests : d.Requests a := by
        rw [ha]
        trivial
      have htells := (evaluate_observed_carries heval a).2.mpr (.inl hrequests)
      exact ⟨fun _ => .inl hrequests, fun _ => htells⟩
    · have hold := run_told (j := j) hbefore ho hs ha
      rw [hreports.tells ha, ← hfound, hold, or_comm]
      simp [hreports.tellsOf_iff]

theorem run_conditions_full :
    let p := PassRecord.sample ((Rehearsal.start .epoch).edited .full)
    ∃ d st, p.TellsOf ⟨"ai", "demo"⟩ d ∧ p.after.store.status? ⟨"ai", "demo"⟩ = some st ∧
      st.Tells .storage ∧ st.Tells .service := by
  intro p
  have hrun := sample_run Scene.Edits ((Rehearsal.start .epoch).edited .full)
  have hok : p.result = .ok ⟨some .initializing, some 10⟩ := by decide +kernel
  obtain ⟨d, hd, htells⟩ := tells_of_ok (sample_made _) hok (by simp)
  cases hd
  obtain ⟨st, hst, hiff⟩ := run_conditions hrun (fun _ _ h => h) (Rehearsal.first_filed rfl) [] p []
    ⟨"ai", "demo"⟩ _ rfl htells
  refine ⟨_, st, htells, hst, (hiff .storage).mpr (.inl ?_), (hiff .service).mpr (.inl rfl)⟩
  simp [Distribution.Requests, Distribution.full]

theorem conditions_outlive_spec : ¬∀ s ps s', Scene.Run Scene.Edits s ps s' →
    (∀ k, s.store.Filed k) → (∀ k, s.store.status? k = none) →
      ∀ p ∈ ps, ∀ j d, p.TellsOf j d → ∃ st, p.after.store.status? j = some st ∧
        (st.Tells .storage ↔ d.spec.server.storage ≠ none) ∧
        (st.Tells .service ↔ d.hasPorts = true) := by
  intro h
  let r := (Rehearsal.start .epoch).edited .full
  let p := PassRecord.sample (r.passed.respecified Distribution.sample.spec)
  have hrun := respecified_run r Distribution.sample.spec
  have hfiled : ∀ k, r.scene.store.Filed k := Rehearsal.first_filed rfl
  obtain ⟨hok, hstill⟩ : p.result = .ok ⟨some .initializing, some 10⟩ ∧
      (p.after.store.status? ⟨"ai", "demo"⟩).any
        (fun st => st.conditions.any (·.type = Aspect.storage.type)) = true := by decide +kernel
  obtain ⟨d, hd, htells⟩ := tells_of_ok (sample_made _) hok (by simp)
  obtain ⟨hkey, hspec⟩ := respecified_found hfiled hd
  obtain ⟨st, hst, hstorage, _⟩ := h _ _ _ hrun hfiled (Rehearsal.first_status rfl) p (by simp [p])
    d.key d htells
  rw [← hkey, hst] at hstill
  have htold : st.Tells .storage := by simpa [Status.Tells] using hstill
  rw [hspec] at hstorage
  exact hstorage.mp htold rfl

/-! The distribution in use: what was told last is told until it is told anew. -/

/-- The distribution in use as the passes told it: the last of them, whose synchronization went
well, counts. -/
inductive LastTold (j : Key) (start : Option String) : List PassRecord → Option String → Prop where
  | start : LastTold j start [] start
  | told {ps : List PassRecord} {p : PassRecord} {d : Distribution} {active : Option String}
      (h : LastTold j start ps active) (hp : p.TellsOf j d) : LastTold j start (ps ++ [p]) d.active?
  | kept {ps : List PassRecord} {p : PassRecord} {active : Option String}
      (h : LastTold j start ps active) (hp : ∀ d, ¬p.TellsOf j d) :
      LastTold j start (ps ++ [p]) active

/-- What a choice of image goes by: its name, a fixed word if it is given as an image, or nothing if
the choice is not valid. -/
inductive ImageChoice.GoesBy (c : ImageChoice) : Option String → Prop where
  | named {name : String} (hn : nonEmpty c.name = some name) (hi : nonEmpty c.image = none) :
      GoesBy c (some name)
  | explicit {image : String} (hn : nonEmpty c.name = none) (hi : nonEmpty c.image = some image) :
      GoesBy c (some "custom")
  | ambiguous {name image : String} (hn : nonEmpty c.name = some name)
      (hi : nonEmpty c.image = some image) : GoesBy c none
  | missing (hn : nonEmpty c.name = none) (hi : nonEmpty c.image = none) : GoesBy c none

theorem active?_goesBy (d : Distribution) : d.spec.server.choice.GoesBy d.active? := by
  unfold Distribution.active? ImageChoice.validate
  cases hn : nonEmpty d.spec.server.choice.name with
  | some name =>
    cases hi : nonEmpty d.spec.server.choice.image with
    | some image => exact .ambiguous hn hi
    | none => exact .named hn hi
  | none =>
    cases hi : nonEmpty d.spec.server.choice.image with
    | some image => exact .explicit hn hi
    | none => exact .missing hn hi

def Status.active? (old : Option Status) : Option String :=
  old.bind (·.summary.activeDistribution)

theorem active?_getD (old : Option Status) :
    (old.getD .blank).summary.activeDistribution = Status.active? old := by
  cases old with
  | none => rfl
  | some st => rfl

theorem PassRecord.Reports.active (h : p.Reports j d r new) :
    (r = .ok () → Status.active? (some (new.over d.status)) = d.active?) ∧
      ∀ e, r = .error e → Status.active? (some (new.over d.status)) = Status.active? d.status := by
  obtain ⟨t, heval⟩ := h.evaluated
  cases r with
  | ok => exact ⟨fun _ => (evaluate_observed_carries heval .deployment).1, by simp⟩
  | error e =>
    refine ⟨by simp, fun _ _ => ?_⟩
    rw [← active?_getD d.status]
    exact (evaluate_failed_carries heval .deployment).1

theorem run_lastTold (h : Scene.Run others u ps u') (ho : ∀ v w, others v w → v.Edits w)
    (hs : ∀ k, u.store.Filed k) :
    LastTold j (Status.active? (u.store.status? j)) ps (Status.active? (u'.store.status? j)) := by
  refine run_status (P := fun ps old => LastTold j (Status.active? (u.store.status? j)) ps
    (Status.active? old)) h ho hs .start ?_ ?_
  · exact fun ps p old hnone ih => ih.kept (not_tellsOf hnone)
  · intro ps p d r new hreports ih
    cases r with
    | ok =>
      rw [hreports.active.1 rfl]
      exact ih.told ((hreports.tellsOf_iff d).mpr ⟨rfl, rfl⟩)
    | error e =>
      rw [hreports.active.2 e rfl]
      exact ih.kept fun e' he' => by simpa using (hreports.tellsOf_iff e').mp he'

/-- A pass that persists a status and whose synchronization failed says the distribution in use that
was told before. So what it says is the one of its spec if and only if the synchronization went well
or nothing else was told before. -/
theorem run_active (h : Scene.Run others u ps u') (ho : ∀ v w, others v w → v.Edits w)
    (hs : ∀ k, u.store.Filed k) :
    ∀ ps₁ p ps₂ j new, ps = ps₁ ++ p :: ps₂ → Persists p.exchanges j new →
      ∃ d r st told, p.Finds d ∧ p.Synchronized d r ∧ p.after.store.status? j = some st ∧
        LastTold j (Status.active? (u.store.status? j)) ps₁ told ∧
        d.spec.server.choice.GoesBy d.active? ∧
        (∀ e, r = .error e → st.summary.activeDistribution = told) ∧
        (st.summary.activeDistribution = d.active? ↔ r = .ok () ∨ told = d.active?) := by
  rintro ps₁ p ps₂ j new rfl hp
  obtain ⟨hbefore, hmade⟩ := h.upTo
  rcases pass_status hmade (run_filed hbefore ho hs) j with
    ⟨_, hnone⟩ | ⟨d, r, new', hreports, hfound, hstored⟩
  · exact absurd hp (hnone new)
  · have htold := run_lastTold (j := j) hbefore ho hs
    rw [hfound] at htold
    refine ⟨d, r, _, _, hreports.finds, hreports.synchronized, hstored, htold, active?_goesBy d,
      hreports.active.2, ?_⟩
    cases r with
    | ok => exact ⟨fun _ => .inl rfl, fun _ => hreports.active.1 rfl⟩
    | error e =>
      have hkept := hreports.active.2 e rfl
      simp only [reduceCtorEq, false_or]
      rw [← hkept]
      rfl

theorem run_active_first :
    let p := PassRecord.sample ((Rehearsal.start .epoch).edited .sample)
    ∃ new st, Persists p.exchanges ⟨"ai", "demo"⟩ new ∧
      p.after.store.status? ⟨"ai", "demo"⟩ = some st ∧
        st.summary.activeDistribution = some "starter" := by
  intro p
  have hrun := sample_run Scene.Edits ((Rehearsal.start .epoch).edited .sample)
  have hok : p.result = .ok ⟨some .initializing, some 10⟩ := by decide +kernel
  obtain ⟨d, hd, hsync, new, hp⟩ := tells_of_ok (sample_made _) hok (by simp)
  cases hd
  obtain ⟨e, r, st, told, _, hsync', hst, _, _, _, hiff⟩ :=
    run_active hrun (fun _ _ h => h) (Rehearsal.first_filed rfl) [] p [] ⟨"ai", "demo"⟩ new rfl hp
  obtain ⟨rfl, rfl⟩ := hsync.unique hsync'
  exact ⟨new, st, hp, hst, hiff.mpr (.inl rfl)⟩

/-- A spec that names a distribution of which no image is known. -/
def Spec.bogus : Spec := ⟨1, { Server.blank with choice := ⟨some "bogus", none⟩ }⟩

theorem active_outlives_spec : ¬∀ s ps s', Scene.Run Scene.Edits s ps s' →
    (∀ k, s.store.Filed k) → (∀ k, s.store.status? k = none) →
      ∀ p ∈ ps, ∀ j d new, p.Finds d → Persists p.exchanges j new →
        ∃ st, p.after.store.status? j = some st ∧
          st.summary.activeDistribution = d.active? := by
  intro h
  let r := (Rehearsal.start .epoch).edited .sample
  let p := PassRecord.sample (r.passed.respecified .bogus)
  have hrun := respecified_run r .bogus
  have hfiled : ∀ k, r.scene.store.Filed k := Rehearsal.first_filed rfl
  have hafter : (p.after.store.status? ⟨"ai", "demo"⟩).map
      (fun st => (st.phase, st.summary.activeDistribution)) = some (.failed, some "starter") := by
    decide +kernel
  rcases pass_status (sample_made _) (respecified_filed hfiled .bogus) ⟨"ai", "demo"⟩ with
    ⟨hsame, _⟩ | ⟨d, _, new, hreports, _, _⟩
  · -- the first pass left another phase than the second one, which fails
    have hbefore : (p.before.store.status? ⟨"ai", "demo"⟩).map
        (fun st => (st.phase, st.summary.activeDistribution)) =
          some (.initializing, some "starter") := by decide +kernel
    rw [hsame, hbefore] at hafter
    cases hafter
  · obtain ⟨st, hst, hactive⟩ := h _ _ _ hrun hfiled (Rehearsal.first_status rfl) p (by simp [p])
      _ d new hreports.finds hreports.persists
    have hspec := (respecified_found hfiled hreports.finds).2
    rw [Distribution.active?, hspec] at hactive
    rw [hst, Option.map_some] at hafter
    have hstale : st.summary.activeDistribution = some "starter" :=
      congrArg Prod.snd (Option.some.inj hafter)
    have hsame : some "starter" = some "bogus" := hstale.symm.trans hactive
    exact absurd hsame (by decide)

end Runs

end DistributionOperator
