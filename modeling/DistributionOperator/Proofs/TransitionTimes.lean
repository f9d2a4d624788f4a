import DistributionOperator.Proofs.ConditionReports
import DistributionOperator.Proofs.StatusCourses

/-! Since when the stored conditions hold. The time of a condition is a reading of the clock by the
last pass that persisted another verdict than the one before, or the first one; nothing else moves
it. -/

namespace DistributionOperator

open Program

/-- What is stored of an aspect. -/
def Store.condition? (s : Store) (j : Key) (a : Aspect) : Option Condition :=
  (s.status? j).bind (·.condition? a.type)

def Store.verdict? (s : Store) (j : Key) (a : Aspect) : Option String :=
  (s.condition? j a).map (·.status)

def Store.since? (s : Store) (j : Key) (a : Aspect) : Option Timestamp :=
  (s.condition? j a).bind (·.lastTransitionTime)

namespace PassRecord

/-- A pass that persists another verdict on an aspect than the stored one, or the first one. -/
def Turns (p : PassRecord) (j : Key) (a : Aspect) : Prop :=
  (∃ new, Persists p.exchanges j new) ∧ p.after.store.verdict? j a ≠ p.before.store.verdict? j a

/-- Whether a pass looks at an aspect of the distribution that it found. -/
def Examines (p : PassRecord) (a : Aspect) : Prop :=
  ∃ d r, p.Synchronized d r ∧ a ∈ d.examined (failureOf r)

/-- What the clock tells a pass when it reports on an aspect. There is one reading for each aspect
that it looks at, in their order. -/
def ReadsClock (p : PassRecord) (a : Aspect) (now : Timestamp) : Prop :=
  ∃ d r, p.Synchronized d r ∧ (a, now) ∈ (d.examined (failureOf r)).zip (clockReadings p.exchanges)

end PassRecord

section Passes

variable {p : PassRecord} {d : Distribution} {j : Key} {new : Status}
  {r : Except OperatorError Unit} {a : Aspect}

/-- Of the parts of a pass, only the update of the status asks the clock. -/
theorem clockReadings_parts {o : Operator} {k : Key}
    {answer : Except StoreError (Option Distribution)} {t t₁ t₂ t₃ : List Exchange}
    (hr : ∀ x ∈ t₁ ++ t₃, x.call.Recalls) (hs : (synchronize o d).Dialogue t r) :
    clockReadings (⟨.store (.getDistribution k), answer⟩ :: (t₁ ++ ((t ++ t₂) ++ t₃))) =
      clockReadings t₂ := by
  have hrecalls : ∀ x ∈ t₁ ++ t₃, x.call ≠ .now := by
    intro x hx hnow
    have hc := hr x hx
    rw [hnow] at hc
    exact hc
  have hsync : ∀ x ∈ t, x.call ≠ .now := by
    intro x hx hnow
    have hc := (synchronize_within o d).of_dialogue hs x hx
    rw [hnow] at hc
    exact hc
  have hread : clockReadings [⟨.store (.getDistribution k), answer⟩] = [] := rfl
  rw [← List.singleton_append]
  simp only [clockReadings_append, hread, clockReadings_nil_of hsync,
    clockReadings_nil_of fun x hx => hrecalls x (List.mem_append_left _ hx),
    clockReadings_nil_of fun x hx => hrecalls x (List.mem_append_right _ hx), List.nil_append,
    List.append_nil]

/-- A pass that persisted a status read the clock for its evaluation, and for nothing else. -/
theorem PassRecord.Reports.clock (h : p.Reports j d r new) (hmade : p.Made) :
    ∃ t, (evaluate p.operator d (failureOf r)).Dialogue t (.ok new) ∧
      clockReadings p.exchanges = clockReadings t := by
  rcases pass_dialogue hmade.dialogue with
    ⟨answer, t₁, ht, _, hnot, _⟩ | ⟨d', t₁, t₂, t₃, ht, hr, hw⟩
  · obtain ⟨_, _, hfilter, _⟩ := h.synchronized
    rw [ht, List.filter_cons_of_pos rfl] at hfilter
    obtain ⟨hhead, _⟩ := List.cons_eq_cons.mp hfilter
    cases hhead
    exact absurd rfl (hnot d)
  · obtain ⟨synced, written, ts, tw, rfl, hs, hu, _⟩ := workOn_dialogue hw
    have hsync : p.Synchronized d' synced :=
      ⟨ts, tw.filter (!·.isMemory), by rw [ht, filter_parts rfl hr hs], hs⟩
    obtain ⟨rfl, rfl⟩ := hsync.unique h.synchronized
    have hpersists := h.persists
    rw [ht, persists_parts hr hs] at hpersists
    obtain ⟨_, t, heval, rfl⟩ := persists_evaluated hu hpersists
    refine ⟨t, heval, ?_⟩
    rw [ht, clockReadings_parts hr hs, clockReadings_append]
    exact List.append_nil _

/-- The reports of a pass that persisted a status are what makes its conditions. -/
theorem PassRecord.Reports.all (h : p.Reports j d r new) (hmade : p.Made) :
    ∃ rs : List Report, rs.map (·.aspect) = d.examined (failureOf r) ∧
      (new.over d.status).conditions = Report.all (d.status.getD .blank).conditions rs ∧
      ∀ x ∈ rs, p.ReadsClock x.aspect x.time := by
  obtain ⟨t, heval, hclock⟩ := h.clock hmade
  obtain ⟨rs, last, haspects, htimes, hconditions, _⟩ := evaluate_reports heval
  refine ⟨rs, haspects, hconditions, fun x hx => ⟨d, r, h.synchronized, ?_⟩⟩
  rw [hclock, htimes, ← haspects, ← List.append_nil (rs.map (·.aspect)),
    List.zip_append (by simp), List.zip_map']
  exact List.mem_append_left _ (List.mem_map_of_mem hx)

theorem condition?_getD (old : Option Status) (a : Aspect) :
    (old.getD .blank).condition? a.type = old.bind (·.condition? a.type) := by
  cases old <;> rfl

/-- What a pass does to the stored condition of an aspect: nothing, or it reports on it. -/
theorem pass_condition (h : p.Made) (hs : ∀ k, p.before.store.Filed k) (j : Key) (a : Aspect) :
    p.after.store.condition? j a = p.before.store.condition? j a ∨
      (∃ new, Persists p.exchanges j new) ∧ p.Examines a ∧ ∃ x : Report, x.aspect = a ∧
        p.ReadsClock a x.time ∧
        p.after.store.condition? j a = some (x.condition (p.before.store.condition? j a)) := by
  rcases pass_status h hs j with ⟨hsame, _⟩ | ⟨d, r, new, hreports, hfound, hstored⟩
  · left
    rw [Store.condition?, hsame, Store.condition?]
  · obtain ⟨rs, haspects, hconditions, hclock⟩ := hreports.all h
    have hold : p.before.store.condition? j a = (d.status.getD .blank).condition? a.type := by
      rw [Store.condition?, hfound, condition?_getD]
    have hnew : p.after.store.condition? j a =
        (Report.all (d.status.getD .blank).conditions rs).find? (·.type = a.type) := by
      rw [Store.condition?, hstored, ← hconditions]
      rfl
    by_cases ha : a ∈ rs.map (·.aspect)
    · obtain ⟨x, hx, rfl⟩ := List.mem_map.mp ha
      have hnodup : (rs.map (·.aspect)).Nodup := haspects ▸ d.examined_nodup _
      refine .inr ⟨⟨new, hreports.persists⟩, ⟨d, r, hreports.synchronized, haspects ▸ ha⟩, x, rfl,
        hclock x hx, ?_⟩
      rw [hnew, Report.find_all hnodup hx, hold]
      rfl
    · left
      rw [hnew, Report.find_all_other ha, hold]
      rfl

/-- A pass that turns no verdict on an aspect leaves the time of its condition as it is. -/
theorem pass_since_kept (h : p.Made) (hs : ∀ k, p.before.store.Filed k)
    (hnot : ¬p.Turns j a) : p.after.store.since? j a = p.before.store.since? j a ∧
      p.after.store.verdict? j a = p.before.store.verdict? j a := by
  rcases pass_condition h hs j a with hsame | ⟨hpersists, _, x, _, _, hafter⟩
  · rw [Store.since?, Store.verdict?, hsame]
    exact ⟨rfl, rfl⟩
  · have hverdict : p.after.store.verdict? j a = p.before.store.verdict? j a :=
      not_not.mp fun hne => hnot ⟨hpersists, hne⟩
    refine ⟨?_, hverdict⟩
    have hold : (p.before.store.condition? j a).map (·.status) = some (truth x.ready) := by
      rw [← Store.verdict?, ← hverdict, Store.verdict?, hafter, Option.map_some,
        Report.condition_status]
    rw [Store.since?, hafter, Option.bind_some, Report.condition_time, if_pos hold, Store.since?]

/-- A pass that turns a verdict makes the condition hold since its reading of the clock. -/
theorem pass_since_turned (h : p.Made) (hs : ∀ k, p.before.store.Filed k) (hturns : p.Turns j a) :
    ∃ now, p.ReadsClock a now ∧ p.after.store.since? j a = some now := by
  rcases pass_condition h hs j a with hsame | ⟨_, _, x, _, hclock, hafter⟩
  · refine absurd ?_ hturns.2
    rw [Store.verdict?, hsame, Store.verdict?]
  · refine ⟨x.time, hclock, ?_⟩
    have hnew : (p.before.store.condition? j a).map (·.status) ≠ some (truth x.ready) := by
      intro hold
      refine hturns.2 ?_
      rw [Store.verdict?, hafter, Option.map_some, Report.condition_status, Store.verdict?, hold]
    rw [Store.since?, hafter, Option.bind_some, Report.condition_time, if_neg hnew]

end Passes

/-- What the clock told the last pass that turned the verdict on an aspect. -/
inductive LastTurned (j : Key) (a : Aspect) : List PassRecord → Timestamp → Prop where
  | turned {ps : List PassRecord} {p : PassRecord} {now : Timestamp} (hp : p.Turns j a)
      (hc : p.ReadsClock a now) : LastTurned j a (ps ++ [p]) now
  | kept {ps : List PassRecord} {p : PassRecord} {now : Timestamp} (h : LastTurned j a ps now)
      (hp : ¬p.Turns j a) : LastTurned j a (ps ++ [p]) now

/-- What a pass leaves as it is: all that is stored if it persists nothing, the times of conditions
whose verdict it does not turn, and the conditions that it does not look at. -/
structure PassRecord.KeepsTimes (p : PassRecord) (j : Key) : Prop where
  unpersisted : (∀ new, ¬Persists p.exchanges j new) →
    p.after.store.status? j = p.before.store.status? j
  unturned : ∀ a, ¬p.Turns j a → p.after.store.since? j a = p.before.store.since? j a
  unexamined : ∀ a, ¬p.Examines a → p.after.store.condition? j a = p.before.store.condition? j a

theorem pass_keepsTimes {p : PassRecord} (h : p.Made) (hs : ∀ k, p.before.store.Filed k) (j : Key) :
    p.KeepsTimes j where
  unpersisted hnone := by
    rcases pass_status h hs j with ⟨hsame, _⟩ | ⟨d, r, new, hreports, _⟩
    · exact hsame
    · exact absurd hreports.persists (hnone new)
  unturned _ hnot := (pass_since_kept h hs hnot).1
  unexamined a hnot := (pass_condition h hs j a).resolve_right fun he => hnot he.2.1

/-- Conditions of aspects, at most one of each. -/
structure Status.Orderly (s : Status) : Prop where
  oneEach : s.OneEach
  aspects : ∀ c ∈ s.conditions, ∃ a : Aspect, c.type = a.type

theorem Status.Orderly.reported {s s' : Status} (h : s.Orderly) {rs : List Report}
    (hc : s'.conditions = Report.all s.conditions rs) : s'.Orderly where
  oneEach := by
    rw [OneEach, hc]
    exact Report.all_nodup h.oneEach rs
  aspects c hm := by
    rw [hc] at hm
    rcases Report.mem_all_type (List.mem_map_of_mem hm) with hnew | hold
    · obtain ⟨x, _, hx⟩ := List.mem_map.mp hnew
      exact ⟨x.aspect, hx.symm⟩
    · obtain ⟨c', hm', hc'⟩ := List.mem_map.mp hold
      obtain ⟨a, ha⟩ := h.aspects c' hm'
      exact ⟨a, hc'.symm.trans ha⟩

theorem Status.orderly_of_nil {s : Status} (h : s.conditions = []) : s.Orderly where
  oneEach := by simp [OneEach, h]
  aspects := by simp [h]

section Runs

variable {others : Scene → Scene → Prop} {u u' : Scene} {ps : List PassRecord} {j : Key}
  (h : Scene.Run others u ps u') (ho : ∀ v w, others v w → v.Edits w)
  (hs : ∀ k, u.store.Filed k) (hstart : ∀ st ∈ u.store.status? j, st.conditions = [])

include h ho hs hstart

theorem run_orderly : ∀ st ∈ u'.store.status? j, st.Orderly := by
  refine run_status (P := fun _ old => ∀ st ∈ old, st.Orderly) h ho hs
    (fun st hst => Status.orderly_of_nil (hstart st hst)) (fun _ _ _ _ ih => ih) ?_
  intro ps p d r new hreports ih st hst
  obtain rfl := Option.mem_some_iff.mp hst
  obtain ⟨t, heval⟩ := hreports.evaluated
  obtain ⟨rs, last, _, _, hconditions, _⟩ := evaluate_reports heval
  have hold : (d.status.getD .blank).Orderly := by
    cases hd : d.status with
    | none => exact Status.orderly_of_nil rfl
    | some st => exact ih st hd
  exact hold.reported hconditions

theorem run_since (a : Aspect) : u'.store.verdict? j a ≠ none →
    ∃ now, u'.store.since? j a = some now ∧ LastTurned j a ps now := by
  induction h with
  | start =>
    intro hsome
    refine absurd ?_ hsome
    cases hst : u.store.status? j with
    | none => simp [Store.verdict?, Store.condition?, hst]
    | some st => simp [Store.verdict?, Store.condition?, Status.condition?, hst, hstart st hst]
  | @pass ps p hbefore hp ih =>
    intro hsome
    have hfiled := run_filed hbefore ho hs
    by_cases hturns : p.Turns j a
    · obtain ⟨now, hclock, hsince⟩ := pass_since_turned hp hfiled hturns
      exact ⟨now, hsince, .turned hturns hclock⟩
    · obtain ⟨hsince, hverdict⟩ := pass_since_kept hp hfiled hturns
      obtain ⟨now, hnow, hlast⟩ := ih (hverdict ▸ hsome)
      exact ⟨now, hsince.trans hnow, hlast.kept hturns⟩
  | @between u₁ u₂ ps hbefore hu ih =>
    have hsame : u₂.store.condition? j a = u₁.store.condition? j a := by
      rw [Store.condition?, (ho _ _ hu).statuses, Store.condition?]
    rwa [Store.verdict?, Store.since?, hsame]

/-- In every run that begins without conditions there is never more than one condition of a type,
and each has held since the last pass that persisted another verdict than the one before, or the
first one, read the clock for it. Passes that persist nothing, report the same verdict or do not look
at an aspect leave the time of its condition alone. -/
theorem run_transition_times :
    (∀ st ∈ u'.store.status? j, st.OneEach ∧ ∀ c ∈ st.conditions, ∃ a now, c.type = Aspect.type a ∧
      c.lastTransitionTime = some now ∧ LastTurned j a ps now) ∧
    ∀ p ∈ ps, p.KeepsTimes j := by
  refine ⟨fun st hst => ?_, fun p hp => ?_⟩
  · have horderly := run_orderly h ho hs hstart st hst
    refine ⟨horderly.oneEach, fun c hc => ?_⟩
    obtain ⟨a, ha⟩ := horderly.aspects c hc
    have hfound : u'.store.condition? j a = some c := by
      rw [Store.condition?, hst]
      exact horderly.oneEach.condition?_eq hc ha
    obtain ⟨now, hnow, hlast⟩ := run_since h ho hs hstart a (by simp [Store.verdict?, hfound])
    rw [Store.since?, hfound] at hnow
    exact ⟨a, now, ha, hnow, hlast⟩
  · obtain ⟨ps₁, ps₂, rfl⟩ := List.append_of_mem hp
    obtain ⟨hbefore, hmade⟩ := h.upTo
    exact pass_keepsTimes hmade (run_filed hbefore ho hs) j

end Runs

/-! Two passes, an hour apart, with the spec edited in between. -/

namespace Rehearsal

/-- An hour after a pass, with another spec. -/
def anHourLater (r : Rehearsal) (spec : Spec) : Rehearsal :=
  { r.passed.respecified spec with
    clock := { Timestamp.epoch with hour := 1, time_valid := by decide } }

theorem anHourLater_run (r : Rehearsal) (spec : Spec) :
    Scene.Run Scene.Edits r.scene ([.sample r] ++ [.sample (r.anHourLater spec)])
      (PassRecord.sample (r.anHourLater spec)).after :=
  .pass (p := .sample (r.anHourLater spec))
    (.between (.pass (.start _) (sample_made r)) (r.passed.respecified_edits spec)) (sample_made _)

end Rehearsal

/-- The second pass persists a status of its own time, and leaves the time of the condition. -/
theorem run_transition_times_later :
    let r := (Rehearsal.start .epoch).edited .full
    let p := PassRecord.sample (r.anHourLater Distribution.sample.spec)
    ∃ st c now, p.after.store.status? ⟨"ai", "demo"⟩ = some st ∧ c ∈ st.conditions ∧
      c.type = Aspect.deployment.type ∧ c.lastTransitionTime = some now ∧ now.hour = 0 ∧
      st.versions.lastUpdated.map (·.hour) = some 1 ∧
      LastTurned ⟨"ai", "demo"⟩ .deployment ([.sample r] ++ [p]) now := by
  intro r p
  have hrun := r.anHourLater_run Distribution.sample.spec
  have hstart : ∀ st ∈ r.scene.store.status? ⟨"ai", "demo"⟩, st.conditions = [] := by
    rw [Rehearsal.first_status rfl]
    simp
  have hhours : (p.after.store.status? ⟨"ai", "demo"⟩).map (fun st =>
      (st.versions.lastUpdated.map (·.hour), (st.condition? Aspect.deployment.type).bind
        fun c => c.lastTransitionTime.map (·.hour))) = some (some 1, some 0) := by decide +kernel
  obtain ⟨st, hst, hhours⟩ := Option.map_eq_some_iff.mp hhours
  obtain ⟨hupdated, hsince⟩ := Prod.mk.inj hhours
  obtain ⟨c, hfound, hsince⟩ := Option.bind_eq_some_iff.mp hsince
  obtain ⟨now, hnow, hhour⟩ := Option.map_eq_some_iff.mp hsince
  have hc : c ∈ st.conditions := List.mem_of_find?_eq_some hfound
  have htype : c.type = Aspect.deployment.type := by simpa using List.find?_some hfound
  obtain ⟨_, hconditions⟩ :=
    (run_transition_times hrun (fun _ _ h => h) (Rehearsal.first_filed rfl) hstart).1 st hst
  obtain ⟨a, now', ha, hnow', hlast⟩ := hconditions c hc
  obtain rfl := Aspect.type_inj.mp (htype.symm.trans ha)
  obtain rfl := Option.some.inj (hnow.symm.trans hnow')
  exact ⟨st, c, now, hst, hc, htype, hnow, hhour, hupdated, hlast⟩

end DistributionOperator
