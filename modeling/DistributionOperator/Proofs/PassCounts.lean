import DistributionOperator.Proofs.ForgottenObjects

/-! What is counted and shown after any passes, delays and ends of distributions, in any order. Each
pass counts once by its outcome and, if it fails, once by its error. The gauge has four series for
a distribution, or none. -/

namespace DistributionOperator

open Program

namespace Family

variable (f : Family) (labels labels' : List String) (n : Nat)

def keys (f : Family) : List (List String) := f.map (·.1)

def count (f : Family) (labels : List String) : Nat := (f.get? labels).getD 0

def total (f : Family) : Nat := (f.map (·.2)).sum

theorem count_add :
    (f.add labels).count labels' = f.count labels' + if labels = labels' then 1 else 0 := by
  unfold count add
  rw [get?_put]
  by_cases h : labels = labels'
  · subst h
    simp
  · simp [h]

theorem total_put : (f.put labels n).total + f.count labels = f.total + n := by
  induction f with
  | nil => simp [put, total, count, get?]
  | cons e r ih =>
    unfold put count
    rw [get?_cons]
    by_cases h : e.1 = labels
    · simp only [h, if_true, total, List.map_cons, List.sum_cons, Option.getD_some]
      omega
    · simp only [h, if_false, total, List.map_cons, List.sum_cons] at ih ⊢
      have hcount : count r labels = (get? r labels).getD 0 := rfl
      omega

theorem total_add : (f.add labels).total = f.total + 1 := by
  have hput : (f.add labels).total + f.count labels = f.total + (f.count labels + 1) :=
    total_put f labels (f.count labels + 1)
  omega

theorem mem_keys_put {l : List String} :
    l ∈ (f.put labels n).keys ↔ l = labels ∨ l ∈ f.keys := by
  induction f with
  | nil => simp [put, keys]
  | cons e r ih =>
    simp only [keys, List.map_cons, List.mem_cons] at ih ⊢
    unfold put
    by_cases h : e.1 = labels
    · simp [h]
    · simp only [h, if_false, List.map_cons, List.mem_cons, ih]
      exact or_left_comm

theorem nodup_put {f : Family} (h : f.keys.Nodup) : (f.put labels n).keys.Nodup := by
  induction f with
  | nil => simp [put, keys]
  | cons e r ih =>
    obtain ⟨hnew, hrest⟩ := List.nodup_cons.mp h
    unfold put
    by_cases he : e.1 = labels
    · rw [if_pos he]
      exact List.nodup_cons.mpr ⟨he ▸ hnew, hrest⟩
    · rw [if_neg he]
      refine List.nodup_cons.mpr ⟨fun hmem => ?_, ih hrest⟩
      rcases (mem_keys_put r labels n).mp hmem with hl | hr
      · exact he hl
      · exact hnew hr

theorem keys_remove : (f.remove labels).keys.Sublist f.keys := List.filter_sublist.map _

theorem get?_eq_some_iff {f : Family} (h : f.keys.Nodup) :
    f.get? labels = some n ↔ (labels, n) ∈ f := by
  induction f with
  | nil => simp [get?]
  | cons e r ih =>
    obtain ⟨hnew, hrest⟩ := List.nodup_cons.mp h
    rw [get?_cons, List.mem_cons]
    by_cases he : e.1 = labels
    · have hnot : (labels, n) ∉ r := fun hm =>
        hnew (List.mem_map.mpr ⟨(labels, n), hm, he.symm⟩)
      simp [he, hnot, Prod.ext_iff, eq_comm]
    · have hne : (labels, n) ≠ e := fun hl => he (hl ▸ rfl)
      simp [he, hne, ih hrest]

end Family

namespace Metrics

variable {m : Metrics} {k : Key} {p : Phase} {shown : Option Phase}

/-- The gauge is a map whose labels are those of phases. -/
structure Labelled (m : Metrics) : Prop where
  nodup : m.phases.keys.Nodup
  form : ∀ l ∈ m.phases.keys, ∃ k p, l = phaseLabels k p

def seriesOf (m : Metrics) (k : Key) : Family :=
  m.phases.filter fun e => e.1.take 2 = [k.name, k.space]

/-- One series for each phase: one for the phase that is shown, zero for the others. -/
def fourSeries (k : Key) (shown : Phase) : Family :=
  Phase.all.map fun p => (phaseLabels k p, if p = shown then 1 else 0)

theorem mem_seriesOf (h : m.Labelled) {l : List String} {n : Nat} :
    (l, n) ∈ m.seriesOf k ↔ ∃ p, l = phaseLabels k p ∧ m.phase? k p = some n := by
  have hget : ∀ p, m.phase? k p = some n ↔ (phaseLabels k p, n) ∈ m.phases := fun p =>
    Family.get?_eq_some_iff (phaseLabels k p) n h.nodup
  simp only [seriesOf, List.mem_filter, decide_eq_true_eq, hget]
  constructor
  · rintro ⟨hmem, htake⟩
    obtain ⟨⟨space, name⟩, p, rfl⟩ := h.form l (List.mem_map_of_mem hmem)
    obtain ⟨hname, hspace⟩ : name = k.name ∧ space = k.space := by
      simpa [phaseLabels] using htake
    subst hname hspace
    exact ⟨p, rfl, hmem⟩
  · rintro ⟨p, rfl, hmem⟩
    exact ⟨hmem, rfl⟩

theorem nodup_seriesOf (h : m.Labelled) : (m.seriesOf k).Nodup :=
  (List.Nodup.of_map _ h.nodup).filter _

theorem nodup_fourSeries : (fourSeries k p).Nodup := by
  refine List.Nodup.map (fun q q' hq => ?_) (by decide)
  exact (phaseLabels_inj.mp (Prod.mk.inj hq).1).2

theorem Shows.seriesOf_nil (h : m.Labelled) (hs : m.Shows k none) : m.seriesOf k = [] := by
  refine List.eq_nil_iff_forall_not_mem.mpr fun ⟨l, n⟩ hmem => ?_
  obtain ⟨p, _, hp⟩ := (mem_seriesOf h).mp hmem
  rw [hs p] at hp
  cases hp

theorem Shows.seriesOf_four (h : m.Labelled) (hs : m.Shows k (some p)) :
    (m.seriesOf k).Perm (fourSeries k p) := by
  refine (List.perm_ext_iff_of_nodup (nodup_seriesOf h) nodup_fourSeries).mpr fun ⟨l, n⟩ => ?_
  have hall : ∀ q, q ∈ Phase.all := fun q => by cases q <;> decide
  simp only [mem_seriesOf h, fourSeries, List.mem_map, Prod.mk.injEq, hs _, hall, true_and,
    Option.map_some, Option.some.injEq]
  exact exists_congr fun q => and_congr_left' eq_comm

theorem labelled_empty (h : m.phases = []) : m.Labelled := by
  constructor <;> simp [h, Family.keys]

theorem Labelled.congr {m' : Metrics} (h : m.Labelled) (he : m'.phases = m.phases) :
    m'.Labelled := by
  obtain ⟨hnodup, hform⟩ := h
  constructor <;> rwa [he]

theorem Labelled.put (h : m.Labelled) (k : Key) (p : Phase) (n : Nat) :
    ({ m with phases := m.phases.put (phaseLabels k p) n } : Metrics).Labelled where
  nodup := Family.nodup_put _ _ h.nodup
  form l hl := by
    rcases (Family.mem_keys_put _ _ _).mp hl with rfl | hold
    · exact ⟨k, p, rfl⟩
    · exact h.form l hold

theorem Labelled.showPhase (h : m.Labelled) (k : Key) (p : Phase) : (m.showPhase k p).Labelled :=
  (((h.put k .pending _).put k .initializing _).put k .ready _).put k .failed _

theorem Labelled.remove (h : m.Labelled) (labels : List String) :
    ({ m with phases := m.phases.remove labels } : Metrics).Labelled where
  nodup := h.nodup.sublist (Family.keys_remove _ _)
  form l hl := h.form l ((Family.keys_remove _ _).mem hl)

theorem Labelled.forget (h : m.Labelled) (k : Key) : (m.forget k).Labelled :=
  (((h.remove _).remove _).remove _).remove _

end Metrics

namespace Deed

def result? : Deed → Option (Except OperatorError Outcome)
  | passed p => some p.result
  | _ => none

def failure? : Deed → Option OperatorError
  | passed p =>
    match p.result with
    | .ok _ => none
    | .error e => some e
  | _ => none

def SucceedsAt (k : Key) : Deed → Prop
  | passed p => p.key = k ∧ ∃ outcome, p.result = .ok outcome
  | _ => False

/-- A pass that ends well and tells of a phase. -/
def ShowsAt (k : Key) (phase : Phase) : Deed → Prop
  | passed p => p.key = k ∧ ∃ outcome, p.result = .ok outcome ∧ outcome.phase = some phase
  | _ => False

/-- A key is forgotten when it is pruned, and by a pass that finds nothing under it. -/
def ForgetsAt (k : Key) : Deed → Prop
  | passed p => p.key = k ∧ p.exchanges.head?.bind (·.specRead?) = some none
  | delayed _ _ _ _ => False
  | pruned r _ _ => r.key = k

end Deed

/-- The phase of the last pass over a key that ended well, if the key was not forgotten since. -/
def LastShown (ds : List Deed) (k : Key) (phase : Phase) : Prop :=
  ∃ ds₁ d ds₂, ds = ds₁ ++ d :: ds₂ ∧ d.ShowsAt k phase ∧
    ∀ e ∈ ds₂, ¬e.SucceedsAt k ∧ ¬e.ForgetsAt k

/-- Every pass over a key that ended well was followed by the key being forgotten, or forgot it. -/
def Unshown (ds : List Deed) (k : Key) : Prop :=
  ∀ ds₁ d ds₂, ds = ds₁ ++ d :: ds₂ → d.SucceedsAt k → ∃ e ∈ d :: ds₂, e.ForgetsAt k

/-- What the counters say after a list of deeds. -/
structure Metrics.Counts (m : Metrics) (ds : List Deed) : Prop where
  passes : m.passes.count ["success"] + m.passes.count ["error"] =
    (ds.filterMap Deed.result?).length
  errors : m.passes.count ["error"] = (ds.filterMap Deed.failure?).length
  failures : m.failures.total = m.passes.count ["error"]
  labels : ∀ label, m.failures.count [label] =
    (ds.filterMap Deed.failure?).countP (·.label = label)

variable {others : Scene → Scene → Prop} {s s' : Scene} {d : Deed} {ds ds₀ : List Deed} {k : Key}
  {p : Phase} {m : Metrics}

theorem snoc_split {ds₁ ds₂ : List Deed} {e : Deed} (h : ds ++ [d] = ds₁ ++ e :: ds₂) :
    (ds = ds₁ ∧ d = e ∧ ds₂ = []) ∨ ∃ init, ds₂ = init ++ [d] ∧ ds = ds₁ ++ e :: init := by
  rcases List.eq_nil_or_concat ds₂ with rfl | ⟨init, last, rfl⟩
  · obtain ⟨hds, hlast⟩ := List.append_inj' h rfl
    exact .inl ⟨hds, List.singleton_inj.mp hlast, rfl⟩
  · rw [List.concat_eq_append, ← List.cons_append, ← List.append_assoc] at h
    obtain ⟨hds, hlast⟩ := List.append_inj' h rfl
    rw [List.singleton_inj.mp hlast, List.concat_eq_append]
    exact .inr ⟨init, rfl, hds⟩

theorem LastShown.of_shows (h : d.ShowsAt k p) : LastShown (ds ++ [d]) k p :=
  ⟨ds, d, [], rfl, h, by simp⟩

theorem LastShown.kept (h : LastShown ds k p) (hs : ¬d.SucceedsAt k) (hf : ¬d.ForgetsAt k) :
    LastShown (ds ++ [d]) k p := by
  obtain ⟨ds₁, e, ds₂, rfl, he, hlater⟩ := h
  refine ⟨ds₁, e, ds₂ ++ [d], by simp, he, ?_⟩
  exact List.forall_mem_append.mpr ⟨hlater, List.forall_mem_singleton.mpr ⟨hs, hf⟩⟩

theorem Unshown.of_forgets (h : d.ForgetsAt k) : Unshown (ds ++ [d]) k := by
  intro ds₁ e ds₂ hds _
  rcases snoc_split hds with ⟨_, rfl, _⟩ | ⟨init, rfl, _⟩
  · exact ⟨d, by simp, h⟩
  · exact ⟨d, by simp, h⟩

theorem Unshown.kept (h : Unshown ds k) (hs : ¬d.SucceedsAt k) : Unshown (ds ++ [d]) k := by
  intro ds₁ e ds₂ hds he
  rcases snoc_split hds with ⟨_, rfl, _⟩ | ⟨init, rfl, hinit⟩
  · exact absurd he hs
  · obtain ⟨e', hmem, hforgets⟩ := h ds₁ e init hinit he
    exact ⟨e', by simp only [List.mem_cons, List.mem_append] at hmem ⊢; tauto, hforgets⟩

namespace Metrics

theorem Counts.congr {m' : Metrics} (h : m.Counts ds) (hp : m'.passes = m.passes)
    (hf : m'.failures = m.failures) : m'.Counts ds := by
  obtain ⟨hpasses, herrors, hfailures, hlabels⟩ := h
  constructor <;> simpa only [hp, hf]

theorem Counts.unconcerned (h : m.Counts ds) (hr : d.result? = none) (hf : d.failure? = none) :
    m.Counts (ds ++ [d]) := by
  obtain ⟨hpasses, herrors, hfailures, hlabels⟩ := h
  constructor <;> simpa [hr, hf]

theorem Counts.success {r : Except OperatorError Outcome} (h : m.Counts ds)
    (hr : d.result? = some r) (hf : d.failure? = none) : m.countSuccess.Counts (ds ++ [d]) := by
  have hsuccess : m.countSuccess.passes.count ["success"] = m.passes.count ["success"] + 1 :=
    Family.count_add _ _ _
  have herror : m.countSuccess.passes.count ["error"] = m.passes.count ["error"] :=
    Family.count_add _ _ _
  have hpasses := h.passes
  constructor
  · simp only [List.filterMap_append, List.length_append, List.filterMap_cons, hr,
      List.filterMap_nil, List.length_singleton]
    omega
  · simpa [hf, herror] using h.errors
  · exact h.failures.trans herror.symm
  · intro label
    have hlabel : m.countSuccess.failures.count [label] =
        (ds.filterMap Deed.failure?).countP (·.label = label) := h.labels label
    simpa [hf] using hlabel

theorem Counts.failure {r : Except OperatorError Outcome} {e : OperatorError} (h : m.Counts ds)
    (hr : d.result? = some r) (hf : d.failure? = some e) :
    (m.countFailure e.label).Counts (ds ++ [d]) := by
  have hsuccess : (m.countFailure e.label).passes.count ["success"] =
      m.passes.count ["success"] := Family.count_add _ _ _
  have herror : (m.countFailure e.label).passes.count ["error"] = m.passes.count ["error"] + 1 :=
    Family.count_add _ _ _
  have htotal : (m.countFailure e.label).failures.total = m.failures.total + 1 :=
    Family.total_add _ _
  have hpasses := h.passes
  have herrors := h.errors
  have hfailures := h.failures
  constructor
  · simp only [List.filterMap_append, List.length_append, List.filterMap_cons, hr,
      List.filterMap_nil, List.length_singleton]
    omega
  · simp only [List.filterMap_append, List.length_append, List.filterMap_cons, hf,
      List.filterMap_nil, List.length_singleton]
    omega
  · omega
  · intro label
    have hlabel : (m.countFailure e.label).failures.count [label] =
        m.failures.count [label] + if [e.label] = [label] then 1 else 0 := Family.count_add _ _ _
    rw [hlabel, h.labels]
    simp [List.filterMap_append, hf, List.countP_singleton]

end Metrics

/-- The metrics once the end of a pass was noted. -/
def Metrics.ended (m : Metrics) (k : Key) : Except OperatorError Outcome → Metrics
  | .error e => m.countFailure e.label
  | .ok outcome => outcome.phase.elim m.countSuccess (m.countSuccess.showPhase k)

namespace Memory

theorem heard_metrics (m : Memory) (k : Key) (found : Option (Option Spec)) :
    (m.heard k found).metrics = m.metrics ∨ (m.heard k found).metrics = m.metrics.forget k := by
  rcases found with _ | _ | spec
  · exact .inl rfl
  · exact .inr rfl
  · left
    simp only [heard, resetFailures]
    split
    · split <;> rfl
    · rfl

theorem bookkept_metrics (m : Memory) (k : Key) (r : Except OperatorError Outcome) :
    (m.bookkept k r).metrics = m.metrics.ended k r := by
  cases r with
  | error e => rfl
  | ok outcome =>
    simp only [bookkept, resetFailures]
    split <;> rfl

end Memory

/-! What one deed does to the counters and the gauge, and then what all of them do. -/

theorem pass_metrics {q : PassRecord} (h : q.Made) :
    ∃ noted, (noted = q.before.memory.metrics ∨ noted = q.before.memory.metrics.forget q.key) ∧
      q.after.memory.metrics = noted.ended q.key q.result := by
  let read := q.exchanges.head?.bind (·.specRead?)
  refine ⟨(q.before.memory.heard q.key read).metrics, Memory.heard_metrics _ _ _, ?_⟩
  rw [pass_memory h, Memory.bookkept_metrics]

theorem delayed_metrics {r : Reference} {answer : Nat × UInt32} {before after : Scene}
    (h : (Deed.delayed r answer before after).Done) :
    after.memory.metrics = before.memory.metrics := by
  rw [(delayed_memory h).2]
  rfl

theorem pruned_metrics {r : Reference} {before after : Scene}
    (h : (Deed.pruned r before after).Done) :
    after.memory.metrics = before.memory.metrics.forget r.key := by
  rw [pruned_memory h]
  rfl

theorem pass_counts {q : PassRecord} (h : q.Made) (hc : q.before.memory.metrics.Counts ds) :
    q.after.memory.metrics.Counts (ds ++ [.passed q]) := by
  obtain ⟨noted, hnoted, hafter⟩ := pass_metrics h
  have hcounts : noted.Counts ds := by
    rcases hnoted with rfl | rfl
    · exact hc
    · exact hc.congr rfl rfl
  rw [hafter]
  cases hresult : q.result with
  | error e => exact hcounts.failure rfl (by simp [Deed.failure?, hresult])
  | ok outcome =>
    have hcounted := hcounts.success (d := .passed q) rfl (by simp [Deed.failure?, hresult])
    rw [Metrics.ended]
    cases outcome.phase with
    | none => exact hcounted
    | some p => exact hcounted.congr rfl rfl

theorem Deed.Done.counts (h : d.Done) (hc : d.before.memory.metrics.Counts ds) :
    d.after.memory.metrics.Counts (ds ++ [d]) := by
  cases d with
  | passed q => exact pass_counts h hc
  | delayed r answer before after =>
    have hsame : after.memory.metrics.Counts ds := delayed_metrics h ▸ hc
    exact hsame.unconcerned rfl rfl
  | pruned r before after =>
    have hforgot : (before.memory.metrics.forget r.key).Counts ds := hc.congr rfl rfl
    have hcounts : after.memory.metrics.Counts ds := pruned_metrics h ▸ hforgot
    exact hcounts.unconcerned rfl rfl

theorem pass_labelled {q : PassRecord} (h : q.Made) (hl : q.before.memory.metrics.Labelled) :
    q.after.memory.metrics.Labelled := by
  obtain ⟨noted, hnoted, hafter⟩ := pass_metrics h
  have hlabelled : noted.Labelled := by
    rcases hnoted with rfl | rfl
    · exact hl
    · exact hl.forget q.key
  rw [hafter]
  cases q.result with
  | error e => exact hlabelled.congr rfl
  | ok outcome =>
    have hcounted : noted.countSuccess.Labelled := hlabelled.congr rfl
    rw [Metrics.ended]
    cases outcome.phase with
    | none => exact hcounted
    | some p => exact hcounted.showPhase q.key p

/-- A pass fails to read its distribution, finds that there is none, or works on it and then tells
of a phase if it ends well. -/
theorem pass_reads {q : PassRecord} (h : q.Made) :
    (q.exchanges.head?.bind (·.specRead?) = none ∧ ∃ e, q.result = .error e) ∨
    (q.exchanges.head?.bind (·.specRead?) = some none ∧ q.result = .ok ⟨none, none⟩) ∨
    ((∃ spec, q.exchanges.head?.bind (·.specRead?) = some (some spec)) ∧
      ∀ outcome, q.result = .ok outcome → outcome.phase ≠ none) := by
  obtain ⟨r, t₁, _, ht, hv, hrest⟩ := dialogue_bind.mp h.dialogue
  obtain ⟨_, t₂, _, rfl, _, hdone⟩ := dialogue_bind.mp hrest
  obtain ⟨rfl, rfl⟩ := dialogue_done.mp hdone
  rw [ht]
  rcases dialogue_andThen.mp hv with ⟨e, he, hr⟩ | ⟨found, t₃, t₄, rfl, hf, hw⟩
  · obtain ⟨a, rfl, ha⟩ := dialogue_attempt.mp he
    cases a with
    | error cause => exact .inl ⟨rfl, e, hr⟩
    | ok found => cases ha
  · rw [dialogue_attempt_ok] at hf
    subst hf
    cases found with
    | none =>
      obtain ⟨_, _, _, _, _, hend⟩ := dialogue_bind.mp hw
      exact .inr (.inl ⟨rfl, (dialogue_done.mp hend).2⟩)
    | some d =>
      refine .inr (.inr ⟨⟨d.spec, rfl⟩, ?_⟩)
      obtain ⟨change, _, _, _, _, hworks⟩ := dialogue_bind.mp hw
      split at hworks
      · obtain ⟨_, _, _, _, _, hworks⟩ := dialogue_bind.mp hworks
        exact (workOn_phases hworks).2
      · exact (workOn_phases hworks).2

theorem Deed.Done.labelled (h : d.Done) (hl : d.before.memory.metrics.Labelled) :
    d.after.memory.metrics.Labelled := by
  cases d with
  | passed q => exact pass_labelled h hl
  | delayed r answer before after =>
    have hsame : after.memory.metrics = before.memory.metrics := delayed_metrics h
    exact hsame ▸ hl
  | pruned r before after =>
    have hforgot : after.memory.metrics = before.memory.metrics.forget r.key := pruned_metrics h
    exact hforgot ▸ hl.forget r.key

/-- What is to be shown for a key after some deeds. -/
def ToShow (ds : List Deed) (k : Key) : Option Phase → Prop
  | none => Unshown ds k
  | some p => LastShown ds k p

theorem ToShow.kept {shown : Option Phase} (h : ToShow ds k shown) (hs : ¬d.SucceedsAt k)
    (hf : ¬d.ForgetsAt k) : ToShow (ds ++ [d]) k shown := by
  cases shown with
  | none => exact Unshown.kept h hs
  | some p => exact LastShown.kept h hs hf

def Metrics.Follows (m : Metrics) (ds : List Deed) (k : Key) : Prop :=
  ∃ shown, m.Shows k shown ∧ ToShow ds k shown

theorem pass_follows {q : PassRecord} (h : q.Made) (hm : q.before.memory.metrics.Follows ds k) :
    q.after.memory.metrics.Follows (ds ++ [.passed q]) k := by
  obtain ⟨shown, hbefore, hto⟩ := hm
  have hafter := pass_shows h hbefore
  by_cases hk : k = q.key
  · subst hk
    rw [if_pos rfl] at hafter
    -- a pass that fails neither shows nor forgets anything
    have herror : ∀ e, q.result = .error e → q.exchanges.head?.bind (·.specRead?) ≠ some none →
        q.after.memory.metrics.Follows (ds ++ [.passed q]) q.key := by
      intro e he hread
      rw [he] at hafter
      refine ⟨shown, hafter, hto.kept ?_ fun hf => hread hf.2⟩
      rintro ⟨_, outcome, hok⟩
      rw [he] at hok
      cases hok
    rcases pass_reads h with ⟨hread, e, he⟩ | ⟨hread, hok⟩ | ⟨⟨spec, hread⟩, hphase⟩
    · exact herror e he (by simp [hread])
    · rw [hok] at hafter
      exact ⟨none, hafter, Unshown.of_forgets ⟨rfl, hread⟩⟩
    · cases hresult : q.result with
      | error e => exact herror e hresult (by simp [hread])
      | ok outcome =>
        obtain ⟨p, hp⟩ := Option.ne_none_iff_exists'.mp (hphase outcome hresult)
        rw [hresult] at hafter
        exact ⟨some p, hp ▸ hafter, LastShown.of_shows ⟨rfl, outcome, hresult, hp⟩⟩
  · rw [if_neg hk] at hafter
    exact ⟨shown, hafter, hto.kept (fun hs => hk hs.1.symm) fun hf => hk hf.1.symm⟩

theorem Deed.Done.follows (h : d.Done) (hm : d.before.memory.metrics.Follows ds k) :
    d.after.memory.metrics.Follows (ds ++ [d]) k := by
  cases d with
  | passed q => exact pass_follows h hm
  | delayed r answer before after =>
    obtain ⟨shown, hbefore, hto⟩ := hm
    refine ⟨shown, ?_, hto.kept id id⟩
    exact delayed_metrics h ▸ hbefore
  | pruned r before after =>
    obtain ⟨shown, hbefore, hto⟩ := hm
    have hafter : after.memory.metrics.Shows k (if k = r.key then none else shown) :=
      pruned_metrics h ▸ hbefore.forget r.key
    by_cases hk : k = r.key
    · rw [if_pos hk] at hafter
      exact ⟨none, hafter, Unshown.of_forgets hk.symm⟩
    · rw [if_neg hk] at hafter
      exact ⟨shown, hafter, hto.kept id fun he => hk he.symm⟩

/-- The invariant: what the metrics say after a list of deeds. -/
structure Metrics.Accounts (m : Metrics) (ds : List Deed) : Prop where
  counts : m.Counts ds
  labelled : m.Labelled
  follows : ∀ k, m.Follows ds k

theorem Metrics.Accounts.withReady (h : m.Accounts ds) (ready : Bool) :
    (m.withReady ready).Accounts ds where
  counts := h.counts.congr rfl rfl
  labelled := h.labelled.congr rfl
  follows k := by
    obtain ⟨shown, hshows, hto⟩ := h.follows k
    exact ⟨shown, hshows.congr rfl, hto⟩

theorem Metrics.accounts_initial : Metrics.initial.Accounts [] where
  counts := by constructor <;> simp [Metrics.initial, Family.count, Family.total, Family.get?]
  labelled := labelled_empty rfl
  follows k := by
    refine ⟨none, fun _ => rfl, fun ds₁ d ds₂ hds => ?_⟩
    simp at hds

theorem Deed.Done.accounts (h : d.Done) (hm : d.before.memory.metrics.Accounts ds) :
    d.after.memory.metrics.Accounts (ds ++ [d]) :=
  ⟨h.counts hm.counts, h.labelled hm.labelled, fun k => h.follows (hm.follows k)⟩

theorem Deeds.account (h : Deeds others s ds s')
    (ho : ∀ u v, others u v → ∃ ready, v.memory.metrics = u.memory.metrics.withReady ready)
    (hs : s.memory.metrics.Accounts ds₀) : s'.memory.metrics.Accounts (ds₀ ++ ds) := by
  induction h generalizing ds₀ with
  | nil => rwa [List.append_nil]
  | deed hd _ ih =>
    rw [List.append_cons]
    exact ih (Deed.Done.accounts hd hs)
  | between hbetween _ ih =>
    obtain ⟨ready, hready⟩ := ho _ _ hbetween
    exact ih (hready ▸ hs.withReady ready)

/-- Whatever passes, delays and ends of distributions follow each other, each pass counts once as a
success or as an error, and an error once under its label. For each key the gauge has no series, if
it was forgotten since every pass that ended well, or four of them, with one for the phase of the
last such pass. -/
theorem deeds_counted (h : Deeds others s ds s')
    (ho : ∀ u v, others u v → ∃ ready, v.memory.metrics = u.memory.metrics.withReady ready)
    (hs : ∃ ready, s.memory.metrics = Metrics.initial.withReady ready) :
    s'.memory.metrics.Counts ds ∧
      ∀ k, (s'.memory.metrics.seriesOf k = [] ∧ Unshown ds k) ∨
        ∃ p, LastShown ds k p ∧
          (s'.memory.metrics.seriesOf k).Perm (Metrics.fourSeries k p) := by
  obtain ⟨ready, hs⟩ := hs
  have hstart : s.memory.metrics.Accounts [] := hs ▸ Metrics.accounts_initial.withReady ready
  have haccounts : s'.memory.metrics.Accounts ds := h.account ho hstart
  refine ⟨haccounts.counts, fun k => ?_⟩
  obtain ⟨shown, hshows, hto⟩ := haccounts.follows k
  cases shown with
  | none => exact .inl ⟨hshows.seriesOf_nil haccounts.labelled, hto⟩
  | some p => exact .inr ⟨p, hto, hshows.seriesOf_four haccounts.labelled⟩

/-- A pass that ends well, and one that fails once the distribution asks for no image. -/
theorem deeds_counted_edited :
    let p := PassRecord.sample ((Rehearsal.start .epoch).edited .sample)
    let blank := { Distribution.sample with spec := ⟨1, Server.blank⟩ }
    let q := PassRecord.sample (((Rehearsal.start .epoch).edited .sample).passed.edited blank)
    let m := q.after.memory.metrics
    m.passes.count ["success"] + m.passes.count ["error"] = 2 ∧ m.failures.total = 1 ∧
      ∃ phase, LastShown [.passed p, .passed q] ⟨"ai", "demo"⟩ phase ∧
        (m.seriesOf ⟨"ai", "demo"⟩).Perm (Metrics.fourSeries ⟨"ai", "demo"⟩ phase) := by
  intro p blank q m
  have hdeeds : Deeds (fun u v => v.memory = u.memory) p.before [.passed p, .passed q] q.after :=
    .deed (d := .passed p) (sample_made _) <| .between (u := q.before) rfl <|
      .deed (d := .passed q) (sample_made _) (.nil _)
  obtain ⟨hcounts, hseries⟩ := deeds_counted hdeeds
    (fun u v hv => ⟨u.memory.metrics.ready, by rw [hv]; rfl⟩) ⟨false, rfl⟩
  have hfailed : m.passes.count ["error"] = 1 := by decide +kernel
  refine ⟨hcounts.passes, hcounts.failures.trans hfailed, ?_⟩
  refine (hseries ⟨"ai", "demo"⟩).resolve_left fun hnone => ?_
  have hfour : (m.seriesOf ⟨"ai", "demo"⟩).length = 4 := by decide +kernel
  rw [hnone.1] at hfour
  cases hfour

end DistributionOperator
