import DistributionOperator.Proofs.PassOutcomes

/-! The gauge that shows the phases of distributions, over runs of passes. It follows the passes
that end well: one that fails leaves it as it is, also if it persisted the phase of a failure. -/

namespace DistributionOperator

open Program

namespace Family

variable (f : Family) (labels labels' : List String)

theorem get?_cons (e : List String × Nat) :
    get? (e :: f) labels = if e.1 = labels then some e.2 else f.get? labels := by
  by_cases h : e.1 = labels
  · simp [get?, h]
  · simp [get?, h]

theorem get?_put (n : Nat) :
    (f.put labels n).get? labels' = if labels = labels' then some n else f.get? labels' := by
  induction f with
  | nil => exact get?_cons [] labels' (labels, n)
  | cons e r ih =>
    unfold put
    split
    · rename_i he
      rw [get?_cons, get?_cons, he]
      split <;> rfl
    · rename_i he
      rw [get?_cons, get?_cons, ih]
      split
      · rename_i he'
        rw [if_neg fun h => he (he'.trans h.symm)]
      · rfl

theorem get?_remove :
    (f.remove labels).get? labels' = if labels = labels' then none else f.get? labels' := by
  induction f with
  | nil => simp [remove, get?]
  | cons e r ih =>
    by_cases he : e.1 = labels
    · have hskip : remove (e :: r) labels = remove r labels := by simp [remove, he]
      rw [hskip, ih, get?_cons, he]
      split <;> rfl
    · have hkeep : remove (e :: r) labels = e :: remove r labels := by simp [remove, he]
      rw [hkeep, get?_cons, get?_cons, ih]
      split
      · rename_i he'
        rw [if_neg fun h => he (he'.trans h.symm)]
      · rfl

end Family

namespace Metrics

theorem phaseLabels_inj {j k : Key} {p q : Phase} :
    phaseLabels j p = phaseLabels k q ↔ j = k ∧ p = q := by
  have hname : p.name = q.name ↔ p = q := by
    cases p <;> cases q <;> simp [Phase.name]
  cases j
  cases k
  simp only [phaseLabels, List.cons.injEq, hname, Key.mk.injEq]
  tauto

/-- What the gauge has for a key and a phase. -/
def phase? (m : Metrics) (k : Key) (p : Phase) : Option Nat := m.phases.get? (phaseLabels k p)

/-- Whether the gauge shows this phase and no other for a key, or has nothing for it. -/
def Shows (m : Metrics) (k : Key) (shown : Option Phase) : Prop :=
  ∀ p, m.phase? k p = shown.map fun q => if p = q then 1 else 0

variable {m : Metrics} {j k : Key}

theorem phase?_showPhase (m : Metrics) (j k : Key) (p q : Phase) :
    (m.showPhase k p).phase? j q =
      if j = k then some (if q = p then 1 else 0) else m.phase? j q := by
  simp only [phase?, showPhase, Phase.all, List.foldl_cons, List.foldl_nil, Family.get?_put,
    phaseLabels_inj]
  by_cases h : j = k
  · subst h
    cases q <;> simp
  · have h' : k ≠ j := fun he => h he.symm
    simp [h, h']

theorem phase?_forget (m : Metrics) (j k : Key) (q : Phase) :
    (m.forget k).phase? j q = if j = k then none else m.phase? j q := by
  simp only [phase?, forget, Phase.all, List.foldl_cons, List.foldl_nil, Family.get?_remove,
    phaseLabels_inj]
  by_cases h : j = k
  · subst h
    cases q <;> simp
  · have h' : k ≠ j := fun he => h he.symm
    simp [h, h']

theorem Shows.inj {a b : Option Phase} (ha : m.Shows k a) (hb : m.Shows k b) : a = b := by
  cases a with
  | none =>
    cases b with
    | none => rfl
    | some q =>
      have h := (ha q).symm.trans (hb q)
      simp at h
  | some p =>
    have h := (ha p).symm.trans (hb p)
    cases b with
    | none => simp at h
    | some q =>
      by_cases hpq : p = q
      · rw [hpq]
      · simp [hpq] at h

theorem shows_iff {shown : Option Phase} (h : m.Shows k shown) (p : Phase) :
    m.Shows k (some p) ↔ shown = some p :=
  ⟨fun hp => h.inj hp, fun he => he ▸ h⟩

variable {shown : Option Phase}

theorem Shows.congr {m' : Metrics} (h : m.Shows k shown) (he : m'.phases = m.phases) :
    m'.Shows k shown := fun p => by rw [phase?, he]; exact h p

theorem Shows.showPhase (h : m.Shows j shown) (k : Key) (p : Phase) :
    (m.showPhase k p).Shows j (if j = k then some p else shown) := by
  intro q
  rw [phase?_showPhase]
  split
  · rfl
  · exact h q

theorem Shows.forget (h : m.Shows j shown) (k : Key) :
    (m.forget k).Shows j (if j = k then none else shown) := by
  intro q
  rw [phase?_forget]
  split
  · rfl
  · exact h q

end Metrics

/-- Calls that leave the gauge as it is. -/
def Call.KeepsPhases : Call → Prop
  | .memory (.showPhase _ _) | .memory (.forget _) => False
  | _ => True

namespace Scene

variable {s s' : Scene} {t : List Exchange} {k : Key}

theorem step_phases {x : Exchange} (h : s.Step x s') (hx : x.call.KeepsPhases) :
    s'.memory.metrics.phases = s.memory.metrics.phases := by
  cases h with
  | recalled c =>
    cases c with
    | showPhase k p => exact hx.elim
    | forget k => exact hx.elim
    | resetFailures k =>
      show (s.memory.resetFailures k.text).metrics.phases = _
      unfold Memory.resetFailures
      split <;> rfl
    | _ => rfl
  | _ => rfl

theorem through_phases (h : s.Through t s') (ht : ∀ x ∈ t, x.call.KeepsPhases) :
    s'.memory.metrics.phases = s.memory.metrics.phases :=
  through_preserves (P := fun u => u.memory.metrics.phases = s.memory.metrics.phases) h
    (fun _ _ _ hm hx hu => (step_phases hx (ht _ hm)).trans hu) rfl

theorem step_forget {a : Unit} (h : s.Step ⟨.memory (.forget k), a⟩ s') :
    s'.memory.metrics = s.memory.metrics.forget k := by
  cases h
  rfl

theorem step_showPhase {p : Phase} {a : Unit} (h : s.Step ⟨.memory (.showPhase k p), a⟩ s') :
    s'.memory.metrics = s.memory.metrics.showPhase k p := by
  cases h
  rfl

end Scene

variable {o : Operator} {d : Distribution} {j k : Key} {s s' : Scene} {t : List Exchange}

theorem performs_memory {c : MemoryCall} {a : c.Answer} (h : (memory c).Performs s t a s') :
    t = [⟨.memory c, a⟩] ∧ s.Step ⟨.memory c, a⟩ s' := by
  obtain ⟨b, r, rfl, hd⟩ := dialogue_ask.mp h.dialogue
  obtain ⟨rfl, rfl⟩ := dialogue_done.mp hd
  obtain ⟨u, hu, hs⟩ := Scene.through_cons.mp h.through
  exact ⟨rfl, Scene.through_nil.mp hs ▸ hu⟩

theorem workOn_phases {r : Except OperatorError Outcome} (h : (workOn o d).Dialogue t r) :
    (∀ x ∈ t, x.call.KeepsPhases) ∧ ∀ outcome, r = .ok outcome → outcome.phase ≠ none := by
  obtain ⟨synced, written, t₁, t₂, rfl, hs, hw, rfl⟩ := workOn_dialogue h
  have hsync : ∀ x ∈ t₁, x.call.KeepsPhases := by
    rintro ⟨c, a⟩ hx
    have hc : o.SyncCall d c := (synchronize_within o d).of_dialogue hs _ hx
    cases c with
    | memory c => exact hc.elim
    | _ => exact trivial
  have hobs : ∀ {t : List Exchange} {e : Except OperatorError Status},
      (evaluate o d (failureOf synced)).Dialogue t e → ∀ x ∈ t, x.call.KeepsPhases := by
    rintro t e he ⟨c, a⟩ hx
    have hc : c.Observes := (evaluate_within o d _).of_dialogue he _ hx
    cases c with
    | memory c => exact hc.elim
    | _ => exact trivial
  refine ⟨List.forall_mem_append.mpr ⟨hsync, ?_⟩, ?_⟩
  · rcases updateStatus_dialogue hw with ⟨e, _, he⟩ | ⟨new, a, t₃, rfl, hn, _⟩
    · exact hobs he
    · exact List.forall_mem_append.mpr ⟨hobs hn, List.forall_mem_singleton.mpr trivial⟩
  · cases synced with
    | error e => simp [passResult]
    | ok =>
      cases written with
      | error e => simp [passResult]
      | ok p =>
        rintro _ ⟨⟩
        simp [Outcome.ofPhase]

/-- Before its bookkeeping, a pass changes the gauge only to forget a distribution that is gone. -/
theorem visit_phases {r : Except OperatorError Outcome} (h : (visit o k).Performs s t r s') :
    (s'.memory.metrics.phases = s.memory.metrics.phases ∧
        ∀ outcome, r = .ok outcome → outcome.phase ≠ none) ∨
      (r = .ok ⟨none, none⟩ ∧ s'.memory.metrics = s.memory.metrics.forget k) := by
  rcases performs_andThen.mp h with ⟨e, he, rfl⟩ | ⟨found, _, _, u, rfl, hf, hw⟩
  · obtain ⟨a, rfl, _, hx⟩ := performs_attempt.mp he
    exact .inl ⟨Scene.step_phases hx trivial, by simp⟩
  · obtain ⟨rfl, hx⟩ := performs_attempt_ok.mp hf
    have hu := Scene.step_phases hx trivial
    have hmetrics : u.memory = s.memory := by
      rcases Scene.step_store hx with ⟨_, hm⟩ | ⟨_, rfl⟩
      · exact hm
      · rfl
    cases found with
    | none =>
      right
      obtain ⟨_, _, _, v, rfl, hm, hd⟩ := performs_bind.mp hw
      obtain ⟨rfl, rfl, rfl⟩ := performs_done.mp hd
      have hx' := (performs_memory hm).2
      exact ⟨rfl, by rw [Scene.step_forget hx', hmetrics]⟩
    | some d =>
      left
      obtain ⟨change, _, _, v, rfl, hm, hw⟩ := performs_bind.mp hw
      have hv := (Scene.step_phases (performs_memory hm).2 trivial).trans hu
      split at hw
      · obtain ⟨_, _, _, w, rfl, hm', hw⟩ := performs_bind.mp hw
        have hw' := (Scene.step_phases (performs_memory hm').2 trivial).trans hv
        obtain ⟨hkeeps, hphase⟩ := workOn_phases hw.dialogue
        exact ⟨(Scene.through_phases hw.through hkeeps).trans hw', hphase⟩
      · obtain ⟨hkeeps, hphase⟩ := workOn_phases hw.dialogue
        exact ⟨(Scene.through_phases hw.through hkeeps).trans hv, hphase⟩

/-- What the gauge shows for the distribution of a pass, by how the pass ended and what was shown
before. -/
def shownAfter : Except OperatorError Outcome → Option Phase → Option Phase
  | .ok outcome, _ => outcome.phase
  | .error _, shown => shown

/-- The phase that the outcome of a pass tells of. -/
def toldPhase? : Except OperatorError Outcome → Option Phase
  | .ok outcome => outcome.phase
  | .error _ => none

theorem bookkeep_shows {r : Except OperatorError Outcome} {a : Unit} {shown : Option Phase}
    (h : (bookkeep k r).Performs s t a s') (hs : s.memory.metrics.Shows j shown) :
    s'.memory.metrics.Shows j (if j = k then (toldPhase? r).or shown else shown) := by
  cases r with
  | error e =>
    simp only [toldPhase?, Option.none_or, ite_self]
    exact hs.congr (Scene.step_phases (performs_memory h).2 trivial)
  | ok outcome =>
    obtain ⟨_, _, _, u, rfl, hcount, h⟩ := performs_bind.mp h
    obtain ⟨_, _, _, v, rfl, hshow, hreset⟩ := performs_bind.mp h
    have hu := hs.congr (Scene.step_phases (performs_memory hcount).2 trivial)
    refine Metrics.Shows.congr ?_ (Scene.step_phases (performs_memory hreset).2 trivial)
    rw [toldPhase?]
    cases hp : outcome.phase with
    | none =>
      rw [hp] at hshow
      obtain ⟨_, _, rfl⟩ := performs_done.mp hshow
      simpa only [Option.none_or, ite_self] using hu
    | some p =>
      rw [hp] at hshow
      rw [Scene.step_showPhase (performs_memory hshow).2]
      exact hu.showPhase k p

/-- After a pass the gauge shows what the pass told of its distribution, or what it showed before if
the pass failed; of others it shows the same as before. -/
theorem pass_shows {r : Except OperatorError Outcome} {shown : Option Phase}
    (h : (pass o k).Performs s t r s') (hs : s.memory.metrics.Shows j shown) :
    s'.memory.metrics.Shows j (if j = k then shownAfter r shown else shown) := by
  obtain ⟨r', _, _, u, rfl, hv, h⟩ := performs_bind.mp h
  obtain ⟨_, _, _, w, rfl, hb, h⟩ := performs_bind.mp h
  obtain ⟨rfl, rfl, rfl⟩ := performs_done.mp h
  rcases visit_phases hv with ⟨hkept, hphase⟩ | ⟨rfl, hforget⟩
  · have hlast := bookkeep_shows hb (hs.congr hkept)
    cases r with
    | error e => exact hlast
    | ok outcome =>
      obtain ⟨p, hp⟩ := Option.ne_none_iff_exists'.mp (hphase outcome rfl)
      simpa only [toldPhase?, shownAfter, hp, Option.some_or] using hlast
  · have hlast := bookkeep_shows hb (hforget ▸ hs.forget k)
    simp only [toldPhase?, Option.none_or, ite_self] at hlast
    exact hlast

/-- What the passes have told of a distribution, failures apart. -/
def told (j : Key) (ps : List PassRecord) : Option Phase :=
  ps.foldl (fun shown p => if j = p.key then shownAfter p.result shown else shown) none

theorem told_snoc (j : Key) (ps : List PassRecord) (p : PassRecord) :
    told j (ps ++ [p]) = if j = p.key then shownAfter p.result (told j ps) else told j ps := by
  simp [told, List.foldl_append]

section Runs

variable {others : Scene → Scene → Prop} {ps ps₁ ps₂ : List PassRecord} {p : PassRecord}
  {new : Status}

theorem Scene.Run.upTo (h : Scene.Run others s (ps₁ ++ p :: ps₂) s') :
    Scene.Run others s ps₁ p.before ∧ p.Made := by
  generalize hl : ps₁ ++ p :: ps₂ = l at h
  induction h generalizing ps₂ with
  | start => simp at hl
  | @pass ps q h hq ih =>
    rcases List.eq_nil_or_concat ps₂ with rfl | ⟨init, last, rfl⟩
    · obtain ⟨rfl, hlast⟩ := List.append_inj' hl rfl
      obtain rfl := List.singleton_inj.mp hlast
      exact ⟨h, hq⟩
    · rw [List.concat_eq_append, ← List.cons_append, ← List.append_assoc] at hl
      exact ih (List.append_inj' hl rfl).1
  | between _ _ ih => exact ih hl

/-- The rest of a run, after one of its passes. -/
theorem Scene.Run.after (h : Scene.Run others s (ps₁ ++ p :: ps₂) s') :
    Scene.Run others p.after ps₂ s' := by
  generalize hl : ps₁ ++ p :: ps₂ = l at h
  induction h generalizing ps₂ with
  | start => simp at hl
  | @pass ps q h hq ih =>
    rcases List.eq_nil_or_concat ps₂ with rfl | ⟨init, last, rfl⟩
    · obtain ⟨_, hlast⟩ := List.append_inj' hl rfl
      obtain rfl := List.singleton_inj.mp hlast
      exact .start _
    · rw [List.concat_eq_append, ← List.cons_append, ← List.append_assoc] at hl
      obtain ⟨hinit, hlast⟩ := List.append_inj' hl rfl
      obtain rfl := List.singleton_inj.mp hlast
      rw [List.concat_eq_append]
      exact .pass (ih hinit) hq
  | between _ hu ih => exact .between (ih hl) hu

theorem run_shows (h : Scene.Run others s ps s')
    (ho : ∀ u v, others u v → v.memory.metrics.phases = u.memory.metrics.phases)
    (hs : ∀ j, s.memory.metrics.Shows j none) (j : Key) :
    s'.memory.metrics.Shows j (told j ps) := by
  induction h with
  | start => exact hs j
  | pass _ hp ih =>
    rw [told_snoc]
    exact pass_shows hp ih
  | between _ hu ih => exact ih.congr (ho _ _ hu)

/-- A pass that persisted a status has failed only if its synchronization did, and the status says
so. -/
theorem pass_persisted {r : Except OperatorError Outcome} (h : (pass o k).Dialogue t r)
    (hp : Persists t j new) :
    (∃ e, r = .error e ∧ new.phase = .failed) ∨ r = .ok (.ofPhase new.phase) := by
  obtain ⟨v, hm⟩ := hp
  obtain ⟨t₁, t₂, rfl⟩ := List.append_of_mem hm
  obtain ⟨d, synced, _, _, hreaches, _, rfl⟩ := reaches_of_dialogue h
  obtain ⟨_, t₃, _, heval⟩ := hreaches.evaluates
  cases synced with
  | error e => exact .inl ⟨e, rfl, (evaluate_failed_blames heval).1⟩
  | ok => exact .inr rfl

/-- What is stored and shown once a pass has persisted a status. -/
structure PassRecord.Leaves (p : PassRecord) (earlier : List PassRecord) (j : Key) (new : Status) :
    Prop where
  stored : ∃ d st, p.after.store.distributions j = some d ∧ d.status = some st ∧
    st.phase = new.phase
  shows_iff : p.after.memory.metrics.Shows j (some new.phase) ↔
    (j = p.key ∧ ∃ outcome, p.result = .ok outcome) ∨ told j earlier = some new.phase
  failed : ∀ e, p.result = .error e → new.phase = .failed

theorem pass_leaves (h : p.Made) (hp : Persists p.exchanges j new)
    (hs : p.before.memory.metrics.Shows j (told j ps)) : p.Leaves ps j new := by
  have hresult := pass_persisted h.dialogue hp
  refine ⟨?_, ?_, fun e he => ?_⟩
  · rcases pass_writes h with ⟨_, hnone⟩ | ⟨d, _, new', _, _, _, _, ⟨d₀, _, _, hset⟩, hiff⟩
    · exact absurd hp (hnone j new)
    · obtain ⟨rfl, rfl⟩ := (hiff j new).mp hp
      exact ⟨_, new.over d₀.status, by rw [hset, Table.set_same], rfl, rfl⟩
  · rw [Metrics.shows_iff (pass_shows h hs)]
    by_cases hj : j = p.key
    · rcases hresult with ⟨e, he, _⟩ | hok
      · simp [hj, he, shownAfter]
      · simp [hj, hok, shownAfter, Outcome.ofPhase]
    · simp [hj]
  · rcases hresult with ⟨_, _, hphase⟩ | hok
    · exact hphase
    · rw [he] at hok
      cases hok

/-- In every run of passes the gauge shows what the last pass over a distribution told of it,
failures apart. Where a pass persisted a status, that is the phase of it if the pass ended well;
otherwise it is the phase of a failure, and the gauge shows it only if it did before. -/
theorem run_gauge (h : Scene.Run others s ps s')
    (ho : ∀ u v, others u v → v.memory.metrics.phases = u.memory.metrics.phases)
    (hs : ∀ j, s.memory.metrics.Shows j none) :
    (∀ j, s'.memory.metrics.Shows j (told j ps)) ∧
      ∀ ps₁ p ps₂ j new, ps = ps₁ ++ p :: ps₂ → Persists p.exchanges j new →
        p.Leaves ps₁ j new := by
  refine ⟨run_shows h ho hs, fun ps₁ p ps₂ j new hl hp => ?_⟩
  rw [hl] at h
  obtain ⟨hbefore, hmade⟩ := h.upTo
  exact pass_leaves hmade hp (run_shows hbefore ho hs j)

end Runs

/-! A first pass that ends well, and one that fails for a deployment in foreign hands: both persist
a status. -/

theorem sample_persists {r : Rehearsal} {d : Distribution} (hd : (PassRecord.sample r).Finds d)
    (hk : d.key = ⟨"ai", "demo"⟩) (hs : d.status = none)
    (hwritten : ((PassRecord.sample r).after.store.distributions ⟨"ai", "demo"⟩).any
      (·.status.isSome) = true) :
    ∃ new, Persists (PassRecord.sample r).exchanges ⟨"ai", "demo"⟩ new := by
  rcases pass_writes (r.performs (pass .sample ⟨"ai", "demo"⟩)) with
    ⟨hsame, _⟩ | ⟨d', _, new, _, hd', _, _, _, hiff⟩
  · have hkept : (PassRecord.sample r).after.store.distributions ⟨"ai", "demo"⟩ = some d :=
      (congrFun hsame _).trans hd
    rw [hkept, Option.any_some, hs] at hwritten
    cases hwritten
  · obtain rfl := Option.some.inj (hd.symm.trans hd')
    exact ⟨new, (hiff _ _).mpr ⟨hk.symm, rfl⟩⟩

theorem run_gauge_first :
    let p := PassRecord.sample ((Rehearsal.start .epoch).edited .sample)
    ∃ new, Persists p.exchanges ⟨"ai", "demo"⟩ new ∧
      p.after.memory.metrics.Shows ⟨"ai", "demo"⟩ (some new.phase) := by
  intro p
  have hrun := sample_run (fun _ _ => False) ((Rehearsal.start .epoch).edited .sample)
  obtain ⟨new, hp⟩ := sample_persists (r := (Rehearsal.start .epoch).edited .sample) rfl rfl rfl
    (by decide +kernel)
  have hresult : p.result = .ok ⟨some .initializing, some 10⟩ := by decide +kernel
  have hleaves := (run_gauge hrun (fun _ _ h => h.elim) fun _ _ => rfl).2 [] p [] _ new rfl hp
  exact ⟨new, hp, hleaves.shows_iff.mpr (.inl ⟨rfl, _, hresult⟩)⟩

theorem gauge_misses_failure : ¬∀ s ps s', Scene.Run (fun _ _ => False) s ps s' →
    (∀ j, s.memory.metrics.Shows j none) → ∀ p ∈ ps, ∀ j new, Persists p.exchanges j new →
      p.after.memory.metrics.Shows j (some new.phase) := by
  intro h
  let r := Rehearsal.beside .deployment (.foreignSample "demo")
  obtain ⟨new, hp⟩ := sample_persists (r := r) rfl rfl rfl (by decide +kernel)
  have hshows := h _ _ _ (sample_run _ r) (fun _ _ => rfl) _ (List.mem_singleton_self _) _ new hp
  have hnothing : (PassRecord.sample r).after.memory.metrics.phase? ⟨"ai", "demo"⟩ .failed =
      none := by decide +kernel
  exact absurd (hnothing.symm.trans (hshows .failed)) (by simp)

end DistributionOperator
