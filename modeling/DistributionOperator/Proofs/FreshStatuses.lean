import DistributionOperator.Proofs.FreshVersions
import DistributionOperator.Proofs.Histories
import DistributionOperator.Proofs.PassDialogues

/-! Passes over one distribution that go on at the same time, while users edit it. A status is
persisted only if nobody wrote the distribution since the pass read it, so that it is never a status
of an earlier spec. -/

namespace DistributionOperator

open Program

/-- That a pass tries to write a status, with the answer that it gets. -/
def statusWrite (k : Key) (v : Option String) (new : Status) (a : Except StoreError Unit) :
    Exchange :=
  ⟨.store (.updateStatus k v new), a⟩

def distributionRead (k : Key) (a : Except StoreError (Option Distribution)) : Exchange :=
  ⟨.store (.getDistribution k), a⟩

section Dialogues

variable {o : Operator} {d : Distribution} {j k : Key} {v : Option String} {new : Status}
  {t t' : List Exchange} {a : Except StoreError Unit} {r : Except OperatorError Outcome}

def NoStatusWrite (t : List Exchange) : Prop :=
  ∀ x ∈ t, ∀ k v new, x.call ≠ .store (.updateStatus k v new)

theorem noStatusWrite_append :
    NoStatusWrite (t ++ t') ↔ NoStatusWrite t ∧ NoStatusWrite t' := by
  simp only [NoStatusWrite, List.mem_append, or_imp, forall_and]

theorem NoStatusWrite.not_mem (h : NoStatusWrite t) : statusWrite j v new a ∉ t :=
  fun hm => h _ hm j v new rfl

theorem noStatusWrite_recalls (h : ∀ x ∈ t, x.call.Recalls) : NoStatusWrite t :=
  fun x hx => recalls_not_status (h x hx)

theorem noStatusWrite_evaluate {failure : Option OperatorError} {e : Except OperatorError Status}
    (h : (evaluate o d failure).Dialogue t e) : NoStatusWrite t :=
  fun x hx => observes_not_status ((evaluate_within o d failure).of_dialogue h x hx)

theorem noStatusWrite_synchronize {e : Except OperatorError Unit}
    (h : (synchronize o d).Dialogue t e) : NoStatusWrite t :=
  fun x hx => syncCall_not_status ((synchronize_within o d).of_dialogue h x hx)

def writeResult (synced : Except OperatorError Unit) (new : Status)
    (a : Except StoreError Unit) : Except OperatorError Outcome :=
  passResult synced
    ((a.mapError (.store "update" (Distribution.kind ++ " status"))).map fun _ => new.phase)

/-- What a pass that reached its write did before. -/
structure Reaches (o : Operator) (k : Key) (d : Distribution) (synced : Except OperatorError Unit)
    (new : Status) (t : List Exchange) : Prop where
  evaluates : ∃ t₁ t₂, t = distributionRead k (.ok (some d)) :: (t₁ ++ t₂) ∧
    (evaluate o d (failureOf synced)).Dialogue t₂ (.ok new)
  unwritten : NoStatusWrite t

/-- A pass does not come to write a status, and then tells of no phase, or it writes one once. -/
theorem pass_dialogue_status (h : (pass o k).Dialogue t r) :
    (NoStatusWrite t ∧ ∀ outcome, r = .ok outcome → outcome.phase = none) ∨
      ∃ d synced new a t₁ t₂,
        t = t₁ ++ statusWrite d.key d.metadata.resourceVersion new a :: t₂ ∧
        Reaches o k d synced new t₁ ∧ NoStatusWrite t₂ ∧ r = writeResult synced new a := by
  rcases pass_dialogue h with ⟨a, t₁, rfl, ht₁, _, hr⟩ | ⟨d, t₁, t₂, t₃, rfl, ht, hw⟩
  · refine .inl ⟨fun x hx => ?_, hr⟩
    rcases List.mem_cons.mp hx with rfl | hx
    · simp
    · exact noStatusWrite_recalls ht₁ x hx
  · obtain ⟨synced, written, s₁, s₂, rfl, hs, hu, rfl⟩ := workOn_dialogue hw
    have hrecalls := noStatusWrite_append.mp (noStatusWrite_recalls ht)
    have hread : NoStatusWrite [distributionRead k (.ok (some d))] := by
      simp [NoStatusWrite, distributionRead]
    have hsynced := noStatusWrite_synchronize hs
    rcases updateStatus_dialogue hu with ⟨e, rfl, he⟩ | ⟨new, a, s₃, rfl, he, rfl⟩
    · refine .inl ⟨?_, by cases synced <;> simp [passResult]⟩
      rw [← List.singleton_append]
      simp only [noStatusWrite_append]
      exact ⟨hread, hrecalls.1, ⟨hsynced, noStatusWrite_evaluate he⟩, hrecalls.2⟩
    · refine .inr ⟨d, synced, new, a, distributionRead k (.ok (some d)) :: (t₁ ++ s₁ ++ s₃), t₃,
        by simp [distributionRead, statusWrite], ⟨⟨t₁ ++ s₁, s₃, by simp, he⟩, ?_⟩, hrecalls.2, rfl⟩
      rw [← List.singleton_append]
      simp only [noStatusWrite_append]
      exact ⟨hread, ⟨hrecalls.1, hsynced⟩, noStatusWrite_evaluate he⟩

/-- What lies before and after a write that a pass makes, and how the pass ends by that. -/
theorem reaches_of_dialogue (h : (pass o k).Dialogue (t ++ statusWrite j v new a :: t') r) :
    ∃ d synced, j = d.key ∧ v = d.metadata.resourceVersion ∧ Reaches o k d synced new t ∧
      NoStatusWrite t' ∧ r = writeResult synced new a := by
  rcases pass_dialogue_status h with ⟨hn, _⟩ | ⟨d, synced, new', a', t₁, t₂, he, ht, ht₂, hr⟩
  · exact absurd (List.mem_append_right _ List.mem_cons_self) hn.not_mem
  · obtain ⟨rfl, hw, rfl⟩ :=
      (List.append_cons_inj_of_notMem ht.unwritten.not_mem ht₂.not_mem).mp he.symm
    simp only [statusWrite, Exchange.mk.injEq, Call.store.injEq, StoreCall.updateStatus.injEq] at hw
    obtain ⟨⟨rfl, rfl, rfl⟩, ha⟩ := hw
    cases ha
    exact ⟨d, synced, rfl, rfl, ht, ht₂, hr⟩

end Dialogues

section Steps

variable {s s' : Scene} {x : Exchange}

/-- Only a status that is persisted changes a distribution. -/
theorem step_persists_or_keeps (h : s.Step x s') :
    (∃ k v new, x = statusWrite k v new (.ok ()) ∧
      WritesOver s.store.distributions s'.store.distributions k new) ∨
        s'.store.distributions = s.store.distributions := by
  by_cases hx : ∃ k v new, x.call = .store (.updateStatus k v new)
  · obtain ⟨c, a⟩ := x
    obtain ⟨k, v, new, rfl⟩ := hx
    rcases step_updateStatus h with ⟨rfl, hw⟩ | ⟨_, hs⟩
    · exact .inl ⟨k, v, new, rfl, hw⟩
    · exact .inr (congrArg _ hs)
  · exact .inr (step_distributions h fun k v new hc => hx ⟨k, v, new, hc⟩)

theorem step_specs (h : s.Step x s') (j : Key) :
    (s'.store.distributions j).map (·.spec) = (s.store.distributions j).map (·.spec) := by
  rcases step_persists_or_keeps h with ⟨k, v, new, _, d, version, hd, hs⟩ | hs
  · by_cases hj : j = k
    · rw [hs, hj, Table.set_same, hd]
      rfl
    · rw [hs, Table.set_other _ _ hj]
  · rw [hs]

end Steps

section Histories

variable {ι α : Type} [DecidableEq ι] {others : Scene → Scene → Prop} {s u : Scene}
  {p q : ι → Program α} {l : List (Moment ι)} {k : Key} {d : Distribution} {v : Option String}

omit [DecidableEq ι] in
theorem Moment.Happens.evolves {m : Moment ι} (h : m.Happens Scene.Step others)
    (ho : ∀ v w, others v w → v.store.Evolves w.store) :
    m.before.store.Evolves m.after.store := by
  unfold Moment.Happens at h
  split at h
  · exact Scene.step_evolves h
  · exact ho _ _ h

namespace History

variable (h : History Scene.Step others s p l u q)
  (ho : ∀ v w, others v w → v.store.Evolves w.store)

include h ho

theorem versioned (hs : s.store.Versioned) :
    u.store.Versioned ∧ ∀ m ∈ l, m.before.store.Versioned ∧ m.after.store.Versioned :=
  h.preserves (P := fun u => u.store.Versioned)
    (fun m hm hb => hb.evolves ((h.happens m hm).evolves ho)) hs

theorem version_le : s.store.version ≤ u.store.version :=
  (h.preserves (P := fun u => s.store.version ≤ u.store.version)
    (fun m hm hb => Nat.le_trans hb ((h.happens m hm).evolves ho).version_le) (Nat.le_refl _)).1

theorem past (hs : s.store.Past k v) : u.store.Past k v :=
  (h.preserves (P := fun u => u.store.Past k v)
    (fun m hm hb => hb.evolves ((h.happens m hm).evolves ho)) hs).1

omit h

/-- As long as its version is not past, nobody wrote a distribution. -/
theorem untouched (h : History Scene.Step others s p l u q) (hs : s.store.Versioned)
    (hd : s.store.distributions k = some d)
    (hu : ¬u.store.Past k d.metadata.resourceVersion) :
    u.store.distributions k = some d ∧ ∀ m ∈ l, m.before.store.distributions k = some d := by
  induction l generalizing s p with
  | nil =>
    rw [of_nil h]
    exact ⟨hd, by simp⟩
  | cons m l ih =>
    obtain ⟨rfl, r, hrest⟩ := of_cons h
    have hm := (h.happens m List.mem_cons_self).evolves ho
    have hkept := (hs.kept_or_past hd hm).resolve_right fun hpast => hu (past hrest ho hpast)
    obtain ⟨hlast, hall⟩ := ih hrest (hs.evolves hm) hkept
    refine ⟨hlast, fun m' hm' => ?_⟩
    rcases List.mem_cons.mp hm' with rfl | hm'
    · exact hd
    · exact hall m' hm'

end History

end Histories

variable {ι : Type} [DecidableEq ι]

/-- From the moment at which a pass read its distribution to the one at which it persisted the
status that it evaluated for it, nobody wrote the distribution. -/
structure Fresh (o : Operator) (k : Key) (i : ι) (d : Distribution)
    (failure : Option OperatorError) (new : Status) (first : Moment ι)
    (meantime : List (Moment ι)) (last : Moment ι) : Prop where
  reads : first.deed = some (i, distributionRead k (.ok (some d)))
  evaluates : ∃ t₁ t₂, exchangesOf i meantime = t₁ ++ t₂ ∧
    (evaluate o d failure).Dialogue t₂ (.ok new)
  persists : last.deed = some (i, statusWrite k d.metadata.resourceVersion new (.ok ()))
  untouched : ∀ m ∈ first :: (meantime ++ [last]), m.before.store.distributions k = some d
  persisted : ∃ version, last.after.store.distributions k = some { d with
    status := some (new.over d.status)
    metadata := { d.metadata with resourceVersion := some version } }

/-- In a history of passes over one distribution no status is stale. -/
structure StatusesFresh (o : ι → Operator) (k : Key) (l : List (Moment ι))
    (q : ι → Program (Except OperatorError Outcome)) : Prop where
  fresh : ∀ {l₁ last l₂ i j v new}, l = l₁ ++ last :: l₂ →
    last.deed = some (i, statusWrite j v new (.ok ())) →
      ∃ d synced l₀ first meantime, l₁ = l₀ ++ first :: meantime ∧ j = k ∧
        v = d.metadata.resourceVersion ∧
        Fresh (o i) k i d (failureOf synced) new first meantime last ∧
        ∀ r, q i = .done r → r = passResult synced (.ok new.phase)
  told : ∀ {i outcome phase}, q i = .done (.ok outcome) → outcome.phase = some phase →
    ∃ d new l₀ first meantime last l₂, l = l₀ ++ first :: meantime ++ last :: l₂ ∧
      new.phase = phase ∧ Fresh (o i) k i d none new first meantime last
  once : ∀ {l₁ m l₂ m' l₃ i i' j j' v v' new new'}, l = l₁ ++ m :: (l₂ ++ m' :: l₃) →
    m.deed = some (i, statusWrite j v new (.ok ())) →
      m'.deed = some (i', statusWrite j' v' new' (.ok ())) → v ≠ v'
  fails : ∀ {i}, (∀ m ∈ l, ∀ j v new, m.deed ≠ some (i, statusWrite j v new (.ok ()))) →
    (∀ m ∈ l, ∀ x, m.deed = some (i, x) →
      m.after.store.distributions = m.before.store.distributions) ∧
    ∀ m ∈ l, ∀ j v new a r, m.deed = some (i, statusWrite j v new a) → q i = .done r →
      ∃ e, r = .error e
  specs : ∀ m ∈ l, ∀ i x, m.deed = some (i, x) → ∀ j,
    (m.after.store.distributions j).map (·.spec) = (m.before.store.distributions j).map (·.spec)

section StatusesFresh

variable {o : ι → Operator} {k j : Key} {others : Scene → Scene → Prop} {s u : Scene}
  {l l₁ l₂ : List (Moment ι)} {q : ι → Program (Except OperatorError Outcome)} {i : ι}
  {m last : Moment ι} {x : Exchange} {v : Option String} {new : Status}
  (h : History Scene.Step others s (fun i => pass (o i) k) l u q)
  (ho : ∀ v w, others v w → v.store.Evolves w.store) (hs : s.store.Versioned)

include h

/-- How a write of a status sits in its pass, and how the pass ends if it does. -/
theorem reaches_of_deed {a : Except StoreError Unit} (hl : l = l₁ ++ last :: l₂)
    (hd : last.deed = some (i, statusWrite j v new a)) :
    ∃ d synced, j = d.key ∧ v = d.metadata.resourceVersion ∧
      Reaches (o i) k d synced new (exchangesOf i l₁) ∧
      ∀ r, q i = .done r → r = writeResult synced new a := by
  obtain ⟨t, r, hdialogue⟩ := (h.leads i).exists_dialogue
  have ht : exchangesOf i l ++ t =
      exchangesOf i l₁ ++ statusWrite j v new a :: (exchangesOf i l₂ ++ t) := by
    rw [hl, exchangesOf_append, exchangesOf_cons hd, List.append_assoc, List.cons_append]
  rw [ht] at hdialogue
  obtain ⟨d, synced, hj, hv, hreaches, _, hr⟩ := reaches_of_dialogue hdialogue
  refine ⟨d, synced, hj, hv, hreaches, fun r' hr' => ?_⟩
  have hlead := h.leads i
  rw [hr'] at hlead
  rw [← ht] at hdialogue
  have hunique := hlead.dialogue_of_done.unique hdialogue (List.append_nil _).symm
  exact hunique.2.trans hr

include ho hs

theorem persists_fresh (hl : l = l₁ ++ last :: l₂)
    (hlast : last.deed = some (i, statusWrite j v new (.ok ()))) :
    ∃ d synced l₀ first meantime, l₁ = l₀ ++ first :: meantime ∧ j = k ∧
      v = d.metadata.resourceVersion ∧
      Fresh (o i) k i d (failureOf synced) new first meantime last ∧
      ∀ r, q i = .done r → r = passResult synced (.ok new.phase) := by
  obtain ⟨d, synced, hj, rfl, hreaches, hr⟩ := reaches_of_deed h hl hlast
  obtain ⟨t₁, t₂, ht, heval⟩ := hreaches.evaluates
  have ht' : exchangesOf i l₁ = [] ++ distributionRead k (.ok (some d)) :: (t₁ ++ t₂) := ht
  obtain ⟨l₀, first, meantime, rfl, hfirst, _, hmeantime⟩ := exists_moment ht'
  have hreads := (Scene.step_getDistribution
    (h.served (by simp [hl]) hfirst)).2 d rfl
  have hwrite := h.served (by simp [hl]) hlast
  have hversioned := (h.versioned ho hs).2 first (by simp [hl])
  obtain ⟨n, hn, hv⟩ := hversioned.1.numbered hreads
  -- the stretch from the read to the write
  rw [hl] at h
  obtain ⟨⟨_, hbefore⟩, _⟩ := h.around
  obtain ⟨_, _, _, hstretch⟩ := hbefore.split
  obtain ⟨hstart, _⟩ := hstretch.of_cons
  rw [← hstart] at hstretch
  have hcounted := Nat.le_trans hn (hstretch.version_le ho)
  have hsame := hwrite
  rw [hv] at hsame
  obtain ⟨⟨e, he, hev⟩, _⟩ := Scene.step_persists hsame hcounted
  have hkey : j = k := by
    by_contra hne
    exact (hstretch.past ho (hversioned.1.past_elsewhere hreads hne)).gone he (hev.trans hv.symm)
  rw [hkey] at he hlast hwrite
  have hnotPast : ¬last.before.store.Past k d.metadata.resourceVersion := fun hpast =>
    hpast.gone he (hev.trans hv.symm)
  obtain ⟨hd, hall⟩ := hstretch.untouched ho hversioned.1 hreads hnotPast
  refine ⟨d, synced, l₀, first, meantime, rfl, hkey, rfl, ⟨hfirst, ⟨t₁, t₂, hmeantime, heval⟩,
    hlast, fun m hm => ?_, ?_⟩, hr⟩
  · rw [← List.cons_append] at hm
    rcases List.mem_append.mp hm with hm | hm
    · exact hall m hm
    · rw [List.mem_singleton.mp hm]
      exact hd
  · rcases step_updateStatus hwrite with ⟨_, e', version, he', hafter⟩ | ⟨hne, _⟩
    · obtain rfl := Option.some.inj (hd.symm.trans he')
      exact ⟨version, by rw [hafter, Table.set_same]⟩
    · exact absurd rfl hne

/-- Of two statuses that are persisted, the later one was not evaluated for the version that the
earlier one was evaluated for. -/
theorem persists_once {l₃ : List (Moment ι)} {m' : Moment ι} {i' : ι} {j' : Key}
    {v' : Option String} {new' : Status} (hl : l = l₁ ++ m :: (l₂ ++ m' :: l₃))
    (hm : m.deed = some (i, statusWrite j v new (.ok ())))
    (hm' : m'.deed = some (i', statusWrite j' v' new' (.ok ()))) : v ≠ v' := by
  obtain ⟨d, _, _, _, _, _, rfl, rfl, hfresh, _⟩ := persists_fresh h ho hs hl hm
  have hl' : l = (l₁ ++ m :: l₂) ++ m' :: l₃ := by simp [hl]
  obtain ⟨d', _, _, _, _, _, rfl, rfl, hfresh', _⟩ := persists_fresh h ho hs hl' hm'
  have hstored := hfresh.untouched m (by simp)
  have hstored' := hfresh'.untouched m' (by simp)
  obtain ⟨n, hn, hv⟩ := ((h.versioned ho hs).2 m (by simp [hl])).1.numbered hstored
  have hwrite := h.served (by simp [hl]) hm
  rw [hv] at hwrite
  obtain ⟨_, hpast⟩ := Scene.step_persists hwrite hn
  rw [hl] at h
  obtain ⟨_, _, hrest⟩ := h.around
  obtain ⟨⟨_, hbetween⟩, _⟩ := hrest.around
  intro he
  exact (hbetween.past ho hpast).gone hstored' (he.symm.trans hv)

omit hs ho

theorem persisted_of_phase {outcome : Outcome} {phase : Phase} (hq : q i = .done (.ok outcome))
    (hphase : outcome.phase = some phase) :
    ∃ l₁ last l₂ j v new, l = l₁ ++ last :: l₂ ∧
      last.deed = some (i, statusWrite j v new (.ok ())) ∧ new.phase = phase := by
  have hlead := h.leads i
  rw [hq] at hlead
  rcases pass_dialogue_status hlead.dialogue_of_done with
    ⟨_, hnone⟩ | ⟨d, synced, new, a, t₁, t₂, ht, _, _, hr⟩
  · rw [hnone outcome rfl] at hphase
    cases hphase
  · obtain ⟨l₁, last, l₂, hl, hlast, _⟩ := exists_moment ht
    cases synced with
    | error e => cases hr
    | ok =>
      cases a with
      | error e => cases hr
      | ok =>
        cases hr
        exact ⟨l₁, last, l₂, _, _, new, hl, hlast, Option.some.inj hphase⟩

/-- A pass whose write did not get through fails. -/
theorem fails_of_deed {a : Except StoreError Unit} {r : Except OperatorError Outcome}
    (hm : m ∈ l) (hd : m.deed = some (i, statusWrite j v new a)) (ha : a ≠ .ok ())
    (hq : q i = .done r) : ∃ e, r = .error e := by
  obtain ⟨l₁, l₂, hl⟩ := List.append_of_mem hm
  obtain ⟨_, synced, _, _, _, hr⟩ := reaches_of_deed h hl hd
  rw [hr r hq]
  cases a with
  | ok => exact absurd rfl ha
  | error e =>
    cases synced with
    | error e' => exact ⟨e', rfl⟩
    | ok => exact ⟨_, rfl⟩

include ho hs

theorem statuses_fresh : StatusesFresh o k l q where
  fresh := persists_fresh h ho hs
  told := by
    intro i outcome phase hq hphase
    obtain ⟨_, last, l₂, _, _, new, hl, hlast, hnew⟩ := persisted_of_phase h hq hphase
    obtain ⟨d, synced, l₀, first, meantime, rfl, _, _, hfresh, hr⟩ :=
      persists_fresh h ho hs hl hlast
    cases synced with
    | error e => cases hr _ hq
    | ok => exact ⟨d, new, l₀, first, meantime, last, l₂, hl, hnew, hfresh⟩
  once := persists_once h ho hs
  fails := by
    intro i hnever
    refine ⟨fun m hm x hd => ?_, fun m hm j v new a r hd => ?_⟩
    · rcases step_persists_or_keeps (h.served hm hd) with ⟨j, v, new, rfl, _⟩ | hkeeps
      · exact absurd hd (hnever m hm j v new)
      · exact hkeeps
    · refine fails_of_deed h hm hd fun ha => ?_
      rw [ha] at hd
      exact hnever m hm j v new hd
  specs m hm i x hd := step_specs (h.served hm hd)

end StatusesFresh

/-! Two sample passes. One of them reads the distribution before it is edited, and goes on only
after the other one has made its whole pass. -/

namespace Edited

open Rehearsal

def twoPasses (_ : Bool) : Program (Except OperatorError Outcome) := pass .sample ⟨"ai", "demo"⟩

def start : Rehearsal := (Rehearsal.start .epoch).edited .sample

def early : Played Bool (Except OperatorError Outcome) := start.play twoPasses [true]

def edit (r : Rehearsal) : Rehearsal :=
  r.edited { Distribution.sample with spec := { Distribution.sample.spec with replicas := 2 } }

def late : Played Bool (Except OperatorError Outcome) :=
  (edit early.rehearsal).play early.programs (List.replicate 30 false ++ List.replicate 30 true)

def moments : List (Moment Bool) :=
  early.moments ++ [⟨early.rehearsal.scene, none, (edit early.rehearsal).scene⟩] ++ late.moments

def Edits (u v : Scene) : Prop := ∃ d, v.store = u.store.addDistribution d

theorem edits_evolve (u v : Scene) (h : Edits u v) : u.store.Evolves v.store := by
  obtain ⟨d, hd⟩ := h
  rw [hd]
  exact u.store.addDistribution_evolves d

theorem start_versioned : start.scene.store.Versioned :=
  (Store.Versioned.of_none (s := Store.empty) fun _ => rfl).evolves
    (Store.empty.addDistribution_evolves .sample)

theorem history :
    History Scene.Step Edits start.scene twoPasses moments late.rehearsal.scene late.programs := by
  have hserve : ∀ (r : Rehearsal) c, True →
      r.scene.Step ⟨c, (answer c r).1⟩ (answer c r).2.scene ∧ True :=
    fun r c _ => ⟨r.step c, trivial⟩
  have hearly : History Scene.Step Edits start.scene twoPasses early.moments
      early.rehearsal.scene early.programs := play_history hserve trivial .start [true]
  exact play_history hserve trivial (.between hearly ⟨_, rfl⟩)
    (List.replicate 30 false ++ List.replicate 30 true)

theorem late_result : late.programs false = .done (.ok ⟨some .initializing, some 10⟩) :=
  result?_eq_some.mp (by decide +kernel)

end Edited

theorem statuses_fresh_edited : ∃ d new l₀ first meantime last l₂,
    Edited.moments = l₀ ++ first :: meantime ++ last :: l₂ ∧ new.phase = .initializing ∧
      Fresh .sample ⟨"ai", "demo"⟩ false d none new first meantime last :=
  (statuses_fresh (o := fun _ => .sample) Edited.history Edited.edits_evolve
    Edited.start_versioned).told Edited.late_result rfl

end DistributionOperator
