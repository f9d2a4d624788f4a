import DistributionOperator.Proofs.Regions

/-! What is stored of a status over runs of passes, while others edit the specs. A pass that
persists a status writes it over the one that it found; everything else leaves the statuses as they
are. -/

namespace DistributionOperator

open Program

def Store.status? (s : Store) (k : Key) : Option Status := (s.distributions k).bind (·.status)

/-- Whatever others do, they keep the stored statuses and leave every distribution in its place. -/
structure Scene.Edits (u v : Scene) : Prop where
  statuses : ∀ k, v.store.status? k = u.store.status? k
  filed : ∀ k, u.store.Filed k → v.store.Filed k

/-- A pass that persisted a status under a key: it was evaluated for the distribution that the pass
found, after the synchronization of that. -/
structure PassRecord.Reports (p : PassRecord) (j : Key) (d : Distribution)
    (r : Except OperatorError Unit) (new : Status) : Prop where
  finds : p.Finds d
  synchronized : p.Synchronized d r
  evaluated : ∃ t, (evaluate p.operator d (failureOf r)).Dialogue t (.ok new)
  persists : Persists p.exchanges j new
  key : j = d.key

/-- A pass that told of the distribution that it read: its synchronization went well, and it
persisted a status under the key. -/
def PassRecord.TellsOf (p : PassRecord) (j : Key) (d : Distribution) : Prop :=
  p.Synchronized d (.ok ()) ∧ ∃ new, Persists p.exchanges j new

section Passes

variable {p : PassRecord} {d d' : Distribution} {j : Key} {new : Status}
  {r r' : Except OperatorError Unit}

theorem PassRecord.Synchronized.unique (h : p.Synchronized d r) (h' : p.Synchronized d' r') :
    d = d' ∧ r = r' := by
  obtain ⟨t, t₁, hfilter, hdialogue⟩ := h
  obtain ⟨t', t₁', hfilter', hdialogue'⟩ := h'
  rw [hfilter] at hfilter'
  simp only [List.cons.injEq, Exchange.mk.injEq, heq_eq_eq, true_and, Except.ok.injEq,
    Option.some.injEq] at hfilter'
  obtain ⟨rfl, hparts⟩ := hfilter'
  exact ⟨rfl, (hdialogue.unique hdialogue' hparts).2⟩

theorem not_tellsOf (h : ∀ new, ¬Persists p.exchanges j new) (e : Distribution) :
    ¬p.TellsOf j e := fun he => he.2.elim h

theorem PassRecord.Reports.tellsOf_iff (h : p.Reports j d r new) (e : Distribution) :
    p.TellsOf j e ↔ e = d ∧ r = .ok () := by
  constructor
  · rintro ⟨hsync, _⟩
    obtain ⟨rfl, hr⟩ := hsync.unique h.synchronized
    exact ⟨rfl, hr.symm⟩
  · rintro ⟨rfl, rfl⟩
    exact ⟨h.synchronized, new, h.persists⟩

theorem persists_evaluated {o : Operator} {failure : Option OperatorError} {t : List Exchange}
    {written : Except OperatorError Phase} (h : (updateStatus o d failure).Dialogue t written)
    (hp : Persists t j new) :
    j = d.key ∧ ∃ t₁, (evaluate o d failure).Dialogue t₁ (.ok new) ∧
      t = t₁ ++ [⟨.store (.updateStatus d.key d.metadata.resourceVersion new), .ok ()⟩] := by
  have hnone : ∀ {t₁ r}, (evaluate o d failure).Dialogue t₁ r → ¬Persists t₁ j new :=
    fun he => not_persists fun x hx =>
      observes_not_status ((evaluate_within o d failure).of_dialogue he x hx)
  rcases updateStatus_dialogue h with ⟨e, _, he⟩ | ⟨status, a, t₁, rfl, he, _⟩
  · exact absurd hp (hnone he)
  · rw [persists_append, persists_singleton] at hp
    obtain ⟨rfl, rfl, rfl⟩ := hp.resolve_left (hnone he)
    exact ⟨rfl, t₁, he, rfl⟩

/-- Of the parts of a pass, only the update of the status persists anything. -/
theorem persists_parts {o : Operator} {k : Key} {a : Except StoreError (Option Distribution)}
    {t t₁ t₂ t₃ : List Exchange} (hr : ∀ x ∈ t₁ ++ t₃, x.call.Recalls)
    (hs : (synchronize o d).Dialogue t r) :
    Persists (⟨.store (.getDistribution k), a⟩ :: (t₁ ++ ((t ++ t₂) ++ t₃))) j new ↔
      Persists t₂ j new := by
  have hread : ¬Persists [⟨.store (.getDistribution k), a⟩] j new := not_persists (by simp)
  have hsync : ¬Persists t j new := not_persists fun x hx =>
    syncCall_not_status ((synchronize_within o d).of_dialogue hs x hx)
  have hr₁ : ¬Persists t₁ j new := not_persists fun x hx =>
    recalls_not_status (hr x (List.mem_append_left _ hx))
  have hr₃ : ¬Persists t₃ j new := not_persists fun x hx =>
    recalls_not_status (hr x (List.mem_append_right _ hx))
  rw [← List.singleton_append]
  simp only [persists_append, hread, hr₁, hr₃, hsync, false_or, or_false]

/-- A pass that finds a distribution synchronizes it, and persists what it persists in the update of
the status that follows. -/
theorem pass_works (h : p.Made) :
    ((∀ j new, ¬Persists p.exchanges j new) ∧
        ∀ outcome, p.result = .ok outcome → outcome.phase = none) ∨
      ∃ d synced written t, p.Finds d ∧ p.Synchronized d synced ∧
        (updateStatus p.operator d (failureOf synced)).Dialogue t written ∧
        p.result = passResult synced written ∧
        ∀ j new, Persists p.exchanges j new ↔ Persists t j new := by
  rcases pass_dialogue h.dialogue with ⟨a, t₁, ht, hr, _, hphase⟩ | ⟨d, t₁, t₂, t₃, ht, hr, hw⟩
  · have hrecalls : ∀ x ∈ t₁, ∀ j v new, x.call ≠ .store (.updateStatus j v new) :=
      fun x hx => recalls_not_status (hr x hx)
    refine .inl ⟨fun j new => not_persists fun x hx => ?_, hphase⟩
    rw [ht] at hx
    rcases List.mem_cons.mp hx with rfl | hx
    · simp
    · exact hrecalls x hx
  · obtain ⟨synced, written, ts, tw, rfl, hs, hu, hresult⟩ := workOn_dialogue hw
    obtain ⟨u, v, hsynchronizes⟩ := synchronizes_of_parts h ht hr hs hu
    refine .inr ⟨d, synced, written, tw, hsynchronizes.finds,
      ⟨ts, tw.filter (!·.isMemory), ?_, hs⟩, hu, hresult, fun j new => ?_⟩
    · rw [ht, filter_parts rfl hr hs]
    · rw [ht]
      exact persists_parts hr hs

theorem pass_reports (h : p.Made) (hp : Persists p.exchanges j new) :
    ∃ d r, p.Reports j d r new := by
  rcases pass_works h with ⟨hnone, _⟩ | ⟨d, r, written, t, hfinds, hsync, hu, _, hpersists⟩
  · exact absurd hp (hnone j new)
  · obtain ⟨hkey, t₁, heval, _⟩ := persists_evaluated hu ((hpersists j new).mp hp)
    exact ⟨d, r, hfinds, hsync, ⟨t₁, heval⟩, hp, hkey⟩

theorem tells_of_ok (h : p.Made) {outcome : Outcome} (hr : p.result = .ok outcome)
    (hphase : outcome.phase ≠ none) : ∃ d, p.Finds d ∧ p.TellsOf d.key d := by
  rcases pass_works h with ⟨_, hnone⟩ | ⟨d, r, written, t, hfinds, hsync, hu, hresult, hpersists⟩
  · exact absurd (hnone outcome hr) hphase
  · rw [hr] at hresult
    cases r with
    | error e => cases hresult
    | ok =>
      rcases updateStatus_dialogue hu with ⟨e, rfl, _⟩ | ⟨new, a, t₁, rfl, _, rfl⟩
      · cases hresult
      · cases a with
        | error e => cases hresult
        | ok =>
          have hlast : Persists (t₁ ++ [⟨.store (.updateStatus d.key d.metadata.resourceVersion new),
              .ok ()⟩]) d.key new := persists_append.mpr (.inr (persists_singleton.mpr ⟨rfl, rfl, rfl⟩))
          exact ⟨d, hfinds, hsync, new, (hpersists _ _).mpr hlast⟩

/-- A pass persists a status under a key, over the one that it found there, or leaves what is stored
there as it is. -/
theorem pass_status (h : p.Made) (hs : ∀ k, p.before.store.Filed k) (j : Key) :
    (p.after.store.status? j = p.before.store.status? j ∧
        ∀ new, ¬Persists p.exchanges j new) ∨
      ∃ d r new, p.Reports j d r new ∧ p.before.store.status? j = d.status ∧
        p.after.store.status? j = some (new.over d.status) := by
  by_cases hp : ∃ new, Persists p.exchanges j new
  · obtain ⟨new, hp⟩ := hp
    obtain ⟨d, r, hreports⟩ := pass_reports h hp
    refine .inr ⟨d, r, new, hreports, ?_⟩
    -- what was found under the key of the pass has that key, so that the write is over it
    have hkey : j = p.key := hreports.key.trans (hs p.key d hreports.finds)
    have hfound : p.before.store.distributions j = some d := by
      rw [hkey]
      exact hreports.finds
    rcases pass_writes h with ⟨_, hnone⟩ | ⟨d', _, new', _, _, _, _, ⟨d₀, version, hd₀, hset⟩, hiff⟩
    · exact absurd hp (hnone j new)
    · obtain ⟨rfl, rfl⟩ := (hiff j new).mp hp
      obtain rfl := Option.some.inj (hfound.symm.trans hd₀)
      simp [Store.status?, hset, hfound]
  · have hnone : ∀ new, ¬Persists p.exchanges j new := not_exists.mp hp
    refine .inl ⟨?_, hnone⟩
    rcases pass_writes h with ⟨hsame, _⟩ | ⟨d, _, new, _, _, _, _, ⟨d₀, _, _, hset⟩, hiff⟩
    · rw [Store.status?, hsame, Store.status?]
    · have hj : j ≠ d.key := fun hj => hnone new ((hiff j new).mpr ⟨hj, rfl⟩)
      rw [Store.status?, hset, Table.set_other _ _ hj, Store.status?]

end Passes

section Runs

variable {others : Scene → Scene → Prop} {s s' : Scene} {ps : List PassRecord} {j : Key}

theorem run_filed (h : Scene.Run others s ps s') (ho : ∀ u v, others u v → u.Edits v)
    (hs : ∀ k, s.store.Filed k) : ∀ k, s'.store.Filed k := by
  induction h with
  | start => exact hs
  | @pass ps p _ hp ih =>
    exact fun k => Scene.through_preserves (P := fun u => u.store.Filed k) hp.through
      (fun _ _ _ _ => Scene.step_filed) (ih k)
  | between _ hu ih => exact fun k => (ho _ _ hu).filed k (ih k)

/-- What holds of the status under a key at the start, and is kept by the passes that leave it and
by those that persist another one over it, holds after every run. -/
theorem run_status {P : List PassRecord → Option Status → Prop} (h : Scene.Run others s ps s')
    (ho : ∀ u v, others u v → u.Edits v) (hs : ∀ k, s.store.Filed k)
    (hstart : P [] (s.store.status? j))
    (hkept : ∀ ps p old, (∀ new, ¬Persists p.exchanges j new) → P ps old → P (ps ++ [p]) old)
    (hwritten : ∀ ps p d r new, p.Reports j d r new → P ps d.status →
      P (ps ++ [p]) (some (new.over d.status))) : P ps (s'.store.status? j) := by
  induction h with
  | start => exact hstart
  | @pass ps p hbefore hp ih =>
    rcases pass_status hp (run_filed hbefore ho hs) j with
      ⟨hsame, hnone⟩ | ⟨d, r, new, hreports, hfound, hstored⟩
    · rw [hsame]
      exact hkept ps p _ hnone ih
    · rw [hstored]
      exact hwritten ps p d r new hreports (hfound ▸ ih)
  | between _ hu ih => rwa [(ho _ _ hu).statuses]

end Runs

/-! A distribution whose spec is edited after a first pass. -/

namespace Rehearsal

/-- The rehearsal after all distributions were given a spec, with their statuses as they are. -/
def respecified (r : Rehearsal) (spec : Spec) : Rehearsal :=
  { r with store := { r.store with
    distributions := fun k => (r.store.distributions k).map fun d => { d with spec := spec } } }

theorem respecified_edits (r : Rehearsal) (spec : Spec) :
    r.scene.Edits (r.respecified spec).scene where
  statuses k := by
    show (((r.store.distributions k).map _).bind _ : Option Status) = _
    rw [Option.bind_map]
    rfl
  filed k hk := by
    intro e he
    have hstored : (r.store.distributions k).map (fun d => { d with spec := spec }) = some e := he
    obtain ⟨d, hd, rfl⟩ := Option.map_eq_some_iff.mp hstored
    exact hk d hd

theorem first_found {d e : Distribution} {k : Key}
    (h : ((start .epoch).edited d).scene.store.distributions k = some e) :
    k = Store.keyIn d.space d.metadata ∧ e = d.stamped "1" := by
  have hstored : Table.empty.set (Store.keyIn d.space d.metadata) (some (d.stamped "1")) k =
      some e := h
  by_cases hk : k = Store.keyIn d.space d.metadata
  · rw [hk, Table.set_same] at hstored
    exact ⟨hk, (Option.some.inj hstored).symm⟩
  · rw [Table.set_other _ _ hk] at hstored
    cases hstored

theorem first_filed {d : Distribution} {name : String} (hn : d.metadata.name = some name)
    (k : Key) : ((start .epoch).edited d).scene.store.Filed k := by
  intro e he
  obtain ⟨rfl, rfl⟩ := first_found he
  simp [Distribution.key, Distribution.stamped, Store.keyIn, Distribution.name, Distribution.space,
    ObjectMeta.anyName, ObjectMeta.spaceOrDefault, hn]

theorem first_status {d : Distribution} (hs : d.status = none) (k : Key) :
    ((start .epoch).edited d).scene.store.status? k = none := by
  refine Option.bind_eq_none_iff.mpr fun e he => ?_
  obtain ⟨_, rfl⟩ := first_found he
  exact hs

end Rehearsal

theorem respecified_run (r : Rehearsal) (spec : Spec) :
    Scene.Run Scene.Edits r.scene
      ([PassRecord.sample r] ++ [PassRecord.sample (r.passed.respecified spec)])
      (PassRecord.sample (r.passed.respecified spec)).after :=
  .pass (.between (.pass (.start _) (sample_made r)) (r.passed.respecified_edits spec))
    (sample_made _)

theorem respecified_filed {r : Rehearsal} (hs : ∀ k, r.scene.store.Filed k) (spec : Spec)
    (k : Key) : (r.passed.respecified spec).scene.store.Filed k := by
  have hfirst : Scene.Run Scene.Edits r.scene [PassRecord.sample r]
      (r.passed.respecified spec).scene :=
    .between (.pass (.start _) (sample_made r)) (r.passed.respecified_edits spec)
  exact run_filed hfirst (fun _ _ h => h) hs k

theorem respecified_found {r : Rehearsal} {spec : Spec} {d : Distribution}
    (hs : ∀ k, r.scene.store.Filed k)
    (hd : (PassRecord.sample (r.passed.respecified spec)).Finds d) :
    d.key = ⟨"ai", "demo"⟩ ∧ d.spec = spec := by
  refine ⟨respecified_filed hs spec _ d hd, ?_⟩
  obtain ⟨e, _, rfl⟩ := Option.map_eq_some_iff.mp hd
  rfl

end DistributionOperator
