import DistributionOperator.Proofs.Histories
import DistributionOperator.Proofs.StringMaps
import DistributionOperator.Startup

/-! The flags that an operator starts with, and those that are stored. The flags are looked for and
made in two steps, so another writer can come in between; the one that comes too late takes the
defaults without a look at what the other one stored. -/

namespace DistributionOperator

open Program

/-- What is printed is read again. -/
theorem Flags.ofYaml?_toYaml (f : Flags) : ofYaml? f.toYaml = some f := by
  obtain ⟨enabled⟩ := f
  cases enabled <;> decide +kernel

theorem Flags.ofData_toYaml (f : Flags) :
    ofData (some (.ofList [(dataKey, f.toYaml)])) = .ok f := by
  have hget : (StringMap.ofList [(dataKey, f.toYaml)]).get? dataKey = some f.toYaml := by
    rw [StringMap.get?_ofList (by simp)]
    rfl
  simp only [ofData, Option.bind_some, hget, ofYaml?_toYaml]

def Exchange.looksForFlags (space : String) (a : Except StoreError (Option ConfigMap)) : Exchange :=
  ⟨.store (.getConfigMap (Flags.configMapKey space)), a⟩

def Exchange.makesFlags (space : String) (a : Except StoreError ConfigMap) : Exchange :=
  ⟨.store (.createConfigMap space (Flags.defaultConfigMap space)), a⟩

open Exchange

variable {space : String} {s s' : Scene} {t : List Exchange} {r : Except OperatorError Flags}

/-- The config map of the operator is there, and these flags are in it. -/
def Flags.Stored (space : String) (f : Flags) (s : Store) : Prop :=
  ∃ map, s.configMaps (configMapKey space) = some map ∧ ofData map.data = .ok f

/-- The ways that loading the flags can go. -/
inductive Flags.Loads (space : String) : List Exchange → Except OperatorError Flags → Prop where
  | unread (e : StoreError) :
      Loads space [looksForFlags space (.error e)] (.error (.store "get" "ConfigMap" e))
  | found (map : ConfigMap) : Loads space [looksForFlags space (.ok (some map))] (ofData map.data)
  | made (stored : ConfigMap) :
      Loads space [looksForFlags space (.ok none), makesFlags space (.ok stored)] (.ok .initial)
  | overtaken {e : StoreError} (he : e.isConflict = true) :
      Loads space [looksForFlags space (.ok none), makesFlags space (.error e)] (.ok .initial)
  | failed {e : StoreError} (he : e.isConflict = false) :
      Loads space [looksForFlags space (.ok none), makesFlags space (.error e)]
        (.error (.store "create" "ConfigMap" e))

theorem createFlags_dialogue (h : (createFlags space).Dialogue t r) :
    Flags.Loads space (looksForFlags space (.ok none) :: t) r := by
  obtain ⟨a, rest, rfl, hrest⟩ := dialogue_store_bind.mp h
  cases a with
  | ok stored =>
    obtain ⟨rfl, rfl⟩ := dialogue_done.mp hrest
    exact .made stored
  | error e =>
    cases he : e.isConflict with
    | true =>
      simp only [he, if_true] at hrest
      obtain ⟨rfl, rfl⟩ := dialogue_done.mp hrest
      exact .overtaken he
    | false =>
      simp only [he, Bool.false_eq_true, if_false] at hrest
      obtain ⟨rfl, rfl⟩ := dialogue_done.mp hrest
      exact .failed he

theorem loadFlags_dialogue (h : (loadFlags space).Dialogue t r) : Flags.Loads space t r := by
  rcases dialogue_andThen.mp h with ⟨e, he, rfl⟩ | ⟨found, t₁, rest, rfl, hfound, hrest⟩
  · obtain ⟨a, rfl, ha⟩ := dialogue_attempt.mp he
    cases a with
    | error cause =>
      cases ha
      exact .unread cause
    | ok found => cases ha
  · obtain rfl := dialogue_attempt_ok.mp hfound
    cases found with
    | some map =>
      obtain ⟨rfl, rfl⟩ := dialogue_done.mp hrest
      exact .found map
    | none => exact createFlags_dialogue hrest

theorem step_looksForFlags {a : Except StoreError (Option ConfigMap)}
    (h : s.Step (looksForFlags space a) s') :
    s'.store = s.store ∧
      ∀ map, a = .ok (some map) → s.store.configMaps (Flags.configMapKey space) = some map := by
  rcases Scene.step_store h with ⟨ha, _⟩ | ⟨hr, rfl⟩
  · obtain ⟨rfl, hs⟩ := Prod.mk.inj ha
    exact ⟨hs.symm, fun map hmap => Except.ok.inj hmap⟩
  · refine ⟨rfl, fun map hmap => ?_⟩
    subst hmap
    rcases hr with ⟨e, he⟩ | he
    · cases he
    · cases he

/-- What is made has the defaults in it; what is not made leaves the store as it is. -/
theorem step_makesFlags {a : Except StoreError ConfigMap} (h : s.Step (makesFlags space a) s') :
    (∃ map, a = .ok map ∧ Flags.Stored space .initial s'.store) ∨
      ∃ e, a = .error e ∧ s'.store = s.store := by
  rcases Scene.step_store h with ⟨ha, _⟩ | ⟨hr, rfl⟩
  · unfold Store.answer Store.createConfigMap at ha
    simp only at ha
    split at ha
    · obtain ⟨rfl, hs⟩ := Prod.mk.inj ha
      exact .inr ⟨_, rfl, hs.symm⟩
    · obtain ⟨rfl, hs⟩ := Prod.mk.inj ha
      rw [← hs]
      exact .inl ⟨_, rfl, _, Table.set_same _ _ _, Flags.ofData_toYaml _⟩
  · obtain ⟨e, he⟩ := hr.error rfl
    exact .inr ⟨e, he, rfl⟩

/-- A call that leaves the store as it is. -/
def Exchange.SparesFlags (space : String) (x : Exchange) : Prop :=
  (∃ a, x = looksForFlags space a) ∨ ∃ e, x = makesFlags space (.error e)

theorem step_sparesFlags {x : Exchange} (hx : x.SparesFlags space) (h : s.Step x s') :
    s'.store = s.store := by
  rcases hx with ⟨a, rfl⟩ | ⟨e, rfl⟩
  · exact (step_looksForFlags h).1
  · rcases step_makesFlags h with ⟨_, hok, _⟩ | ⟨_, _, hsame⟩
    · cases hok
    · exact hsame

namespace Flags.Loads

theorem of_found {map : ConfigMap} (h : Loads space t r)
    (hx : looksForFlags space (.ok (some map)) ∈ t) :
    r = ofData map.data ∧ ∀ x ∈ t, x.SparesFlags space := by
  cases h with
  | found map' =>
    obtain rfl : map = map' := by simpa [looksForFlags] using hx
    exact ⟨rfl, by simpa using .inl ⟨_, rfl⟩⟩
  | _ => simp [looksForFlags, makesFlags] at hx

theorem of_missed (h : Loads space t r) (hx : looksForFlags space (.ok none) ∈ t) :
    ∃ a, t = [looksForFlags space (.ok none), makesFlags space a] ∧ ∀ f, r = .ok f → f = initial := by
  cases h with
  | made stored => exact ⟨_, rfl, fun f hf => (Except.ok.inj hf).symm⟩
  | overtaken => exact ⟨_, rfl, fun f hf => (Except.ok.inj hf).symm⟩
  | failed => exact ⟨_, rfl, fun f hf => by cases hf⟩
  | _ => simp [looksForFlags] at hx

theorem of_error {e : OperatorError} (h : Loads space t (.error e)) :
    ∀ x ∈ t, x.SparesFlags space := by
  generalize hr : Except.error e = r at h
  cases h with
  | made => cases hr
  | overtaken => cases hr
  | unread => simpa using .inl ⟨_, rfl⟩
  | found => simpa using .inl ⟨_, rfl⟩
  | failed => simpa using ⟨.inl ⟨_, rfl⟩, .inr ⟨_, rfl⟩⟩

end Flags.Loads

section Loading

variable {others : Scene → Scene → Prop} {u : Scene} {l : List (Moment Unit)}
  {q : Unit → Program (Except OperatorError Flags)}

/-- The loader leaves the store as it is, whatever others do to it. -/
def Unwritten (l : List (Moment Unit)) : Prop :=
  ∀ m ∈ l, ∀ x, m.deed = some ((), x) → m.after.store = m.before.store

theorem unwritten_of_spares (h : History Scene.Step others s (fun _ => loadFlags space) l u q)
    (hx : ∀ x ∈ exchangesOf () l, x.SparesFlags space) : Unwritten l := by
  intro m hm x hd
  exact step_sparesFlags (hx x (mem_exchangesOf.mpr ⟨m, hm, hd⟩)) (h.served hm hd)

/-- The defaults are stored after the loader tried to make the config map exactly if it made it, or
the one that was in its way has them in it. -/
theorem stored_iff {a : Except StoreError ConfigMap} (h : s.Step (makesFlags space a) s') :
    Flags.Stored space .initial s'.store ↔
      (∃ map, a = .ok map) ∨ Flags.Stored space .initial s.store := by
  rcases step_makesFlags h with ⟨map, rfl, hstored⟩ | ⟨e, rfl, hsame⟩
  · exact iff_of_true hstored (.inl ⟨map, rfl⟩)
  · rw [hsame]
    simp

/-- Once the store has answered the loader's try, there is a config map. -/
theorem exists_of_answered {a : Except StoreError ConfigMap} {store : Store}
    (h : s.store.answer (.createConfigMap space (Flags.defaultConfigMap space)) = (a, store)) :
    store.configMaps (Flags.configMapKey space) ≠ none := by
  unfold Store.answer Store.createConfigMap at h
  simp only at h
  split at h
  · rename_i there hthere
    obtain ⟨_, rfl⟩ := Prod.mk.inj h
    intro hnone
    exact nomatch hthere.symm.trans hnone
  · obtain ⟨_, rfl⟩ := Prod.mk.inj h
    intro hnone
    exact nomatch (Table.set_same _ _ _).symm.trans hnone

/-- Flags that are found are those that are stored, and then nothing is written. Where none are
found, the defaults are loaded, and they are stored too exactly if the loader made the config map or
the one that was in its way has them in it. A loader that fails has written nothing. -/
theorem loadFlags_stored (h : History Scene.Step others s (fun _ => loadFlags space) l u q)
    (hq : q () = .done r) :
    (∀ m ∈ l, ∀ map, m.deed = some ((), looksForFlags space (.ok (some map))) →
      m.before.store.configMaps (Flags.configMapKey space) = some map ∧
        r = Flags.ofData map.data ∧ Unwritten l) ∧
    (∀ m ∈ l, m.deed = some ((), looksForFlags space (.ok none)) →
      ∃ l₁ looks l₂ tries l₃ a, l = l₁ ++ looks :: (l₂ ++ tries :: l₃) ∧
        looks.deed = some ((), looksForFlags space (.ok none)) ∧
        tries.deed = some ((), makesFlags space a) ∧
        (tries.before.store.answer (.createConfigMap space (Flags.defaultConfigMap space)) =
            (a, tries.after.store) →
          tries.after.store.configMaps (Flags.configMapKey space) ≠ none) ∧
        ∀ f, r = .ok f → f = .initial ∧
          (Flags.Stored space f tries.after.store ↔
            (∃ map, a = .ok map) ∨ Flags.Stored space f tries.before.store)) ∧
    ∀ e, r = .error e → Unwritten l := by
  have hlead := h.leads ()
  rw [hq] at hlead
  have hloads := loadFlags_dialogue hlead.dialogue_of_done
  refine ⟨fun m hm map hd => ?_, fun m hm hd => ?_, fun e he => ?_⟩
  · obtain ⟨hr, hspares⟩ := hloads.of_found (mem_exchangesOf.mpr ⟨m, hm, hd⟩)
    exact ⟨(step_looksForFlags (h.served hm hd)).2 map rfl, hr, unwritten_of_spares h hspares⟩
  · obtain ⟨a, ht, hf⟩ := hloads.of_missed (mem_exchangesOf.mpr ⟨m, hm, hd⟩)
    rw [← List.nil_append [looksForFlags space _, _]] at ht
    obtain ⟨l₁, looks, l', rfl, hlooks, _, hl'⟩ := exists_moment ht
    rw [← List.nil_append [makesFlags space a]] at hl'
    obtain ⟨l₂, tries, l₃, rfl, htries, _, _⟩ := exists_moment hl'
    refine ⟨l₁, looks, l₂, tries, l₃, a, rfl, hlooks, htries, exists_of_answered, fun f hr => ?_⟩
    obtain rfl := hf f hr
    exact ⟨rfl, stored_iff (h.served (by simp) htries)⟩
  · subst he
    exact unwritten_of_spares h hloads.of_error

end Loading

/-! A loader that finds no config map, while another writer makes one before it can. -/

namespace Outrun

/-- What the other writer makes. -/
def winner (f : Flags) : ConfigMap :=
  { Flags.defaultConfigMap "operators" with data := some (.ofList [(Flags.dataKey, f.toYaml)]) }

def Wins (f : Flags) (u v : Scene) : Prop := v.store = u.store.addConfigMap "operators" (winner f)

def start : Scene := ⟨.empty, .initial⟩

def won (f : Flags) : Scene := { start with store := start.store.addConfigMap "operators" (winner f) }

def lost : StoreError :=
  .conflict ("ConfigMap " ++ (Flags.configMapKey "operators").text ++ " already exists")

def looks : Moment Unit := ⟨start, some ((), looksForFlags "operators" (.ok none)), start⟩

def wins (f : Flags) : Moment Unit := ⟨start, none, won f⟩

def tries (f : Flags) : Moment Unit :=
  ⟨won f, some ((), makesFlags "operators" (.error lost)), won f⟩

theorem history (f : Flags) : ∃ q : Unit → Program (Except OperatorError Flags),
    q () = .done (.ok .initial) ∧
      History Scene.Step (Wins f) start (fun _ => loadFlags "operators")
        (looks :: ([wins f] ++ [tries f])) (won f) q := by
  have hlooks : start.Step (looksForFlags "operators" (.ok none)) start := .reached start _
  have hwins : Wins f start (won f) := rfl
  have htries : (won f).Step (makesFlags "operators" (.error lost)) (won f) := .reached (won f) _
  have hbegun : History Scene.Step (Wins f) start (fun _ : Unit => loadFlags "operators") [] start
    _ := .start
  have hlooked := (hbegun.call (i := ()) rfl hlooks).between hwins
  exact ⟨_, rfl, hlooked.call (i := ()) rfl htries⟩

end Outrun

/-- Of a winner who stores the defaults nothing is lost. -/
theorem loadFlags_stored_outrun :
    Flags.Stored "operators" .initial (Outrun.won .initial).store := by
  obtain ⟨q, hq, h⟩ := Outrun.history .initial
  obtain ⟨l₁, looks, l₂, tries, l₃, a, hl, hlooks, htries, _, hf⟩ :=
    (loadFlags_stored h hq).2.1 Outrun.looks List.mem_cons_self rfl
  have hmem : tries ∈ Outrun.looks :: ([Outrun.wins .initial] ++ [Outrun.tries .initial]) := by
    rw [hl]
    simp
  simp only [List.singleton_append, List.mem_cons, List.not_mem_nil, or_false] at hmem
  rcases hmem with rfl | rfl | rfl
  · simp [Outrun.looks, looksForFlags, makesFlags] at htries
  · cases htries
  · exact (hf .initial rfl).2.mpr (.inr ⟨_, rfl, Flags.ofData_toYaml .initial⟩)

/-- What a winner stored, and what is loaded, may differ. -/
theorem loadFlags_not_stored : ¬∀ others l u looks tries q f,
    History Scene.Step others Outrun.start (fun _ : Unit => loadFlags "operators")
        (looks :: (l ++ [tries])) u q →
      looks.deed = some ((), looksForFlags "operators" (.ok none)) →
      (∀ m ∈ l, m.deed = none) → q () = .done (.ok f) → Flags.Stored "operators" f u.store := by
  intro h
  obtain ⟨q, hq, hhistory⟩ := Outrun.history ⟨true⟩
  obtain ⟨map, hmap, hf⟩ := h _ _ _ _ _ _ _ hhistory rfl (by simp [Outrun.wins]) hq
  obtain rfl : map = Outrun.winner ⟨true⟩ := Option.some.inj (hmap.symm.trans rfl)
  rw [Outrun.winner, Flags.ofData_toYaml] at hf
  cases hf

end DistributionOperator
