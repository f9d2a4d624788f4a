import DistributionOperator.Proofs.RegionPasses

/-! Passes over several distributions that go on at the same time. None of them touches what belongs
to another one, so that it makes no difference, up to versions and moments, in which order their
calls come: the store ends as if the passes had been made one by one. -/

namespace DistributionOperator

open Program

/-- Stores that hold the same but for versions and moments. The order of the writes, which the log
keeps, and their count are left aside. -/
structure Store.Alike (s s' : Store) : Prop where
  distributions : ∀ k,
    (s'.distributions k).map Distribution.plain = (s.distributions k).map Distribution.plain
  children : ∀ kind k,
    (s'.children kind k).map Child.unversioned = (s.children kind k).map Child.unversioned
  configMaps : s'.configMaps = s.configMaps
  statusFault : s'.statusFault = s.statusFault
  deploymentReadFault : s'.deploymentReadFault = s.deploymentReadFault

/-- Whole passes over distributions, each after the one before. -/
inductive Scene.OneByOne (answers : (c : ProbeCall) → c.Answer) (o : Operator) :
    Scene → List Key → Scene → Prop where
  | nil (s : Scene) : OneByOne answers o s [] s
  | cons {s u s' : Scene} {k : Key} {ks : List Key} {t : List Exchange}
      {r : Except OperatorError Outcome} (hp : (pass o k).Dialogue t r)
      (ht : Chained (Scene.ServesWith answers) s t u) (h : OneByOne answers o u ks s') :
      OneByOne answers o s (k :: ks) s'

section Histories

variable {ι α : Type} [DecidableEq ι] {serve : Scene → Exchange → Scene → Prop}
  {others : Scene → Scene → Prop} {s u v : Scene} {p q : ι → Program α} {l : List (Moment ι)}
  {i j : ι}

theorem exchangesOf_snoc_self (x : Exchange) :
    exchangesOf i (l ++ [⟨u, some (i, x), v⟩]) = exchangesOf i l ++ [x] := by
  rw [exchangesOf_append, exchangesOf_cons rfl]
  rfl

theorem exchangesOf_snoc_other (h : i ≠ j) (x : Exchange) :
    exchangesOf j (l ++ [⟨u, some (i, x), v⟩]) = exchangesOf j l := by
  have hnone : exchangesOf j [⟨u, some (i, x), v⟩] = [] := by
    simp [exchangesOf, Moment.exchange?, h]
  rw [exchangesOf_append, hnone, List.append_nil]

/-- A history goes on with all that one of its programs has left to say. -/
theorem History.finish {t : List Exchange} {a : α} (h : History serve others s p l u q)
    (hq : (q i).Dialogue t a) (ht : Chained serve u t v) :
    ∃ l', History serve others s p l' v (Function.update q i (.done a)) := by
  generalize hp : q i = rest at hq
  induction hq generalizing l u q with
  | done a =>
    obtain rfl := chained_nil.mp ht
    rw [← hp, Function.update_eq_self]
    exact ⟨l, h⟩
  | ask _ ih =>
    obtain ⟨w, hx, ht⟩ := chained_cons.mp ht
    obtain ⟨l', h'⟩ := ih (h.call hp hx) ht (Function.update_self i _ _)
    rw [Function.update_idem] at h'
    exact ⟨l', h'⟩

end Histories

section Handlers

variable {α σ : Type} {serve : σ → Exchange → σ → Prop} {g : Handler σ}

theorem chained_transcript (h : ∀ c s, serve s ⟨c, (g c s).1⟩ (g c s).2)
    (p : Program α) (s : σ) : Chained serve s (p.transcript g s) (p.run g s).2.2 := by
  induction p generalizing s with
  | done a => exact .nil s
  | ask c next ih => exact .cons (h c s) (ih _ _)

/-- A scene in which servers answer in a given way and the clock stands still. -/
def Scene.handler (answers : (c : ProbeCall) → c.Answer) : Handler Scene
  | .store c, s => ((s.store.answer c).1, { s with store := (s.store.answer c).2 })
  | .probe c, s => (answers c, s)
  | .memory c, s => ((s.memory.answer c).1, { s with memory := (s.memory.answer c).2 })
  | .now, s => (.epoch, s)

theorem Scene.handler_serves (answers : (c : ProbeCall) → c.Answer) (c : Call) (s : Scene) :
    s.ServesWith answers ⟨c, (Scene.handler answers c s).1⟩ (Scene.handler answers c s).2 := by
  cases c with
  | store c =>
    refine ⟨⟨.reached s c, ?_⟩, by rintro _ _ ⟨⟩, by rintro _ ⟨⟩⟩
    rintro _ _ ⟨⟩
    rfl
  | probe c =>
    refine ⟨⟨.probed s c _, by rintro _ _ ⟨⟩⟩, ?_, by rintro _ ⟨⟩⟩
    rintro _ _ ⟨⟩
    rfl
  | memory c => exact ⟨⟨.recalled s c, by rintro _ _ ⟨⟩⟩, by rintro _ _ ⟨⟩, by rintro _ ⟨⟩⟩
  | now =>
    refine ⟨⟨.told s _, by rintro _ _ ⟨⟩⟩, by rintro _ _ ⟨⟩, ?_⟩
    rintro _ ⟨⟩
    rfl

end Handlers

section Passes

variable {ι : Type} [DecidableEq ι] {o : Operator} {k : ι → Key}
  {answers : (c : ProbeCall) → c.Answer} {s u u' : Scene} {l l' : List (Moment ι)}
  {q q' : ι → Program (Except OperatorError Outcome)}

/-- Passes can always be made one by one. -/
theorem Scene.exists_oneByOne (answers : (c : ProbeCall) → c.Answer) (o : Operator) (s : Scene)
    (ks : List Key) : ∃ u, s.OneByOne answers o ks u := by
  induction ks generalizing s with
  | nil => exact ⟨s, .nil s⟩
  | cons k ks ih =>
    obtain ⟨u, hu⟩ := ih ((pass o k).run (Scene.handler answers) s).2.2
    exact ⟨u, .cons (dialogue_transcript _ _ s)
      (chained_transcript (Scene.handler_serves answers) _ s) hu⟩

/-- Passes that are made one by one are a history of all of them. -/
theorem Scene.OneByOne.history {order : List ι} (h : u.OneByOne answers o (order.map k) u')
    (hl : History (Scene.ServesWith answers) NobodyElse s (fun i => pass o (k i)) l u q)
    (hn : order.Nodup) (hq : ∀ i ∈ order, q i = pass o (k i)) :
    ∃ l' q', History (Scene.ServesWith answers) NobodyElse s (fun i => pass o (k i)) l' u' q' ∧
      (∀ i ∈ order, ∃ r, q' i = .done r) ∧ ∀ i ∉ order, q' i = q i := by
  induction order generalizing u l q with
  | nil =>
    cases h
    exact ⟨l, q, hl, by simp, fun _ _ => rfl⟩
  | cons i order ih =>
    have hnd := List.nodup_cons.mp hn
    cases h with
    | @cons _ v _ _ _ t r hp ht hrest =>
      rw [← hq i List.mem_cons_self] at hp
      obtain ⟨l₁, h₁⟩ := hl.finish hp ht
      obtain ⟨l', q', h', hdone, hkept⟩ := ih hrest h₁ hnd.2 fun j hj => by
        have hne : j ≠ i := fun he => hnd.1 (he ▸ hj)
        rw [Function.update_of_ne hne]
        exact hq j (List.mem_cons_of_mem _ hj)
      refine ⟨l', q', h', List.forall_mem_cons.mpr ⟨⟨r, ?_⟩, hdone⟩, fun j hj => ?_⟩
      · rw [hkept i hnd.1, Function.update_self]
      · obtain ⟨hne, hj⟩ := not_or.mp fun hm => hj (List.mem_cons.mpr hm)
        rw [hkept j hj, Function.update_of_ne hne]

/-- Passes that have not met: each of them has seen a region that nobody else came to, and nothing
was done beyond their regions. -/
structure Separate (answers : (c : ProbeCall) → c.Answer) (o : Operator) (k : ι → Key) (s : Scene)
    (l : List (Moment ι)) (u : Scene) (q : ι → Program (Except OperatorError Outcome)) :
    Prop where
  filed : ∀ i, u.store.Filed (k i)
  keeps : ∀ i, (q i).Keeps (Call.Minds (k i)) (Exchange.Names (k i))
  minds : ∀ m ∈ l, ∀ i x, m.deed = some (i, x) → x.call.Minds (k i)
  beyond : s.store.SameBeyond (Set.range k) u.store
  regions : ∀ i, Chained (Region.Serves answers (k i)) (s.store.region (k i)) (exchangesOf i l)
    (u.store.region (k i))

theorem passes_separate (hk : Function.Injective k) (hs : ∀ i, s.store.Filed (k i))
    (h : History (Scene.ServesWith answers) NobodyElse s (fun i => pass o (k i)) l u q) :
    Separate answers o k s l u q := by
  induction h with
  | start =>
    exact ⟨hs, fun i => pass_minds o (k i), by simp, .refl _ _, fun i => .nil _⟩
  | @call l u v q i c next a _ hq hserves ih =>
    have hkeeps := ih.keeps i
    rw [hq] at hkeeps
    have hminds : c.Minds (k i) := hkeeps.1
    have hstep : u.Step ⟨c, a⟩ v := hserves.serves.1
    have hbeyond := Scene.step_sameBeyond hstep hminds
    refine ⟨fun j => Scene.step_filed hstep (ih.filed j), fun j => ?_, ?_, ?_, fun j => ?_⟩
    · by_cases hj : i = j
      · subst hj
        rw [Function.update_self]
        exact hkeeps.2 a (Scene.step_names hstep (ih.filed i))
      · rw [Function.update_of_ne fun he => hj he.symm]
        exact ih.keeps j
    · refine List.forall_mem_append.mpr ⟨ih.minds, List.forall_mem_singleton.mpr ?_⟩
      rintro _ _ ⟨⟩
      exact hminds
    · exact ih.beyond.trans (hbeyond.mono (by simp))
    · -- only the region of the pass that makes the call can change
      by_cases hj : i = j
      · subst hj
        rw [exchangesOf_snoc_self]
        exact chained_append.mpr ⟨_, ih.regions i, .cons ⟨hminds, u, v, hserves, rfl, rfl⟩ (.nil _)⟩
      · rw [exchangesOf_snoc_other hj, hbeyond.region_eq fun he => hj (hk he).symm]
        exact ih.regions j
  | between _ ho => exact ho.elim

/-- All histories of passes over different distributions end alike. -/
theorem histories_alike (hk : Function.Injective k) (hs : ∀ i, s.store.Filed (k i))
    (h : History (Scene.ServesWith answers) NobodyElse s (fun i => pass o (k i)) l u q)
    (hq : ∀ i, ∃ r, q i = .done r)
    (h' : History (Scene.ServesWith answers) NobodyElse s (fun i => pass o (k i)) l' u' q')
    (hq' : ∀ i, ∃ r, q' i = .done r) : u.store.Alike u'.store := by
  have hsep := passes_separate hk hs h
  have hsep' := passes_separate hk hs h'
  have hregions : ∀ i, (u.store.region (k i)).Alike (u'.store.region (k i)) := by
    intro i
    obtain ⟨r, hr⟩ := hq i
    obtain ⟨r', hr'⟩ := hq' i
    have hp := (hr ▸ h.leads i).dialogue_of_done
    have hp' := (hr' ▸ h'.leads i).dialogue_of_done
    exact pass_alike (r := s.store.region (k i)) (hs i) hp (hsep.regions i) hp' (hsep'.regions i)
  refine ⟨fun key => ?_, fun kind place => ?_, ?_, ?_, ?_⟩
  · by_cases hkey : key ∈ Set.range k
    · obtain ⟨i, rfl⟩ := hkey
      exact (hregions i).distribution
    · rw [hsep.beyond.distributions key hkey, hsep'.beyond.distributions key hkey]
  · by_cases hplace : ∃ i, place = (k i).child kind
    · obtain ⟨i, rfl⟩ := hplace
      exact (hregions i).children kind
    · have hother : ∀ key ∈ Set.range k, place ≠ key.child kind := by
        rintro _ ⟨i, rfl⟩ he
        exact hplace ⟨i, he⟩
      rw [hsep.beyond.children kind place hother, hsep'.beyond.children kind place hother]
  · rw [hsep.beyond.configMaps, hsep'.beyond.configMaps]
  · rw [hsep.beyond.statusFault, hsep'.beyond.statusFault]
  · rw [hsep.beyond.deploymentReadFault, hsep'.beyond.deploymentReadFault]

omit [DecidableEq ι] in
theorem text_ne {i j : ι} (hk : Function.Injective k) (hplain : ∀ i, (k i).Plain) (h : i ≠ j) :
    (k i).text ≠ (k j).text := fun he => h (hk (Key.text_inj (hplain i) (hplain j) he))

/-- Passes over different distributions do not interfere. One of them leaves all that belongs to
another distribution as it is, whatever its own calls are answered. And in whichever order the
calls of several come, none of them touches what belongs to another pass, and once all have ended
the store is the same, up to versions and moments, as after the same passes one by one in any
order. -/
theorem passes_independent (o : Operator) (hk : Function.Injective k)
    (hplain : ∀ i, (k i).Plain) :
    (∀ i j, i ≠ j → ∀ s t r s', s.store.Filed (k i) → (pass o (k i)).Performs s t r s' →
        s.SameFor (k j) s') ∧
      ∀ answers s l u q, (∀ i, s.store.Filed (k i)) →
        History (Scene.ServesWith answers) NobodyElse s (fun i => pass o (k i)) l u q →
          (∀ m ∈ l, ∀ i x, m.deed = some (i, x) → ∀ j, i ≠ j →
              m.before.SameFor (k j) m.after) ∧
            ((∀ i, ∃ r, q i = .done r) → ∀ order : List ι, order.Nodup → (∀ i, i ∈ order) →
              (∃ u', s.OneByOne answers o (order.map k) u') ∧
                ∀ u', s.OneByOne answers o (order.map k) u' → u.store.Alike u'.store) := by
  refine ⟨fun i j hij s t r s' hs h => ?_, fun answers s l u q hs h => ⟨?_, ?_⟩⟩
  · exact pass_sameFor h hs (text_ne hk hplain hij.symm)
  · intro m hm i x hd j hij
    exact Scene.step_sameFor (h.served hm hd).serves.1 ((passes_separate hk hs h).minds m hm i x hd)
      (text_ne hk hplain hij.symm)
  · intro hdone order hn hall
    refine ⟨Scene.exists_oneByOne answers o s _, fun u' hu' => ?_⟩
    obtain ⟨l', q', h', hdone', _⟩ := hu'.history .start hn fun _ _ => rfl
    exact histories_alike hk hs h hdone h' fun i => hdone' i (hall i)

end Passes

/-! Passes over two sample distributions in one namespace, whose calls come in turn. -/

namespace Rehearsal

/-- What a canned probe answers, whenever it is asked. -/
def saying (r : Rehearsal) (c : ProbeCall) : c.Answer := (r.probe.answer c).1

/-- A rehearsal in which no call fails and the clock shows a moment that can be read. -/
structure Steady (answers : (c : ProbeCall) → c.Answer) (r : Rehearsal) : Prop where
  reached : ∀ op, r.disturbed op = none
  timed : r.clock.date.inRange = true
  probed : r.saying = answers

theorem Steady.serves {answers : (c : ProbeCall) → c.Answer} {r : Rehearsal}
    (h : r.Steady answers) (c : Call) :
    r.scene.ServesWith answers ⟨c, (answer c r).1⟩ (answer c r).2.scene ∧
      (answer c r).2.Steady answers := by
  obtain ⟨hserves, hreached⟩ := Rehearsal.serves h.reached c
  cases c with
  | store c =>
    have hasked : r.askStore c = r.reachStore c := by simp [askStore, h.reached]
    refine ⟨⟨hserves, by rintro _ _ ⟨⟩, by rintro _ ⟨⟩⟩, ⟨hreached, ?_, ?_⟩⟩
    · simp only [answer, hasked]
      exact h.timed
    · simp only [answer, hasked]
      exact h.probed
  | probe c =>
    refine ⟨⟨hserves, ?_, by rintro _ ⟨⟩⟩, ⟨hreached, h.timed, ?_⟩⟩
    · rintro _ _ ⟨⟩
      exact congrFun h.probed c
    · rw [← h.probed]
      cases c <;> (funext c'; cases c' <;> rfl)
  | memory c => exact ⟨⟨hserves, by rintro _ _ ⟨⟩, by rintro _ ⟨⟩⟩, ⟨hreached, h.timed, h.probed⟩⟩
  | now =>
    refine ⟨⟨hserves, by rintro _ _ ⟨⟩, ?_⟩, h⟩
    rintro _ ⟨⟩
    exact h.timed

end Rehearsal

namespace Paired

open Rehearsal

def other : Distribution :=
  { Distribution.sample with
    metadata := { Distribution.sample.metadata with name := some "twin", uid := some "uid-twin" } }

def keys : Bool → Key
  | true => ⟨"ai", "demo"⟩
  | false => ⟨"ai", "twin"⟩

def start : Rehearsal := ((Rehearsal.start .epoch).edited .sample).edited other

def turns : List Bool := (List.replicate 30 [true, false]).flatten

def played : Played Bool (Except OperatorError Outcome) :=
  start.play (fun i => pass .sample (keys i)) turns

theorem keys_injective : Function.Injective keys := by
  intro i j
  cases i <;> cases j <;> decide

theorem keys_plain (i : Bool) : (keys i).Plain := by
  unfold Key.Plain
  cases i <;> decide

theorem start_filed (i : Bool) : start.scene.store.Filed (keys i) := by
  intro d hd
  cases i <;> (cases hd; rfl)

theorem history : History (Scene.ServesWith start.saying) NobodyElse start.scene
    (fun i => pass .sample (keys i)) played.moments played.rehearsal.scene played.programs :=
  play_history (P := Steady start.saying) (r := start) (fun _ c h => h.serves c)
    ⟨fun _ => rfl, rfl, rfl⟩ .start turns

theorem played_done (i : Bool) : played.programs i = .done (.ok ⟨some .initializing, some 10⟩) :=
  result?_eq_some.mp (by cases i <;> decide +kernel)

end Paired

theorem passes_independent_paired :
    Paired.start.scene.SameFor (Paired.keys false)
        ((pass .sample (Paired.keys true)).run Rehearsal.answer Paired.start).2.2.scene ∧
      ∃ u', Paired.start.scene.OneByOne Paired.start.saying .sample
          [Paired.keys false, Paired.keys true] u' ∧
        Paired.played.rehearsal.scene.store.Alike u'.store := by
  obtain ⟨hspares, halike⟩ := passes_independent .sample Paired.keys_injective Paired.keys_plain
  have hperforms := Rehearsal.performs (pass .sample (Paired.keys true)) Paired.start
  have hspared := hspares true false (by decide) _ _ _ _ (Paired.start_filed true) hperforms
  obtain ⟨⟨u', hu'⟩, hall⟩ := (halike _ _ _ _ _ Paired.start_filed Paired.history).2
    (fun i => ⟨_, Paired.played_done i⟩) [false, true] (by decide) (by decide)
  exact ⟨hspared, u', hu', hall u' hu'⟩

end DistributionOperator
