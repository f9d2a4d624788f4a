import DistributionOperator.Proofs.Resynchronization
import DistributionOperator.Proofs.Visits

/-! Two synchronizations of one distribution that go on at the same time. A synchronization that
finds a child missing, and is overtaken by the other one before it makes it, fails; all children are
made nevertheless. -/

namespace DistributionOperator

open Program Store Operator Exchange

/-- A call that reaches the store is answered by it. -/
def Scene.Serves (s : Scene) (x : Exchange) (s' : Scene) : Prop :=
  s.Step x s' ∧ ∀ c a, x = ⟨.store c, a⟩ → s.store.answer c = (a, s'.store)

section Acts

variable (o : Operator) (d : Distribution) (image : String) (owner : OwnerReference)

/-- A store that has nothing but wanted children in their places. -/
structure Operator.Sound (s : Store) : Prop where
  readable : s.deploymentReadFault = none
  unwanted : ∀ {kind}, o.wanted d image owner kind = none →
    s.children kind (d.childKey kind) = none
  wanted : ∀ {kind w c}, o.wanted d image owner kind = some w →
    s.children kind (d.childKey kind) = some c → ∃ version, c = w.storedAs d.space version

/-- What a synchronization can do in such a store. -/
inductive Operator.Acts (s : Store) : Exchange → Store → Prop where
  | looked (kind : ChildKind) :
      Acts s (looks kind (d.childKey kind) (.ok (s.children kind (d.childKey kind)))) s
  | made {kind : ChildKind} {w : Child} {version : String} {s' : Store}
      (hw : o.wanted d image owner kind = some w)
      (hnone : s.children kind (d.childKey kind) = none)
      (hs : s'.children = (s.setChild kind (d.childKey kind)
        (some (w.storedAs d.space version))).children)
      (hr : s'.deploymentReadFault = s.deploymentReadFault) :
      Acts s (makes kind d.space w (.ok (w.storedAs d.space version))) s'
  | lost {kind : ChildKind} {w : Child} (message : String)
      (hw : o.wanted d image owner kind = some w)
      (hsome : s.children kind (d.childKey kind) ≠ none) :
      Acts s (makes kind d.space w (.error (.conflict message))) s
  | cleared (hw : o.wanted d image owner .policy = none) :
      Acts s (clears (d.childKey .policy) (.ok false)) s

end Acts

variable {o : Operator} {d : Distribution} {image : String} {owner : OwnerReference}
  {kind : ChildKind} {w c : Child} {s s' : Store} {x : Exchange}

namespace Operator

theorem Sound.acts {u v : Scene} (hs : o.Sound d image owner u.store) (hx : u.Serves x v)
    (ht : o.Tame d image owner x.call) : o.Acts d image owner u.store x v.store := by
  obtain ⟨call, a⟩ := x
  cases call with
  | store call =>
    have ha := hx.2 call a rfl
    cases call with
    | get kind k =>
      obtain rfl : k = d.childKey kind := ht
      obtain ⟨rfl, hv⟩ := Prod.mk.inj ha
      rw [← hv, get_ok hs.readable]
      exact .looked kind
    | create kind space w =>
      obtain ⟨rfl, hw⟩ : space = d.space ∧ o.wanted d image owner kind = some w := ht
      unfold Store.answer Store.create at ha
      simp only [wanted_key hw] at ha
      split at ha
      · rename_i hsome
        obtain ⟨rfl, hv⟩ := Prod.mk.inj ha
        rw [← hv]
        exact .lost _ hw (by simp [hsome])
      · rename_i hnone
        obtain ⟨rfl, hv⟩ := Prod.mk.inj ha
        rw [← hv]
        exact .made hw hnone rfl rfl
    | deletePolicy k =>
      obtain ⟨rfl, hw⟩ : k = d.childKey .policy ∧ o.wanted d image owner .policy = none := ht
      obtain ⟨rfl, hv⟩ := Prod.mk.inj ((deletePolicy_none (hs.unwanted hw)).symm.trans ha)
      rw [← hv]
      exact .cleared hw
    | _ => exact ht.elim
  | _ => exact ht.elim

theorem Acts.of_looks {k : Key} {a : Except StoreError (Option Child)}
    (h : o.Acts d image owner s (looks kind k a) s') :
    a = .ok (s.children kind (d.childKey kind)) ∧ s' = s := by
  cases h with
  | looked => exact ⟨rfl, rfl⟩

theorem Acts.of_makes {space : String} {a : Except StoreError Child}
    (h : o.Acts d image owner s (makes kind space w a) s') :
    (∃ c, a = .ok c ∧ s.children kind (d.childKey kind) = none ∧
      s'.children kind (d.childKey kind) = some c) ∨
    ∃ message, a = .error (.conflict message) ∧ s.children kind (d.childKey kind) ≠ none := by
  cases h with
  | made hw hnone hs hr => exact .inl ⟨_, rfl, hnone, by rw [hs, setChild_same]⟩
  | lost message hw hsome => exact .inr ⟨message, rfl, hsome⟩

theorem Acts.calm (h : o.Acts d image owner s x s') (hs : o.Sound d image owner s) :
    o.Calm d image owner x := by
  cases h with
  | looked kind =>
    refine ⟨_, rfl, fun live hlive w hw => ?_⟩
    obtain ⟨version, rfl⟩ := hs.wanted hw hlive
    exact accepts_storedAs hw
  | made => exact trivial
  | lost => exact trivial
  | cleared => exact ⟨false, rfl⟩

/-- A child that is there stays as it is. -/
theorem Acts.keeps (h : o.Acts d image owner s x s')
    (hc : s.children kind (d.childKey kind) = some c) :
    s'.children kind (d.childKey kind) = some c := by
  cases h with
  | @made kind' w version _ hw hnone hs hr =>
    have hne : kind ≠ kind' := by
      rintro rfl
      rw [hnone] at hc
      cases hc
    rw [hs, s.setChild_other _ fun he => hne he.1, hc]
  | _ => exact hc

/-- A child that comes to be was made as it is wanted. -/
theorem Acts.fills (h : o.Acts d image owner s x s')
    (hnone : s.children kind (d.childKey kind) = none)
    (hc : s'.children kind (d.childKey kind) = some c) :
    ∃ w version, o.wanted d image owner kind = some w ∧ c = w.storedAs d.space version ∧
      x = makes kind d.space w (.ok c) := by
  have hold : ∀ {P : Prop}, s.children kind (d.childKey kind) = some c → P := by
    intro P he
    rw [hnone] at he
    cases he
  cases h with
  | @made kind' w version _ hw hnone' hs hr =>
    by_cases hk : kind = kind'
    · subst hk
      rw [hs, setChild_same] at hc
      cases hc
      exact ⟨w, version, hw, rfl, rfl⟩
    · rw [hs, s.setChild_other _ fun he => hk he.1] at hc
      exact hold hc
  | _ => exact hold hc

theorem Acts.elsewhere (h : o.Acts d image owner s x s') {j : Key} (hj : j ≠ d.childKey kind) :
    s'.children kind j = s.children kind j := by
  cases h with
  | made hw hnone hs hr =>
    rw [hs, s.setChild_other]
    rintro ⟨rfl, rfl⟩
    exact hj rfl
  | _ => rfl

theorem Acts.sound (h : o.Acts d image owner s x s') (hs : o.Sound d image owner s) :
    o.Sound d image owner s' where
  readable := by
    cases h with
    | made hw hnone hs' hr => exact hr.trans hs.readable
    | _ => exact hs.readable
  unwanted := by
    intro kind hw
    cases hc : s'.children kind (d.childKey kind) with
    | none => rfl
    | some c =>
      obtain ⟨w, _, hw', _⟩ := h.fills (hs.unwanted hw) hc
      rw [hw] at hw'
      cases hw'
  wanted := by
    intro kind w c hw hc
    cases hold : s.children kind (d.childKey kind) with
    | none =>
      obtain ⟨w', version, hw', rfl, _⟩ := h.fills hold hc
      rw [hw] at hw'
      cases hw'
      exact ⟨version, rfl⟩
    | some old =>
      rw [h.keeps hold] at hc
      cases hc
      exact hs.wanted hw hold

end Operator

/-- The other one makes the child after this one found it missing and before it tries to make it. -/
def Overtaken (o : Operator) (d : Distribution) (image : String) (owner : OwnerReference)
    (i : Bool) (l : List (Moment Bool)) : Prop :=
  ∃ kind w c a l₁ finds l₂ other l₃ tries l₄,
    l = l₁ ++ finds :: (l₂ ++ other :: (l₃ ++ tries :: l₄)) ∧
      o.wanted d image owner kind = some w ∧
      finds.deed = some (i, looks kind (d.childKey kind) (.ok none)) ∧
      other.deed = some (!i, makes kind d.space w (.ok c)) ∧
      tries.deed = some (i, makes kind d.space w a)

section Races

variable {u v : Scene} {l : List (Moment Bool)} {q : Bool → Program (Except OperatorError Unit)}
  {i : Bool}

/-- What happens in a race: one of the two synchronizations acts. -/
def Operator.ActsAt (o : Operator) (d : Distribution) (image : String) (owner : OwnerReference)
    (m : Moment Bool) : Prop :=
  o.Sound d image owner m.before.store ∧
    ∃ i x, m.deed = some (i, x) ∧ o.Acts d image owner m.before.store x m.after.store

def NobodyElse (_ _ : Scene) : Prop := False

theorem Operator.ActsAt.of_deed {m : Moment Bool} (h : o.ActsAt d image owner m)
    (hd : m.deed = some (i, x)) : o.Acts d image owner m.before.store x m.after.store := by
  obtain ⟨_, j, y, hy, hacts⟩ := h
  rw [hd] at hy
  cases hy
  exact hacts

/-- In a race no store is but sound, and nothing happens but acts. -/
theorem race_acts (hpre : o.prerequisites d = .ok (image, owner))
    (h : History Scene.Serves NobodyElse u (fun _ => synchronize o d) l v q)
    (hu : o.Sound d image owner u.store) :
    o.Sound d image owner v.store ∧ ∀ m ∈ l, o.ActsAt d image owner m := by
  induction h with
  | start => exact ⟨hu, by simp⟩
  | @call l v v' q i c next a h hq hserves ih =>
    obtain ⟨hv, hall⟩ := ih
    have hcalm : ∀ x ∈ exchangesOf i l, o.Calm d image owner x := by
      intro x hx
      obtain ⟨m, hm, hd⟩ := mem_exchangesOf.mp hx
      exact ((hall m hm).of_deed hd).calm (hall m hm).1
    have hkeeps := (h.leads i).keeps (synchronize_keeps hpre) hcalm
    rw [hq] at hkeeps
    have hacts := hv.acts hserves hkeeps.1
    exact ⟨hacts.sound hv, List.forall_mem_append.mpr ⟨hall,
      List.forall_mem_singleton.mpr ⟨hv, i, _, rfl, hacts⟩⟩⟩
  | between _ ho => exact ho.elim

section Stretches

variable {p : Bool → Program (Except OperatorError Unit)}
  (h : History Scene.Serves NobodyElse u p l v q) (hall : ∀ m ∈ l, o.ActsAt d image owner m)

include h hall

theorem stretch_keeps (hc : u.store.children kind (d.childKey kind) = some c) :
    v.store.children kind (d.childKey kind) = some c := by
  refine (h.preserves (P := fun u => u.store.children kind (d.childKey kind) = some c)
    (fun m hm hb => ?_) hc).1
  obtain ⟨_, _, _, _, hacts⟩ := hall m hm
  exact hacts.keeps hb

theorem stretch_elsewhere {j : Key} (hj : j ≠ d.childKey kind) :
    v.store.children kind j = u.store.children kind j := by
  refine (h.preserves (P := fun v => v.store.children kind j = u.store.children kind j)
    (fun m hm hb => ?_) rfl).1
  obtain ⟨_, _, _, _, hacts⟩ := hall m hm
  exact (hacts.elsewhere hj).trans hb

omit h hall

/-- Where a child is missing at first and there in the end, somebody made it. -/
theorem stretch_fills (h : History Scene.Serves NobodyElse u p l v q)
    (hall : ∀ m ∈ l, o.ActsAt d image owner m)
    (hnone : u.store.children kind (d.childKey kind) = none)
    (hsome : v.store.children kind (d.childKey kind) ≠ none) :
    ∃ l₁ m l₂ i w c, l = l₁ ++ m :: l₂ ∧ o.wanted d image owner kind = some w ∧
      m.deed = some (i, makes kind d.space w (.ok c)) := by
  induction l generalizing u p with
  | nil =>
    rw [h.of_nil] at hsome
    exact absurd hnone hsome
  | cons m l ih =>
    obtain ⟨rfl, r, hrest⟩ := h.of_cons
    obtain ⟨_, i, x, hd, hacts⟩ := hall m List.mem_cons_self
    cases hc : m.after.store.children kind (d.childKey kind) with
    | none =>
      obtain ⟨l₁, m', l₂, i', w, c, rfl, hw, hm'⟩ :=
        ih hrest (fun m' hm' => hall m' (List.mem_cons_of_mem _ hm')) hc
      exact ⟨m :: l₁, m', l₂, i', w, c, rfl, hw, hm'⟩
    | some c =>
      obtain ⟨w, version, hw, _, rfl⟩ := hacts.fills hnone hc
      exact ⟨[], m, l, i, w, c, rfl, hw, hd⟩

end Stretches

variable (hpre : o.prerequisites d = .ok (image, owner))
  (h : History Scene.Serves NobodyElse u (fun _ => synchronize o d) l v q)
  (hu : o.Sound d image owner u.store)

include hpre h hu

theorem race_rounds {r : Except OperatorError Unit} (hq : q i = .done r) :
    o.Rounds d image owner ChildKind.inOrder (exchangesOf i l) r := by
  have hlead := h.leads i
  rw [hq] at hlead
  refine synchronize_rounds hpre hlead.dialogue_of_done fun x hx => ?_
  obtain ⟨m, hm, hd⟩ := mem_exchangesOf.mp hx
  have hacts := (race_acts hpre h hu).2 m hm
  exact (hacts.of_deed hd).calm hacts.1

/-- One that fails was overtaken, and the other one made the child that it lost. -/
theorem race_loses {e : OperatorError} (hq : q i = .done (.error e)) :
    Overtaken o d image owner i l ∧ ∃ kind w c t₀ message,
      exchangesOf i l = t₀ ++ [looks kind (d.childKey kind) (.ok none),
        makes kind d.space w (.error (.conflict message))] ∧
      makes kind d.space w (.ok c) ∈ exchangesOf (!i) l ∧
      e = .store "create" kind.kind (.conflict message) := by
  obtain ⟨kind, w, t₀, cause, hw, ht, rfl⟩ := (race_rounds hpre h hu hq).of_error
  have hall := (race_acts hpre h hu).2
  obtain ⟨l₁, finds, l', rfl, hfinds, _, hl'⟩ := exists_moment ht
  rw [← List.nil_append [makes kind d.space w (.error cause)]] at hl'
  obtain ⟨l'', tries, l₄, rfl, htries, hnone, _⟩ := exists_moment hl'
  have hfound := (hall finds (by simp)).of_deed hfinds
  have hlost := (hall tries (by simp)).of_deed htries
  -- the stretch between the look and the attempt
  obtain ⟨_, _, hrest⟩ := h.around
  obtain ⟨⟨_, hstretch⟩, _⟩ := hrest.around
  obtain ⟨hmissing, hstill⟩ := hfound.of_looks
  rw [← hstill] at hmissing
  rcases hlost.of_makes with ⟨_, hok, _⟩ | ⟨message, hcause, hthere⟩
  · cases hok
  obtain ⟨l₂, other, l₃, j, w', c, rfl, hw', hother⟩ :=
    stretch_fills hstretch (fun m hm => hall m (by simp [hm])) (Except.ok.inj hmissing).symm hthere
  rw [hw] at hw'
  cases hw'
  have hj : j = !i := by
    refine Bool.eq_not.mpr fun hji => ?_
    subst hji
    have hmine : makes kind d.space w (.ok c) ∈ exchangesOf j (l₂ ++ other :: l₃) :=
      mem_exchangesOf.mpr ⟨other, by simp, hother⟩
    rw [hnone] at hmine
    simp at hmine
  rw [hj] at hother
  cases hcause
  refine ⟨⟨kind, w, c, _, l₁, finds, l₂, other, l₃, tries, l₄, by simp, hw, hfinds, hother,
    htries⟩, kind, w, c, t₀, message, ht, ?_, rfl⟩
  exact mem_exchangesOf.mpr ⟨other, by simp, hother⟩

theorem race_overtaken {r : Except OperatorError Unit} (hq : q i = .done r)
    (hover : Overtaken o d image owner i l) : ∃ e, r = .error e := by
  obtain ⟨kind, w, c, a, l₁, finds, l₂, other, l₃, tries, l₄, rfl, hw, _, hother, htries⟩ := hover
  have hall := (race_acts hpre h hu).2
  have hrounds := race_rounds hpre h hu hq
  have hlost : ∃ message, a = .error (.conflict message) := by
    -- the stretch between the other one's making and the attempt
    obtain ⟨_, _, hfound⟩ := h.around
    obtain ⟨_, _, hmade⟩ := hfound.around
    obtain ⟨⟨_, hstretch⟩, _⟩ := hmade.around
    rcases ((hall other (by simp)).of_deed hother).of_makes with ⟨c', _, _, hthere⟩ | ⟨_, he, _⟩
    · have hkept := stretch_keeps hstretch (fun m hm => hall m (by simp [hm])) hthere
      rcases ((hall tries (by simp)).of_deed htries).of_makes with ⟨_, _, hnone, _⟩ | ⟨m, he, _⟩
      · rw [hkept] at hnone
        cases hnone
      · exact ⟨m, he⟩
    · cases he
  obtain ⟨message, rfl⟩ := hlost
  exact hrounds.error_of_lost (mem_exchangesOf.mpr ⟨tries, by simp, htries⟩)

/-- Each of two that fail would have made a child before the other one. -/
theorem race_one_wins {e e' : OperatorError} (hq : q i = .done (.error e))
    (hq' : q (!i) = .done (.error e')) : False := by
  obtain ⟨_, kind, w, c, t, message, ht, hc, _⟩ := race_loses hpre h hu hq
  obtain ⟨_, kind', w', c', t', message', ht', hc', _⟩ := race_loses hpre h hu hq'
  rw [Bool.not_not] at hc'
  have hrounds := race_rounds hpre h hu hq
  have hrounds' := race_rounds hpre h hu hq'
  rw [ht, List.append_cons] at hrounds
  rw [ht', List.append_cons] at hrounds'
  have hbefore : makes kind' d.space w' (.ok c') ∈
      t ++ [looks kind (d.childKey kind) (.ok none)] := by
    rw [ht] at hc'
    simpa [makes, looks] using hc'
  have hbefore' : makes kind d.space w (.ok c) ∈
      t' ++ [looks kind' (d.childKey kind') (.ok none)] := by
    rw [ht'] at hc
    simpa [makes, looks] using hc
  have hlt := hrounds.before hbefore
  have hlt' := hrounds'.before hbefore'
  omega

/-- What one that goes well leaves behind, it found or made; there it stays. -/
theorem race_settles (hq : q i = .done (.ok ())) (hw : o.wanted d image owner kind = some w) :
    v.store.children kind (d.childKey kind) ≠ none := by
  have hall := (race_acts hpre h hu).2
  have hthere : ∃ m ∈ l, ∃ c, m.after.store.children kind (d.childKey kind) = some c := by
    rcases (race_rounds hpre h hu hq).of_ok (kind.mem_inOrder) hw with ⟨live, hx⟩ | ⟨c, hx⟩
    · obtain ⟨m, hm, hd⟩ := mem_exchangesOf.mp hx
      obtain ⟨hlive, hs⟩ := ((hall m hm).of_deed hd).of_looks
      exact ⟨m, hm, live, by rw [hs, ← Except.ok.inj hlive]⟩
    · obtain ⟨m, hm, hd⟩ := mem_exchangesOf.mp hx
      rcases ((hall m hm).of_deed hd).of_makes with ⟨c', _, _, hc⟩ | ⟨_, he, _⟩
      · exact ⟨m, hm, c', hc⟩
      · cases he
  obtain ⟨m, hm, c, hc⟩ := hthere
  obtain ⟨l₁, l₂, rfl⟩ := List.append_of_mem hm
  obtain ⟨_, _, hrest⟩ := h.around
  rw [stretch_keeps hrest (fun m' hm' => hall m' (by simp [hm'])) hc]
  simp

end Races

theorem sound_of_none (hreadable : s.deploymentReadFault = none)
    (hnone : ∀ kind, s.children kind (d.childKey kind) = none) : o.Sound d image owner s where
  readable := hreadable
  unwanted _ := hnone _
  wanted _ hc := by
    rw [hnone] at hc
    cases hc

/-- Of two synchronizations of one distribution that make their calls in whichever order, at least
one goes well, and the other one fails exactly if it was overtaken. Either way the children are then
those that are wanted. -/
theorem synchronize_race {u v : Scene} {l : List (Moment Bool)}
    {q : Bool → Program (Except OperatorError Unit)} {r : Bool → Except OperatorError Unit}
    (hpre : o.prerequisites d = .ok (image, owner))
    (hreadable : u.store.deploymentReadFault = none)
    (hnone : ∀ kind, u.store.children kind (d.childKey kind) = none)
    (h : History Scene.Serves NobodyElse u (fun _ => synchronize o d) l v q)
    (hq : ∀ i, q i = .done (r i)) :
    (∀ i, r i = .ok () ↔ ¬Overtaken o d image owner i l) ∧
      (∃ i, r i = .ok ()) ∧
      (∀ i e, r i = .error e →
        ∃ kind message, e = .store "create" (ChildKind.kind kind) (.conflict message)) ∧
      (∀ kind w, o.wanted d image owner kind = some w → ∃ version,
        v.store.children kind (d.childKey kind) = some (w.storedAs d.space version)) ∧
      (∀ kind, o.wanted d image owner kind = none →
        v.store.children kind (d.childKey kind) = none) ∧
      ∀ kind j, j ≠ d.childKey kind → v.store.children kind j = u.store.children kind j := by
  have hu : o.Sound d image owner u.store := sound_of_none hreadable hnone
  obtain ⟨hv, hall⟩ := race_acts hpre h hu
  have hwins : ∃ i, r i = .ok () := by
    cases htrue : r true with
    | ok => exact ⟨true, htrue⟩
    | error e =>
      cases hfalse : r false with
      | ok => exact ⟨false, hfalse⟩
      | error e' =>
        have hq₁ := hq true
        have hq₂ := hq false
        rw [htrue] at hq₁
        rw [hfalse] at hq₂
        exact (race_one_wins hpre h hu hq₁ hq₂).elim
  refine ⟨fun i => ⟨fun hok hover => ?_, fun hnot => ?_⟩, hwins, fun i e he => ?_,
    fun kind w hw => ?_, fun kind hw => hv.unwanted hw,
    fun kind j hj => stretch_elsewhere h hall hj⟩
  · obtain ⟨e, he⟩ := race_overtaken hpre h hu (hq i) hover
    rw [hok] at he
    cases he
  · cases hr : r i with
    | ok => rfl
    | error e =>
      have hqi := hq i
      rw [hr] at hqi
      exact absurd (race_loses hpre h hu hqi).1 hnot
  · have hqi := hq i
    rw [he] at hqi
    obtain ⟨_, kind, _, _, _, message, _, _, rfl⟩ := race_loses hpre h hu hqi
    exact ⟨kind, message, rfl⟩
  · obtain ⟨i, hi⟩ := hwins
    have hqi := hq i
    rw [hi] at hqi
    cases hc : v.store.children kind (d.childKey kind) with
    | none => exact absurd hc (race_settles hpre h hu hqi hw)
    | some c =>
      obtain ⟨version, rfl⟩ := hv.wanted hw hc
      exact ⟨version, rfl⟩

/-! Two synchronizations of the sample distribution that both look for its deployment before one of
them makes it. -/

namespace Rehearsal

theorem serves {r : Rehearsal} (h : ∀ op, r.disturbed op = none) (c : Call) :
    r.scene.Serves ⟨c, (answer c r).1⟩ (answer c r).2.scene ∧
      ∀ op, (answer c r).2.disturbed op = none := by
  cases c with
  | store c =>
    have hreached : r.askStore c = r.reachStore c := by simp [askStore, h]
    refine ⟨⟨r.step _, ?_⟩, ?_⟩
    · intro c' a hx
      cases hx
      simp only [answer, hreached]
      rfl
    · simp only [answer, hreached]
      exact h
  | probe c => exact ⟨⟨r.step _, by rintro _ _ ⟨⟩⟩, h⟩
  | memory c => exact ⟨⟨r.step _, by rintro _ _ ⟨⟩⟩, h⟩
  | now => exact ⟨⟨r.step _, by rintro _ _ ⟨⟩⟩, h⟩

end Rehearsal

namespace Raced

def turns : List Bool := [true, true, false, false, true, false]

def together : Rehearsal.Played Bool (Except OperatorError Unit) :=
  (Rehearsal.start .epoch).play (fun _ => synchronize .sample .sample) turns

def results : Bool → Except OperatorError Unit
  | true => .ok ()
  | false => .error (.store "create" "Deployment" (.conflict "Deployment ai/demo already exists"))

theorem history : History Scene.Serves NobodyElse (Rehearsal.start .epoch).scene
    (fun _ => synchronize .sample .sample) together.moments together.rehearsal.scene
    together.programs :=
  Rehearsal.play_history (P := fun r => ∀ op, r.disturbed op = none) (r := .start .epoch)
    (fun _ c h => Rehearsal.serves h c) (fun _ => rfl) .start turns

theorem programs_done (i : Bool) : together.programs i = .done (results i) := by
  refine result?_eq_some.mp ?_
  cases i <;> decide +kernel

end Raced

theorem synchronize_race_overtaken : ∃ image owner,
    Overtaken .sample .sample image owner false Raced.together.moments ∧
      ∀ w, Operator.sample.wanted .sample image owner .deployment = some w → ∃ version,
        Raced.together.rehearsal.store.children .deployment
          (Distribution.sample.childKey .deployment) = some (w.storedAs "ai" version) := by
  obtain ⟨image, owner, hpre⟩ : ∃ image owner,
      Operator.sample.prerequisites .sample = .ok (image, owner) := ⟨_, _, rfl⟩
  obtain ⟨hiff, _, _, hwanted, _⟩ := synchronize_race hpre rfl (fun _ => rfl) Raced.history
    Raced.programs_done
  refine ⟨image, owner, ?_, fun w hw => hwanted .deployment w hw⟩
  by_contra hnot
  cases (hiff false).mpr hnot

theorem synchronize_race_lost : ¬∀ l v q (r : Bool → Except OperatorError Unit),
    History Scene.Serves NobodyElse (Rehearsal.start .epoch).scene
      (fun _ : Bool => synchronize .sample .sample) l v q →
        (∀ i, q i = .done (r i)) → ∀ i, r i = .ok () := by
  intro h
  cases h _ _ _ _ Raced.history Raced.programs_done false

end DistributionOperator
