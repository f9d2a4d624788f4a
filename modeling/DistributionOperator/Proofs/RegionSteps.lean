import DistributionOperator.Proofs.CreationRaces
import DistributionOperator.Proofs.LegibleStatuses
import DistributionOperator.Proofs.Regions

/-! Regions as stores of their own. A call that minds a key is answered from the region of that key
and changes nothing but it, so that others who mind other keys are not seen there. -/

namespace DistributionOperator

open Program Store

/-- One exchange after the other. -/
inductive Chained {σ : Type} (serve : σ → Exchange → σ → Prop) : σ → List Exchange → σ → Prop where
  | nil (s : σ) : Chained serve s [] s
  | cons {s u s' : σ} {x : Exchange} {t : List Exchange} (h : serve s x u)
      (ht : Chained serve u t s') : Chained serve s (x :: t) s'

section Chained

variable {σ : Type} {serve : σ → Exchange → σ → Prop} {s s' : σ} {x : Exchange}
  {t t₁ t₂ : List Exchange}

@[simp] theorem chained_nil : Chained serve s [] s' ↔ s' = s := by
  constructor
  · rintro ⟨⟩
    rfl
  · rintro rfl
    exact .nil _

@[simp] theorem chained_cons :
    Chained serve s (x :: t) s' ↔ ∃ u, serve s x u ∧ Chained serve u t s' := by
  constructor
  · intro h
    cases h with
    | cons h ht => exact ⟨_, h, ht⟩
  · rintro ⟨u, h, ht⟩
    exact .cons h ht

theorem chained_append :
    Chained serve s (t₁ ++ t₂) s' ↔ ∃ u, Chained serve s t₁ u ∧ Chained serve u t₂ s' := by
  induction t₁ generalizing s with
  | nil => simp
  | cons x t ih =>
    simp only [List.cons_append, chained_cons, ih]
    constructor
    · rintro ⟨v, hx, u, ht, hu⟩
      exact ⟨u, ⟨v, hx, ht⟩, hu⟩
    · rintro ⟨u, ⟨v, hx, ht⟩, hu⟩
      exact ⟨v, hx, u, ht, hu⟩

theorem Chained.preserves {P : σ → Prop} (h : Chained serve s t s')
    (hstep : ∀ u x u', x ∈ t → serve u x u' → P u → P u') (hs : P s) : P s' := by
  induction h with
  | nil => exact hs
  | cons hx _ ih =>
    exact ih (fun u y u' hy => hstep u y u' (List.mem_cons_of_mem _ hy))
      (hstep _ _ _ List.mem_cons_self hx hs)

/-- Where nothing changes, every exchange is one with what was there from the beginning. -/
theorem Chained.still (h : Chained serve s t s')
    (hstill : ∀ u x u', x ∈ t → serve u x u' → u' = u) : s' = s ∧ ∀ x ∈ t, serve s x s := by
  induction h with
  | nil => simp
  | cons hx _ ih =>
    obtain rfl := hstill _ _ _ List.mem_cons_self hx
    obtain ⟨rfl, hall⟩ := ih fun u y u' hy => hstill u y u' (List.mem_cons_of_mem _ hy)
    exact ⟨rfl, List.forall_mem_cons.mpr ⟨hx, hall⟩⟩

end Chained

/-- Calls reach the store, servers answer a question always in the same way, and the clock shows
moments that can be read. -/
structure Scene.ServesWith (answers : (c : ProbeCall) → c.Answer) (s : Scene) (x : Exchange)
    (s' : Scene) : Prop where
  serves : s.Serves x s'
  probed : ∀ c a, x = ⟨.probe c, a⟩ → a = answers c
  timed : ∀ t, x = ⟨.now, t⟩ → t.date.inRange = true

namespace Region

/-- What a call for a child finds. -/
def get (r : Region) (kind : ChildKind) : Except StoreError (Option Child) :=
  match kind, r.deploymentReadFault with
  | .managed .deployment, some message => .error (.api message)
  | _, _ => .ok (r.children kind)

def put (r : Region) (kind : ChildKind) (c : Option Child) : Region :=
  { r with children := Function.update r.children kind c }

@[simp] theorem put_self (r : Region) (kind : ChildKind) : r.put kind (r.children kind) = r := by
  simp [put]

@[simp] theorem put_children (r : Region) (kind : ChildKind) (c : Option Child) :
    (r.put kind c).children kind = c := by simp [put]

theorem put_children_of_ne (r : Region) {kind kind' : ChildKind} (h : kind' ≠ kind)
    (c : Option Child) : (r.put kind c).children kind' = r.children kind' :=
  Function.update_of_ne h _ _

theorem get_eq_ok {r : Region} {kind : ChildKind} {c : Option Child} (h : r.get kind = .ok c) :
    r.children kind = c := by
  unfold get at h
  split at h
  · cases h
  · exact Except.ok.inj h

/-- An exchange about what belongs to a key, as far as the region of the key has a part in it. -/
def Serves (answers : (c : ProbeCall) → c.Answer) (k : Key) (r : Region) (x : Exchange)
    (r' : Region) : Prop :=
  x.call.Minds k ∧
    ∃ s s' : Scene, s.ServesWith answers x s' ∧ s.store.region k = r ∧ s'.store.region k = r'

end Region

namespace Store

variable {s : Store} {k : Key}

theorem get_region (s : Store) (k : Key) (kind : ChildKind) :
    s.get kind (k.child kind) = (s.region k).get kind := by
  unfold Store.get Region.get
  split
  · rename_i h
    simp [region, h]
  · rename_i h
    split
    · rename_i h'
      exact absurd h' (by simpa [region] using h _)
    · rfl

theorem setChild_region (s : Store) (k : Key) (kind : ChildKind) (c : Option Child) :
    (s.setChild kind (k.child kind) c).region k = (s.region k).put kind c := by
  have hchildren :
      (fun kind' => (s.setChild kind (k.child kind) c).children kind' (k.child kind')) =
        Function.update (fun kind' => s.children kind' (k.child kind')) kind c := by
    funext kind'
    by_cases hk : kind' = kind
    · subst hk
      simp
    · rw [Function.update_of_ne hk]
      exact s.setChild_other c fun he => hk he.1
  simp only [region, Region.put, hchildren]
  rfl

end Store

namespace Region.Serves

variable {answers : (c : ProbeCall) → c.Answer} {k : Key} {r r' : Region} {x : Exchange}
  {kind : ChildKind} {space : String} {c : Child}

theorem distribution (h : Serves answers k r x r')
    (hx : ∀ j v new, x.call ≠ .store (.updateStatus j v new)) :
    r'.distribution = r.distribution := by
  obtain ⟨_, s, s', hs, rfl, rfl⟩ := h
  exact congrFun (step_distributions hs.serves.1 hx) k

theorem still (h : Serves answers k r x r') (hx : ∀ c, x.call ≠ .store c) : r' = r := by
  obtain ⟨_, s, s', hs, rfl, rfl⟩ := h
  rw [Scene.step_other hs.serves.1 hx]

theorem recalls (h : Serves answers k r x r') (hx : x.call.Recalls) : r' = r := by
  refine h.still fun c hc => ?_
  rw [hc] at hx
  exact hx

theorem observes (h : Serves answers k r x r') (hx : x.call.Observes) : r' = r := by
  obtain ⟨_, s, s', hs, rfl, rfl⟩ := h
  rw [Scene.step_observes hs.serves.1 hx]

/-- A call to the store is answered by one that has the region. -/
theorem answered {c : StoreCall} {a : c.Answer} (h : Serves answers k r ⟨.store c, a⟩ r') :
    ∃ s : Store, s.region k = r ∧ a = (s.answer c).1 ∧ r' = (s.answer c).2.region k := by
  obtain ⟨_, s, s', hs, rfl, rfl⟩ := h
  have ha := hs.serves.2 c a rfl
  exact ⟨s.store, rfl, by rw [ha], by rw [ha]⟩

theorem getDistribution {a : Except StoreError (Option Distribution)}
    (h : Serves answers k r ⟨.store (.getDistribution k), a⟩ r') :
    a = .ok r.distribution ∧ r' = r := by
  obtain ⟨s, rfl, ha, rfl⟩ := h.answered
  exact ⟨ha, rfl⟩

theorem get {a : Except StoreError (Option Child)}
    (h : Serves answers k r ⟨.store (.get kind (k.child kind)), a⟩ r') :
    a = r.get kind ∧ r' = r := by
  obtain ⟨s, rfl, ha, rfl⟩ := h.answered
  exact ⟨ha.trans (s.get_region k kind), rfl⟩

theorem create {a : Except StoreError Child} (hkey : keyIn space c.metadata = k.child kind)
    (hnone : r.children kind = none)
    (h : Serves answers k r ⟨.store (.create kind space c), a⟩ r') :
    ∃ version, a = .ok (c.storedAs space version) ∧
      r' = r.put kind (some (c.storedAs space version)) := by
  obtain ⟨s, rfl, rfl, rfl⟩ := h.answered
  have hnone : s.children kind (k.child kind) = none := hnone
  refine ⟨s.nextVersion, ?_, ?_⟩
  · simp only [answer, Store.create, hkey, hnone]
    rfl
  · rw [← s.setChild_region]
    simp only [answer, Store.create, hkey, hnone]
    rfl

theorem replace {m : Managed} {a : Except StoreError Child} {live : Child}
    (hkey : keyIn space c.metadata = k.child (.managed m))
    (hlive : r.children (.managed m) = some live)
    (hversion : c.metadata.resourceVersion = live.metadata.resourceVersion)
    (h : Serves answers k r ⟨.store (.replace m space c), a⟩ r') :
    ∃ version, a = .ok (c.storedAs space version) ∧
      r' = r.put (.managed m) (some (c.storedAs space version)) := by
  obtain ⟨s, rfl, rfl, rfl⟩ := h.answered
  have hlive : s.children (.managed m) (k.child (.managed m)) = some live := hlive
  have hcurrent : current c.metadata.resourceVersion live.metadata.resourceVersion = true := by
    simp [current, hversion]
  refine ⟨s.nextVersion, ?_, ?_⟩
  · simp only [answer, Store.replace, hkey, hlive, hcurrent]
    rfl
  · rw [← s.setChild_region]
    simp only [answer, Store.replace, hkey, hlive, hcurrent]
    rfl

theorem deletePolicy {a : Except StoreError Bool}
    (h : Serves answers k r ⟨.store (.deletePolicy (k.child .policy)), a⟩ r') :
    a = .ok (r.children .policy).isSome ∧ r' = r.put .policy none := by
  obtain ⟨s, rfl, rfl, rfl⟩ := h.answered
  refine ⟨s.deletePolicy_answer _, ?_⟩
  rw [← s.setChild_region]
  cases hc : s.children .policy (k.child .policy) with
  | none =>
    have hsame : s.answer (.deletePolicy (k.child .policy)) = (.ok false, s) := by
      simp only [answer, Store.deletePolicy, hc]
    rw [hsame, s.setChild_region]
    show s.region k = (s.region k).put .policy none
    rw [← hc]
    exact ((s.region k).put_self .policy).symm
  | some live =>
    simp only [answer, Store.deletePolicy, hc]
    rfl

/-- A status for the version that is stored is written unless writes fail or it cannot be read. -/
theorem updateStatus {d : Distribution} {new : Status} {a : Except StoreError Unit}
    (hd : r.distribution = some d)
    (h : Serves answers k r ⟨.store (.updateStatus k d.metadata.resourceVersion new), a⟩ r') :
    (r.statusFault = none ∧ new.Legible ∧ ∃ version, r' = { r with
        distribution := some { d with
          status := some (new.over d.status)
          metadata := { d.metadata with resourceVersion := some version } } }) ∨
      ¬(r.statusFault = none ∧ new.Legible) ∧ r' = r := by
  obtain ⟨s, rfl, rfl, rfl⟩ := h.answered
  have hd : s.distributions k = some d := hd
  have hcurrent : current d.metadata.resourceVersion d.metadata.resourceVersion = true := by
    simp [current]
  cases hfault : s.statusFault with
  | some message =>
    refine .inr ⟨fun hw => ?_, ?_⟩
    · exact absurd (hfault.symm.trans hw.1) (by simp)
    · simp only [answer, Store.updateStatus, hfault]
  | none =>
    cases hpatch : patchStatus d.status new with
    | error e =>
      refine .inr ⟨fun hw => ?_, ?_⟩
      · have hok : patchStatus d.status new = .ok (some (new.over d.status)) :=
          patchStatus_ok_iff.mpr ⟨hw.2, rfl⟩
        rw [hpatch] at hok
        cases hok
      · simp only [answer, Store.updateStatus, hfault, hd, hcurrent, hpatch, if_true]
    | ok stored =>
      obtain ⟨hlegible, rfl⟩ := patchStatus_ok_iff.mp hpatch
      refine .inl ⟨hfault, hlegible, s.nextVersion, ?_⟩
      simp only [answer, Store.updateStatus, hfault, hd, hcurrent, hpatch, if_true]
      simp only [region, Table.set_same, Store.bump, Store.record, hfault]

theorem probed {c : ProbeCall} {a : c.Answer} (h : Serves answers k r ⟨.probe c, a⟩ r') :
    a = answers c := by
  obtain ⟨_, s, s', hs, _, _⟩ := h
  exact hs.probed c a rfl

theorem timed {t : Timestamp} (h : Serves answers k r ⟨.now, t⟩ r') : t.date.inRange = true := by
  obtain ⟨_, s, s', hs, _, _⟩ := h
  exact hs.timed t rfl

end Region.Serves

end DistributionOperator
