import DistributionOperator.Proofs.Histories
import DistributionOperator.Proofs.StageCourses

/-! What a synchronization says and hears where every live child is accepted. Each stage then finds
its child, makes it, or loses it to somebody who made it first. -/

namespace DistributionOperator

open Program Store Operator

namespace Program

variable {α β ε : Type}

/-- As long as its answers are such answers, a program makes such calls. -/
def Keeps (ok : Call → Prop) (calm : Exchange → Prop) : Program α → Prop
  | done _ => True
  | ask c next => ok c ∧ ∀ a, calm ⟨c, a⟩ → Keeps ok calm (next a)

section Keeps

variable {ok : Call → Prop} {calm : Exchange → Prop}

theorem Keeps.bind {p : Program α} {f : α → Program β} (hp : p.Keeps ok calm)
    (hf : ∀ a, (f a).Keeps ok calm) : (p.bind f).Keeps ok calm := by
  induction p with
  | done a => exact hf a
  | ask c next ih => exact ⟨hp.1, fun a ha => ih a (hp.2 a ha)⟩

theorem Keeps.andThen {p : Program (Except ε α)} {f : α → Program (Except ε β)}
    (hp : p.Keeps ok calm) (hf : ∀ a, (f a).Keeps ok calm) : (p.andThen f).Keeps ok calm := by
  refine hp.bind fun r => ?_
  cases r with
  | error e => exact trivial
  | ok a => exact hf a

theorem Keeps.attempt {c : StoreCall} {f : c.Result → Program (Except OperatorError α)}
    {operation resource : String} (hc : ok (.store c))
    (hf : ∀ a, calm ⟨.store c, .ok a⟩ → (f a).Keeps ok calm) :
    ((attempt operation resource c).andThen f).Keeps ok calm := by
  refine ⟨hc, fun a ha => ?_⟩
  cases a with
  | error e => exact trivial
  | ok a => exact hf a ha

theorem Within.keeps {p : Program α} (hp : p.Within ok) : p.Keeps ok calm := by
  induction p with
  | done a => exact trivial
  | ask c next ih => exact ⟨hp.1, fun a _ => ih a (hp.2 a)⟩

theorem Keeps.of_dialogue {p : Program α} {t : List Exchange} {a : α} (hp : p.Keeps ok calm)
    (h : p.Dialogue t a) (ht : ∀ x ∈ t, calm x) : ∀ x ∈ t, ok x.call := by
  induction h with
  | done => simp
  | ask _ ih =>
    obtain ⟨hx, ht⟩ := List.forall_mem_cons.mp ht
    exact List.forall_mem_cons.mpr ⟨hp.1, ih (hp.2 _ hx) ht⟩

theorem Leads.keeps {p q : Program α} {t : List Exchange} (h : p.Leads t q)
    (hp : p.Keeps ok calm) (ht : ∀ x ∈ t, calm x) : q.Keeps ok calm := by
  induction h with
  | nil => exact hp
  | snoc _ a ih =>
    have hbefore := ih fun x hx => ht x (List.mem_append_left _ hx)
    exact hbefore.2 a (ht _ (List.mem_append_right _ (List.mem_singleton_self _)))

end Keeps

end Program

/-- The kind of a child that somebody tries to make. -/
def Exchange.making? : Exchange → Option ChildKind
  | ⟨.store (.create kind _ _), _⟩ => some kind
  | _ => none

open Exchange

variable (o : Operator) (d : Distribution) (image : String) (owner : OwnerReference)

/-- The calls of a synchronization that has nothing to replace. -/
def Operator.Tame : Call → Prop
  | .store (.get kind k) => k = d.childKey kind
  | .store (.create kind space w) => space = d.space ∧ o.wanted d image owner kind = some w
  | .store (.deletePolicy k) => k = d.childKey .policy ∧ o.wanted d image owner .policy = none
  | _ => False

/-- The answers by which a synchronization has nothing to replace. -/
def Operator.Calm : Exchange → Prop
  | ⟨.store (.get kind _), a⟩ => ∃ found, a = .ok found ∧
    ∀ live ∈ found, ∀ w, o.wanted d image owner kind = some w → kind.Accepts owner w live
  | ⟨.store (.deletePolicy _), a⟩ => ∃ deleted, a = .ok deleted
  | _ => True

/-- How a stage can go with such answers. -/
inductive Operator.Visit (kind : ChildKind) :
    List Exchange → Except OperatorError Applied → Prop where
  | skipped (hw : o.wanted d image owner kind = none) : Visit kind [] (.ok .unchanged)
  | cleared (hw : o.wanted d image owner kind = none) (k : Key) (deleted : Bool)
      (a : Applied) : Visit kind [clears k (.ok deleted)] (.ok a)
  | found (w live : Child) (hw : o.wanted d image owner kind = some w) :
      Visit kind [looks kind (d.childKey kind) (.ok (some live))] (.ok .unchanged)
  | made (w c : Child) (hw : o.wanted d image owner kind = some w) :
      Visit kind [looks kind (d.childKey kind) (.ok none), makes kind d.space w (.ok c)]
        (.ok .created)
  | lost (w : Child) (e : StoreError) (hw : o.wanted d image owner kind = some w) :
      Visit kind [looks kind (d.childKey kind) (.ok none), makes kind d.space w (.error e)]
        (.error (.store "create" kind.kind e))

/-- How the stages for these kinds can go. -/
inductive Operator.Rounds : List ChildKind → List Exchange → Except OperatorError Unit → Prop where
  | nil : Rounds [] [] (.ok ())
  | next {kind : ChildKind} {rest : List ChildKind} {t₁ t₂ : List Exchange} {a : Applied}
      {r : Except OperatorError Unit} (hv : o.Visit d image owner kind t₁ (.ok a))
      (hr : Rounds rest t₂ r) : Rounds (kind :: rest) (t₁ ++ t₂) r
  | lost {kind : ChildKind} {rest : List ChildKind} {t : List Exchange} {e : OperatorError}
      (hv : o.Visit d image owner kind t (.error e)) : Rounds (kind :: rest) t (.error e)

variable {o : Operator} {d : Distribution} {image : String} {owner : OwnerReference}
  {kind : ChildKind} {kinds : List ChildKind} {w c : Child} {t : List Exchange}

theorem stage_keeps (o : Operator) (d : Distribution) (image : String) (owner : OwnerReference)
    (kind : ChildKind) :
    (o.stage d image owner kind).Keeps (o.Tame d image owner) (o.Calm d image owner) := by
  cases hw : o.wanted d image owner kind with
  | none =>
    by_cases hk : kind = .policy
    · subst hk
      rw [stage_policy_unwanted hw]
      exact .attempt ⟨rfl, hw⟩ fun _ _ => trivial
    · rw [stage_unwanted hw hk]
      exact trivial
  | some w =>
    rw [stage_wanted hw, approach]
    refine .attempt (wanted_key hw) fun found hfound => ?_
    cases found with
    | none => exact .attempt ⟨rfl, hw⟩ fun _ _ => trivial
    | some live =>
      obtain ⟨_, hf, haccepts⟩ := hfound
      cases hf
      have hattend : attend kind d.space owner w live = done (.ok .unchanged) :=
        attend_accepted (haccepts live rfl w hw)
      show (attend kind d.space owner w live).Keeps _ _
      rw [hattend]
      exact trivial

theorem synchronize_keeps (h : o.prerequisites d = .ok (image, owner)) :
    (synchronize o d).Keeps (o.Tame d image owner) (o.Calm d image owner) := by
  rw [synchronize_eq h, stages]
  induction ChildKind.inOrder with
  | nil => exact trivial
  | cons kind rest ih => exact (stage_keeps o d image owner kind).andThen fun _ => ih

theorem stage_visit {r : Except OperatorError Applied}
    (h : (o.stage d image owner kind).Dialogue t r) (ht : ∀ x ∈ t, o.Calm d image owner x) :
    o.Visit d image owner kind t r := by
  -- an answer that is not calm, or a live child that is not accepted, is not among the exchanges
  have hlive : ∀ {w live : Child} {t' : List Exchange}, o.wanted d image owner kind = some w →
      t = looks kind (d.childKey kind) (.ok (some live)) :: t' → kind.Accepts owner w live := by
    rintro w live t' hw rfl
    obtain ⟨_, hf, haccepts⟩ := ht _ List.mem_cons_self
    cases hf
    exact haccepts live rfl w hw
  have hcourse := stage_course h
  cases hcourse with
  | skipped hw => exact .skipped hw
  | cleared deleted hw => exact .cleared hw _ deleted _
  | uncleared e =>
    obtain ⟨_, he⟩ := ht _ List.mem_cons_self
    cases he
  | unread w e =>
    obtain ⟨_, he, _⟩ := ht _ List.mem_cons_self
    cases he
  | made w c hw => exact .made w c hw
  | unmade w e hw => exact .lost w e hw
  | kept w live hw => exact .found w live hw
  | foreign w live hw hk hl =>
    rw [(hlive hw rfl hk).1] at hl
    cases hl
  | replaced m w live c hk hw hl => exact absurd (hlive hw rfl) hl
  | unreplaced m w live e hk hw hl => exact absurd (hlive hw rfl) hl

theorem stages_rounds {r : Except OperatorError Unit}
    (h : (o.stages d image owner kinds).Dialogue t r) (ht : ∀ x ∈ t, o.Calm d image owner x) :
    o.Rounds d image owner kinds t r := by
  induction kinds generalizing t with
  | nil =>
    obtain ⟨rfl, rfl⟩ := dialogue_done.mp h
    exact .nil
  | cons kind rest ih =>
    rcases dialogue_andThen.mp h with ⟨e, he, rfl⟩ | ⟨a, t₁, t₂, rfl, ha, hr⟩
    · exact .lost (stage_visit he ht)
    · exact .next (stage_visit ha fun x hx => ht x (List.mem_append_left _ hx))
        (ih hr fun x hx => ht x (List.mem_append_right _ hx))

theorem synchronize_rounds {r : Except OperatorError Unit}
    (hpre : o.prerequisites d = .ok (image, owner)) (h : (synchronize o d).Dialogue t r)
    (ht : ∀ x ∈ t, o.Calm d image owner x) :
    o.Rounds d image owner ChildKind.inOrder t r := by
  rw [synchronize_eq hpre] at h
  exact stages_rounds h ht

namespace Operator

theorem Visit.making {r : Except OperatorError Applied} (h : o.Visit d image owner kind t r) :
    (t.filterMap making?).Sublist [kind] := by
  cases h with
  | skipped => exact List.nil_sublist _
  | cleared => exact List.nil_sublist _
  | found => exact List.nil_sublist _
  | made => exact .refl _
  | lost => exact .refl _

/-- Children are made in the order of their kinds, and none of them twice. -/
theorem Rounds.making {r : Except OperatorError Unit} (h : o.Rounds d image owner kinds t r) :
    (t.filterMap making?).Sublist kinds := by
  induction h with
  | nil => exact .refl _
  | @next kind rest _ _ _ _ hv _ ih =>
    rw [List.filterMap_append]
    exact hv.making.append ih
  | @lost kind rest _ _ hv => exact hv.making.trans (List.sublist_append_left [kind] rest)

theorem Rounds.before {r : Except OperatorError Unit} {kind' : ChildKind} {space space' : String}
    {w' : Child} {a a' : Except StoreError Child} {t' : List Exchange}
    (h : o.Rounds d image owner ChildKind.inOrder (t ++ makes kind space w a :: t') r)
    (hm : makes kind' space' w' a' ∈ t) :
    ChildKind.inOrder.idxOf kind' < ChildKind.inOrder.idxOf kind := by
  have hsorted : ChildKind.inOrder.Pairwise fun j k =>
      ChildKind.inOrder.idxOf j < ChildKind.inOrder.idxOf k := by decide
  have hmaking := hsorted.sublist h.making
  rw [List.filterMap_append] at hmaking
  exact (List.pairwise_append.mp hmaking).2.2 kind' (List.mem_filterMap.mpr ⟨_, hm, rfl⟩) kind
    (List.mem_filterMap.mpr ⟨_, List.mem_cons_self, rfl⟩)

/-- Stages that go well find or make what is wanted, and none of them loses. -/
theorem Rounds.of_ok (h : o.Rounds d image owner kinds t (.ok ())) (hk : kind ∈ kinds)
    (hw : o.wanted d image owner kind = some w) :
    (∃ live, looks kind (d.childKey kind) (.ok (some live)) ∈ t) ∨
      ∃ c, makes kind d.space w (.ok c) ∈ t := by
  generalize hr : Except.ok () = r at h
  induction h with
  | nil => simp at hk
  | @next first rest t₁ t₂ _ _ hv _ ih =>
    rcases List.mem_cons.mp hk with rfl | hk
    · cases hv with
      | skipped hnone => simp [hw] at hnone
      | cleared hnone => simp [hw] at hnone
      | found w' live hw' => exact .inl ⟨live, by simp⟩
      | made w' c hw' =>
        rw [hw] at hw'
        cases hw'
        exact .inr ⟨c, by simp⟩
    · rcases ih hk hr with ⟨live, hm⟩ | ⟨c, hm⟩
      · exact .inl ⟨live, List.mem_append_right _ hm⟩
      · exact .inr ⟨c, List.mem_append_right _ hm⟩
  | lost => cases hr

/-- Stages that fail lose a child, and do nothing more. -/
theorem Rounds.of_error {e : OperatorError}
    (h : o.Rounds d image owner kinds t (.error e)) :
    ∃ kind w t₀ cause, o.wanted d image owner kind = some w ∧
      t = t₀ ++ [looks kind (d.childKey kind) (.ok none),
        makes kind d.space w (.error cause)] ∧
      e = .store "create" kind.kind cause := by
  generalize hr : Except.error e = r at h
  induction h with
  | nil => cases hr
  | next _ _ ih =>
    obtain ⟨kind, w, t₀, cause, hw, rfl, he⟩ := ih hr
    exact ⟨kind, w, _ ++ t₀, cause, hw, (List.append_assoc _ _ _).symm, he⟩
  | @lost kind rest t e' hv =>
    cases hr
    cases hv with
    | lost w cause hw => exact ⟨kind, w, [], cause, hw, rfl, rfl⟩

theorem Rounds.error_of_lost {r : Except OperatorError Unit} {space : String} {cause : StoreError}
    (h : o.Rounds d image owner kinds t r) (hm : makes kind space w (.error cause) ∈ t) :
    ∃ e, r = .error e := by
  induction h with
  | nil => simp at hm
  | next hv _ ih =>
    rcases List.mem_append.mp hm with hm | hm
    · cases hv <;> simp [makes, looks, clears] at hm
    · exact ih hm
  | lost => exact ⟨_, rfl⟩

end Operator

end DistributionOperator
