import DistributionOperator.Proofs.Scene
import DistributionOperator.Proofs.WantedChildren

/-! A synchronization in stages, one for each kind of child. A stage is settled by what the store
has in the place of its child: that alone says what it can do and how it can end. -/

namespace DistributionOperator

open Program Store Operator

namespace Program

variable {α β ε : Type}

/-- One after the other, as long as all goes well. -/
def inTurn : List (Program (Except ε α)) → Program (Except ε Unit)
  | [] => done (.ok ())
  | p :: r => p.andThen fun _ => inTurn r

end Program

/-- The order in which the children are brought in line. -/
def ChildKind.inOrder : List ChildKind := [claim, policy, deployment, service]

theorem ChildKind.mem_inOrder (kind : ChildKind) : kind ∈ inOrder := by
  rcases kind with _ | m
  · simp [inOrder]
  · cases m <;> simp [inOrder]

theorem ChildKind.nodup_inOrder : inOrder.Nodup := by decide

/-- What a stage does once it has found a live child in the place of the wanted one. -/
def attend (kind : ChildKind) (space : String) (owner : OwnerReference) (wanted live : Child) :
    Program (Except OperatorError Applied) :=
  match kind with
  | .claim => done (.ok .unchanged)
  | .managed m =>
    if live.metadata.controlledByOther owner.uid then
      done (.error (.ownershipConflict kind.kind (live.metadata.name.getD "")))
    else if wanted.inLine live owner then done (.ok .unchanged)
    else (attempt "update" kind.kind (.replace m space (Child.replacing m live wanted))).andThen
      fun _ => done (.ok .updated)

/-- Reads the wanted child, and makes it if it is not there. -/
def approach (kind : ChildKind) (space : String) (owner : OwnerReference) (wanted : Child) :
    Program (Except OperatorError Applied) :=
  (attempt "get" kind.kind (.get kind (keyIn space wanted.metadata))).andThen fun
    | none => (attempt "create" kind.kind (.create kind space wanted)).andThen
        fun _ => done (.ok .created)
    | some live => attend kind space owner wanted live

namespace Operator

variable (o : Operator) (d : Distribution) (image : String) (owner : OwnerReference)

def stage : ChildKind → Program (Except OperatorError Applied)
  | .claim => synchronizeClaim d owner
  | .managed .policy => synchronizePolicy o d owner
  | .managed .deployment => synchronizeDeployment d image owner
  | .managed .service => synchronizeService d owner

/-- The stages for these kinds, one after the other. -/
def stages (kinds : List ChildKind) : Program (Except OperatorError Unit) :=
  inTurn (kinds.map (o.stage d image owner))

end Operator

variable {o : Operator} {d : Distribution} {image : String} {owner : OwnerReference}
  {kind : ChildKind} {w live : Child}

theorem applyClaim_eq (space : String) (owner : OwnerReference) (c : Child) :
    applyClaim space owner c = approach .claim space owner (c.withOwner owner) := by
  refine congrArg (andThen _) (funext fun live => ?_)
  cases live with
  | none => rfl
  | some live => rfl

theorem applyChild_eq (m : Managed) (space : String) (owner : OwnerReference) (c : Child) :
    applyChild m space owner c = approach (.managed m) space owner (c.prepare owner) := by
  refine congrArg (andThen _) (funext fun live => ?_)
  cases live with
  | none => rfl
  | some live => rfl

theorem synchronize_eq (h : o.prerequisites d = .ok (image, owner)) :
    synchronize o d = o.stages d image owner ChildKind.inOrder := by
  simp only [synchronize, h]
  rfl

theorem prerequisites_of_ok {t : List Exchange} (h : (synchronize o d).Dialogue t (.ok ())) :
    ∃ image owner, o.prerequisites d = .ok (image, owner) := by
  unfold synchronize at h
  split at h
  · obtain ⟨_, h⟩ := dialogue_done.mp h
    cases h
  · exact ⟨_, _, by assumption⟩

theorem stage_wanted (h : o.wanted d image owner kind = some w) :
    o.stage d image owner kind = approach kind d.space owner w := by
  cases kind with
  | claim =>
    obtain ⟨s, hs, rfl⟩ := Option.map_eq_some_iff.mp h
    simp only [Operator.stage, synchronizeClaim, hs]
    exact applyClaim_eq d.space owner (d.claim s)
  | managed m =>
    obtain ⟨hasks, rfl⟩ := wanted_managed h
    cases m with
    | deployment => exact applyChild_eq .deployment d.space owner (d.deployment image)
    | service =>
      have hp : d.hasPorts = true := hasks
      simp only [Operator.stage, synchronizeService, hp, if_true]
      exact applyChild_eq .service d.space owner d.service
    | policy =>
      have hp : o.flags.networkPolicy = true := hasks
      simp only [Operator.stage, synchronizePolicy, hp, if_true]
      exact applyChild_eq .policy d.space owner (d.policy o.config.catalog.operatorSpace)

theorem stage_unwanted (h : o.wanted d image owner kind = none) (hk : kind ≠ .policy) :
    o.stage d image owner kind = done (.ok .unchanged) := by
  cases kind with
  | claim =>
    have hs : d.spec.server.storage = none := Option.map_eq_none_iff.mp h
    simp only [Operator.stage, synchronizeClaim, hs]
  | managed m =>
    cases m with
    | deployment => simp [Operator.wanted, Operator.asksFor] at h
    | service =>
      have hp : d.hasPorts = false := wanted_managed_none.mp h
      simp [Operator.stage, synchronizeService, hp]
    | policy => exact absurd rfl hk

theorem stage_policy_unwanted (h : o.wanted d image owner .policy = none) :
    o.stage d image owner .policy =
      (attempt "delete" ChildKind.policy.kind (.deletePolicy (d.childKey .policy))).andThen
        fun deleted => done (.ok (if deleted then .updated else .unchanged)) := by
  have hp : o.flags.networkPolicy = false := wanted_managed_none.mp h
  simp only [Operator.stage, synchronizePolicy, hp]
  rfl

/-- Whether a live child is let be: it is not in foreign hands, and in line with the wanted one. Of
a claim nothing is asked. -/
def ChildKind.Accepts (kind : ChildKind) (owner : OwnerReference) (w live : Child) : Prop :=
  kind ≠ .claim →
    live.metadata.controlledByOther owner.uid = false ∧ w.inLine live owner = true

theorem attend_accepted {space : String} (h : kind.Accepts owner w live) :
    attend kind space owner w live = done (.ok .unchanged) := by
  cases kind with
  | claim => rfl
  | managed m =>
    obtain ⟨hown, hline⟩ := h (by simp)
    simp [attend, hown, hline]

/-- How a stage can end, and what it makes of the child in its place. -/
inductive Operator.Settles (o : Operator) (d : Distribution) (image : String)
    (owner : OwnerReference) (kind : ChildKind) :
    Option Child → Except OperatorError Applied → Option Child → Prop where
  | failed (c : Option Child) (e : OperatorError) : Settles o d image owner kind c (.error e) c
  | idle (c : Option Child) (hw : o.wanted d image owner kind = none)
      (hc : kind = .policy → c = none) : Settles o d image owner kind c (.ok .unchanged) c
  | removed (c : Child) (hw : o.wanted d image owner kind = none) (hk : kind = .policy) :
      Settles o d image owner kind (some c) (.ok .updated) none
  | kept (live w : Child) (hw : o.wanted d image owner kind = some w)
      (hl : kind.Accepts owner w live) :
      Settles o d image owner kind (some live) (.ok .unchanged) (some live)
  | created (w : Child) (version : String) (hw : o.wanted d image owner kind = some w) :
      Settles o d image owner kind none (.ok .created) (some (w.storedAs d.space version))
  | updated (m : Managed) (live w : Child) (version : String) (hk : kind = .managed m)
      (hw : o.wanted d image owner kind = some w)
      (hl : live.metadata.controlledByOther owner.uid = false) :
      Settles o d image owner kind (some live) (.ok .updated)
        (some ((Child.replacing m live w).storedAs d.space version))

theorem Operator.Settles.of_error {c c' : Option Child} {e : OperatorError}
    (h : o.Settles d image owner kind c (.error e) c') : c' = c := by
  cases h
  rfl

namespace Store

theorem setChild_self (s : Store) (kind : ChildKind) (k : Key) :
    (s.setChild kind k (s.children kind k)).children = s.children := by
  funext kind' j
  by_cases h : kind' = kind ∧ j = k
  · obtain ⟨rfl, rfl⟩ := h
    simp
  · exact s.setChild_other _ h

end Store

namespace Scene

variable {s s' : Scene} {space : String} {c : Child} {k : Key}

theorem step_create {a : Except StoreError Child}
    (h : Step s ⟨.store (.create kind space c), a⟩ s') :
    ((∃ e, a = .error e) ∧ s'.store = s.store) ∨
      ∃ version, a = .ok (c.storedAs space version) ∧
        s.store.children kind (keyIn space c.metadata) = none ∧
        s'.store.children = (s.store.setChild kind (keyIn space c.metadata)
          (some (c.storedAs space version))).children := by
  rcases step_store h with ⟨ha, _⟩ | ⟨hr, rfl⟩
  · unfold answer create at ha
    dsimp only at ha
    split at ha
    · obtain ⟨rfl, hs⟩ := Prod.mk.inj ha
      exact .inl ⟨⟨_, rfl⟩, hs.symm⟩
    · rename_i hnone
      obtain ⟨rfl, hs⟩ := Prod.mk.inj ha
      refine .inr ⟨s.store.nextVersion, rfl, hnone, ?_⟩
      rw [← hs]
      rfl
  · exact .inl ⟨hr.error rfl, rfl⟩

theorem step_replace {m : Managed} {a : Except StoreError Child}
    (h : Step s ⟨.store (.replace m space c), a⟩ s') :
    ((∃ e, a = .error e) ∧ s'.store = s.store) ∨
      ∃ version, a = .ok (c.storedAs space version) ∧
        s'.store.children = (s.store.setChild (.managed m) (keyIn space c.metadata)
          (some (c.storedAs space version))).children := by
  rcases step_store h with ⟨ha, _⟩ | ⟨hr, rfl⟩
  · unfold answer replace at ha
    dsimp only at ha
    split at ha
    · obtain ⟨rfl, hs⟩ := Prod.mk.inj ha
      exact .inl ⟨⟨_, rfl⟩, hs.symm⟩
    · split at ha
      · obtain ⟨rfl, hs⟩ := Prod.mk.inj ha
        refine .inr ⟨s.store.nextVersion, rfl, ?_⟩
        rw [← hs]
        rfl
      · obtain ⟨rfl, hs⟩ := Prod.mk.inj ha
        exact .inl ⟨⟨_, rfl⟩, hs.symm⟩
  · exact .inl ⟨hr.error rfl, rfl⟩

theorem step_deletePolicy {a : Except StoreError Bool}
    (h : Step s ⟨.store (.deletePolicy k), a⟩ s') :
    ((∃ e, a = .error e) ∧ s'.store = s.store) ∨
      a = .ok (s.store.children .policy k).isSome ∧
        s'.store.children = (s.store.setChild .policy k none).children := by
  rcases step_store h with ⟨ha, _⟩ | ⟨hr, rfl⟩
  · have hdone : s.store.deletePolicy k = (a, s'.store) := ha
    have hanswer := s.store.deletePolicy_answer k
    rw [hdone] at hanswer
    refine .inr ⟨hanswer, ?_⟩
    funext kind j
    have hchild := s.store.deletePolicy_children k kind j
    rw [hdone] at hchild
    rw [hchild]
    split
    · rename_i hk
      rw [hk.1, hk.2, setChild_same]
    · rename_i hk
      exact (s.store.setChild_other none hk).symm
  · exact .inl ⟨hr.error rfl, rfl⟩

end Scene

/-- How the approach to a wanted child can end, and what it makes of the child in its place. -/
inductive ChildKind.Meets (kind : ChildKind) (space : String) (owner : OwnerReference) (w : Child) :
    Option Child → Except OperatorError Applied → Option Child → Prop where
  | failed (c : Option Child) (e : OperatorError) : Meets kind space owner w c (.error e) c
  | kept (live : Child) (hl : kind.Accepts owner w live) :
      Meets kind space owner w (some live) (.ok .unchanged) (some live)
  | created (version : String) :
      Meets kind space owner w none (.ok .created) (some (w.storedAs space version))
  | updated (m : Managed) (live : Child) (version : String) (hk : kind = .managed m)
      (hl : live.metadata.controlledByOther owner.uid = false) :
      Meets kind space owner w (some live) (.ok .updated)
        (some ((Child.replacing m live w).storedAs space version))

theorem ChildKind.Meets.settles {c c' : Option Child} {r : Except OperatorError Applied}
    (h : kind.Meets d.space owner w c r c') (hw : o.wanted d image owner kind = some w) :
    o.Settles d image owner kind c r c' := by
  cases h with
  | failed c e => exact .failed c e
  | kept live hl => exact .kept live w hw hl
  | created version => exact .created w version hw
  | updated m live version hk hl => exact .updated m live w version hk hw hl

/-- The stage of a wanted child is an approach to it. -/
theorem Operator.Settles.meets {c c' : Option Child} {r : Except OperatorError Applied}
    (h : o.Settles d image owner kind c r c') (hw : o.wanted d image owner kind = some w) :
    kind.Meets d.space owner w c r c' := by
  cases h with
  | failed c e => exact .failed c e
  | idle _ hnone _ =>
    rw [hw] at hnone
    cases hnone
  | removed _ hnone _ =>
    rw [hw] at hnone
    cases hnone
  | kept live v hv hl =>
    obtain rfl := Option.some.inj (hw.symm.trans hv)
    exact .kept live hl
  | created v version hv =>
    obtain rfl := Option.some.inj (hw.symm.trans hv)
    exact .created version
  | updated m live v version hk hv hl =>
    obtain rfl := Option.some.inj (hw.symm.trans hv)
    exact .updated m live version hk hl

theorem ChildKind.Meets.ne_none {c c' : Option Child} {space : String} {a : Applied}
    (h : kind.Meets space owner w c (.ok a) c') : c' ≠ none := by
  cases h with
  | kept => simp
  | created => simp
  | updated => simp

theorem setChild_of_store_eq {s s' : Scene} (h : s'.store = s.store) (kind : ChildKind) (k : Key) :
    s'.store.children = (s.store.setChild kind k (s.store.children kind k)).children := by
  rw [s.store.setChild_self, h]

theorem attend_performs {s s' : Scene} {t : List Exchange} {r : Except OperatorError Applied}
    {space : String} (h : (attend kind space owner w live).Performs s t r s')
    (hlive : s.store.children kind (keyIn space w.metadata) = some live) :
    ∃ c, kind.Meets space owner w (some live) r c ∧
      s'.store.children = (s.store.setChild kind (keyIn space w.metadata) c).children := by
  have hstill {u : Scene} (hu : u.store = s.store) : u.store.children =
      (s.store.setChild kind (keyIn space w.metadata) (some live)).children :=
    hlive ▸ setChild_of_store_eq hu kind _
  cases kind with
  | claim =>
    obtain ⟨_, rfl, rfl⟩ := performs_done.mp h
    exact ⟨_, .kept live fun hne => absurd rfl hne, hstill rfl⟩
  | managed m =>
    dsimp only [attend] at h
    split at h
    · obtain ⟨_, rfl, rfl⟩ := performs_done.mp h
      exact ⟨_, .failed _ _, hstill rfl⟩
    · rename_i hown
      have hfree : live.metadata.controlledByOther owner.uid = false := by simpa using hown
      split at h
      · rename_i hline
        obtain ⟨_, rfl, rfl⟩ := performs_done.mp h
        exact ⟨_, .kept live fun _ => ⟨hfree, hline⟩, hstill rfl⟩
      · have hrep : keyIn space (Child.replacing m live w).metadata = keyIn space w.metadata := by
          simp [keyIn]
        rcases performs_andThen.mp h with ⟨e, he, rfl⟩ | ⟨_, _, _, v, _, hc, hd⟩
        · obtain ⟨a, _, hae, hx⟩ := performs_attempt.mp he
          rcases Scene.step_replace hx with ⟨_, hs⟩ | ⟨_, rfl, _⟩
          · exact ⟨_, .failed _ e, hstill hs⟩
          · cases hae
        · obtain ⟨_, hx⟩ := performs_attempt_ok.mp hc
          obtain ⟨_, rfl, rfl⟩ := performs_done.mp hd
          rcases Scene.step_replace hx with ⟨⟨_, he⟩, _⟩ | ⟨version, _, hs⟩
          · cases he
          · rw [hrep] at hs
            exact ⟨_, .updated m live version rfl hfree, hs⟩

/-- An approach is about one child, and leaves all others as they are. -/
theorem approach_performs {s s' : Scene} {t : List Exchange} {r : Except OperatorError Applied}
    {space : String} (h : (approach kind space owner w).Performs s t r s') :
    ∃ c, kind.Meets space owner w (s.store.children kind (keyIn space w.metadata)) r c ∧
      s'.store.children = (s.store.setChild kind (keyIn space w.metadata) c).children := by
  rcases performs_andThen.mp h with ⟨e, he, rfl⟩ | ⟨found, _, _, u, _, hg, hr⟩
  · obtain ⟨a, _, _, hx⟩ := performs_attempt.mp he
    exact ⟨_, .failed _ e, setChild_of_store_eq (Scene.step_get hx).1 kind _⟩
  · obtain ⟨_, hx⟩ := performs_attempt_ok.mp hg
    obtain ⟨hu, hfound⟩ := Scene.step_get hx
    have hsame (c : Option Child) : (u.store.setChild kind (keyIn space w.metadata) c).children =
        (s.store.setChild kind (keyIn space w.metadata) c).children := by
      rw [hu]
    cases found with
    | none =>
      rcases performs_andThen.mp hr with ⟨e, he, rfl⟩ | ⟨_, _, _, v, _, hc, hd⟩
      · obtain ⟨a, _, hae, hx⟩ := performs_attempt.mp he
        rcases Scene.step_create hx with ⟨_, hs⟩ | ⟨_, rfl, _⟩
        · exact ⟨_, .failed _ e, setChild_of_store_eq (hs.trans hu) kind _⟩
        · cases hae
      · obtain ⟨_, hx⟩ := performs_attempt_ok.mp hc
        obtain ⟨_, rfl, rfl⟩ := performs_done.mp hd
        rcases Scene.step_create hx with ⟨⟨_, he⟩, _⟩ | ⟨version, _, hnone, hs⟩
        · cases he
        · rw [hu] at hnone
          rw [hnone]
          exact ⟨_, .created version, hs.trans (hsame _)⟩
    | some live =>
      have hlive := hfound live rfl
      rw [hlive]
      obtain ⟨c, hc, hs⟩ := attend_performs hr (hu ▸ hlive)
      exact ⟨c, hc, hs.trans (hsame c)⟩

/-- A stage is about one child: it settles it, and leaves all others as they are. -/
theorem stage_performs {s s' : Scene} {t : List Exchange} {r : Except OperatorError Applied}
    (h : (o.stage d image owner kind).Performs s t r s') :
    ∃ c, o.Settles d image owner kind (s.store.children kind (d.childKey kind)) r c ∧
      s'.store.children = (s.store.setChild kind (d.childKey kind) c).children := by
  cases hw : o.wanted d image owner kind with
  | none =>
    by_cases hk : kind = .policy
    · subst hk
      rw [stage_policy_unwanted hw] at h
      rcases performs_andThen.mp h with ⟨e, he, rfl⟩ | ⟨deleted, _, _, u, _, hd, hr⟩
      · obtain ⟨a, _, hae, hx⟩ := performs_attempt.mp he
        rcases Scene.step_deletePolicy hx with ⟨_, hs⟩ | ⟨rfl, _⟩
        · exact ⟨_, .failed _ e, setChild_of_store_eq hs _ _⟩
        · cases hae
      · obtain ⟨_, hx⟩ := performs_attempt_ok.mp hd
        obtain ⟨_, rfl, rfl⟩ := performs_done.mp hr
        rcases Scene.step_deletePolicy hx with ⟨⟨_, he⟩, _⟩ | ⟨ha, hs⟩
        · cases he
        · refine ⟨none, ?_, hs⟩
          rw [Except.ok.inj ha]
          cases hc : s.store.children .policy (d.childKey .policy) with
          | none => exact .idle _ hw fun _ => rfl
          | some c => exact .removed c hw rfl
    · rw [stage_unwanted hw hk] at h
      obtain ⟨_, rfl, rfl⟩ := performs_done.mp h
      exact ⟨_, .idle _ hw fun he => absurd he hk, setChild_of_store_eq rfl _ _⟩
  | some w =>
    rw [stage_wanted hw] at h
    obtain ⟨c, hc, hs⟩ := approach_performs h
    rw [wanted_key hw] at hc hs
    exact ⟨c, hc.settles hw, hs⟩

variable {kinds : List ChildKind} {s s' : Scene} {t : List Exchange}

theorem stage_other {r : Except OperatorError Applied} {kind' : ChildKind} (j : Key)
    (h : (o.stage d image owner kind).Performs s t r s') (hk : kind' ≠ kind) :
    s'.store.children kind' j = s.store.children kind' j := by
  obtain ⟨c, _, hs⟩ := stage_performs h
  rw [hs]
  exact s.store.setChild_other c fun he => hk he.1

theorem stages_other {r : Except OperatorError Unit} (j : Key)
    (h : (o.stages d image owner kinds).Performs s t r s') (hk : kind ∉ kinds) :
    s'.store.children kind j = s.store.children kind j := by
  induction kinds generalizing s t with
  | nil =>
    obtain ⟨_, _, rfl⟩ := performs_done.mp h
    rfl
  | cons first rest ih =>
    have hfirst : kind ≠ first := fun he => hk (he ▸ List.mem_cons_self)
    have hrest : kind ∉ rest := fun he => hk (List.mem_cons_of_mem _ he)
    rcases performs_andThen.mp h with ⟨e, he, _⟩ | ⟨a, t₁, t₂, u, _, hf, hr⟩
    · exact stage_other j he hfirst
    · rw [ih hr hrest, stage_other j hf hfirst]

/-- Whether the child in its place was asked for. -/
def Distribution.ReadIn (d : Distribution) (kind : ChildKind) (t : List Exchange) : Prop :=
  ∃ a, (⟨.store (.get kind (d.childKey kind)), a⟩ : Exchange) ∈ t

theorem stage_reads {r : Except OperatorError Applied}
    (h : (o.stage d image owner kind).Dialogue t r) (hw : o.wanted d image owner kind = some w) :
    d.ReadIn kind t := by
  rw [stage_wanted hw, approach, wanted_key hw] at h
  rcases dialogue_andThen.mp h with ⟨e, he, _⟩ | ⟨found, t₁, t₂, rfl, hg, _⟩
  · obtain ⟨a, rfl, _⟩ := dialogue_attempt.mp he
    exact ⟨a, by simp⟩
  · obtain ⟨a, rfl, _⟩ := dialogue_attempt.mp hg
    exact ⟨a, by simp⟩

/-- Each child is either settled or left as it was, the latter only if not all went well. One that
is wanted is not settled without being read. -/
theorem stages_performs {r : Except OperatorError Unit} (hn : kinds.Nodup)
    (h : (o.stages d image owner kinds).Performs s t r s') (kind : ChildKind) :
    (s'.store.children kind (d.childKey kind) = s.store.children kind (d.childKey kind) ∧
        (r = .ok () → kind ∉ kinds)) ∨
      ∃ a, o.Settles d image owner kind (s.store.children kind (d.childKey kind)) (.ok a)
          (s'.store.children kind (d.childKey kind)) ∧
        ∀ w, o.wanted d image owner kind = some w → d.ReadIn kind t := by
  induction kinds generalizing s t with
  | nil =>
    obtain ⟨_, _, rfl⟩ := performs_done.mp h
    exact .inl ⟨rfl, by simp⟩
  | cons first rest ih =>
    have hnd := List.nodup_cons.mp hn
    rcases performs_andThen.mp h with ⟨e, he, rfl⟩ | ⟨a, t₁, t₂, u, rfl, hf, hr⟩
    · by_cases hk : kind = first
      · subst hk
        obtain ⟨c, hc, hs⟩ := stage_performs he
        refine .inl ⟨?_, by simp⟩
        rw [hs, setChild_same, hc.of_error]
      · exact .inl ⟨stage_other _ he hk, by simp⟩
    · by_cases hk : kind = first
      · subst hk
        obtain ⟨c, hc, hs⟩ := stage_performs hf
        refine .inr ⟨a, ?_, fun w hw => ?_⟩
        · rw [stages_other _ hr hnd.1, hs, setChild_same]
          exact hc
        · obtain ⟨x, hx⟩ := stage_reads hf.dialogue hw
          exact ⟨x, List.mem_append_left _ hx⟩
      · have hu := stage_other (d.childKey kind) hf hk
        rcases ih hnd.2 hr with ⟨hs, hok⟩ | ⟨a', ha, hread⟩
        · left
          refine ⟨hs.trans hu, fun hr' hm => ?_⟩
          exact hok hr' ((List.mem_cons.mp hm).resolve_left hk)
        · rw [hu] at ha
          refine .inr ⟨a', ha, fun w hw => ?_⟩
          obtain ⟨x, hx⟩ := hread w hw
          exact ⟨x, List.mem_append_right _ hx⟩

end DistributionOperator
