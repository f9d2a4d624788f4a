import DistributionOperator.Proofs.Resynchronization
import DistributionOperator.Proofs.StageCourses

/-! Synchronizations in which any call may fail. What is wrong with a distribution is told before
any of its children is touched; after that the stages run in their order, up to the first that
fails. -/

namespace DistributionOperator

open Program Operator

/-- Why a distribution is refused. -/
inductive Operator.Rejects (o : Operator) (d : Distribution) : OperatorError → Prop where
  | ambiguous {name image : String} (hn : nonEmpty d.spec.server.choice.name = some name)
      (hi : nonEmpty d.spec.server.choice.image = some image) :
      Rejects o d (.invalidDistribution .ambiguous)
  | missing (hn : nonEmpty d.spec.server.choice.name = none)
      (hi : nonEmpty d.spec.server.choice.image = none) :
      Rejects o d (.invalidDistribution .missing)
  | unknown {name : String} (hn : nonEmpty d.spec.server.choice.name = some name)
      (hi : nonEmpty d.spec.server.choice.image = none)
      (hc : o.config.catalog.images.get? name = none) : Rejects o d (.distributionNotFound name)
  | ownerless {image : String} (hr : o.config.catalog.resolve d.spec.server.choice = .ok image)
      (hm : d.metadata.name = none ∨ d.metadata.uid = none) :
      Rejects o d (.build "OwnerReference" "distribution has no name or uid")

/-- The kinds of children that a distribution has stages for, in their order. -/
def Distribution.stageOrder (d : Distribution) : List ChildKind :=
  (if d.spec.server.storage.isSome then [.claim] else []) ++ [.policy, .deployment] ++
    if d.hasPorts then [.service] else []

/-- A stage that was run: what it said and heard, and how it ended. -/
structure StageRecord where
  kind : ChildKind
  exchanges : List Exchange
  result : Except OperatorError Applied

/-- How stages end that run in turn, some of which may not be run any more. -/
inductive StagesEnd : List StageRecord → List ChildKind → Except OperatorError Unit → Prop where
  | finished {ran : List StageRecord} (h : ∀ p ∈ ran, ∃ a, p.result = .ok a) :
      StagesEnd ran [] (.ok ())
  | stopped {ran : List StageRecord} {last : StageRecord} {later : List ChildKind}
      {e : OperatorError} (h : ∀ p ∈ ran, ∃ a, p.result = .ok a) (he : last.result = .error e) :
      StagesEnd (ran ++ [last]) later (.error e)

/-- A synchronization that ran some of its stages and did not come to others. -/
structure Operator.Staged (o : Operator) (d : Distribution) (t : List Exchange)
    (r : Except OperatorError Unit) (ran : List StageRecord) (later : List ChildKind) : Prop where
  order : d.stageOrder = ran.map (·.kind) ++ later
  exchanges : t = ran.flatMap (·.exchanges)
  courses : ∃ image owner, o.prerequisites d = .ok (image, owner) ∧
    ∀ p ∈ ran, o.Course d image owner p.kind p.exchanges p.result
  about : ∀ p ∈ ran, ∀ x ∈ p.exchanges, x.call.child? = some (p.kind, d.childKey p.kind)
  writes : ∀ p ∈ ran, p.exchanges.countP (·.isWrite) ≤ 1
  ends : StagesEnd ran later r
  spares : ∀ s s' : Scene, s.Through t s' → ∀ kind ∈ later, ∀ j,
    s'.store.children kind j = s.store.children kind j

variable {o : Operator} {d : Distribution} {image : String} {owner : OwnerReference}
  {kind : ChildKind} {kinds : List ChildKind} {t : List Exchange} {e : OperatorError}

theorem owner_error_iff : d.owner = .error e ↔
    (d.metadata.name = none ∨ d.metadata.uid = none) ∧
      e = .build "OwnerReference" "distribution has no name or uid" := by
  unfold Distribution.owner Distribution.ownerReference?
  cases d.metadata.name with
  | none => simp [eq_comm]
  | some name =>
    cases d.metadata.uid with
    | none => simp [eq_comm]
    | some uid => simp

theorem rejects_of_resolve (h : o.config.catalog.resolve d.spec.server.choice = .error e) :
    o.Rejects d e := by
  unfold Catalog.resolve ImageChoice.validate at h
  cases hn : nonEmpty d.spec.server.choice.name with
  | some name =>
    cases hi : nonEmpty d.spec.server.choice.image with
    | some image =>
      simp only [hn, hi] at h
      cases h
      exact .ambiguous hn hi
    | none =>
      simp only [hn, hi] at h
      split at h
      · cases h
      · rename_i hc
        cases h
        exact .unknown hn hi hc
  | none =>
    cases hi : nonEmpty d.spec.server.choice.image with
    | some image =>
      simp only [hn, hi] at h
      cases h
    | none =>
      simp only [hn, hi] at h
      cases h
      exact .missing hn hi

theorem resolve_of_rejects (h : o.Rejects d e) :
    o.config.catalog.resolve d.spec.server.choice = .error e ∨
      (∃ image, o.config.catalog.resolve d.spec.server.choice = .ok image) ∧
        d.owner = .error e := by
  cases h with
  | ambiguous hn hi => exact .inl (by simp [Catalog.resolve, ImageChoice.validate, hn, hi])
  | missing hn hi => exact .inl (by simp [Catalog.resolve, ImageChoice.validate, hn, hi])
  | unknown hn hi hc => exact .inl (by simp [Catalog.resolve, ImageChoice.validate, hn, hi, hc])
  | ownerless hr hm => exact .inr ⟨⟨_, hr⟩, owner_error_iff.mpr ⟨hm, rfl⟩⟩

theorem prerequisites_error_iff : o.prerequisites d = .error e ↔ o.Rejects d e := by
  unfold Operator.prerequisites
  constructor
  · intro h
    cases hr : o.config.catalog.resolve d.spec.server.choice with
    | error e' =>
      rw [hr] at h
      cases h
      exact rejects_of_resolve hr
    | ok image =>
      cases ho : d.owner with
      | error e' =>
        rw [hr, ho] at h
        cases h
        obtain ⟨hm, rfl⟩ := owner_error_iff.mp ho
        exact .ownerless hr hm
      | ok owner =>
        rw [hr, ho] at h
        cases h
  · intro h
    rcases resolve_of_rejects h with hr | ⟨⟨image, hr⟩, ho⟩
    · rw [hr]
      rfl
    · rw [hr, ho]
      rfl

theorem nodup_stageOrder (d : Distribution) : d.stageOrder.Nodup := by
  unfold Distribution.stageOrder
  split <;> split <;> decide

/-- The stages that are not in the order have nothing to do. -/
theorem synchronize_stageOrder (h : o.prerequisites d = .ok (image, owner)) :
    synchronize o d = o.stages d image owner d.stageOrder := by
  simp only [synchronize, h, Distribution.stageOrder]
  cases hs : d.spec.server.storage with
  | none =>
    cases hp : d.hasPorts with
    | false => simp only [synchronizeClaim, synchronizeService, hs, hp]; rfl
    | true => simp only [synchronizeClaim, hs]; rfl
  | some s =>
    cases hp : d.hasPorts with
    | false => simp only [synchronizeService, hp]; rfl
    | true => rfl

namespace StagesEnd

variable {p : StageRecord} {ran : List StageRecord} {later : List ChildKind}

theorem of_error (h : p.result = .error e) : StagesEnd [p] later (.error e) := by
  have hnone : ∀ q ∈ ([] : List StageRecord), ∃ a, q.result = .ok a := by simp
  exact .stopped hnone h

theorem cons {r : Except OperatorError Unit} {a : Applied} (h : StagesEnd ran later r)
    (hp : p.result = .ok a) : StagesEnd (p :: ran) later r := by
  cases h with
  | finished hall => exact .finished (List.forall_mem_cons.mpr ⟨⟨a, hp⟩, hall⟩)
  | @stopped ran last _ e hall he =>
    have hall' : ∀ q ∈ p :: ran, ∃ a, q.result = .ok a :=
      List.forall_mem_cons.mpr ⟨⟨a, hp⟩, hall⟩
    exact .stopped hall' he

end StagesEnd

theorem stages_run {r : Except OperatorError Unit}
    (h : (o.stages d image owner kinds).Dialogue t r) :
    ∃ ran later, kinds = ran.map (·.kind) ++ later ∧ t = ran.flatMap (·.exchanges) ∧
      (∀ p ∈ ran, o.Course d image owner p.kind p.exchanges p.result) ∧
      StagesEnd ran later r := by
  induction kinds generalizing t with
  | nil =>
    obtain ⟨rfl, rfl⟩ := dialogue_done.mp h
    exact ⟨[], [], rfl, rfl, by simp, .finished (by simp)⟩
  | cons kind rest ih =>
    rcases dialogue_andThen.mp h with ⟨e, he, rfl⟩ | ⟨a, t₁, t₂, rfl, ha, hr⟩
    · refine ⟨[⟨kind, t, .error e⟩], rest, rfl, by simp, ?_, .of_error rfl⟩
      exact List.forall_mem_singleton.mpr (stage_course he)
    · obtain ⟨ran, later, rfl, rfl, hcourses, hends⟩ := ih hr
      refine ⟨⟨kind, t₁, .ok a⟩ :: ran, later, rfl, rfl, ?_, hends.cons rfl⟩
      exact List.forall_mem_cons.mpr ⟨stage_course ha, hcourses⟩

namespace Scene

variable {s s' : Scene} {j : Key}

/-- A call changes at most the child that it is about. -/
theorem step_child? {x : Exchange} (h : s.Step x s') (hx : x.call.child? ≠ some (kind, j)) :
    s'.store.children kind j = s.store.children kind j := by
  cases h with
  | reached c =>
    cases c with
    | create kind' space c =>
      rcases s.store.create_children kind' kind space c j with hs | ⟨⟨rfl, rfl⟩, _⟩
      · exact hs
      · exact absurd rfl hx
    | replace m space c =>
      rcases s.store.replace_children m kind space c j with hs | ⟨⟨rfl, rfl⟩, _⟩
      · exact hs
      · exact absurd rfl hx
    | deletePolicy k =>
      refine (s.store.deletePolicy_children k kind j).trans (if_neg ?_)
      rintro ⟨rfl, rfl⟩
      exact hx rfl
    | updateStatus k v new =>
      exact congrFun (congrFun (s.store.updateStatus_children k v new) kind) j
    | createConfigMap space m =>
      exact congrFun (congrFun (s.store.createConfigMap_children space m) kind) j
    | _ => rfl
  | _ => rfl

theorem through_child? (h : s.Through t s') (ht : ∀ x ∈ t, x.call.child? ≠ some (kind, j)) :
    s'.store.children kind j = s.store.children kind j :=
  through_preserves (P := fun u => u.store.children kind j = s.store.children kind j) h
    (fun _ _ _ hm hx hu => (step_child? hx (ht _ hm)).trans hu) rfl

end Scene

/-- A synchronization refuses a distribution before any call, or runs its stages in their order,
each of them about one child that it writes once at most, and stops at the first that fails. -/
theorem synchronize_staged {r : Except OperatorError Unit} (h : (synchronize o d).Dialogue t r) :
    (∀ e, o.Rejects d e → t = [] ∧ r = .error e) ∧
      ((∀ e, ¬o.Rejects d e) → ∃ ran later, o.Staged d t r ran later) := by
  refine ⟨fun e he => ?_, fun hnone => ?_⟩
  · rw [synchronize, prerequisites_error_iff.mpr he] at h
    exact dialogue_done.mp h
  · cases hpre : o.prerequisites d with
    | error e => exact absurd (prerequisites_error_iff.mp hpre) (hnone e)
    | ok made =>
      obtain ⟨image, owner⟩ := made
      rw [synchronize_stageOrder hpre] at h
      obtain ⟨ran, later, horder, ht, hcourses, hends⟩ := stages_run h
      have habout := fun p hp => (hcourses p hp).child?_eq
      refine ⟨ran, later, horder, ht, ⟨image, owner, hpre, hcourses⟩, habout,
        fun p hp => (hcourses p hp).writes_le, hends, fun s s' hs kind hk j => ?_⟩
      refine Scene.through_child? hs fun x hx hc => ?_
      obtain ⟨p, hp, hxp⟩ := List.mem_flatMap.mp (ht ▸ hx)
      have hkind : p.kind = kind := by
        rw [habout p hp x hxp] at hc
        exact congrArg Prod.fst (Option.some.inj hc)
      have hdisjoint := (List.nodup_append.mp (horder ▸ nodup_stageOrder d)).2.2
      exact hdisjoint p.kind (List.mem_map_of_mem hp) kind hk hkind

/-! A distribution that wants a claim, a deployment and a service, where deployments cannot be
made. -/

theorem synchronize_staged_stopped : ∃ t ran later,
    (synchronize .sample .full).Dialogue t (.error (.store "create" "Deployment" (.api "busy"))) ∧
      Operator.sample.Staged .full t (.error (.store "create" "Deployment" (.api "busy"))) ran
        later ∧ t.length = 5 := by
  let r := (Rehearsal.start .epoch).disturb (.create .deployment) (some (.fails (.api "busy")))
  have h := dialogue_transcript Rehearsal.answer (synchronize .sample .full) r
  have hresult : ((synchronize .sample .full).run Rehearsal.answer r).1 =
      .error (.store "create" "Deployment" (.api "busy")) := by decide +kernel
  rw [hresult] at h
  obtain ⟨ran, later, hstaged⟩ := (synchronize_staged h).2 fun e he => by
    cases prerequisites_error_iff.mpr he
  exact ⟨_, ran, later, h, hstaged, by decide +kernel⟩

end DistributionOperator
