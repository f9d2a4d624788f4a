import DistributionOperator.Proofs.LastSpec
import DistributionOperator.Proofs.PhaseGauge
import DistributionOperator.Proofs.Visits
import Mathlib.Data.Set.Insert

/-! What belongs to a distribution: the object itself, the children under the names that are derived
from its own, and what the operator remembers of it. A pass keeps to what belongs to its key. -/

namespace DistributionOperator

open Program Store

def ChildKind.suffix : ChildKind → String
  | .claim => "-pvc"
  | .managed .deployment => ""
  | .managed .service => "-service"
  | .managed .policy => "-network-policy"

namespace Key

variable {j k : Key}

/-- The place of a child of the distribution under a key. -/
def child (k : Key) (kind : ChildKind) : Key := ⟨k.space, k.name ++ kind.suffix⟩

def Plain (k : Key) : Prop := '/' ∉ k.space.toList ∧ '/' ∉ k.name.toList

/-- Children of one kind have the same place only for the same key: the suffix can be taken off. -/
theorem child_inj {kind : ChildKind} : j.child kind = k.child kind ↔ j = k := by
  cases j
  cases k
  simp [child, ← String.toList_inj]

theorem text_inj (hj : j.Plain) (hk : k.Plain) (h : j.text = k.text) : j = k := by
  have hlists : j.space.toList ++ '/' :: j.name.toList =
      k.space.toList ++ '/' :: k.name.toList := by
    simpa [text] using congrArg String.toList h
  -- the namespace is what stands before the first slash
  have hspace : j.space.toList = k.space.toList := by
    have htake := congrArg (List.takeWhile (· ≠ '/')) hlists
    rwa [List.takeWhile_append_of_pos fun c hc => by simpa using ne_of_mem_of_not_mem hc hj.1,
      List.takeWhile_append_of_pos fun c hc => by simpa using ne_of_mem_of_not_mem hc hk.1,
      List.takeWhile_cons_of_neg (by simp), List.takeWhile_cons_of_neg (by simp),
      List.append_nil, List.append_nil] at htake
  rw [hspace, List.append_cancel_left_eq, List.cons.injEq] at hlists
  exact congrArg₂ Key.mk (String.toList_inj.mp hspace) (String.toList_inj.mp hlists.2)

end Key

namespace Distribution

variable {d : Distribution}

theorem key_child_deployment (d : Distribution) : d.key.child .deployment = d.key := by
  simp [Key.child, ChildKind.suffix]

theorem childKey_eq {name : String} (h : d.metadata.name = some name) (kind : ChildKind) :
    d.childKey kind = d.key.child kind := by
  have hname : d.name = name := by simp [Distribution.name, ObjectMeta.anyName, h]
  rcases kind with _ | m
  · rfl
  · cases m <;> simp [childKey, key, Key.child, ChildKind.suffix, serviceName, policyName, hname, h]

end Distribution

/-- Calls that look at nothing and write nothing but what belongs to a key, and recall nothing but
what is remembered of it. -/
def Call.Minds (k : Key) : Call → Prop
  | .store (.getDistribution j) | .store (.updateStatus j _ _) => j = k
  | .store (.get kind j) => j = k.child kind
  | .store (.create kind space c) => keyIn space c.metadata = k.child kind
  | .store (.replace m space c) => keyIn space c.metadata = k.child (.managed m)
  | .store (.deletePolicy j) => j = k.child .policy
  | .store (.getConfigMap _) | .store (.createConfigMap _ _) => False
  | .memory (.observe j _) | .memory (.resetFailures j) | .memory (.nextDelay j)
  | .memory (.forget j) | .memory (.showPhase j _) => j = k
  | _ => True

/-- What is read under a key is a distribution that has it. -/
def Exchange.Names (k : Key) (x : Exchange) : Prop :=
  ∀ d, x = ⟨.store (.getDistribution k), .ok (some d)⟩ → d.key = k

section Minds

variable {o : Operator} {d : Distribution} {k : Key} {c : Call}

theorem Operator.SyncCall.minds {name : String} (h : o.SyncCall d c)
    (hn : d.metadata.name = some name) : c.Minds d.key := by
  cases c with
  | store c =>
    cases c with
    | get kind j => exact Eq.trans h (d.childKey_eq hn kind)
    | create kind space child => exact h.2.trans (d.childKey_eq hn kind)
    | replace managed space child => exact h.2.trans (d.childKey_eq hn _)
    | deletePolicy j => exact h.2.trans (d.childKey_eq hn _)
    | _ => exact h.elim
  | _ => exact h.elim

theorem Distribution.Asks.minds (h : d.Asks c) : c.Minds d.key := by
  cases c with
  | store c =>
    cases c with
    | get kind j =>
      rcases kind with _ | m
      · exact h
      · cases m with
        | deployment => exact Eq.trans h d.key_child_deployment.symm
        | service => exact h
        | policy => exact h.elim
    | _ => exact h.elim
  | memory c => exact h.elim
  | _ => exact trivial

theorem synchronize_minds (o : Operator) (d : Distribution) :
    (synchronize o d).Within (Call.Minds d.key) := by
  cases hpre : o.prerequisites d with
  | error e =>
    rw [synchronize, hpre]
    exact trivial
  | ok made =>
    obtain ⟨name, hn⟩ := name_of_owner (prerequisites_owner hpre)
    exact (synchronize_within o d).mono fun c hc => hc.minds hn

theorem evaluate_minds (o : Operator) (d : Distribution) (failure : Option OperatorError) :
    (evaluate o d failure).Within (Call.Minds d.key) :=
  (evaluate_asks o d failure).mono fun _ hc => hc.minds

theorem workOn_minds (o : Operator) (d : Distribution) :
    (workOn o d).Within (Call.Minds d.key) := by
  have hwrite : ∀ new, (Call.store (.updateStatus d.key d.metadata.resourceVersion new)).Minds
      d.key := fun _ => rfl
  exact (synchronize_minds o d).bind fun synced =>
    .bind (.andThen (evaluate_minds o d _) fun new => .andThen (.attempt (hwrite new) _ _)
      fun _ => trivial) fun _ => trivial

theorem bookkeep_minds (k : Key) (r : Except OperatorError Outcome) :
    (bookkeep k r).Within (Call.Minds k) := by
  have hmemory : ∀ c, (Call.memory c).Minds k → (Program.memory c).Within (Call.Minds k) :=
    fun _ hc => .call hc
  cases r with
  | error e => exact hmemory _ trivial
  | ok outcome =>
    refine .bind (hmemory _ trivial) fun _ => .bind ?_ fun _ => hmemory (.resetFailures k) rfl
    unfold showPhase
    split
    · exact hmemory (.showPhase k _) rfl
    · exact trivial

/-- As long as it reads a distribution that has its key, a pass keeps to what belongs to it. -/
theorem pass_minds (o : Operator) (k : Key) :
    (pass o k).Keeps (Call.Minds k) (Exchange.Names k) := by
  have hmemory : ∀ c, (Call.memory c).Minds k → (Program.memory c).Within (Call.Minds k) :=
    fun _ hc => .call hc
  refine Keeps.bind ?_ fun r => Within.keeps (.bind (bookkeep_minds k r) fun _ => trivial)
  refine .attempt (show (Call.store (.getDistribution k)).Minds k from rfl) fun found hfound => ?_
  refine Within.keeps ?_
  cases found with
  | none => exact (hmemory (.forget k) rfl).bind fun _ => trivial
  | some d =>
    have hwork : (workOn o d).Within (Call.Minds k) := hfound d rfl ▸ workOn_minds o d
    refine (hmemory (.observe k d.spec) rfl).bind fun change => ?_
    split
    · exact (hmemory (.resetFailures k) rfl).bind fun _ => hwork
    · exact hwork

end Minds

/-- What a store holds for a key, and how it fails. -/
structure Region where
  distribution : Option Distribution
  children : ChildKind → Option Child
  statusFault : Option String
  deploymentReadFault : Option String

namespace Store

variable {s s' s'' : Store} {j k : Key} {keys : Set Key} {kind : ChildKind}

def region (s : Store) (k : Key) : Region where
  distribution := s.distributions k
  children kind := s.children kind (k.child kind)
  statusFault := s.statusFault
  deploymentReadFault := s.deploymentReadFault

/-- A store that differs at most in what belongs to some keys. Versions and log are left aside. -/
structure SameBeyond (keys : Set Key) (s s' : Store) : Prop where
  distributions : ∀ j ∉ keys, s'.distributions j = s.distributions j
  children : ∀ kind place, (∀ k ∈ keys, place ≠ k.child kind) →
    s'.children kind place = s.children kind place
  configMaps : s'.configMaps = s.configMaps
  statusFault : s'.statusFault = s.statusFault
  deploymentReadFault : s'.deploymentReadFault = s.deploymentReadFault

theorem SameBeyond.refl (keys : Set Key) (s : Store) : s.SameBeyond keys s :=
  ⟨fun _ _ => rfl, fun _ _ _ => rfl, rfl, rfl, rfl⟩

theorem SameBeyond.trans (h : s.SameBeyond keys s') (h' : s'.SameBeyond keys s'') :
    s.SameBeyond keys s'' where
  distributions j hj := (h'.distributions j hj).trans (h.distributions j hj)
  children kind place hp := (h'.children kind place hp).trans (h.children kind place hp)
  configMaps := h'.configMaps.trans h.configMaps
  statusFault := h'.statusFault.trans h.statusFault
  deploymentReadFault := h'.deploymentReadFault.trans h.deploymentReadFault

theorem SameBeyond.mono {keys' : Set Key} (h : s.SameBeyond keys s') (hk : keys ⊆ keys') :
    s.SameBeyond keys' s' where
  distributions j hj := h.distributions j fun hm => hj (hk hm)
  children kind place hp := h.children kind place fun k hm => hp k (hk hm)
  configMaps := h.configMaps
  statusFault := h.statusFault
  deploymentReadFault := h.deploymentReadFault

theorem SameBeyond.region_eq (h : s.SameBeyond keys s') (hj : j ∉ keys) :
    s'.region j = s.region j := by
  have hchildren : ∀ kind, s'.children kind (j.child kind) = s.children kind (j.child kind) :=
    fun kind => h.children kind _ fun k hk he => hj (Key.child_inj.mp he ▸ hk)
  simp only [region, h.distributions j hj, hchildren, h.statusFault, h.deploymentReadFault]

theorem setChild_sameBeyond (s : Store) (k : Key) (kind : ChildKind) (c : Option Child) :
    s.SameBeyond {k} (s.setChild kind (k.child kind) c) where
  distributions _ _ := rfl
  children kind' place hp := s.setChild_other c fun he => by
    obtain ⟨rfl, rfl⟩ := he
    exact hp k rfl rfl
  configMaps := rfl
  statusFault := rfl
  deploymentReadFault := rfl

theorem SameBeyond.logged (h : s.SameBeyond keys s') (op : WriteOp) (name : String) (j : Key) :
    s.SameBeyond keys (s'.record op name j) :=
  ⟨h.distributions, h.children, h.configMaps, h.statusFault, h.deploymentReadFault⟩

theorem SameBeyond.bumped (h : s.SameBeyond keys s') : s.SameBeyond keys s'.bump :=
  ⟨h.distributions, h.children, h.configMaps, h.statusFault, h.deploymentReadFault⟩

theorem updateStatus_sameBeyond (s : Store) (k : Key) (v : Option String) (new : Status) :
    s.SameBeyond {k} (s.updateStatus k v new).2 := by
  unfold updateStatus
  split
  · exact .refl _ s
  · split
    · exact .refl _ s
    · split
      · split
        · exact .refl _ s
        · rename_i d _ _ stored _
          exact ⟨fun j hj => Table.set_other _ _ hj, fun _ _ _ => rfl, rfl, rfl, rfl⟩
      · exact .refl _ s

/-- A call that minds a key changes nothing beyond it. -/
theorem answer_sameBeyond (s : Store) {c : StoreCall} (h : (Call.store c).Minds k) :
    s.SameBeyond {k} (s.answer c).2 := by
  cases c with
  | updateStatus j v new =>
    obtain rfl : j = k := h
    exact s.updateStatus_sameBeyond j v new
  | create kind space c =>
    have hkey : keyIn space c.metadata = k.child kind := h
    simp only [answer, create, hkey]
    split
    · exact .refl _ s
    · exact ((s.setChild_sameBeyond k kind _).bumped).logged _ _ _
  | replace m space c =>
    have hkey : keyIn space c.metadata = k.child (.managed m) := h
    simp only [answer, replace, hkey]
    split
    · exact .refl _ s
    · split
      · exact ((s.setChild_sameBeyond k _ _).bumped).logged _ _ _
      · exact .refl _ s
  | deletePolicy j =>
    obtain rfl : j = k.child .policy := h
    simp only [answer, deletePolicy]
    split
    · exact .refl _ s
    · exact (s.setChild_sameBeyond k _ _).logged _ _ _
  | createConfigMap space m => exact h.elim
  | _ => exact .refl _ s

/-- What is kept under a key is a distribution that has it. -/
def Filed (s : Store) (k : Key) : Prop := ∀ d, s.distributions k = some d → d.key = k

end Store

namespace Memory

variable {m : Memory} {j k : Key}

theorem set_other {α : Type} (f : String → Option α) (a : Option α) {x y : String} (h : x ≠ y) :
    Memory.set f y a x = f x := if_neg h

/-- What is recalled for one key changes nothing for another. -/
theorem answer_other {c : MemoryCall} (h : (Call.memory c).Minds k) (hne : j.text ≠ k.text) :
    (m.answer c).2.specs j.text = m.specs j.text ∧
      (m.answer c).2.failures j.text = m.failures j.text ∧
      ∀ p, (m.answer c).2.metrics.phase? j p = m.metrics.phase? j p := by
  have hjk : j ≠ k := fun he => hne (congrArg Key.text he)
  cases c with
  | observe k' spec =>
    obtain rfl : k' = k := h
    exact ⟨set_other _ _ hne, rfl, fun _ => rfl⟩
  | resetFailures k' =>
    obtain rfl : k' = k := h
    simp only [Memory.answer, Memory.resetFailures]
    split
    · exact ⟨rfl, set_other _ _ hne, fun _ => rfl⟩
    · exact ⟨rfl, rfl, fun _ => rfl⟩
  | nextDelay k' =>
    obtain rfl : k' = k := h
    exact ⟨rfl, set_other _ _ hne, fun _ => rfl⟩
  | forget k' =>
    obtain rfl : k' = k := h
    refine ⟨set_other _ _ hne, set_other _ _ hne, fun p => ?_⟩
    exact (m.metrics.phase?_forget j k' p).trans (if_neg hjk)
  | showPhase k' q =>
    obtain rfl : k' = k := h
    exact ⟨rfl, rfl, fun p => (m.metrics.phase?_showPhase j k' q p).trans (if_neg hjk)⟩
  | _ => exact ⟨rfl, rfl, fun _ => rfl⟩

end Memory

namespace Scene

variable {s s' s'' : Scene} {t : List Exchange} {x : Exchange} {j k : Key}

/-- All that belongs to a key is the same: its region of the store, and the spec, the failures and
the phase that are remembered of it. -/
structure SameFor (k : Key) (s s' : Scene) : Prop where
  region : s'.store.region k = s.store.region k
  spec : s'.memory.specs k.text = s.memory.specs k.text
  failures : s'.memory.failures k.text = s.memory.failures k.text
  phase : ∀ p, s'.memory.metrics.phase? k p = s.memory.metrics.phase? k p

theorem SameFor.refl (k : Key) (s : Scene) : s.SameFor k s := ⟨rfl, rfl, rfl, fun _ => rfl⟩

theorem SameFor.trans (h : s.SameFor k s') (h' : s'.SameFor k s'') : s.SameFor k s'' where
  region := h'.region.trans h.region
  spec := h'.spec.trans h.spec
  failures := h'.failures.trans h.failures
  phase p := (h'.phase p).trans (h.phase p)

theorem step_sameBeyond (h : s.Step x s') (hx : x.call.Minds k) :
    s.store.SameBeyond {k} s'.store := by
  cases h with
  | reached c => exact s.store.answer_sameBeyond hx
  | _ => exact .refl _ _

theorem step_sameFor (h : s.Step x s') (hx : x.call.Minds k) (hne : j.text ≠ k.text) :
    s.SameFor j s' := by
  have hjk : j ≠ k := fun he => hne (congrArg Key.text he)
  have hregion := (step_sameBeyond h hx).region_eq hjk
  cases h with
  | recalled c =>
    obtain ⟨hspec, hfailures, hphase⟩ := s.memory.answer_other hx hne
    exact ⟨hregion, hspec, hfailures, hphase⟩
  | _ => exact ⟨hregion, rfl, rfl, fun _ => rfl⟩

theorem step_filed (h : s.Step x s') (hs : s.store.Filed k) : s'.store.Filed k := by
  rcases step_persists_or_keeps h with ⟨j, v, new, _, d, version, hd, hw⟩ | hsame
  · intro e he
    by_cases hk : k = j
    · subst hk
      rw [hw, Table.set_same] at he
      cases he
      exact hs d hd
    · rw [hw, Table.set_other _ _ hk] at he
      exact hs e he
  · intro e he
    exact hs e (hsame ▸ he)

theorem step_names (h : s.Step x s') (hs : s.store.Filed k) : x.Names k := by
  rintro d rfl
  exact hs d ((step_getDistribution h).2 d rfl)

theorem through_names (h : s.Through t s') (hs : s.store.Filed k) : ∀ x ∈ t, x.Names k := by
  induction h with
  | nil => simp
  | cons hx _ ih => exact List.forall_mem_cons.mpr ⟨step_names hx hs, ih (step_filed hx hs)⟩

end Scene

/-- A pass leaves all that belongs to another key as it is, whatever its calls are answered. -/
theorem pass_sameFor {o : Operator} {j k : Key} {s s' : Scene} {t : List Exchange}
    {r : Except OperatorError Outcome} (h : (pass o k).Performs s t r s') (hs : s.store.Filed k)
    (hne : j.text ≠ k.text) : s.SameFor j s' := by
  have hminds := (pass_minds o k).of_dialogue h.dialogue (Scene.through_names h.through hs)
  exact Scene.through_preserves (P := s.SameFor j) h.through
    (fun _ x _ hm hx hu => hu.trans (Scene.step_sameFor hx (hminds x hm) hne)) (.refl j s)

end DistributionOperator
