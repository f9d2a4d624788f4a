import DistributionOperator.Proofs.Dialogue
import DistributionOperator.Proofs.StoreWrites
import DistributionOperator.Reconcile.Synchronize

/-! What a synchronization does to the store. It reads and writes the children under the keys that
belong to the distribution, and what it writes has the distribution for its only owner. -/

namespace DistributionOperator

open Program Store

namespace Child

variable (c live : Child) (owner : OwnerReference) (m : Managed)

@[simp] theorem prepare_name : (c.prepare owner).metadata.name = c.metadata.name := rfl

@[simp] theorem prepare_ownerReferences :
    (c.prepare owner).metadata.ownerReferences = some [owner] := rfl

@[simp] theorem keepAddresses_metadata : (keepAddresses live c).metadata = c.metadata := by
  unfold keepAddresses
  split <;> rfl

@[simp] theorem replacing_name : (replacing m live c).metadata.name = c.metadata.name := by
  cases m <;> simp [replacing]

@[simp] theorem replacing_ownerReferences :
    (replacing m live c).metadata.ownerReferences = c.metadata.ownerReferences := by
  cases m <;> simp [replacing]

end Child

namespace Distribution

variable (d : Distribution)

def childKey : ChildKind → Key
  | .claim => ⟨d.space, d.claimName⟩
  | .managed .deployment => ⟨d.space, d.metadata.name.getD ""⟩
  | .managed .service => ⟨d.space, d.serviceName⟩
  | .managed .policy => ⟨d.space, d.policyName⟩

@[simp] theorem claim_key (s : Storage) :
    keyIn d.space (d.claim s).metadata = d.childKey .claim := rfl

@[simp] theorem deployment_key (image : String) :
    keyIn d.space (d.deployment image).metadata = d.childKey .deployment := rfl

@[simp] theorem service_key : keyIn d.space d.service.metadata = d.childKey .service := rfl

@[simp] theorem policy_key (operatorSpace : String) :
    keyIn d.space (d.policy operatorSpace).metadata = d.childKey .policy := rfl

end Distribution

/-- The calls that a synchronization may make. Policies are deleted where they are not asked for. -/
def Operator.SyncCall (o : Operator) (d : Distribution) : Call → Prop
  | .store (.get kind k) => k = d.childKey kind
  | .store (.create kind space c) => space = d.space ∧ keyIn space c.metadata = d.childKey kind
  | .store (.replace m space c) =>
    space = d.space ∧ keyIn space c.metadata = d.childKey (.managed m)
  | .store (.deletePolicy k) => o.flags.networkPolicy = false ∧ k = d.childKey .policy
  | _ => False

variable {o : Operator} {d : Distribution} {owner : OwnerReference}

theorem uid_of_owner (h : d.owner = .ok owner) : d.metadata.uid = some owner.uid := by
  unfold Distribution.owner Distribution.ownerReference? at h
  cases hn : d.metadata.name with
  | none => simp [hn] at h
  | some name =>
    cases hu : d.metadata.uid with
    | none => simp [hn, hu] at h
    | some uid =>
      simp only [hn, hu, Option.bind_eq_bind, Option.bind_some] at h
      cases h
      rfl

theorem prerequisites_owner {image : String} (h : o.prerequisites d = .ok (image, owner)) :
    d.owner = .ok owner := by
  unfold Operator.prerequisites at h
  cases hi : o.config.catalog.resolve d.spec.server.choice with
  | error e =>
    rw [hi] at h
    cases h
  | ok image' =>
    cases ho : d.owner with
    | error e =>
      rw [hi, ho] at h
      cases h
    | ok owner' =>
      rw [hi, ho] at h
      cases h
      rfl

theorem applyClaim_within {wanted : Child}
    (h : keyIn d.space wanted.metadata = d.childKey .claim) :
    (applyClaim d.space owner wanted).Within (o.SyncCall d) := by
  refine .andThen (.attempt h _ _) fun live => ?_
  cases live with
  | none => exact .andThen (.attempt ⟨rfl, h⟩ _ _) fun _ => trivial
  | some live => exact trivial

theorem applyChild_within {m : Managed} {wanted : Child}
    (h : keyIn d.space wanted.metadata = d.childKey (.managed m)) :
    (applyChild m d.space owner wanted).Within (o.SyncCall d) := by
  refine .andThen (.attempt h _ _) fun live => ?_
  cases live with
  | none => exact .andThen (.attempt ⟨rfl, h⟩ _ _) fun _ => trivial
  | some live =>
    have hr : keyIn d.space (Child.replacing m live (wanted.prepare owner)).metadata =
        d.childKey (.managed m) := by
      simpa [keyIn] using h
    dsimp only
    split
    · exact trivial
    · split
      · exact trivial
      · exact .andThen (.attempt ⟨rfl, hr⟩ _ _) fun _ => trivial

theorem synchronizePolicy_within :
    (synchronizePolicy o d owner).Within (o.SyncCall d) := by
  unfold synchronizePolicy
  split
  · exact applyChild_within (d.policy_key _)
  · rename_i h
    exact .andThen (.attempt ⟨by simpa using h, rfl⟩ _ _) fun _ => trivial

theorem synchronize_within (o : Operator) (d : Distribution) :
    (synchronize o d).Within (o.SyncCall d) := by
  unfold synchronize
  split
  · exact trivial
  · refine .andThen ?_ fun _ => .andThen synchronizePolicy_within fun _ =>
      .andThen (applyChild_within (d.deployment_key _)) fun _ => .andThen ?_ fun _ => trivial
    · unfold synchronizeClaim
      split
      · exact applyClaim_within (d.claim_key _)
      · exact trivial
    · unfold synchronizeService
      split
      · exact applyChild_within d.service_key
      · exact trivial

end DistributionOperator
