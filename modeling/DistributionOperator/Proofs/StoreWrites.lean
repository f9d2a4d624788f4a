import DistributionOperator.Cluster.Store

/-! What the writes of a store do to its children and to its distributions. A write changes at most
the slot that it is about. -/

namespace DistributionOperator

def Child.writtenTo (c : Child) (s : Store) (space : String) : Child :=
  { c with metadata := s.stamp space c.metadata }

def Distribution.stamped (d : Distribution) (version : String) : Distribution :=
  { d with metadata := { d.metadata with resourceVersion := some version } }

/-- The calls that leave all children as they are. -/
def StoreCall.KeepsChildren : StoreCall → Prop
  | .create _ _ _ | .replace _ _ _ | .deletePolicy _ => False
  | _ => True

namespace Store

variable {s : Store} {kind kind' : ChildKind} {j k : Key} {space : String} {c : Child}

@[simp] theorem bump_children (s : Store) : s.bump.children = s.children := rfl

@[simp] theorem record_children (s : Store) (op : WriteOp) (name : String) (k : Key) :
    (s.record op name k).children = s.children := rfl

@[simp] theorem setChild_same (s : Store) (kind : ChildKind) (k : Key) (c : Option Child) :
    (s.setChild kind k c).children kind k = c := by
  simp [setChild]

theorem setChild_other (s : Store) (c : Option Child) (h : ¬(kind' = kind ∧ j = k)) :
    (s.setChild kind k c).children kind' j = s.children kind' j := by
  by_cases hk : kind' = kind
  · subst hk
    have hj : j ≠ k := fun e => h ⟨rfl, e⟩
    simp [setChild, hj]
  · simp [setChild, hk]

theorem create_children (s : Store) (kind kind' : ChildKind) (space : String) (c : Child) (j : Key) :
    (s.create kind space c).2.children kind' j = s.children kind' j ∨
      (kind' = kind ∧ j = keyIn space c.metadata) ∧ s.children kind' j = none ∧
        (s.create kind space c).2.children kind' j = some (c.writtenTo s space) := by
  unfold create
  dsimp only
  split
  · exact .inl rfl
  · rename_i hnone
    by_cases h : kind' = kind ∧ j = keyIn space c.metadata
    · obtain ⟨rfl, rfl⟩ := h
      refine .inr ⟨⟨rfl, rfl⟩, hnone, ?_⟩
      rw [record_children, bump_children, setChild_same]
      rfl
    · left
      rw [record_children, bump_children, setChild_other s _ h]

theorem replace_children (s : Store) (m : Managed) (kind : ChildKind) (space : String) (c : Child)
    (j : Key) :
    (s.replace m space c).2.children kind j = s.children kind j ∨
      (kind = .managed m ∧ j = keyIn space c.metadata) ∧ s.children kind j ≠ none ∧
        (s.replace m space c).2.children kind j = some (c.writtenTo s space) := by
  unfold replace
  dsimp only
  split
  · exact .inl rfl
  · rename_i live hlive
    split
    · by_cases h : kind = .managed m ∧ j = keyIn space c.metadata
      · obtain ⟨rfl, rfl⟩ := h
        refine .inr ⟨⟨rfl, rfl⟩, by simp [hlive], ?_⟩
        rw [record_children, bump_children, setChild_same]
        rfl
      · left
        rw [record_children, bump_children, setChild_other s _ h]
    · exact .inl rfl

theorem deletePolicy_children (s : Store) (k : Key) (kind : ChildKind) (j : Key) :
    (s.deletePolicy k).2.children kind j =
      if kind = .policy ∧ j = k then none else s.children kind j := by
  unfold deletePolicy
  split
  · rename_i hnone
    split
    · rename_i h
      rw [h.1, h.2, hnone]
    · rfl
  · rw [record_children]
    split
    · rename_i h
      rw [h.1, h.2, setChild_same]
    · rename_i h
      exact setChild_other s _ h

theorem deletePolicy_answer (s : Store) (k : Key) :
    (s.deletePolicy k).1 = .ok (s.children .policy k).isSome := by
  unfold deletePolicy
  split
  · rename_i h
    rw [h]
    rfl
  · rename_i h
    rw [h]
    rfl

theorem updateStatus_children (s : Store) (k : Key) (v : Option String) (status : Status) :
    (s.updateStatus k v status).2.children = s.children := by
  unfold updateStatus
  split
  · rfl
  · split
    · rfl
    · split
      · split <;> rfl
      · rfl

theorem createConfigMap_children (s : Store) (space : String) (m : ConfigMap) :
    (s.createConfigMap space m).2.children = s.children := by
  unfold createConfigMap
  dsimp only
  split <;> rfl

theorem answer_children (s : Store) {c : StoreCall} (h : c.KeepsChildren) :
    (s.answer c).2.children = s.children := by
  cases c with
  | updateStatus k v status => exact s.updateStatus_children k v status
  | createConfigMap space m => exact s.createConfigMap_children space m
  | create kind space c => exact h.elim
  | replace m space c => exact h.elim
  | deletePolicy k => exact h.elim
  | _ => rfl

theorem create_distributions (s : Store) (kind : ChildKind) (space : String) (c : Child) :
    (s.create kind space c).2.distributions = s.distributions := by
  unfold create
  dsimp only
  split <;> rfl

theorem replace_distributions (s : Store) (m : Managed) (space : String) (c : Child) :
    (s.replace m space c).2.distributions = s.distributions := by
  unfold replace
  dsimp only
  split
  · rfl
  · split <;> rfl

theorem deletePolicy_distributions (s : Store) (k : Key) :
    (s.deletePolicy k).2.distributions = s.distributions := by
  unfold deletePolicy
  split <;> rfl

theorem createConfigMap_distributions (s : Store) (space : String) (m : ConfigMap) :
    (s.createConfigMap space m).2.distributions = s.distributions := by
  unfold createConfigMap
  dsimp only
  split <;> rfl

/-- Only the write of a status changes distributions. -/
theorem answer_distributions (s : Store) {c : StoreCall}
    (h : ∀ k v status, c ≠ .updateStatus k v status) :
    (s.answer c).2.distributions = s.distributions := by
  cases c with
  | updateStatus k v status => exact absurd rfl (h k v status)
  | create kind space c => exact s.create_distributions kind space c
  | replace m space c => exact s.replace_distributions m space c
  | deletePolicy k => exact s.deletePolicy_distributions k
  | createConfigMap space m => exact s.createConfigMap_distributions space m
  | _ => rfl

theorem addDistribution_distributions (s : Store) (d : Distribution) :
    (s.addDistribution d).distributions =
      s.distributions.set (keyIn d.space d.metadata) (some (d.stamped s.nextVersion)) := rfl

/-- A status that was written was read, if it was, from the stored version; the write has the next
one. -/
theorem updateStatus_version {s' : Store} {k : Key} {v : Option String} {status : Status}
    (h : s.updateStatus k v status = (.ok (), s')) :
    s'.version = s.version + 1 ∧
      ∃ d, s.distributions k = some d ∧ (v = none ∨ v = d.metadata.resourceVersion) := by
  unfold updateStatus at h
  split at h
  · cases h
  · split at h
    · cases h
    · rename_i d hd
      split at h
      · rename_i hcurrent
        split at h
        · cases h
        · cases h
          exact ⟨rfl, d, hd, by simpa [current] using hcurrent⟩
      · cases h

theorem updateStatus_error {s' : Store} {k : Key} {v : Option String} {status : Status}
    {e : StoreError} (h : s.updateStatus k v status = (.error e, s')) : s' = s := by
  unfold updateStatus at h
  split at h
  · cases h
    rfl
  · split at h
    · cases h
      rfl
    · split at h
      · split at h
        · cases h
          rfl
        · cases h
      · cases h
        rfl

/-- The counter of versions never goes back. -/
theorem answer_version (s : Store) (c : StoreCall) : s.version ≤ (s.answer c).2.version := by
  cases c with
  | updateStatus k v status =>
    cases ha : s.updateStatus k v status with
    | mk a s' =>
      show s.version ≤ (s.updateStatus k v status).2.version
      rw [ha]
      cases a with
      | ok u => exact (updateStatus_version ha).1 ▸ Nat.le_succ s.version
      | error e => exact Nat.le_of_eq (congrArg Store.version (updateStatus_error ha)).symm
  | create kind space c =>
    show s.version ≤ (s.create kind space c).2.version
    unfold create
    dsimp only
    split
    · exact Nat.le_refl _
    · exact Nat.le_succ _
  | replace m space c =>
    show s.version ≤ (s.replace m space c).2.version
    unfold replace
    dsimp only
    split
    · exact Nat.le_refl _
    · split
      · exact Nat.le_succ _
      · exact Nat.le_refl _
  | deletePolicy k =>
    show s.version ≤ (s.deletePolicy k).2.version
    unfold deletePolicy
    split <;> exact Nat.le_refl _
  | createConfigMap space m =>
    show s.version ≤ (s.createConfigMap space m).2.version
    unfold createConfigMap
    dsimp only
    split
    · exact Nat.le_refl _
    · exact Nat.le_succ _
  | _ => exact Nat.le_refl _

end Store

end DistributionOperator
