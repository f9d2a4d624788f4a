import DistributionOperator.Proofs.StoreWrites

/-! Calls to the store, each of them as a whole. One that writes changes the slot that it is about
and no other, adds one entry to the log, and counts a version for what it leaves there. One that
does not write changes nothing. -/

namespace DistributionOperator

/-- Where an object is in the store. -/
inductive StoreSlot where
  | distribution (k : Key)
  | child (kind : ChildKind) (k : Key)
  | configMap (k : Key)
deriving DecidableEq

namespace StoreSlot

abbrev Object : StoreSlot → Type
  | distribution _ => Distribution
  | child _ _ => Child
  | configMap _ => ConfigMap

def metadata : (x : StoreSlot) → x.Object → ObjectMeta
  | distribution _, d => d.metadata
  | child _ _, c => c.metadata
  | configMap _, m => m.metadata

end StoreSlot

namespace StoreCall

/-- The slot that a call is to write; a read writes none. -/
def slot? : StoreCall → Option StoreSlot
  | getDistribution _ | get _ _ | getConfigMap _ => none
  | updateStatus k _ _ => some (.distribution k)
  | create kind space c => some (.child kind (Store.keyIn space c.metadata))
  | replace m space c => some (.child (.managed m) (Store.keyIn space c.metadata))
  | deletePolicy k => some (.child .policy k)
  | createConfigMap space m => some (.configMap (Store.keyIn space m.metadata))

def entry? : StoreCall → Option WriteEntry
  | getDistribution _ | get _ _ | getConfigMap _ => none
  | updateStatus k _ _ => some ⟨.status, Distribution.kind, k⟩
  | create kind space c => some ⟨.create, kind.kind, Store.keyIn space c.metadata⟩
  | replace m space c => some ⟨.replace, m.kind, Store.keyIn space c.metadata⟩
  | deletePolicy k => some ⟨.delete, ChildKind.policy.kind, k⟩
  | createConfigMap space m => some ⟨.create, "ConfigMap", Store.keyIn space m.metadata⟩

/-- Whether an answer says that something was written or deleted. -/
def Wrote : (c : StoreCall) → c.Answer → Prop
  | getDistribution _, _ | get _ _, _ | getConfigMap _, _ => False
  | deletePolicy _, a => a = .ok true
  | updateStatus _ _ _, a => a = .ok ()
  | create _ _ _, a | replace _ _ _, a | createConfigMap _ _, a => ∃ stored, a = .ok stored

def Removes (c : StoreCall) : Prop := ∃ k, c = .deletePolicy k

/-- The object that a call leaves in its slot. Of a distribution only the status is written, as a
patch of the one that is there; all else is stored as it was given, under the next version. -/
inductive Leaves (s : Store) : StoreCall → (x : StoreSlot) → x.Object → Prop
  | status {k : Key} {v : Option String} {new : Status} {d : Distribution} {patched : Option Status}
    (hd : s.distributions k = some d) (hp : Store.patchStatus d.status new = .ok patched) :
    Leaves s (.updateStatus k v new) (.distribution k) { d with
      status := patched
      metadata := { d.metadata with resourceVersion := some s.nextVersion } }
  | created {kind : ChildKind} {space : String} {c : Child} :
    Leaves s (.create kind space c) (.child kind (Store.keyIn space c.metadata))
      (c.writtenTo s space)
  | replaced {m : Managed} {space : String} {c : Child} :
    Leaves s (.replace m space c) (.child (.managed m) (Store.keyIn space c.metadata))
      (c.writtenTo s space)
  | configured {space : String} {m : ConfigMap} :
    Leaves s (.createConfigMap space m) (.configMap (Store.keyIn space m.metadata))
      { m with metadata := s.stamp space m.metadata }

end StoreCall

namespace StoreCall.Leaves

variable {s : Store} {c : StoreCall} {x : StoreSlot} {o : x.Object}

theorem version (h : c.Leaves s x o) : (x.metadata o).resourceVersion = some s.nextVersion := by
  cases h <;> rfl

theorem stays (h : c.Leaves s x o) : ¬c.Removes := by
  rintro ⟨k, rfl⟩
  cases h

end StoreCall.Leaves

namespace Store

def at? (s : Store) : (x : StoreSlot) → Option x.Object
  | .distribution k => s.distributions k
  | .child kind k => s.children kind k
  | .configMap k => s.configMaps k

def version? (s : Store) (x : StoreSlot) : Option String :=
  (s.at? x).bind fun o => (x.metadata o).resourceVersion

/-- What a call does that writes a slot. -/
structure Commits (s : Store) (c : StoreCall) (x : StoreSlot) (s' : Store) : Prop where
  elsewhere : ∀ y, y ≠ x → s'.at? y = s.at? y
  logged : ∃ w, c.entry? = some w ∧ s'.log = s.log ++ [w]
  settings : s'.statusFault = s.statusFault ∧ s'.deploymentReadFault = s.deploymentReadFault
  removed : c.Removes → s.at? x ≠ none ∧ s'.at? x = none ∧ s'.version = s.version
  written : ¬c.Removes → s'.version = s.version + 1 ∧ s'.version? x = some s.nextVersion
  left : ¬c.Removes → ∃ o, c.Leaves s x o ∧ s'.at? x = some o

def setAt (s : Store) : (x : StoreSlot) → Option x.Object → Store
  | .distribution k, d => { s with distributions := s.distributions.set k d }
  | .child kind k, c => s.setChild kind k c
  | .configMap k, m => { s with configMaps := s.configMaps.set k m }

variable {s s' : Store} {x y : StoreSlot} {c : StoreCall} {w : WriteEntry}

@[simp] theorem at?_bump (s : Store) (x : StoreSlot) : s.bump.at? x = s.at? x := by cases x <;> rfl

@[simp] theorem at?_record (s : Store) (op : WriteOp) (name : String) (k : Key) (x : StoreSlot) :
    (s.record op name k).at? x = s.at? x := by cases x <;> rfl

@[simp] theorem at?_setAt (s : Store) (x : StoreSlot) (o : Option x.Object) :
    (s.setAt x o).at? x = o := by
  cases x with
  | distribution k => exact Table.set_same _ _ _
  | child kind k => exact setChild_same _ _ _ _
  | configMap k => exact Table.set_same _ _ _

theorem at?_setAt_other (s : Store) (o : Option x.Object) (h : y ≠ x) :
    (s.setAt x o).at? y = s.at? y := by
  cases x with
  | distribution k =>
    cases y with
    | distribution j => exact Table.set_other _ _ fun he => h (he ▸ rfl)
    | _ => rfl
  | child kind k =>
    cases y with
    | child kind' j => exact setChild_other s _ fun he => h (he.1 ▸ he.2 ▸ rfl)
    | _ => rfl
  | configMap k =>
    cases y with
    | configMap j => exact Table.set_other _ _ fun he => h (he ▸ rfl)
    | _ => rfl

theorem setAt_rest (s : Store) (x : StoreSlot) (o : Option x.Object) :
    (s.setAt x o).log = s.log ∧ (s.setAt x o).version = s.version ∧
      (s.setAt x o).statusFault = s.statusFault ∧
      (s.setAt x o).deploymentReadFault = s.deploymentReadFault := by
  cases x <;> exact ⟨rfl, rfl, rfl, rfl⟩

theorem commits_written {o : x.Object} (he : c.entry? = some w) (ho : c.Leaves s x o) :
    s.Commits c x (((s.setAt x (some o)).bump).record w.op w.kind w.key) := by
  obtain ⟨hlog, hversion, hfaults⟩ := s.setAt_rest x (some o)
  have hat : (((s.setAt x (some o)).bump).record w.op w.kind w.key).at? x = some o := by
    rw [at?_record, at?_bump, at?_setAt]
  refine ⟨fun y hy => ?_, ⟨w, he, congrArg (· ++ [w]) hlog⟩, hfaults, fun h => absurd h ho.stays,
    fun _ => ⟨congrArg (· + 1) hversion, ?_⟩, fun _ => ⟨o, ho, hat⟩⟩
  · rw [at?_record, at?_bump, at?_setAt_other _ _ hy]
  · rw [version?, hat]
    exact ho.version

theorem commits_removed {o : x.Object} (he : c.entry? = some w) (hr : c.Removes)
    (ho : s.at? x = some o) : s.Commits c x ((s.setAt x none).record w.op w.kind w.key) := by
  obtain ⟨hlog, hversion, hfaults⟩ := s.setAt_rest x none
  refine ⟨fun y hy => ?_, ⟨w, he, congrArg (· ++ [w]) hlog⟩, hfaults,
    fun _ => ⟨by simp [ho], ?_, hversion⟩, fun h => absurd hr h, fun h => absurd hr h⟩
  · rw [at?_record, at?_setAt_other _ _ hy]
  · rw [at?_record, at?_setAt]

/-- A call writes and commits what it is about, or it leaves the store as it is. -/
def Settles (s : Store) (c : StoreCall) (r : c.Answer × Store) : Prop :=
  (c.Wrote r.1 ∧ ∃ x, c.slot? = some x ∧ s.Commits c x r.2) ∨ ¬c.Wrote r.1 ∧ r.2 = s

theorem settles_error (e : StoreError) : s.Settles c (.error e, s) := by
  refine .inr ⟨?_, rfl⟩
  cases c <;> simp [StoreCall.Wrote]

theorem updateStatus_settles (s : Store) (k : Key) (v : Option String) (status : Status) :
    s.Settles (.updateStatus k v status) (s.updateStatus k v status) := by
  unfold updateStatus
  split
  · exact settles_error _
  · split
    · exact settles_error _
    · rename_i d hd
      split
      · split
        · exact settles_error _
        · rename_i patched hp
          exact .inl ⟨rfl, _, rfl, commits_written (w := ⟨.status, Distribution.kind, k⟩) rfl
            (.status hd hp)⟩
      · exact settles_error _

theorem create_settles (s : Store) (kind : ChildKind) (space : String) (c : Child) :
    s.Settles (.create kind space c) (s.create kind space c) := by
  unfold create
  dsimp only
  split
  · exact settles_error _
  · exact .inl ⟨⟨_, rfl⟩, _, rfl, commits_written
      (w := ⟨.create, kind.kind, keyIn space c.metadata⟩) rfl .created⟩

theorem replace_settles (s : Store) (m : Managed) (space : String) (c : Child) :
    s.Settles (.replace m space c) (s.replace m space c) := by
  unfold replace
  dsimp only
  split
  · exact settles_error _
  · split
    · exact .inl ⟨⟨_, rfl⟩, _, rfl, commits_written
        (w := ⟨.replace, m.kind, keyIn space c.metadata⟩) rfl .replaced⟩
    · exact settles_error _

theorem deletePolicy_settles (s : Store) (k : Key) :
    s.Settles (.deletePolicy k) (s.deletePolicy k) := by
  have hr : (StoreCall.deletePolicy k).Removes := ⟨k, rfl⟩
  unfold deletePolicy
  split
  · exact .inr ⟨by simp [StoreCall.Wrote], rfl⟩
  · rename_i live hlive
    exact .inl ⟨rfl, _, rfl, commits_removed (x := .child .policy k)
      (w := ⟨.delete, ChildKind.policy.kind, k⟩) rfl hr hlive⟩

theorem createConfigMap_settles (s : Store) (space : String) (m : ConfigMap) :
    s.Settles (.createConfigMap space m) (s.createConfigMap space m) := by
  unfold createConfigMap
  dsimp only
  split
  · exact settles_error _
  · exact .inl ⟨⟨_, rfl⟩, _, rfl, commits_written
      (w := ⟨.create, "ConfigMap", keyIn space m.metadata⟩) rfl .configured⟩

theorem answer_settles (s : Store) (c : StoreCall) : s.Settles c (s.answer c) := by
  cases c with
  | getDistribution k | get kind k | getConfigMap k => exact .inr ⟨id, rfl⟩
  | updateStatus k v status => exact s.updateStatus_settles k v status
  | create kind space c => exact s.create_settles kind space c
  | replace m space c => exact s.replace_settles m space c
  | deletePolicy k => exact s.deletePolicy_settles k
  | createConfigMap space m => exact s.createConfigMap_settles space m

end Store

end DistributionOperator
