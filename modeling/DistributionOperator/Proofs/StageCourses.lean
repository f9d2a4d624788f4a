import DistributionOperator.Proofs.Stages

/-! The courses that a stage of a synchronization can take, whatever its calls are answered. They
are all about one child, and write it once at most. -/

namespace DistributionOperator

open Program Store Operator

def Exchange.looks (kind : ChildKind) (k : Key) (a : Except StoreError (Option Child)) : Exchange :=
  ⟨.store (.get kind k), a⟩

def Exchange.makes (kind : ChildKind) (space : String) (w : Child)
    (a : Except StoreError Child) : Exchange :=
  ⟨.store (.create kind space w), a⟩

def Exchange.replaces (m : Managed) (space : String) (w : Child)
    (a : Except StoreError Child) : Exchange :=
  ⟨.store (.replace m space w), a⟩

def Exchange.clears (k : Key) (a : Except StoreError Bool) : Exchange :=
  ⟨.store (.deletePolicy k), a⟩

/-- The child that a call is about. -/
def Call.child? : Call → Option (ChildKind × Key)
  | .store (.get kind k) => some (kind, k)
  | .store (.create kind space c) => some (kind, keyIn space c.metadata)
  | .store (.replace m space c) => some (.managed m, keyIn space c.metadata)
  | .store (.deletePolicy k) => some (.policy, k)
  | _ => none

def Exchange.isWrite (x : Exchange) : Bool :=
  match x.call with
  | .store (.getDistribution _) | .store (.get _ _) | .store (.getConfigMap _) => false
  | .store _ => true
  | _ => false

open Exchange

section Course

variable (o : Operator) (d : Distribution) (image : String) (owner : OwnerReference)

/-- What a stage says and hears, and how it ends by that. -/
inductive Operator.Course (kind : ChildKind) :
    List Exchange → Except OperatorError Applied → Prop where
  | skipped (hw : o.wanted d image owner kind = none) (hk : kind ≠ .policy) :
      Course kind [] (.ok .unchanged)
  | cleared (deleted : Bool) (hw : o.wanted d image owner kind = none) (hk : kind = .policy) :
      Course kind [clears (d.childKey .policy) (.ok deleted)]
        (.ok (if deleted then .updated else .unchanged))
  | uncleared (e : StoreError) (hw : o.wanted d image owner kind = none) (hk : kind = .policy) :
      Course kind [clears (d.childKey .policy) (.error e)] (.error (.store "delete" kind.kind e))
  | unread (w : Child) (e : StoreError) (hw : o.wanted d image owner kind = some w) :
      Course kind [looks kind (d.childKey kind) (.error e)] (.error (.store "get" kind.kind e))
  | made (w c : Child) (hw : o.wanted d image owner kind = some w) :
      Course kind [looks kind (d.childKey kind) (.ok none), makes kind d.space w (.ok c)]
        (.ok .created)
  | unmade (w : Child) (e : StoreError) (hw : o.wanted d image owner kind = some w) :
      Course kind [looks kind (d.childKey kind) (.ok none), makes kind d.space w (.error e)]
        (.error (.store "create" kind.kind e))
  | kept (w live : Child) (hw : o.wanted d image owner kind = some w)
      (hl : kind.Accepts owner w live) :
      Course kind [looks kind (d.childKey kind) (.ok (some live))] (.ok .unchanged)
  | foreign (w live : Child) (hw : o.wanted d image owner kind = some w) (hk : kind ≠ .claim)
      (hl : live.metadata.controlledByOther owner.uid = true) :
      Course kind [looks kind (d.childKey kind) (.ok (some live))]
        (.error (.ownershipConflict kind.kind (live.metadata.name.getD "")))
  | replaced (m : Managed) (w live c : Child) (hk : kind = .managed m)
      (hw : o.wanted d image owner kind = some w) (hl : ¬kind.Accepts owner w live) :
      Course kind [looks kind (d.childKey kind) (.ok (some live)),
        replaces m d.space (Child.replacing m live w) (.ok c)] (.ok .updated)
  | unreplaced (m : Managed) (w live : Child) (e : StoreError) (hk : kind = .managed m)
      (hw : o.wanted d image owner kind = some w) (hl : ¬kind.Accepts owner w live) :
      Course kind [looks kind (d.childKey kind) (.ok (some live)),
        replaces m d.space (Child.replacing m live w) (.error e)]
        (.error (.store "update" kind.kind e))

end Course

variable {o : Operator} {d : Distribution} {image : String} {owner : OwnerReference}
  {kind : ChildKind} {t : List Exchange} {r : Except OperatorError Applied}

theorem attend_course {w live : Child} (hw : o.wanted d image owner kind = some w)
    (h : (attend kind d.space owner w live).Dialogue t r) :
    o.Course d image owner kind (looks kind (d.childKey kind) (.ok (some live)) :: t) r := by
  cases kind with
  | claim =>
    obtain ⟨rfl, rfl⟩ := dialogue_done.mp h
    exact .kept w live hw fun hne => absurd rfl hne
  | managed m =>
    dsimp only [attend] at h
    split at h
    · rename_i hown
      obtain ⟨rfl, rfl⟩ := dialogue_done.mp h
      exact .foreign w live hw (by simp) hown
    · rename_i hown
      have hfree : live.metadata.controlledByOther owner.uid = false := by simpa using hown
      split at h
      · rename_i hline
        obtain ⟨rfl, rfl⟩ := dialogue_done.mp h
        exact .kept w live hw fun _ => ⟨hfree, hline⟩
      · rename_i hline
        have hl : ¬ChildKind.Accepts (.managed m) owner w live := fun ha =>
          hline (ha (by simp)).2
        rcases dialogue_andThen.mp h with ⟨e, he, rfl⟩ | ⟨c, _, _, rfl, hc, hd⟩
        · obtain ⟨a, rfl, hae⟩ := dialogue_attempt.mp he
          cases a with
          | ok c => cases hae
          | error e =>
            cases hae
            exact .unreplaced m w live e rfl hw hl
        · obtain rfl := dialogue_attempt_ok.mp hc
          obtain ⟨rfl, rfl⟩ := dialogue_done.mp hd
          exact .replaced m w live c rfl hw hl

theorem stage_course (h : (o.stage d image owner kind).Dialogue t r) :
    o.Course d image owner kind t r := by
  cases hw : o.wanted d image owner kind with
  | none =>
    by_cases hk : kind = .policy
    · subst hk
      rw [stage_policy_unwanted hw] at h
      rcases dialogue_andThen.mp h with ⟨e, he, rfl⟩ | ⟨deleted, _, _, rfl, ha, hd⟩
      · obtain ⟨a, rfl, hae⟩ := dialogue_attempt.mp he
        cases a with
        | ok deleted => cases hae
        | error e =>
          cases hae
          exact .uncleared e hw rfl
      · obtain rfl := dialogue_attempt_ok.mp ha
        obtain ⟨rfl, rfl⟩ := dialogue_done.mp hd
        exact .cleared deleted hw rfl
    · rw [stage_unwanted hw hk] at h
      obtain ⟨rfl, rfl⟩ := dialogue_done.mp h
      exact .skipped hw hk
  | some w =>
    rw [stage_wanted hw, approach, wanted_key hw] at h
    rcases dialogue_andThen.mp h with ⟨e, he, rfl⟩ | ⟨found, _, _, rfl, ha, hrest⟩
    · obtain ⟨a, rfl, hae⟩ := dialogue_attempt.mp he
      cases a with
      | ok found => cases hae
      | error e =>
        cases hae
        exact .unread w e hw
    · obtain rfl := dialogue_attempt_ok.mp ha
      cases found with
      | none =>
        rcases dialogue_andThen.mp hrest with ⟨e, he, rfl⟩ | ⟨c, _, _, rfl, hc, hd⟩
        · obtain ⟨a, rfl, hae⟩ := dialogue_attempt.mp he
          cases a with
          | ok c => cases hae
          | error e =>
            cases hae
            exact .unmade w e hw
        · obtain rfl := dialogue_attempt_ok.mp hc
          obtain ⟨rfl, rfl⟩ := dialogue_done.mp hd
          exact .made w c hw
      | some live => exact attend_course hw hrest

namespace Operator.Course

/-- A stage is about the child of its kind only. -/
theorem child?_eq (h : o.Course d image owner kind t r) :
    ∀ x ∈ t, x.call.child? = some (kind, d.childKey kind) := by
  have hreplacing : ∀ {m : Managed} {w live : Child}, kind = .managed m →
      o.wanted d image owner kind = some w →
        some (ChildKind.managed m, keyIn d.space (Child.replacing m live w).metadata) =
          some (kind, d.childKey kind) := by
    intro m w live hk hw
    have hkey : keyIn d.space (Child.replacing m live w).metadata = keyIn d.space w.metadata := by
      simp [keyIn]
    rw [hkey, wanted_key hw, hk]
  cases h with
  | skipped => simp
  | cleared deleted hw hk => simp [clears, Call.child?, hk]
  | uncleared e hw hk => simp [clears, Call.child?, hk]
  | unread | kept | foreign => simp [looks, Call.child?]
  | made w c hw => simp [looks, makes, Call.child?, wanted_key hw]
  | unmade w e hw => simp [looks, makes, Call.child?, wanted_key hw]
  | replaced m w live c hk hw =>
    simpa [looks, replaces, Call.child?] using hreplacing hk hw
  | unreplaced m w live e hk hw =>
    simpa [looks, replaces, Call.child?] using hreplacing hk hw

theorem writes_le (h : o.Course d image owner kind t r) : t.countP (·.isWrite) ≤ 1 := by
  cases h <;> exact of_decide_eq_true rfl

end Operator.Course

end DistributionOperator
