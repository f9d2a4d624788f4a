import DistributionOperator.Json.Containment
import DistributionOperator.Proofs.StringMaps

/-! Containment puts JSON values in order. A value whose objects repeat no key is contained in
itself, and what is contained in a part is contained in the whole. -/

namespace DistributionOperator

theorem Number.same_refl (n : Number) : n.same n = true := by
  cases n with
  | int n => simp [same]
  | float x => simp [same, Binary64.same]

/-- The two zeros are one number, so the numbers in between may differ in their sign. -/
theorem Number.same_trans {a b c : Number} (h : a.same b = true) (h' : b.same c = true) :
    a.same c = true := by
  cases a <;> cases b <;> cases c <;>
    simp_all only [same, Binary64.same, Bool.or_eq_true, Bool.and_eq_true, decide_eq_true_eq,
      Bool.false_eq_true]
  rcases h with rfl | h
  · exact h'
  · rcases h' with rfl | h'
    · exact .inr h
    · exact .inr ⟨h.1, h'.2⟩

theorem Number.same_symm {a b : Number} (h : a.same b = true) : b.same a = true := by
  cases a <;> cases b <;>
    simp_all only [same, Binary64.same, Bool.or_eq_true, Bool.and_eq_true, decide_eq_true_eq,
      Bool.false_eq_true]
  exact h.imp Eq.symm And.symm

namespace Json

mutual

theorem same_refl : (j : Json) → j.same j = true
  | .null => rfl
  | .bool _ => by simp [same]
  | .number n => by simp [same, n.same_refl]
  | .string _ => by simp [same]
  | .array items => by simp [same, sameItems_refl items]
  | .object members => by simp [same, sameMembers_refl members]

theorem sameItems_refl : (l : List Json) → sameItems l l = true
  | [] => rfl
  | j :: r => by simp [sameItems, same_refl j, sameItems_refl r]

theorem sameMembers_refl : (l : List (String × Json)) → sameMembers l l = true
  | [] => rfl
  | (_, j) :: r => by simp [sameMembers, same_refl j, sameMembers_refl r]

end

theorem isNull_of_containedIn_null {j : Json} (h : j.containedIn .null = true) :
    j.isNull = true := by
  cases j <;> simp_all [containedIn, same, isNull]

theorem membersIn_find {d l : List (String × Json)} {k : String} {v : Json}
    (h : membersIn d l = true) (hk : StringMap.find k d = some v) :
    v.isNull = true ∨ ∃ w, StringMap.find k l = some w ∧ v.containedIn w = true := by
  induction d with
  | nil => simp at hk
  | cons e r ih =>
    simp only [membersIn, Bool.and_eq_true, Bool.or_eq_true] at h
    by_cases hek : e.1 = k
    · simp only [StringMap.find, hek, if_true, Option.some.injEq] at hk
      rw [hk, hek] at h
      refine h.1.imp id fun hw => ?_
      cases hf : StringMap.find k l with
      | none => simp [hf] at hw
      | some w => exact ⟨w, rfl, by simpa [hf] using hw⟩
    · simp only [StringMap.find, hek, if_false] at hk
      exact ih h.2 hk

mutual

theorem containedIn_refl : (j : Json) → j.Canonical → j.containedIn j = true
  | .null, _ => by simp [containedIn]
  | .bool _, _ => by simp [containedIn, same]
  | .number n, _ => by simp [containedIn, same, n.same_refl]
  | .string _, _ => by simp [containedIn, same]
  | .array items, h => by
    simp only [Canonical] at h
    simp [containedIn, itemsIn_refl items h]
  | .object members, h => by
    simp only [Canonical] at h
    simp only [containedIn]
    exact membersIn_of_find members members h.2 fun e he =>
      StringMap.find_of_mem (StringMap.nodup_of_sorted h.1) he

theorem itemsIn_refl : (l : List Json) → CanonicalItems l → itemsIn l l = true
  | [], _ => by simp [itemsIn]
  | j :: r, h => by
    simp only [CanonicalItems] at h
    simp [itemsIn, containedIn_refl j h.1, itemsIn_refl r h.2]

theorem membersIn_of_find : (d l : List (String × Json)) → CanonicalMembers d →
    (∀ e ∈ d, StringMap.find e.1 l = some e.2) → membersIn d l = true
  | [], _, _, _ => by simp [membersIn]
  | (k, v) :: r, l, h, hf => by
    simp only [CanonicalMembers] at h
    have hk : StringMap.find k l = some v := hf (k, v) List.mem_cons_self
    simp [membersIn, hk, containedIn_refl v h.1,
      membersIn_of_find r l h.2 fun e he => hf e (List.mem_cons_of_mem _ he)]

end

mutual

theorem containedIn_trans : (a b c : Json) → a.containedIn b = true → b.containedIn c = true →
    a.containedIn c = true
  | .null, _, _, _, _ => by simp [containedIn]
  | .bool a, b, c, h, h' => by
    cases b <;> cases c <;> simp_all [containedIn, same]
  | .number a, b, c, h, h' => by
    cases b <;> cases c <;> simp_all only [containedIn, same, Bool.false_eq_true]
    exact a.same_trans h h'
  | .string a, b, c, h, h' => by
    cases b <;> cases c <;> simp_all [containedIn, same]
  | .array d, b, c, h, h' => by
    cases b <;> cases c <;> simp_all only [containedIn, same, Bool.false_eq_true]
    exact itemsIn_trans d _ _ h h'
  | .object d, b, c, h, h' => by
    cases b <;> cases c <;> simp_all only [containedIn, same, Bool.false_eq_true]
    exact membersIn_trans d _ _ h h'

theorem itemsIn_trans : (a b c : List Json) → itemsIn a b = true → itemsIn b c = true →
    itemsIn a c = true
  | [], b, c, h, h' => by
    cases b <;> cases c <;> simp_all [itemsIn]
  | j :: r, b, c, h, h' => by
    cases b <;> cases c <;> simp_all only [itemsIn, Bool.and_eq_true, Bool.false_eq_true]
    exact ⟨containedIn_trans j _ _ h.1 h'.1, itemsIn_trans r _ _ h.2 h'.2⟩

theorem membersIn_trans : (d l m : List (String × Json)) → membersIn d l = true →
    membersIn l m = true → membersIn d m = true
  | [], _, _, _, _ => by simp [membersIn]
  | (k, v) :: r, l, m, h, h' => by
    simp only [membersIn, Bool.and_eq_true, Bool.or_eq_true] at h ⊢
    refine ⟨?_, membersIn_trans r l m h.2 h'⟩
    rcases h.1 with hv | hv
    · exact .inl hv
    · cases hl : StringMap.find k l with
      | none => simp [hl] at hv
      | some w =>
        rw [hl] at hv
        rcases membersIn_find h' hl with hw | ⟨x, hx, hwx⟩
        · -- a null in between asks for nothing, and only a null is contained in it
          cases w with
          | null => exact .inl (isNull_of_containedIn_null hv)
          | _ => simp [isNull] at hw
        · rw [hx]
          exact .inr (containedIn_trans v w x hv hwx)

end

end Json

end DistributionOperator
