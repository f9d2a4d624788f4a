import DistributionOperator.Proofs.JsonPaths

/-! Containment as a preorder. Two values are contained in each other just if they are equal once
their null members are taken out, at every depth. -/

namespace DistributionOperator.Json

theorem sameMembers_iff {d l : List (String × Json)} :
    sameMembers d l = true ↔ List.Forall₂ (fun a b => a.1 = b.1 ∧ a.2.same b.2 = true) d l := by
  induction d generalizing l with
  | nil => cases l <;> simp [sameMembers]
  | cons a r ih => cases l <;> simp [sameMembers, ih]

theorem sameMembers_iff_find {d l : List (String × Json)} (hd : d.Pairwise fun a b => a.1 < b.1)
    (hl : l.Pairwise fun a b => a.1 < b.1) :
    sameMembers d l = true ↔
      ∀ k, Option.Rel (fun x y : Json => x.same y = true) (StringMap.find k d)
        (StringMap.find k l) := by
  rw [sameMembers_iff]
  constructor
  · exact StringMap.find_of_forall₂ (R := fun x y : Json => x.same y = true)
  · exact StringMap.forall₂_of_find hd hl

/-- Whether what one object has under a key is met by what another one has there. -/
def Met (v w : Option Json) : Prop :=
  ∀ x, v = some x → x.isNull = true ∨ ∃ y, w = some y ∧ x.containedIn y = true

theorem membersIn_iff {d l : List (String × Json)} (hd : (d.map (·.1)).Nodup) :
    membersIn d l = true ↔ ∀ k, Met (StringMap.find k d) (StringMap.find k l) := by
  constructor
  · intro h k x hx
    exact membersIn_find h hx
  · intro h
    induction d with
    | nil => rfl
    | cons e r ih =>
      have hn := List.nodup_cons.mp hd
      simp only [membersIn, Bool.and_eq_true, Bool.or_eq_true]
      constructor
      · rcases h e.1 e.2 (by simp [StringMap.find]) with hnull | ⟨y, hy, hc⟩
        · exact .inl hnull
        · rw [hy]
          exact .inr hc
      · refine ih hn.2 fun k x hx => h k x ?_
        have hne : e.1 ≠ k := by
          rintro rfl
          rw [StringMap.find_eq_none_iff.mpr hn.1] at hx
          cases hx
        simpa [StringMap.find, hne] using hx

mutual

/-- The value without those members of objects that are null, at every depth. -/
def withoutNulls : Json → Json
  | .array items => .array (itemsWithoutNulls items)
  | .object members => .object (membersWithoutNulls members)
  | j => j

def itemsWithoutNulls : List Json → List Json
  | [] => []
  | j :: r => withoutNulls j :: itemsWithoutNulls r

def membersWithoutNulls : List (String × Json) → List (String × Json)
  | [] => []
  | (k, j) :: r =>
    if j.isNull then membersWithoutNulls r else (k, withoutNulls j) :: membersWithoutNulls r

end

/-- What is left of a member: nothing if it is null. -/
def left? (j : Json) : Option Json := if j.isNull then none else some j.withoutNulls

theorem membersWithoutNulls_eq (members : List (String × Json)) :
    membersWithoutNulls members =
      (members.map fun m => (m.1, left? m.2)).filterMap fun m => m.2.map (m.1, ·) := by
  induction members with
  | nil => rfl
  | cons m r ih =>
    obtain ⟨k, j⟩ := m
    by_cases hj : j.isNull = true <;> simp [membersWithoutNulls, left?, hj, ih]

theorem membersWithoutNulls_sorted {members : List (String × Json)}
    (h : members.Pairwise fun a b => a.1 < b.1) :
    (membersWithoutNulls members).Pairwise fun a b => a.1 < b.1 := by
  rw [membersWithoutNulls_eq, List.pairwise_filterMap, List.pairwise_map]
  refine h.imp fun {a b} hab x hx y hy => ?_
  obtain ⟨_, _, rfl⟩ := Option.map_eq_some_iff.mp hx
  obtain ⟨_, _, rfl⟩ := Option.map_eq_some_iff.mp hy
  exact hab

theorem find_membersWithoutNulls {members : List (String × Json)}
    (h : members.Pairwise fun a b => a.1 < b.1) (k : String) :
    StringMap.find k (membersWithoutNulls members) = (StringMap.find k members).bind left? := by
  have hn : ((members.map fun m => (m.1, left? m.2)).map (·.1)).Nodup := by
    simpa [Function.comp_def] using StringMap.nodup_of_sorted h
  rw [membersWithoutNulls_eq, find_present hn, StringMap.find_map]
  cases StringMap.find k members <;> rfl

/-! Two values that are contained in each other. -/

/-- Whether two values are contained in each other exactly if they are the same without nulls. -/
def Agreeable (a b : Json) : Prop :=
  (a.containedIn b = true ∧ b.containedIn a = true) ↔ a.withoutNulls.same b.withoutNulls = true

theorem itemsIn_both_iff {a b : List Json} (h : ∀ x ∈ a, ∀ y ∈ b, x.Agreeable y) :
    (itemsIn a b = true ∧ itemsIn b a = true) ↔
      sameItems (itemsWithoutNulls a) (itemsWithoutNulls b) = true := by
  induction a generalizing b with
  | nil => cases b <;> simp [itemsIn, itemsWithoutNulls, sameItems]
  | cons x r ih =>
    cases b with
    | nil => simp [itemsIn, itemsWithoutNulls, sameItems]
    | cons y s =>
      have hxy : x.Agreeable y := h x List.mem_cons_self y List.mem_cons_self
      have hrs := ih fun u hu v hv => h u (List.mem_cons_of_mem _ hu) v (List.mem_cons_of_mem _ hv)
      simp only [itemsIn, itemsWithoutNulls, sameItems, Bool.and_eq_true]
      rw [← hrs, ← show _ ↔ _ from hxy]
      tauto

/-- Under one key two objects meet each other if neither has anything left there, or both have, and
these are the same. -/
theorem met_both_iff {v w : Option Json} (h : ∀ x ∈ v, ∀ y ∈ w, x.Agreeable y) :
    (Met v w ∧ Met w v) ↔
      Option.Rel (fun x y => x.same y = true) (v.bind left?) (w.bind left?) := by
  cases v with
  | none =>
    cases w with
    | none => simp [Met]
    | some y => by_cases hy : y.isNull = true <;> simp [Met, left?, hy]
  | some x =>
    cases w with
    | none => by_cases hx : x.isNull = true <;> simp [Met, left?, hx]
    | some y =>
      have hxy : x.Agreeable y := h x rfl y rfl
      by_cases hx : x.isNull = true
      · by_cases hy : y.isNull = true
        · simp [Met, left?, hx, hy]
        · have hn : y.containedIn x ≠ true := by
            cases x with
            | null => exact fun hc => hy (isNull_of_containedIn_null hc)
            | _ => cases hx
          simp [Met, left?, hx, hy, hn]
      · by_cases hy : y.isNull = true
        · have hn : x.containedIn y ≠ true := by
            cases y with
            | null => exact fun hc => hx (isNull_of_containedIn_null hc)
            | _ => cases hy
          simp [Met, left?, hx, hy, hn]
        · simpa [Met, left?, hx, hy, Agreeable] using hxy

theorem agreeable_of_canonical (a : Json) : ∀ b, a.Canonical → b.Canonical → a.Agreeable b := by
  induction a using Json.induction with
  | null =>
    intro b _ _
    cases b <;> simp [Agreeable, containedIn, withoutNulls, same]
  | bool x =>
    intro b _ _
    cases b <;> simp [Agreeable, containedIn, withoutNulls, same, eq_comm]
  | number n =>
    intro b _ _
    cases b <;> simp [Agreeable, containedIn, withoutNulls, same]
    exact Number.same_symm
  | string s =>
    intro b _ _
    cases b <;> simp [Agreeable, containedIn, withoutNulls, same, eq_comm]
  | array items ih =>
    intro b ha hb
    cases b with
    | array items' =>
      have hi := canonicalItems_iff.mp ha
      have hi' := canonicalItems_iff.mp hb
      simp only [Agreeable, containedIn, withoutNulls, same]
      exact itemsIn_both_iff fun x hx y hy => ih x hx y (hi x hx) (hi' y hy)
    | _ => simp [Agreeable, containedIn, withoutNulls, same]
  | object members ih =>
    intro b ha hb
    cases b with
    | object members' =>
      have hm := canonicalMembers_iff.mp ha.2
      have hm' := canonicalMembers_iff.mp hb.2
      have hd := StringMap.nodup_of_sorted ha.1
      have hd' := StringMap.nodup_of_sorted hb.1
      have hkey (k : String) := met_both_iff (v := StringMap.find k members)
        (w := StringMap.find k members') fun x hx y hy =>
          have hxm := StringMap.mem_of_find hx
          have hym := StringMap.mem_of_find hy
          ih _ hxm y (hm _ hxm) (hm' _ hym)
      simp only [Agreeable, containedIn, withoutNulls, same]
      rw [membersIn_iff hd, membersIn_iff hd', ← forall_and,
        sameMembers_iff_find (membersWithoutNulls_sorted ha.1) (membersWithoutNulls_sorted hb.1)]
      simp only [find_membersWithoutNulls ha.1, find_membersWithoutNulls hb.1, hkey]
    | _ => simp [Agreeable, containedIn, withoutNulls, same]

/-- Containment is a preorder on JSON values, and its equivalence is equality up to null members. -/
theorem containedIn_preorder (a b c : Json) (ha : a.Canonical) (hb : b.Canonical) :
    a.containedIn a = true ∧
      (a.containedIn b = true → b.containedIn c = true → a.containedIn c = true) ∧
      ((a.containedIn b = true ∧ b.containedIn a = true) ↔
        a.withoutNulls.same b.withoutNulls = true) := by
  refine ⟨containedIn_refl a ha, containedIn_trans a b c, ?_⟩
  exact agreeable_of_canonical a b ha hb

/-- Null members are skipped, null items are kept, and the two zeros are one number. -/
theorem containedIn_preorder_zeros :
    ∃ a b c : Json, a.Canonical ∧ b.Canonical ∧ a.withoutNulls ≠ b.withoutNulls ∧
      a.containedIn a = true ∧ a.containedIn b = true ∧ b.containedIn a = true ∧
      a.containedIn c = true ∧ c.containedIn a = false := by
  let a : Json := .object
    [("o", .null), ("p", .array [.null, .object [("x", .number (.float (.zero false)))]])]
  let b : Json := .object
    [("p", .array [.null, .object [("w", .null), ("x", .number (.float (.zero true)))]])]
  let c : Json := .object
    [("p", .array [.int 1, .object [("x", .number (.float (.zero true)))]])]
  have ha : a.Canonical :=
    ⟨by decide, trivial, ⟨trivial, ⟨by decide, trivial, trivial⟩, trivial⟩, trivial⟩
  have hb : b.Canonical :=
    ⟨by decide, ⟨trivial, ⟨by decide, trivial, trivial, trivial⟩, trivial⟩, trivial⟩
  obtain ⟨hrefl, htrans, hboth⟩ := containedIn_preorder a b c ha hb
  have hab : a.containedIn b = true ∧ b.containedIn a = true := hboth.mpr (by decide +kernel)
  have hac : a.containedIn c = true := htrans hab.1 (by decide +kernel)
  exact ⟨a, b, c, ha, hb, by decide +kernel, hrefl, hab.1, hab.2, hac, by decide +kernel⟩

end DistributionOperator.Json
