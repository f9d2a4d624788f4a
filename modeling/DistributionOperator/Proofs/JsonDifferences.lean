import DistributionOperator.Json.Difference
import DistributionOperator.Proofs.JsonPaths

/-! The differences of two values, taken apart by the keys of either. Their paths go up, and each
tells what the two values have at its path. -/

namespace DistributionOperator

namespace Json

variable {o n r s : List (String × Json)} {path : List String} {j k : String} {a b : Json}

/-- Two objects side by side: what they have under each key of either, and null for nothing. -/
def paired : List (String × Json) → List (String × Json) → List (String × Json × Json)
  | [], [] => []
  | [], (j, b) :: s => (j, .null, b) :: paired [] s
  | (k, a) :: r, [] => (k, a, .null) :: paired r []
  | (k, a) :: r, (j, b) :: s =>
    if j < k then (j, .null, b) :: paired ((k, a) :: r) s
    else if j = k then (k, a, b) :: paired r s
    else (k, a, .null) :: paired r ((j, b) :: s)
termination_by o n => o.length + n.length

theorem differences_null_left : differences path .null b = unlessSame path .null b := by
  cases b <;> rfl

theorem differences_null_right : differences path a .null = unlessSame path a .null := by
  cases a <;> rfl

theorem memberDifferences_cons_left (h : j < k) :
    memberDifferences path ((k, a) :: r) ((j, b) :: s) =
      unlessSame (path ++ [j]) .null b ++ memberDifferences path ((k, a) :: r) s := by
  simp only [memberDifferences, List.takeWhile_cons, List.dropWhile_cons, h, decide_true, if_true,
    List.flatMap_cons, List.append_assoc]

theorem memberDifferences_cons_right (h : ¬ j < k) (hne : j ≠ k) :
    memberDifferences path ((k, a) :: r) ((j, b) :: s) =
      unlessSame (path ++ [k]) a .null ++ memberDifferences path r ((j, b) :: s) := by
  simp only [memberDifferences, List.takeWhile_cons, List.dropWhile_cons, h, decide_false,
    Bool.false_eq_true, if_false, hne, List.flatMap_nil, List.nil_append]

theorem memberDifferences_cons_both :
    memberDifferences path ((k, a) :: r) ((k, b) :: s) =
      differences (path ++ [k]) a b ++ memberDifferences path r s := by
  simp only [memberDifferences, List.takeWhile_cons, List.dropWhile_cons, String.lt_irrefl,
    decide_false, Bool.false_eq_true, if_false, if_true, List.flatMap_nil, List.nil_append]

theorem memberDifferences_eq (path : List String) (o n : List (String × Json)) :
    memberDifferences path o n =
      (paired o n).flatMap fun t => differences (path ++ [t.1]) t.2.1 t.2.2 := by
  fun_induction paired o n with
  | case1 => rfl
  | case2 j b s ih =>
    simp only [List.flatMap_cons, ← ih, differences_null_left]
    simp [memberDifferences]
  | case3 k a r ih =>
    simp only [List.flatMap_cons, ← ih, differences_null_right]
    simp [memberDifferences]
  | case4 k a r j b s hlt ih =>
    rw [memberDifferences_cons_left hlt, List.flatMap_cons, ← ih, differences_null_left]
  | case5 a r j b s hlt ih =>
    rw [memberDifferences_cons_both, List.flatMap_cons, ← ih]
  | case6 k a r j b s hlt hne ih =>
    rw [memberDifferences_cons_right hlt hne, List.flatMap_cons, ← ih, differences_null_right]

theorem mem_keys_paired {t : String × Json × Json} (h : t ∈ paired o n) :
    t.1 ∈ o.map (·.1) ∨ t.1 ∈ n.map (·.1) := by
  fun_induction paired o n <;> grind

theorem value_of_mem_paired {t : String × Json × Json} (h : t ∈ paired o n) :
    t.2.1 = .null ∨ (t.1, t.2.1) ∈ o := by
  fun_induction paired o n <;> grind

theorem lt_of_mem_paired {t : String × Json × Json} (h : t ∈ paired o n)
    (ho : ∀ m ∈ o, k < m.1) (hn : ∀ m ∈ n, k < m.1) : k < t.1 := by
  rcases mem_keys_paired h with ht | ht
  · obtain ⟨m, hm, heq⟩ := List.mem_map.mp ht
    exact heq ▸ ho m hm
  · obtain ⟨m, hm, heq⟩ := List.mem_map.mp ht
    exact heq ▸ hn m hm

theorem lt_of_mem_cons (h : j < k) {m : String × Json}
    (hs : ((k, a) :: r).Pairwise fun a b => a.1 < b.1) (hm : m ∈ (k, a) :: r) : j < m.1 := by
  rcases List.mem_cons.mp hm with rfl | hm
  · exact h
  · exact String.lt_trans h ((List.pairwise_cons.mp hs).1 m hm)

section Sorted

variable (ho : o.Pairwise fun a b => a.1 < b.1) (hn : n.Pairwise fun a b => a.1 < b.1)

include ho hn

theorem paired_sorted : (paired o n).Pairwise fun a b => a.1 < b.1 := by
  fun_induction paired o n with
  | case1 => exact .nil
  | case2 j b s ih =>
    have hs := List.pairwise_cons.mp hn
    exact .cons (fun t ht => lt_of_mem_paired ht (by simp) hs.1) (ih ho hs.2)
  | case3 k a r ih =>
    have hr := List.pairwise_cons.mp ho
    exact .cons (fun t ht => lt_of_mem_paired ht hr.1 (by simp)) (ih hr.2 hn)
  | case4 k a r j b s hlt ih =>
    have hs := List.pairwise_cons.mp hn
    refine .cons (fun t ht => ?_) (ih ho hs.2)
    exact lt_of_mem_paired ht (fun m => lt_of_mem_cons hlt ho) hs.1
  | case5 a r j b s hlt ih =>
    have hr := List.pairwise_cons.mp ho
    have hs := List.pairwise_cons.mp hn
    exact .cons (fun t ht => lt_of_mem_paired ht hr.1 hs.1) (ih hr.2 hs.2)
  | case6 k a r j b s hlt hne ih =>
    have hr := List.pairwise_cons.mp ho
    have hkj : k < j := StringMap.lt_of_not_lt_of_ne hlt (Ne.symm hne)
    refine .cons (fun t ht => ?_) (ih hr.2 hn)
    exact lt_of_mem_paired ht hr.1 fun m => lt_of_mem_cons hkj hn

theorem find_paired (x : String) :
    StringMap.find x (paired o n) =
      if StringMap.find x o = none ∧ StringMap.find x n = none then none
      else some ((StringMap.find x o).getD .null, (StringMap.find x n).getD .null) := by
  fun_induction paired o n with
  | case1 => rfl
  | case2 j b s ih =>
    have hs := List.pairwise_cons.mp hn
    by_cases hj : j = x
    · simp [StringMap.find, hj]
    · simpa [StringMap.find, hj] using ih ho hs.2
  | case3 k a r ih =>
    have hr := List.pairwise_cons.mp ho
    by_cases hk : k = x
    · simp [StringMap.find, hk]
    · simpa [StringMap.find, hk] using ih hr.2 hn
  | case4 k a r j b s hlt ih =>
    have hs := List.pairwise_cons.mp hn
    by_cases hj : j = x
    · have hnone : StringMap.find x ((k, a) :: r) = none :=
        StringMap.find_eq_none_of_lt fun m => lt_of_mem_cons (hj ▸ hlt) ho
      rw [hnone]
      simp [StringMap.find, hj]
    · have hx := ih ho hs.2
      rwa [StringMap.find_cons_of_ne (e := (j, b)) hj, StringMap.find_cons_of_ne hj]
  | case5 a r j b s hlt ih =>
    have hr := List.pairwise_cons.mp ho
    have hs := List.pairwise_cons.mp hn
    by_cases hj : j = x
    · simp [StringMap.find, hj]
    · simpa [StringMap.find, hj] using ih hr.2 hs.2
  | case6 k a r j b s hlt hne ih =>
    have hr := List.pairwise_cons.mp ho
    have hkj : k < j := StringMap.lt_of_not_lt_of_ne hlt (Ne.symm hne)
    by_cases hk : k = x
    · have hnone : StringMap.find x ((j, b) :: s) = none :=
        StringMap.find_eq_none_of_lt fun m => lt_of_mem_cons (hk ▸ hkj) hn
      rw [hnone]
      simp [StringMap.find, hk]
    · have hx := ih hr.2 hn
      rwa [StringMap.find_cons_of_ne (e := (k, a)) hk, StringMap.find_cons_of_ne hk]

theorem mem_paired {t : String × Json × Json} (h : t ∈ paired o n) :
    t.2.1 = (StringMap.find t.1 o).getD .null ∧ t.2.2 = (StringMap.find t.1 n).getD .null := by
  have ht := StringMap.find_of_mem (StringMap.nodup_of_sorted (paired_sorted ho hn)) h
  rw [find_paired ho hn] at ht
  split at ht
  · cases ht
  · rw [← Option.some.inj ht]
    exact ⟨rfl, rfl⟩

end Sorted

/-- Differences follow the objects on both sides and stop where one of the two has no members. -/
@[elab_as_elim]
theorem differences_induction {motive : Json → Json → Prop}
    (leaf : ∀ a b, (∀ path, differences path a b = unlessSame path a b) → motive a b)
    (object : ∀ o n, (∀ t ∈ paired o n, motive t.2.1 t.2.2) → motive (.object o) (.object n))
    (a b : Json) : motive a b := by
  induction a using Json.induction generalizing b with
  | object o ih =>
    cases b with
    | object n =>
      refine object o n fun t ht => ?_
      rcases value_of_mem_paired ht with hnull | hmem
      · rw [hnull]
        exact leaf _ _ fun _ => differences_null_left
      · exact ih _ hmem _
    | _ => exact leaf _ _ fun _ => rfl
  | _ => exact leaf _ _ fun _ => rfl

end Json

/-- The difference of two values as one of two objects that have them under a key. -/
def Difference.below (k : String) (d : Difference) : Difference := { d with path := k :: d.path }

namespace Json

theorem differences_path (path : List String) (a b : Json) :
    differences path a b =
      (differences [] a b).map fun d => { d with path := path ++ d.path } := by
  induction a, b using differences_induction generalizing path with
  | leaf a b h =>
    rw [h, h, unlessSame, unlessSame]
    split <;> simp
  | object o n ih =>
    simp only [differences, memberDifferences_eq, List.map_flatMap]
    refine List.flatMap_congr fun t ht => ?_
    rw [ih t ht, ih t ht ([] ++ [t.1]), List.map_map]
    simp [Function.comp_def]

theorem differences_object (o n : List (String × Json)) :
    differences [] (.object o) (.object n) =
      (paired o n).flatMap fun t => (differences [] t.2.1 t.2.2).map (·.below t.1) := by
  simp only [differences, memberDifferences_eq]
  refine List.flatMap_congr fun t _ => ?_
  rw [differences_path]
  rfl

theorem path_ne_nil {d : Difference} (h : d ∈ differences [] (object o) (object n)) :
    d.path ≠ [] := by
  rw [differences_object] at h
  obtain ⟨t, _, hd⟩ := List.mem_flatMap.mp h
  obtain ⟨e, _, rfl⟩ := List.mem_map.mp hd
  simp [Difference.below]

theorem differences_of_ne_object (h : ¬ ∃ o n, a = object o ∧ b = object n) :
    differences [] a b = unlessSame [] a b := by
  cases a with
  | object o =>
    cases b with
    | object n => exact absurd ⟨o, n, rfl, rfl⟩ h
    | _ => rfl
  | _ => rfl

theorem Canonical.find (h : (object o).Canonical) (k : String) :
    ((StringMap.find k o).getD .null).Canonical := by
  cases hk : StringMap.find k o with
  | none => trivial
  | some v => exact canonicalMembers_iff.mp h.2 _ (StringMap.mem_of_find hk)

/-- The paths go up, as the keys under each object do. -/
theorem differences_increasing {a b : Json} (ha : a.Canonical) (hb : b.Canonical) :
    (differences [] a b).Pairwise fun d e => d.path < e.path := by
  induction a, b using differences_induction with
  | leaf a b h =>
    rw [h, unlessSame]
    split <;> simp
  | object o n ih =>
    rw [differences_object, List.pairwise_flatMap]
    constructor
    · intro t ht
      obtain ⟨hold, hnew⟩ := mem_paired ha.1 hb.1 ht
      have hbelow := ih t ht (hold ▸ ha.find t.1) (hnew ▸ hb.find t.1)
      rw [List.pairwise_map]
      exact hbelow.imp fun hde => List.cons_lt_cons_iff.mpr (.inr ⟨rfl, hde⟩)
    · refine (paired_sorted ha.1 hb.1).imp fun htu d hd e he => ?_
      obtain ⟨_, _, rfl⟩ := List.mem_map.mp hd
      obtain ⟨_, _, rfl⟩ := List.mem_map.mp he
      exact List.cons_lt_cons_iff.mpr (.inl htu)

/-- What a value has at the end of a path of keys, and null if it has nothing there. -/
def under (j : Json) (path : List String) : Json := (j.at? (path.map .member)).getD .null

theorem under_cons (o : List (String × Json)) (k : String) (path : List String) :
    (object o).under (k :: path) = ((StringMap.find k o).getD .null).under path := by
  cases hk : StringMap.find k o with
  | some v => simp [under, member?, hk]
  | none =>
    cases path <;> simp [under, member?, hk]

/-- Each difference tells what the two values have at its path. -/
theorem differences_tell {a b : Json} (ha : a.Canonical) (hb : b.Canonical) :
    ∀ d ∈ differences [] a b,
      a.under d.path = d.old ∧ b.under d.path = d.new ∧ d.old ≠ d.new := by
  induction a, b using differences_induction with
  | leaf a b h =>
    rw [h, unlessSame]
    split
    · simp
    · rename_i hne
      have hab : a ≠ b := fun heq => hne (heq ▸ same_refl a)
      simpa [under] using hab
  | object o n ih =>
    intro d hd
    rw [differences_object] at hd
    obtain ⟨t, ht, hd⟩ := List.mem_flatMap.mp hd
    obtain ⟨e, he, rfl⟩ := List.mem_map.mp hd
    obtain ⟨hold, hnew⟩ := mem_paired ha.1 hb.1 ht
    have hbelow := ih t ht (hold ▸ ha.find t.1) (hnew ▸ hb.find t.1) e he
    rw [hold, hnew] at hbelow
    simp only [Difference.below, under_cons]
    exact hbelow

end Json

end DistributionOperator
