import DistributionOperator.Proofs.JsonDifferences

/-! Values with the differences made. Setting their paths to the new values, one after the other,
makes the new value of the old one, if no object in either has a null for a member. -/

namespace DistributionOperator.Json

variable {o n m : List (String × Json)} {k : String}

mutual

/-- No member of an object is null, down through the objects. -/
def Filled : Json → Prop
  | .object members => FilledMembers members
  | _ => True

def FilledMembers : List (String × Json) → Prop
  | [] => True
  | (_, j) :: r => j ≠ .null ∧ Filled j ∧ FilledMembers r

end

theorem filledMembers_iff {members : List (String × Json)} :
    FilledMembers members ↔ ∀ m ∈ members, m.2 ≠ .null ∧ m.2.Filled := by
  induction members with
  | nil => simp [FilledMembers]
  | cons m r ih => simp [FilledMembers, ih, and_assoc]

structure Trim (j : Json) : Prop extends Tidy j where
  filled : j.Filled

theorem Trim.find {j : Json} (h : (object o).Trim) (hk : StringMap.find k o = some j) :
    j.Trim ∧ j ≠ .null := by
  have hm := StringMap.mem_of_find hk
  have hfilled := filledMembers_iff.mp h.filled _ hm
  refine ⟨⟨⟨?_, ?_⟩, hfilled.2⟩, hfilled.1⟩
  · exact canonicalMembers_iff.mp h.canonical.2 _ hm
  · exact wholeMembers_iff.mp h.whole _ hm

/-- The value with another one at the end of a path of keys, where null takes the member away. -/
def put : List String → Json → Json → Json
  | [], v, _ => v
  | [k], v, j => if v.isNull then j.eraseMember k else j.setMember k v
  | k :: path, v, j =>
    match j.member? k with
    | some c => j.setMember k (put path v c)
    | none => j

/-- The value after the differences are made in turn. -/
def amend (j : Json) (ds : List Difference) : Json := ds.foldl (fun j d => put d.path d.new j) j

/-- An object that has the members of another one but for one key. -/
def Replaced (k : String) (v : Option Json) (o : List (String × Json)) (j : Json) : Prop :=
  ∃ m, j = .object m ∧ m.Pairwise (fun a b => a.1 < b.1) ∧
    ∀ x, StringMap.find x m = if k = x then v else StringMap.find x o

theorem amend_below (ho : o.Pairwise fun a b => a.1 < b.1) {c : Json}
    (hc : StringMap.find k o = some c) {ds : List Difference} (hds : ∀ d ∈ ds, d.path ≠ []) :
    Replaced k (some (c.amend ds)) o ((object o).amend (ds.map (·.below k))) := by
  induction ds generalizing o c with
  | nil =>
    refine ⟨o, rfl, ho, fun x => ?_⟩
    by_cases hx : k = x
    · simp [amend, ← hx, hc]
    · simp [hx]
  | cons d r ih =>
    have hput : put (d.below k).path (d.below k).new (object o) =
        object (StringMap.place k (put d.path d.new c) o) := by
      obtain ⟨q, p, hp⟩ := List.exists_cons_of_ne_nil (hds d List.mem_cons_self)
      simp [Difference.below, hp, put, member?, hc, setMember]
    obtain ⟨m, hm, hs, hfind⟩ := ih (StringMap.place_sorted ho)
      (by rw [StringMap.find_place, if_pos rfl]) fun e he => hds e (List.mem_cons_of_mem _ he)
    refine ⟨m, ?_, hs, fun x => ?_⟩
    · rw [← hm, List.map_cons, amend, List.foldl_cons, hput]
      rfl
    · rw [hfind x]
      by_cases hx : k = x
      · simp [hx, amend]
      · simp [hx, StringMap.find_place]

theorem amend_leaf (hm : m.Pairwise fun a b => a.1 < b.1) {v w : Option Json}
    (hv : StringMap.find k m = v) (hvn : v ≠ some .null) (hwn : w ≠ some .null)
    (hwhole : (v.getD .null).Whole) :
    Replaced k w m
      ((object m).amend ((unlessSame [] (v.getD .null) (w.getD .null)).map (·.below k))) := by
  unfold unlessSame
  split
  · rename_i hsame
    have heq : v.getD .null = w.getD .null := (same_iff_eq _ _ hwhole).mp hsame
    have hvw : v = w := by
      cases v <;> cases w <;> simp_all
    refine ⟨m, rfl, hm, fun x => ?_⟩
    by_cases hx : k = x
    · simp [← hx, hv, hvw]
    · simp [hx]
  · cases w with
    | none =>
      refine ⟨m.filter fun e => e.1 ≠ k, rfl, hm.filter _, fun x => ?_⟩
      exact StringMap.find_filter_ne k x m
    | some w =>
      have hn : w.isNull = false := by
        cases w <;> simp_all [isNull]
      refine ⟨StringMap.place k w m, ?_, StringMap.place_sorted hm, fun x => ?_⟩
      · simp [amend, Difference.below, put, hn, setMember]
      · exact StringMap.find_place k x w m

/-- One key is settled by the differences of what two objects have under it. -/
theorem amend_entry (hm : m.Pairwise fun a b => a.1 < b.1) {v w : Option Json}
    (hv : StringMap.find k m = v) (hvt : ∀ c, v = some c → c.Trim ∧ c ≠ .null)
    (hwt : ∀ c, w = some c → c.Trim ∧ c ≠ .null)
    (ih : (v.getD .null).Trim → (w.getD .null).Trim →
      (v.getD .null).amend (differences [] (v.getD .null) (w.getD .null)) = w.getD .null) :
    Replaced k w m
      ((object m).amend ((differences [] (v.getD .null) (w.getD .null)).map (·.below k))) := by
  by_cases hobj : ∃ o n, v.getD .null = object o ∧ w.getD .null = object n
  · obtain ⟨o, n, ho, hn⟩ := hobj
    obtain rfl : v = some (object o) := by cases v <;> simp_all
    obtain rfl : w = some (object n) := by cases w <;> simp_all
    have hbelow := amend_below hm hv fun d => path_ne_nil (d := d) (o := o) (n := n)
    have hnew : (object o).amend (differences [] (object o) (object n)) = object n :=
      ih (hvt _ rfl).1 (hwt _ rfl).1
    rwa [hnew] at hbelow
  · have htrim : (v.getD .null).Trim := by
      cases v with
      | none => exact ⟨⟨trivial, trivial⟩, trivial⟩
      | some c => exact (hvt c rfl).1
    rw [differences_of_ne_object hobj]
    refine amend_leaf hm hv ?_ ?_ htrim.whole
    · rintro rfl
      exact (hvt _ rfl).2 rfl
    · rintro rfl
      exact (hwt _ rfl).2 rfl

theorem amend_append (j : Json) (ds es : List Difference) :
    j.amend (ds ++ es) = (j.amend ds).amend es := List.foldl_append

/-- After some of the keys are settled, they are as in the new object and the others as before. -/
theorem amend_entries (ho : (object o).Trim) (hn : (object n).Trim)
    (ih : ∀ t ∈ paired o n, t.2.1.Trim → t.2.2.Trim →
      t.2.1.amend (differences [] t.2.1 t.2.2) = t.2.2)
    {ts : List (String × Json × Json)} (hts : ts.Sublist (paired o n))
    (hm : m.Pairwise fun a b => a.1 < b.1)
    (hold : ∀ t ∈ ts, StringMap.find t.1 m = StringMap.find t.1 o) :
    ∃ m', (object m).amend (ts.flatMap fun t => (differences [] t.2.1 t.2.2).map (·.below t.1)) =
        object m' ∧
      m'.Pairwise (fun a b => a.1 < b.1) ∧
      ∀ x, StringMap.find x m' =
        if x ∈ ts.map (·.1) then StringMap.find x n else StringMap.find x m := by
  induction ts generalizing m with
  | nil => exact ⟨m, rfl, hm, by simp⟩
  | cons t r hr =>
    have ht : t ∈ paired o n := hts.subset List.mem_cons_self
    have hsorted := (paired_sorted ho.canonical.1 hn.canonical.1).sublist hts
    obtain ⟨hleft, hright⟩ := mem_paired ho.canonical.1 hn.canonical.1 ht
    have hpair := ih t ht
    rw [hleft, hright] at hpair
    have hentry := amend_entry hm (hold t List.mem_cons_self) (fun _ => ho.find)
      (fun _ => hn.find) hpair
    rw [← hleft, ← hright] at hentry
    obtain ⟨m₁, hm₁, hs₁, hfind₁⟩ := hentry
    obtain ⟨m', hm', hs', hfind'⟩ := hr ((List.sublist_cons_self t r).trans hts) hs₁ fun u hu => by
      have hne : t.1 ≠ u.1 := fun heq =>
        String.lt_irrefl u.1 (heq ▸ (List.pairwise_cons.mp hsorted).1 u hu)
      rw [hfind₁, if_neg hne]
      exact hold u (List.mem_cons_of_mem _ hu)
    refine ⟨m', ?_, hs', fun x => ?_⟩
    · rw [List.flatMap_cons, amend_append, hm₁, hm']
    · rw [hfind', hfind₁]
      by_cases hx : t.1 = x
      · simp [hx]
      · have hx' : x ≠ t.1 := Ne.symm hx
        simp only [List.map_cons, List.mem_cons, hx', false_or, if_neg hx]

/-- Setting the paths of the differences to the new values makes the new value of the old one. -/
theorem amend_differences {a b : Json} (ha : a.Trim) (hb : b.Trim) :
    a.amend (differences [] a b) = b := by
  induction a, b using differences_induction with
  | leaf a b h =>
    rw [h, unlessSame]
    split
    · rename_i hsame
      exact (same_iff_eq a b ha.whole).mp hsame
    · rfl
  | object o n ih =>
    obtain ⟨m, hm, hs, hfind⟩ := amend_entries ha hb ih (List.Sublist.refl _) ha.canonical.1
      fun _ _ => rfl
    rw [differences_object, hm]
    congr 1
    refine StringMap.eq_of_find_eq hs hb.canonical.1 fun k => ?_
    rw [hfind k]
    split
    · rfl
    · rename_i hk
      have hnone := StringMap.find_eq_none_iff.mpr hk
      rw [find_paired ha.canonical.1 hb.canonical.1] at hnone
      split at hnone
      · rename_i hkeys
        rw [hkeys.1, hkeys.2]
      · cases hnone

end DistributionOperator.Json
