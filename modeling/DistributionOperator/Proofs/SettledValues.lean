import DistributionOperator.Proofs.JsonPaths
import Mathlib.Data.List.Induction

/-! Values as they come of inserting the members of their objects one after the other. Two of them
are the same value just if they are equal but for the order of insertion. -/

namespace DistributionOperator

theorem StringMap.get?_ofList_reverse {α : Type} (l : List (String × α)) (k : String) :
    (ofList l).get? k = find k l.reverse := by
  rw [ofList]
  induction l using List.reverseRecOn with
  | nil => rfl
  | append_singleton r e ih => simp [ih, find]

namespace Json

mutual

/-- The value that is made of a tree by inserting the members of each object in their order. -/
def settled : Json → Json
  | .array items => .array (settledItems items)
  | .object members => mkObject (settledMembers members)
  | j => j

def settledItems : List Json → List Json
  | [] => []
  | j :: r => settled j :: settledItems r

def settledMembers : List (String × Json) → List (String × Json)
  | [] => []
  | (k, j) :: r => (k, settled j) :: settledMembers r

end

theorem settledItems_eq (items : List Json) : settledItems items = items.map settled := by
  induction items with
  | nil => rfl
  | cons j r ih => simp [settledItems, ih]

theorem settledMembers_eq (members : List (String × Json)) :
    settledMembers members = members.map fun m => (m.1, m.2.settled) := by
  induction members with
  | nil => rfl
  | cons m r ih => simp [settledMembers, ih]

/-- The value that was inserted last under a key. -/
def last? (members : List (String × Json)) (k : String) : Option Json :=
  StringMap.find k members.reverse

/-- Equality of values, whatever the order in which the members of objects were inserted. -/
inductive Equal : Json → Json → Prop
  | null : Equal .null .null
  | bool (b : Bool) : Equal (.bool b) (.bool b)
  | number (n : Number) : Equal (.number n) (.number n)
  | string (s : String) : Equal (.string s) (.string s)
  | array {a b : List Json} (hlength : a.length = b.length)
      (hitems : ∀ (i : Nat) (v w : Json), a[i]? = some v → b[i]? = some w → Equal v w) :
      Equal (.array a) (.array b)
  | object {d l : List (String × Json)} (hkeys : ∀ k, k ∈ d.map (·.1) ↔ k ∈ l.map (·.1))
      (hvalues : ∀ (k : String) (v w : Json), last? d k = some v → last? l k = some w → Equal v w) :
      Equal (.object d) (.object l)

theorem last?_eq_none_iff {members : List (String × Json)} {k : String} :
    last? members k = none ↔ k ∉ members.map (·.1) := by
  simp [last?, StringMap.find_eq_none_iff]

theorem settled_object_eq_iff {d l : List (String × Json)} :
    (object d).settled = (object l).settled ↔
      ∀ k, (last? d k).map settled = (last? l k).map settled := by
  have hget (m : List (String × Json)) (k : String) :
      (StringMap.ofList (settledMembers m)).get? k = (last? m k).map settled := by
    rw [StringMap.get?_ofList_reverse, settledMembers_eq, ← List.map_reverse, StringMap.find_map]
    rfl
  simp only [settled, mkObject, object.injEq, ← hget]
  constructor
  · intro h k
    rw [StringMap.ext h]
  · intro h
    rw [StringMap.ext_get? h]

theorem settled_eq_of_equal {j j' : Json} (h : j.Equal j') : j.settled = j'.settled := by
  induction h with
  | null => rfl
  | bool b => rfl
  | number n => rfl
  | string s => rfl
  | @array a b hlength hitems ih =>
    simp only [settled, settledItems_eq, array.injEq]
    refine List.ext_getElem (by simp [hlength]) fun i hi hi' => ?_
    simp only [List.getElem_map]
    exact ih i _ _ (List.getElem?_eq_getElem _) (List.getElem?_eq_getElem _)
  | @object d l hkeys hvalues ih =>
    refine settled_object_eq_iff.mpr fun k => ?_
    have hk : last? d k = none ↔ last? l k = none := by
      rw [last?_eq_none_iff, last?_eq_none_iff, hkeys k]
    cases hd : last? d k with
    | none => rw [hk.mp hd]
    | some v =>
      cases hl : last? l k with
      | none => simp [hk.mpr hl] at hd
      | some w => simp [ih k v w hd hl]

theorem equal_of_settled_eq (j : Json) : ∀ j', j.settled = j'.settled → j.Equal j' := by
  induction j using Json.induction with
  | null =>
    intro j' h
    cases j' <;> simp_all [settled, mkObject]
    exact .null
  | bool b =>
    intro j' h
    cases j' <;> simp_all [settled, mkObject]
    exact .bool _
  | number n =>
    intro j' h
    cases j' <;> simp_all [settled, mkObject]
    exact .number _
  | string s =>
    intro j' h
    cases j' <;> simp_all [settled, mkObject]
    exact .string _
  | array items ih =>
    intro j' h
    cases j' with
    | array items' =>
      simp only [settled, settledItems_eq, array.injEq] at h
      refine .array (by simpa using congrArg List.length h) fun i v w hv hw => ?_
      have hi := congrArg (·[i]?) h
      simp only [List.getElem?_map, hv, hw, Option.map_some, Option.some.injEq] at hi
      exact ih v (List.mem_of_getElem? hv) w hi
    | _ => simp [settled, mkObject] at h
  | object members ih =>
    intro j' h
    cases j' with
    | object members' =>
      have hmap := settled_object_eq_iff.mp h
      refine .object (fun k => ?_) fun k v w hv hw => ?_
      · have hk : last? members k = none ↔ last? members' k = none := by
          rw [← Option.map_eq_none_iff (f := settled), hmap k, Option.map_eq_none_iff]
        rwa [last?_eq_none_iff, last?_eq_none_iff, not_iff_not] at hk
      · have hk := hmap k
        simp only [hv, hw, Option.map_some, Option.some.injEq] at hk
        have hmem : (k, v) ∈ members := List.mem_reverse.mp (StringMap.mem_of_find hv)
        exact ih _ hmem w hk
    | _ => simp [settled, mkObject] at h

theorem settled_eq_iff {j j' : Json} : j.settled = j'.settled ↔ j.Equal j' :=
  ⟨equal_of_settled_eq j j', settled_eq_of_equal⟩

theorem settled_canonical (j : Json) : j.settled.Canonical := by
  induction j using Json.induction with
  | array items ih =>
    simp only [settled, settledItems_eq]
    refine canonicalItems_iff.mpr fun v hv => ?_
    obtain ⟨x, hx, rfl⟩ := List.mem_map.mp hv
    exact ih x hx
  | object members ih =>
    simp only [settled, settledMembers_eq]
    refine ⟨StringMap.sorted _, canonicalMembers_iff.mpr fun m hm => ?_⟩
    obtain ⟨x, hx, rfl⟩ := List.mem_map.mp (StringMap.mem_of_mem_ofList hm)
    exact ih x hx
  | _ => trivial

theorem settled_of_canonical {j : Json} (h : j.Canonical) : j.settled = j := by
  induction j using Json.induction with
  | array items ih =>
    have hitems := canonicalItems_iff.mp h
    have hsame : ∀ x ∈ items, x.settled = id x := fun x hx => ih x hx (hitems x hx)
    rw [settled, settledItems_eq, List.map_congr_left hsame, List.map_id]
  | object members ih =>
    have hmembers := canonicalMembers_iff.mp h.2
    have hsame : ∀ m ∈ members, (m.1, m.2.settled) = id m := fun m hm =>
      congrArg (m.1, ·) (ih m hm (hmembers m hm))
    rw [settled, settledMembers_eq, List.map_congr_left hsame, List.map_id]
    exact congrArg (fun m => object m.entries) (StringMap.ofList_entries ⟨members, h.1⟩)
  | _ => rfl

/-- The settled values are those with sorted members at every depth. -/
theorem settled_eq_self_iff {j : Json} : j.settled = j ↔ j.Canonical := by
  constructor
  · intro h
    exact h ▸ settled_canonical j
  · exact settled_of_canonical

theorem settled_whole {j : Json} (h : j.Whole) : j.settled.Whole := by
  induction j using Json.induction with
  | array items ih =>
    simp only [settled, settledItems_eq]
    refine wholeItems_iff.mpr fun v hv => ?_
    obtain ⟨x, hx, rfl⟩ := List.mem_map.mp hv
    exact ih x hx (wholeItems_iff.mp h x hx)
  | object members ih =>
    simp only [settled, settledMembers_eq]
    refine wholeMembers_iff.mpr fun m hm => ?_
    obtain ⟨x, hx, rfl⟩ := List.mem_map.mp (StringMap.mem_of_mem_ofList hm)
    exact ih x hx (wholeMembers_iff.mp h x hx)
  | _ => exact h

/-! Values without one member of an object that they have at the end of a path. -/

def withoutMember (k : String) : List Place → Json → Json
  | [], j => j.eraseMember k
  | .member n :: p, .object members =>
    .object (members.map fun m => (m.1, if m.1 = n then withoutMember k p m.2 else m.2))
  | .item i :: p, .array items => .array (items.modify i (withoutMember k p))
  | _, j => j

theorem find_changed (f : Json → Json) (n : String) (members : List (String × Json)) :
    StringMap.find n (members.map fun m => (m.1, if m.1 = n then f m.2 else m.2)) =
      (StringMap.find n members).map f := by
  induction members with
  | nil => rfl
  | cons m r ih =>
    by_cases hm : m.1 = n
    · simp [StringMap.find, hm]
    · simpa [StringMap.find, hm] using ih

theorem at?_withoutMember (k : String) (p : List Place) (j : Json) :
    (j.withoutMember k p).at? (p ++ [.member k]) = none := by
  induction p generalizing j with
  | nil =>
    cases j with
    | object members =>
      simpa [withoutMember, eraseMember, member?] using StringMap.find_filter_ne k k members
    | _ => simp [withoutMember, eraseMember, member?]
  | cons s r ih =>
    cases s with
    | member n =>
      cases j with
      | object members =>
        simp only [withoutMember, List.cons_append, at?_member, member?, find_changed]
        cases StringMap.find n members with
        | none => rfl
        | some v => exact ih v
      | _ => simp [withoutMember, member?]
    | item i =>
      cases j with
      | array items =>
        simp only [withoutMember, List.cons_append, at?_item, Json.items, List.getElem?_modify_eq]
        cases items[i]? with
        | none => rfl
        | some v => exact ih v
      | _ => simp [withoutMember, Json.items]

theorem whole_withoutMember {j : Json} (h : j.Whole) (k : String) (p : List Place) :
    (j.withoutMember k p).Whole := by
  induction p generalizing j with
  | nil =>
    cases j with
    | object members =>
      refine wholeMembers_iff.mpr fun m hm => ?_
      exact wholeMembers_iff.mp h m (List.mem_of_mem_filter hm)
    | _ => exact h
  | cons s r ih =>
    cases s with
    | member n =>
      cases j with
      | object members =>
        refine wholeMembers_iff.mpr fun m hm => ?_
        obtain ⟨x, hx, rfl⟩ := List.mem_map.mp hm
        have hwhole : x.2.Whole := wholeMembers_iff.mp h x hx
        by_cases hn : x.1 = n
        · simpa [hn] using ih hwhole
        · simpa [hn] using hwhole
      | _ => exact h
    | item i =>
      cases j with
      | array items =>
        refine wholeItems_iff.mpr fun v hv => ?_
        obtain ⟨l, hl⟩ := List.mem_iff_getElem?.mp hv
        rw [List.getElem?_modify] at hl
        obtain ⟨x, hx, rfl⟩ := Option.map_eq_some_iff.mp hl
        have hwhole : x.Whole := wholeItems_iff.mp h x (List.mem_of_getElem? hx)
        by_cases hi : i = l
        · simpa [hi] using ih hwhole
        · simpa [hi] using hwhole
      | _ => exact h

theorem withoutMember_ne {j : Json} {k : String} {p : List Place}
    (h : (j.at? (p ++ [.member k])).isSome = true) : j.withoutMember k p ≠ j := by
  intro heq
  have hnone := at?_withoutMember k p j
  rw [heq] at hnone
  simp [hnone] at h

end Json

end DistributionOperator
