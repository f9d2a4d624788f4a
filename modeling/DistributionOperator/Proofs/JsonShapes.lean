import DistributionOperator.Json.Basic
import DistributionOperator.Proofs.StringMaps
import Mathlib.Data.List.Basic

/-! Shapes of JSON values. A tidy value has sorted members without repeated keys at every depth, and
no floating numbers; what is made of tidy parts is tidy. -/

namespace DistributionOperator

theorem StringMap.mem_of_mem_foldl_insert {α : Type} {l : List (String × α)} {m : StringMap α}
    {e : String × α} (h : e ∈ (l.foldl (fun m e => m.insert e.1 e.2) m).entries) :
    e ∈ l ∨ e ∈ m.entries := by
  induction l generalizing m with
  | nil => exact .inr h
  | cons x r ih =>
    rcases ih h with he | he
    · exact .inl (List.mem_cons_of_mem _ he)
    · rcases mem_place he with rfl | he
      · exact .inl List.mem_cons_self
      · exact .inr he

theorem StringMap.mem_of_mem_ofList {α : Type} {l : List (String × α)} {e : String × α}
    (h : e ∈ (StringMap.ofList l).entries) : e ∈ l :=
  (mem_of_mem_foldl_insert h).elim id fun he => by simp [empty] at he

namespace Json

@[elab_as_elim]
theorem induction {motive : Json → Prop} (null : motive .null) (bool : ∀ b, motive (.bool b))
    (number : ∀ n, motive (.number n)) (string : ∀ s, motive (.string s))
    (array : ∀ items, (∀ j ∈ items, motive j) → motive (.array items))
    (object : ∀ members : List (String × Json), (∀ m ∈ members, motive m.2) →
      motive (.object members)) (j : Json) : motive j := by
  cases j with
  | null => exact null
  | bool b => exact bool b
  | number n => exact number n
  | string s => exact string s
  | array items => exact array items fun j _ => induction null bool number string array object j
  | object members =>
    exact object members fun m _ => induction null bool number string array object m.2
termination_by sizeOf j
decreasing_by
  · have hlt := List.sizeOf_lt_of_mem ‹j ∈ items›
    simp only [Json.array.sizeOf_spec]
    omega
  · have hlt := List.sizeOf_lt_of_mem ‹m ∈ members›
    obtain ⟨k, j⟩ := m
    simp only [Prod.mk.sizeOf_spec] at hlt
    simp only [Json.object.sizeOf_spec]
    omega

mutual

/-- No floating number at any depth. -/
def Whole : Json → Prop
  | .number (.float _) => False
  | .array items => WholeItems items
  | .object members => WholeMembers members
  | _ => True

def WholeItems : List Json → Prop
  | [] => True
  | j :: r => Whole j ∧ WholeItems r

def WholeMembers : List (String × Json) → Prop
  | [] => True
  | (_, j) :: r => Whole j ∧ WholeMembers r

end

mutual

/-- Without floating numbers, equality is the same for all purposes. -/
theorem same_iff_eq : (a b : Json) → a.Whole → (a.same b = true ↔ a = b)
  | .null, b, _ => by cases b <;> simp [same]
  | .bool _, b, _ => by cases b <;> simp [same]
  | .number (.int _), b, _ => by
    cases b with
    | number n => cases n <;> simp [same, Number.same]
    | _ => simp [same]
  | .number (.float _), _, h => h.elim
  | .string _, b, _ => by cases b <;> simp [same]
  | .array items, b, h => by
    cases b with
    | array items' => simpa [same] using sameItems_iff_eq items items' h
    | _ => simp [same]
  | .object members, b, h => by
    cases b with
    | object members' => simpa [same] using sameMembers_iff_eq members members' h
    | _ => simp [same]

theorem sameItems_iff_eq : (a b : List Json) → WholeItems a → (sameItems a b = true ↔ a = b)
  | [], b, _ => by cases b <;> simp [sameItems]
  | _ :: _, [], _ => by simp [sameItems]
  | x :: r, y :: s, h => by
    have hxy := same_iff_eq x y h.1
    have hrs := sameItems_iff_eq r s h.2
    simp [sameItems, hxy, hrs]

theorem sameMembers_iff_eq : (d l : List (String × Json)) → WholeMembers d →
    (sameMembers d l = true ↔ d = l)
  | [], l, _ => by cases l <;> simp [sameMembers]
  | _ :: _, [], _ => by simp [sameMembers]
  | (j, a) :: r, (k, b) :: s, h => by
    have hab := same_iff_eq a b h.1
    have hrs := sameMembers_iff_eq r s h.2
    simp [sameMembers, hab, hrs]

end

structure Tidy (j : Json) : Prop where
  canonical : j.Canonical
  whole : j.Whole

variable {items : List Json} {members : List (String × Json)}

theorem canonicalItems_iff : CanonicalItems items ↔ ∀ j ∈ items, j.Canonical := by
  induction items with
  | nil => simp [CanonicalItems]
  | cons j r ih => simp [CanonicalItems, ih]

theorem canonicalMembers_iff : CanonicalMembers members ↔ ∀ m ∈ members, m.2.Canonical := by
  induction members with
  | nil => simp [CanonicalMembers]
  | cons m r ih => simp [CanonicalMembers, ih]

theorem wholeItems_iff : WholeItems items ↔ ∀ j ∈ items, j.Whole := by
  induction items with
  | nil => simp [WholeItems]
  | cons j r ih => simp [WholeItems, ih]

theorem wholeMembers_iff : WholeMembers members ↔ ∀ m ∈ members, m.2.Whole := by
  induction members with
  | nil => simp [WholeMembers]
  | cons m r ih => simp [WholeMembers, ih]

theorem tidy_string (s : String) : (string s).Tidy := ⟨trivial, trivial⟩

theorem tidy_int (n : Int) : (int n).Tidy := ⟨trivial, trivial⟩

theorem tidy_array (h : ∀ j ∈ items, j.Tidy) : (array items).Tidy := by
  constructor
  · exact canonicalItems_iff.mpr fun j hj => (h j hj).canonical
  · exact wholeItems_iff.mpr fun j hj => (h j hj).whole

theorem tidy_array_map {α : Type} {f : α → Json} (h : ∀ a, (f a).Tidy) (l : List α) :
    (array (l.map f)).Tidy := by
  refine tidy_array fun j hj => ?_
  obtain ⟨a, _, rfl⟩ := List.mem_map.mp hj
  exact h a

theorem tidy_object (hs : members.Pairwise fun a b => a.1 < b.1) (h : ∀ m ∈ members, m.2.Tidy) :
    (object members).Tidy := by
  constructor
  · exact ⟨hs, canonicalMembers_iff.mpr fun m hm => (h m hm).canonical⟩
  · exact wholeMembers_iff.mpr fun m hm => (h m hm).whole

theorem tidy_mkObject (h : members.Forall (·.2.Tidy)) : (mkObject members).Tidy :=
  tidy_object (StringMap.sorted _) fun m hm =>
    List.forall_iff_forall_mem.mp h m (StringMap.mem_of_mem_ofList hm)

theorem tidy_ofPresent {l : List (String × Option Json)}
    (h : l.Forall fun m => ∀ j ∈ m.2, j.Tidy) : (ofPresent l).Tidy := by
  refine tidy_mkObject (List.forall_iff_forall_mem.mpr fun m hm => ?_)
  obtain ⟨e, he, hem⟩ := List.mem_filterMap.mp hm
  obtain ⟨j, hj, rfl⟩ := Option.map_eq_some_iff.mp hem
  exact List.forall_iff_forall_mem.mp h e he j hj

theorem tidy_of_some {j : Json} (h : j.Tidy) : ∀ i ∈ some j, i.Tidy := by
  rintro _ ⟨⟩
  exact h

theorem tidy_of_map {α : Type} {f : α → Json} (h : ∀ a, (f a).Tidy) (o : Option α) :
    ∀ j ∈ o.map f, j.Tidy := by
  intro j hj
  obtain ⟨a, _, rfl⟩ := Option.map_eq_some_iff.mp hj
  exact h a

theorem tidy_ofStrings (m : StringMap String) : (ofStrings m).Tidy := by
  refine tidy_object (m.map Json.string).sorted fun e he => ?_
  obtain ⟨x, _, rfl⟩ := List.mem_map.mp he
  exact tidy_string x.2

end Json

end DistributionOperator
