import DistributionOperator.Proofs.Containment
import DistributionOperator.Proofs.JsonShapes

/-! Values at the ends of paths. A value that is contained in another has nothing at the end of any
path that the other one does not have there too. -/

namespace DistributionOperator

theorem StringMap.find_map {α β : Type} (f : α → β) (k : String) (l : List (String × α)) :
    find k (l.map fun e => (e.1, f e.2)) = (find k l).map f := by
  induction l with
  | nil => rfl
  | cons e r ih =>
    by_cases he : e.1 = k
    · simp [find, he]
    · simpa [find, he] using ih

namespace Json

variable {d l v : Json} {k : String}

/-- A step to a part of a value. -/
inductive Place where
  | member (key : String)
  | item (index : Nat)
deriving DecidableEq

def part? (j : Json) : Place → Option Json
  | .member k => j.member? k
  | .item i => j.items[i]?

def at? : Json → List Place → Option Json
  | j, [] => some j
  | j, p :: r => (j.part? p).bind (at? · r)

@[simp] theorem at?_nil (j : Json) : j.at? [] = some j := rfl

@[simp] theorem at?_member (j : Json) (k : String) (r : List Place) :
    j.at? (.member k :: r) = (j.member? k).bind (·.at? r) := rfl

@[simp] theorem at?_item (j : Json) (i : Nat) (r : List Place) :
    j.at? (.item i :: r) = j.items[i]?.bind (·.at? r) := rfl

/-! The members of objects that are made of a list of them. -/

theorem member?_mkObject {members : List (String × Json)} (h : (members.map (·.1)).Nodup)
    (k : String) : (mkObject members).member? k = StringMap.find k members :=
  StringMap.get?_ofList h k

theorem find_present {members : List (String × Option Json)} (h : (members.map (·.1)).Nodup)
    (k : String) :
    StringMap.find k (members.filterMap fun m => m.2.map (m.1, ·)) =
      (StringMap.find k members).join := by
  induction members with
  | nil => rfl
  | cons m r ih =>
    obtain ⟨k', o⟩ := m
    have hn := List.nodup_cons.mp h
    have hr := ih hn.2
    by_cases hk : k' = k
    · subst hk
      have hrest : StringMap.find k' r = none := StringMap.find_eq_none_iff.mpr hn.1
      cases o with
      | none => simpa [StringMap.find, hrest] using hr
      | some j => simp [StringMap.find]
    · cases o with
      | none => simpa [StringMap.find, hk] using hr
      | some j => simpa [StringMap.find, hk] using hr

theorem nodup_present {members : List (String × Option Json)} (h : (members.map (·.1)).Nodup) :
    ((members.filterMap fun m => m.2.map (m.1, ·)).map (·.1)).Nodup := by
  refine h.sublist ?_
  induction members with
  | nil => exact .slnil
  | cons m r ih =>
    obtain ⟨k, o⟩ := m
    have hr := ih (List.nodup_cons.mp h).2
    cases o with
    | none => simpa using hr.cons k
    | some j => simpa using hr.cons_cons k

theorem member?_ofPresent {members : List (String × Option Json)} (h : (members.map (·.1)).Nodup)
    (k : String) : (ofPresent members).member? k = (StringMap.find k members).join :=
  (member?_mkObject (nodup_present h) k).trans (find_present h k)

theorem member?_ofStrings (m : StringMap String) (k : String) :
    (ofStrings m).member? k = (m.get? k).map string :=
  StringMap.find_map string k m.entries

/-! What is set in one value and set alike in another. -/

/-- Whether two values are the same, or of one kind and size if they have parts. -/
def Alike : Json → Json → Prop
  | .object _, .object _ => True
  | .array a, .array b => a.length = b.length
  | a, b => a.same b = true

/-- Whether whatever is set in a value, at any depth, is set alike in another one. -/
def SetIn (d l : Json) : Prop :=
  ∀ p v, d.at? p = some v → v ≠ .null → ∃ w, l.at? p = some w ∧ v.Alike w

theorem at?_null (p : List Place) (h : null.at? p = some v) : v = .null := by
  cases p with
  | nil => exact (Option.some.inj h).symm
  | cons s r =>
    cases s with
    | member k => simp [member?] at h
    | item i => simp [items] at h

theorem itemsIn_length {a b : List Json} (h : itemsIn a b = true) : a.length = b.length := by
  induction a generalizing b with
  | nil => cases b <;> simp_all [itemsIn]
  | cons x r ih =>
    cases b with
    | nil => simp [itemsIn] at h
    | cons y s =>
      simp only [itemsIn, Bool.and_eq_true] at h
      simp [ih h.2]

theorem itemsIn_getElem? {a b : List Json} (h : itemsIn a b = true) {i : Nat}
    (hi : a[i]? = some v) : ∃ w, b[i]? = some w ∧ v.containedIn w = true := by
  induction a generalizing b i with
  | nil => simp at hi
  | cons x r ih =>
    cases b with
    | nil => simp [itemsIn] at h
    | cons y s =>
      simp only [itemsIn, Bool.and_eq_true] at h
      cases i with
      | zero =>
        obtain rfl : x = v := by simpa using hi
        exact ⟨y, rfl, h.1⟩
      | succ i => simpa using ih h.2 (by simpa using hi)

theorem alike_of_containedIn (h : d.containedIn l = true) (hd : d ≠ .null) : d.Alike l := by
  cases d <;> cases l <;> simp_all [containedIn, Alike, same]
  exact itemsIn_length h

/-- What is contained in a part is at the end of the step to it. -/
theorem part?_of_containedIn (h : d.containedIn l = true) {s : Place} (hs : d.part? s = some v) :
    v = .null ∨ ∃ w, l.part? s = some w ∧ v.containedIn w = true := by
  cases s with
  | member k =>
    cases d with
    | object members =>
      cases l with
      | object members' =>
        have hm : membersIn members members' = true := by simpa [containedIn] using h
        refine (membersIn_find hm hs).imp (fun hn => ?_) id
        cases v with
        | null => rfl
        | _ => cases hn
      | _ => simp [containedIn, same] at h
    | _ => simp [part?, member?] at hs
  | item i =>
    cases d with
    | array a =>
      cases l with
      | array b =>
        have hi : itemsIn a b = true := by simpa [containedIn] using h
        exact .inr (itemsIn_getElem? hi hs)
      | _ => simp [containedIn, same] at h
    | _ => simp [part?, items] at hs

theorem setIn_of_containedIn (h : d.containedIn l = true) : d.SetIn l := by
  intro p
  induction p generalizing d l with
  | nil =>
    intro v hv hn
    obtain rfl := Option.some.inj hv
    exact ⟨l, rfl, alike_of_containedIn h hn⟩
  | cons s r ih =>
    intro v hv hn
    obtain ⟨u, hu, hr⟩ := Option.bind_eq_some_iff.mp hv
    rcases part?_of_containedIn h hu with rfl | ⟨w, hw, hc⟩
    · exact absurd (at?_null r hr) hn
    · obtain ⟨x, hx, ha⟩ := ih hc v hr hn
      exact ⟨x, Option.bind_eq_some_iff.mpr ⟨w, hw, hx⟩, ha⟩

end Json

end DistributionOperator
