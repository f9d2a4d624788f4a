import DistributionOperator.StringMap
import Mathlib.Data.List.Forall2

/-! Maps from texts as functions of their keys. A map is settled by what it has under each key, and
a list of entries without repeated keys is as good as the map that is made of it. -/

namespace DistributionOperator.StringMap

variable {α β : Type} {k : String} {l : List (String × α)}

@[simp] theorem find_nil (k : String) : find k ([] : List (String × α)) = none := rfl

theorem find_cons_of_ne {e : String × α} (h : e.1 ≠ k) : find k (e :: l) = find k l := by
  simp [find, h]

theorem isEmpty_iff {m : StringMap α} : m.isEmpty = true ↔ m = .empty := by
  rcases m with ⟨entries, sorted⟩
  simp [isEmpty, empty]

theorem find_eq_none_iff : find k l = none ↔ k ∉ l.map (·.1) := by
  induction l with
  | nil => simp
  | cons e r ih =>
    by_cases h : e.1 = k
    · simp [find, h]
    · have hk : k ≠ e.1 := fun heq => h heq.symm
      simp [find, h, hk, ih]

theorem find_filter_ne (k j : String) (l : List (String × α)) :
    find j (l.filter fun e => e.1 ≠ k) = if k = j then none else find j l := by
  induction l with
  | nil => simp
  | cons e r ih =>
    by_cases hk : e.1 = k
    · by_cases hj : k = j
      · simpa [hk, hj] using ih
      · simpa [find, hk, hj] using ih
    · by_cases hj : k = j
      · have hne : e.1 ≠ j := hj ▸ hk
        simpa [find, hk, hj, hne] using ih
      · by_cases hej : e.1 = j
        · have hjk : j ≠ k := fun heq => hj heq.symm
          simp [find, hj, hej, hjk]
        · simpa [find, hk, hj, hej] using ih

theorem nodup_of_sorted (h : l.Pairwise fun a b => a.1 < b.1) : (l.map (·.1)).Nodup := by
  refine List.pairwise_map.mpr (h.imp fun hab heq => ?_)
  rw [heq] at hab
  exact String.lt_irrefl _ hab

theorem find_eq_none_of_lt (h : ∀ e ∈ l, k < e.1) : find k l = none := by
  refine find_eq_none_iff.mpr fun hk => ?_
  obtain ⟨e, he, rfl⟩ := List.mem_map.mp hk
  exact String.lt_irrefl _ (h e he)

theorem find_of_mem (h : (l.map (·.1)).Nodup) {e : String × α} (he : e ∈ l) :
    find e.1 l = some e.2 := by
  induction l with
  | nil => simp at he
  | cons x r ih =>
    have hn := List.nodup_cons.mp h
    rcases List.mem_cons.mp he with rfl | he
    · simp [find]
    · have hne : x.1 ≠ e.1 := fun heq => hn.1 (List.mem_map.mpr ⟨e, he, heq.symm⟩)
      simpa [find, hne] using ih hn.2 he

theorem head_le {e : String × α} (h : (e :: l).Pairwise fun a b => a.1 < b.1)
    (hk : find k (e :: l) ≠ none) : e.1 ≤ k := by
  refine String.not_lt.mp fun hlt => hk (find_eq_none_of_lt fun x hx => ?_)
  rcases List.mem_cons.mp hx with rfl | hx
  · exact hlt
  · exact String.lt_trans hlt ((List.pairwise_cons.mp h).1 x hx)

theorem mem_of_find {v : α} (h : find k l = some v) : (k, v) ∈ l := by
  induction l with
  | nil => cases h
  | cons e r ih =>
    by_cases he : e.1 = k
    · obtain rfl : e.2 = v := by simpa [find, he] using h
      exact he ▸ List.mem_cons_self
    · exact List.mem_cons_of_mem _ (ih (by simpa [find, he] using h))

theorem find_of_forall₂ {R : α → β → Prop} {m : List (String × β)}
    (h : List.Forall₂ (fun a b => a.1 = b.1 ∧ R a.2 b.2) l m) (k : String) :
    Option.Rel R (find k l) (find k m) := by
  induction h with
  | nil => exact .none
  | @cons d e r s hde _ ih =>
    by_cases hek : e.1 = k
    · simpa [find, hde.1, hek] using hde.2
    · simpa [find, hde.1, hek] using ih

/-- Sorted lists that go together under all keys go together item by item: the first key of either
is the least key of both. -/
theorem forall₂_of_find {R : α → β → Prop} {m : List (String × β)}
    (hl : l.Pairwise fun a b => a.1 < b.1) (hm : m.Pairwise fun a b => a.1 < b.1)
    (h : ∀ k, Option.Rel R (find k l) (find k m)) :
    List.Forall₂ (fun a b => a.1 = b.1 ∧ R a.2 b.2) l m := by
  induction l generalizing m with
  | nil =>
    cases m with
    | nil => exact .nil
    | cons e s =>
      have he := h e.1
      simp [find] at he
  | cons d r ih =>
    cases m with
    | nil =>
      have hd := h d.1
      simp [find] at hd
    | cons e s =>
      have hr := List.pairwise_cons.mp hl
      have hs := List.pairwise_cons.mp hm
      have hkey : d.1 = e.1 := by
        refine String.le_antisymm (head_le hl fun hn => ?_) (head_le hm fun hn => ?_)
        · have he := h e.1
          rw [hn] at he
          simp [find] at he
        · have hd := h d.1
          rw [hn] at hd
          simp [find] at hd
      have hval : R d.2 e.2 := by
        have hd := h d.1
        simpa [find, hkey] using hd
      refine .cons ⟨hkey, hval⟩ (ih hr.2 hs.2 fun k => ?_)
      have hk := h k
      by_cases hek : e.1 = k
      · have hrk : find k r = none := find_eq_none_of_lt fun x hx => hek ▸ hkey ▸ hr.1 x hx
        have hsk : find k s = none := find_eq_none_of_lt fun x hx => hek ▸ hs.1 x hx
        rw [hrk, hsk]
        exact .none
      · simpa [find, hkey, hek] using hk

theorem eq_of_find_eq {l m : List (String × α)} (hl : l.Pairwise fun a b => a.1 < b.1)
    (hm : m.Pairwise fun a b => a.1 < b.1) (h : ∀ k, find k l = find k m) : l = m := by
  have hrel : ∀ k, Option.Rel Eq (find k l) (find k m) := fun k => by
    rw [h k]
    cases find k m <;> simp
  exact List.forall₂_eq_eq_eq ▸ (forall₂_of_find hl hm hrel).imp fun _ _ hab => Prod.ext hab.1 hab.2

theorem ext_get? {m n : StringMap α} (h : ∀ k, m.get? k = n.get? k) : m = n :=
  ext (eq_of_find_eq m.sorted n.sorted h)

theorem get?_foldl_insert (h : (l.map (·.1)).Nodup) (m : StringMap α) (k : String) :
    (l.foldl (fun m e => m.insert e.1 e.2) m).get? k = (find k l).or (m.get? k) := by
  induction l generalizing m with
  | nil => rfl
  | cons e r ih =>
    have hn := List.nodup_cons.mp h
    rw [List.foldl_cons, ih hn.2, get?_insert]
    by_cases he : e.1 = k
    · have hr : find k r = none := find_eq_none_iff.mpr (he ▸ hn.1)
      simp [find, he, hr]
    · simp [find, he]

theorem get?_ofList (h : (l.map (·.1)).Nodup) (k : String) : (ofList l).get? k = find k l := by
  rw [ofList, get?_foldl_insert h, get?_empty, Option.or_none]

@[simp] theorem ofList_entries (m : StringMap α) : ofList m.entries = m :=
  ext_get? fun k => get?_ofList (nodup_of_sorted m.sorted) k

def overlay (old new : StringMap α) : StringMap α :=
  new.entries.foldl (fun m e => m.insert e.1 e.2) old

@[simp] theorem get?_overlay (old new : StringMap α) (k : String) :
    (overlay old new).get? k = (new.get? k).or (old.get? k) :=
  get?_foldl_insert (nodup_of_sorted new.sorted) old k

/-- An overlay is the new map alone if there is nothing of the old one to be seen through it. -/
theorem overlay_eq_right_iff {old new : StringMap α} :
    overlay old new = new ↔ ∀ k, old.get? k ≠ none → new.get? k ≠ none := by
  constructor
  · intro h k hold hnew
    have hk := get?_overlay old new k
    rw [h, hnew, Option.none_or] at hk
    exact hold hk.symm
  · intro h
    refine ext_get? fun k => ?_
    rw [get?_overlay]
    cases hnew : new.get? k with
    | some v => rfl
    | none =>
      have hold : old.get? k = none := Decidable.byContradiction fun hold => h k hold hnew
      rw [hold, Option.none_or]

theorem place_map (f : α → β) (k : String) (v : α) (l : List (String × α)) :
    place k (f v) (l.map fun e => (e.1, f e.2)) = (place k v l).map fun e => (e.1, f e.2) := by
  induction l with
  | nil => rfl
  | cons e r ih =>
    simp only [List.map_cons, place]
    split
    · rfl
    · split
      · rfl
      · rw [ih]
        rfl

end DistributionOperator.StringMap
