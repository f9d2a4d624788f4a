import DistributionOperator.Json.Patch
import DistributionOperator.Proofs.Records

/-! Merge patches, member by member, and records that are patched with records. A field of a record
that is no object itself has the value of the patch afterwards, whatever was there before. -/

namespace DistributionOperator

namespace Json

variable {members patch : List (String × Json)} {k : String}

/-- The members of an object; other values have none. -/
def memberList : Json → List (String × Json)
  | .object members => members
  | _ => []

theorem mergePatch_object (target : Json) (patch : List (String × Json)) :
    mergePatch target (.object patch) = .object (mergeMembers target.memberList patch) := by
  cases target <;> simp [mergePatch, memberList]

theorem mergePatch_of_not_object {target j : Json} (h : ∀ members, j ≠ .object members) :
    mergePatch target j = j := by
  cases j with
  | object members => exact absurd rfl (h members)
  | _ => simp [mergePatch]

theorem isNull_iff {j : Json} : j.isNull = true ↔ j = .null := by
  cases j <;> simp [isNull]

theorem mergeMembers_sorted (h : members.Pairwise fun a b => a.1 < b.1)
    (patch : List (String × Json)) :
    (mergeMembers members patch).Pairwise fun a b => a.1 < b.1 := by
  induction patch generalizing members with
  | nil => simpa [mergeMembers] using h
  | cons m r ih =>
    obtain ⟨k, v⟩ := m
    rw [mergeMembers]
    split
    · exact ih (h.filter _)
    · exact ih (StringMap.place_sorted h)

theorem find_mergeMembers (h : (patch.map (·.1)).Nodup) (members : List (String × Json))
    (k : String) :
    StringMap.find k (mergeMembers members patch) =
      match StringMap.find k patch with
      | none => StringMap.find k members
      | some v =>
        if v.isNull then none
        else some (mergePatch ((StringMap.find k members).getD .null) v) := by
  induction patch generalizing members with
  | nil => simp [mergeMembers]
  | cons m r ih =>
    obtain ⟨k', v⟩ := m
    have hn := List.nodup_cons.mp h
    rw [mergeMembers]
    by_cases hk : k' = k
    · subst hk
      have hr : StringMap.find k' r = none := StringMap.find_eq_none_iff.mpr hn.1
      split
      · rename_i hv
        rw [ih hn.2, hr, StringMap.find_filter_ne]
        simp [StringMap.find, hv]
      · rename_i hv
        rw [ih hn.2, hr, StringMap.find_place]
        simp [StringMap.find, hv]
    · split
      · rw [ih hn.2, StringMap.find_filter_ne]
        simp [StringMap.find, hk]
      · rw [ih hn.2, StringMap.find_place]
        simp [StringMap.find, hk]

theorem mergeMembers_strings (old : StringMap String) (l : List (String × String)) :
    mergeMembers (old.map Json.string).entries (l.map fun e => (e.1, Json.string e.2)) =
      ((l.foldl (fun m e => m.insert e.1 e.2) old).map Json.string).entries := by
  induction l generalizing old with
  | nil => simp [mergeMembers]
  | cons e r ih =>
    have hplace : StringMap.place e.1 (Json.string e.2) (old.map Json.string).entries =
        ((old.insert e.1 e.2).map Json.string).entries :=
      StringMap.place_map Json.string e.1 e.2 old.entries
    rw [List.map_cons, mergeMembers, if_neg (by simp [isNull]), List.foldl_cons, ← ih, ← hplace,
      mergePatch_of_not_object (by simp)]

theorem strings_mergePatch (old : Option (StringMap String)) (new : StringMap String) :
    mergePatch ((Codec.map .string).option.encode old) ((Codec.map .string).encode new) =
      (Codec.map .string).encode (StringMap.overlay (old.getD .empty) new) := by
  have hmembers : ((Codec.map .string).option.encode old).memberList =
      ((old.getD .empty).map Json.string).entries := by
    cases old <;> rfl
  show mergePatch _ (.object (new.map Json.string).entries) = _
  rw [mergePatch_object, hmembers]
  exact congrArg Json.object (mergeMembers_strings (old.getD .empty) new.entries)

theorem strings_patched {old : Option (StringMap String)} {new m : StringMap String}
    (hd : (Codec.map .string).decode .value (mergePatch ((Codec.map .string).option.encode old)
      ((Codec.map .string).encode new)).toDraft = .ok m) :
    m = StringMap.overlay (old.getD .empty) new := by
  rw [strings_mergePatch] at hd
  exact Codec.map_faithful Codec.string_faithful _ _ hd

end Json

variable {α β : Type}

/-- A field whose value is no object, and whose null stands for the value to start with. -/
structure Field.Flat (f : Field α) (start : α) : Prop where
  faithful : f.Faithful start
  flat : ∀ v, ∃ j, f.encode v = some j ∧ (∀ members, j ≠ .object members) ∧
    (j = .null → v = f.get start)

def Codec.NeverObject (c : Codec β) : Prop := ∀ b members, c.encode b ≠ .object members

namespace Codec

theorem string_neverObject : string.NeverObject := by
  intro s members h
  cases h

theorem int32_neverObject : int32.NeverObject := by
  intro n members h
  cases h

theorem list_neverObject (c : Codec α) : (list c).NeverObject := by
  intro as members h
  cases h

end Codec

theorem Field.defaulted_flat {name : String} {c : Codec β} {start : α} (h : c.Faithful)
    (hn : c.NeverNull) (ho : c.NeverObject) (get : α → β) (set : α → β → α) :
    (defaulted name c get set).Flat start where
  faithful := defaulted_faithful h get set
  flat b := ⟨c.encode b, rfl, ho b, fun hj => absurd hj (hn b)⟩

theorem Field.nullable_flat {name : String} {c : Codec β} {start : α} (h : c.Faithful)
    (hn : c.NeverNull) (ho : c.NeverObject) {get : α → Option β} (set : α → Option β → α)
    (hs : get start = none) : (nullable name c get set).Flat start where
  faithful := nullable_faithful h hn get set
  flat b := by
    cases b with
    | none => exact ⟨.null, rfl, by simp, fun _ => hs.symm⟩
    | some b => exact ⟨c.encode b, rfl, ho b, fun hj => absurd hj (hn b)⟩

namespace Record

open Json

variable {r : Record α}

theorem option_sorted (r : Record α) (old : Option α) :
    (r.codec.option.encode old).memberList.Pairwise fun a b => a.1 < b.1 := by
  cases old with
  | none => exact .nil
  | some a => exact StringMap.sorted _

theorem find_option (h : r.Lawful) {f : Field α} (hf : f ∈ r.fields) (old : Option α) :
    StringMap.find f.name (r.codec.option.encode old).memberList =
      old.bind fun a => f.encode (f.get a) := by
  cases old with
  | none => rfl
  | some a => exact find_members h hf a

theorem find_option_none (h : r.Lawful) {k : String} (hk : k ∉ r.fields.map (·.name))
    (old : Option α) : StringMap.find k (r.codec.option.encode old).memberList = none := by
  cases old with
  | none => rfl
  | some a => exact find_members_none h hk a

theorem patched_plain (h : r.Lawful) (old : Option α) (new : α) :
    r.Plain (mergeMembers (r.codec.option.encode old).memberList (r.members new)) where
  nodup := StringMap.nodup_of_sorted (mergeMembers_sorted (r.option_sorted old) _)
  aliases f hf k hk := by
    have hname := h.aliases f hf k hk
    refine StringMap.find_eq_none_iff.mp ?_
    rw [find_mergeMembers (members_plain h new).nodup, find_members_none h hname]
    exact find_option_none h hname old

variable {old : Option α} {new a : α} {f : Field α}

theorem decode_patched (h : r.Lawful)
    (hd : r.decode .value (mergePatch (r.codec.option.encode old) (r.encode new)).toDraft = .ok a)
    (hf : f ∈ r.fields) {j : Json} (hj : f.encode (f.get new) = some j) :
    f.Takes r.blank
      (if j.isNull then none
        else some (mergePatch ((old.bind fun a => f.encode (f.get a)).getD .null) j)) a := by
  rw [encode_eq, mergePatch_object] at hd
  have htakes := decode_takes h (patched_plain h old new) hd f hf
  rw [find_mergeMembers (members_plain h new).nodup, find_members h hf, hj,
    find_option h hf old] at htakes
  exact htakes

theorem decode_patched_flat (h : r.Lawful)
    (hd : r.decode .value (mergePatch (r.codec.option.encode old) (r.encode new)).toDraft = .ok a)
    (hf : f ∈ r.fields) (hflat : f.Flat r.blank) : f.get a = f.get new := by
  obtain ⟨j, hj, hobj, hnull⟩ := hflat.flat (f.get new)
  have htakes := decode_patched h hd hf hj
  rw [mergePatch_of_not_object hobj] at htakes
  split at htakes
  · rename_i hn
    rw [hnull (isNull_iff.mp hn)]
    exact htakes
  · have hfaithful := hflat.faithful (f.get new)
    rw [hj] at hfaithful
    exact hfaithful _ htakes

theorem decode_patched_defaulted (h : r.Lawful)
    (hd : r.decode .value (mergePatch (r.codec.option.encode old) (r.encode new)).toDraft = .ok a)
    {name : String} {c : Codec β} {get : α → β} {set : α → β → α}
    (hf : Field.defaulted name c get set ∈ r.fields) (hn : c.NeverNull) :
    c.decode .value (mergePatch (c.option.encode (old.map get)) (c.encode (get new))).toDraft =
      .ok (get a) := by
  have htakes := decode_patched h hd hf (j := c.encode (get new)) rfl
  have hold : (old.bind fun a => some (c.encode (get a))).getD .null =
      c.option.encode (old.map get) := by
    cases old <;> rfl
  have hnull : (c.encode (get new)).isNull = false := by
    rw [Bool.eq_false_iff]
    exact fun hj => hn _ (isNull_iff.mp hj)
  rw [hnull] at htakes
  rw [← hold]
  exact htakes

end Record

end DistributionOperator
