import DistributionOperator.Proofs.StatusWrites

/-! Values that are written and can be read again. For most types all of them can; a moment can if
its year is one that the reader takes, and a status if its moments can. So nothing but such a moment
keeps a status from being written over an earlier one. -/

namespace DistributionOperator

variable {α β : Type}

namespace Codec

variable {c : Codec α}

/-- What is written of a value is read. -/
def Reads (c : Codec α) (a : α) : Prop := ∃ b, c.decode .value (c.encode a).toDraft = .ok b

theorem string_reads (s : String) : string.Reads s := ⟨s, rfl⟩

theorem int32_reads (n : Int32) : int32.Reads n := by
  have hlow := n.le_toInt
  have hhigh := n.toInt_lt
  refine ⟨Int32.ofInt n.toInt, ?_⟩
  simp only [int32, Json.int, Json.toDraft]
  rw [if_pos ⟨by omega, by omega⟩]

theorem list_reads {as : List α} : (list c).Reads as ↔ ∀ a ∈ as, c.Reads a := by
  have hitems : (∃ bs, decodeItems c.decode .value (Json.draftItems (as.map c.encode)) = .ok bs) ↔
      ∀ a ∈ as, c.Reads a := by
    induction as with
    | nil => simp [Json.draftItems, decodeItems]
    | cons a r ih =>
      rw [List.forall_mem_cons, ← ih]
      constructor
      · rintro ⟨bs, hbs⟩
        obtain ⟨b, hb, hrest⟩ := bind_eq_ok.mp hbs
        obtain ⟨s, hs, _⟩ := bind_eq_ok.mp hrest
        exact ⟨⟨b, hb⟩, s, hs⟩
      · rintro ⟨⟨b, hb⟩, s, hs⟩
        exact ⟨b :: s, bind_eq_ok.mpr ⟨b, hb, bind_eq_ok.mpr ⟨s, hs, rfl⟩⟩⟩
  rw [← hitems]
  constructor
  · rintro ⟨bs, hbs⟩
    obtain ⟨s, hs, _⟩ := bind_eq_ok.mp hbs
    exact ⟨s, hs⟩
  · rintro ⟨bs, hbs⟩
    exact ⟨bs, bind_eq_ok.mpr ⟨bs, hbs, rfl⟩⟩

theorem map_reads (h : ∀ a, c.Reads a) (m : StringMap α) : (map c).Reads m := by
  have hentries : ∀ l : List (String × α), ∃ es,
      decodeEntries c.decode .value (Json.draftMembers (l.map fun e => (e.1, c.encode e.2))) =
        .ok es := by
    intro l
    induction l with
    | nil => exact ⟨[], rfl⟩
    | cons e r ih =>
      obtain ⟨b, hb⟩ := h e.2
      obtain ⟨es, hes⟩ := ih
      exact ⟨(e.1, b) :: es, bind_eq_ok.mpr ⟨e.1, rfl, bind_eq_ok.mpr ⟨b, hb,
        bind_eq_ok.mpr ⟨es, hes, rfl⟩⟩⟩⟩
  obtain ⟨es, hes⟩ := hentries m.entries
  exact ⟨.ofList es, bind_eq_ok.mpr ⟨es, hes, rfl⟩⟩

theorem option_reads (hn : c.NeverNull) {a : Option α} : c.option.Reads a ↔ ∀ b ∈ a, c.Reads b := by
  cases a with
  | none => exact ⟨fun _ => by simp, fun _ => ⟨none, rfl⟩⟩
  | some a =>
    have hdecode := option_decode_of_ne_null (c := c) (hn a)
    have henc : c.option.encode (some a) = c.encode a := rfl
    simp only [Reads, henc, hdecode, Option.mem_def, Option.some.injEq, forall_eq']
    cases c.decode .value (c.encode a).toDraft with
    | error e => simp [Except.map]
    | ok b => simp [Except.map]

end Codec

/-- What is written of a value of a field, if anything is, is read. -/
def Field.Reads (f : Field α) (v : f.Value) : Prop :=
  ∀ j ∈ f.encode v, ∃ w, f.decode .value j.toDraft = .ok w

theorem Field.optional_reads {name : String} {c : Codec β} (hn : c.NeverNull)
    {get : α → Option β} {set : α → Option β → α} {a : α} :
    (Field.optional name c get set).Reads ((Field.optional name c get set).get a) ↔
      ∀ b ∈ get a, c.Reads b := by
  cases hb : get a with
  | none => simp [Field.Reads, Field.optional, hb]
  | some b =>
    rw [← Codec.option_reads hn]
    simp [Field.Reads, Field.optional, hb, Codec.Reads, Codec.option]

theorem Field.skippedIf_reads {name : String} {c : Codec β} {skipped : β → Bool} {get : α → β}
    {set : α → β → α} {b : β} (h : c.Reads b) :
    (Field.skippedIf name c skipped get set : Field α).Reads b := by
  intro j hj
  obtain ⟨_, rfl⟩ := Field.skippedIf_encode hj
  exact h

/-- A field that is always written is read if its value is. -/
theorem Field.reads_of_codec {name : String} {c : Codec β} {required : Bool} {aliases : List String}
    {get : α → β} {set : α → β → α} {v : β} :
    (⟨name, aliases, required, β, get, set, c.decode, fun b => some (c.encode b)⟩ :
      Field α).Reads v ↔ c.Reads v := by
  simp [Field.Reads, Codec.Reads]

namespace Record

variable {r : Record α} {members : List (String × Json)}

/-- Members that are read one by one make up a record, as far as none of them is repeated. -/
theorem readMembers_ok (hm : r.Plain members)
    (hread : ∀ f ∈ r.fields, ∀ j ∈ StringMap.find f.name members,
      ∃ v, f.decode .value j.toDraft = .ok v)
    {seen : List String} (hseen : ∀ name ∈ seen, name ∉ members.map (·.1)) (start : α) :
    ∃ a seen', r.readMembers .value (Json.draftMembers members) seen start = .ok (a, seen') ∧
      (∀ name ∈ seen, name ∈ seen') ∧
      ∀ f ∈ r.fields, f.name ∈ members.map (·.1) → f.name ∈ seen' := by
  induction members generalizing seen start with
  | nil => exact ⟨start, seen, rfl, fun _ h => h, by simp⟩
  | cons m rest ih =>
    obtain ⟨k, j⟩ := m
    -- a member of no field is skipped, any other is read into its field and counts as seen
    have hk : k ∉ rest.map (·.1) := (List.nodup_cons.mp hm.nodup).1
    have hrest : ∀ f ∈ r.fields, ∀ j' ∈ StringMap.find f.name rest,
        ∃ v, f.decode .value j'.toDraft = .ok v := by
      intro f hf j' hj'
      have hne : k ≠ f.name := by
        rintro rfl
        rw [StringMap.find_eq_none_iff.mpr hk] at hj'
        cases hj'
      exact hread f hf j' (by simpa [StringMap.find, hne] using hj')
    have hseenRest : ∀ name ∈ seen, name ∉ rest.map (·.1) := fun name hn hmem =>
      hseen name hn (List.mem_cons_of_mem _ hmem)
    cases hf : r.fields.find? (·.accepts k) with
    | none =>
      obtain ⟨a, seen', hr, hkept, hnamed⟩ := ih hm.tail hrest hseenRest start
      refine ⟨a, seen', ?_, hkept, fun f hfm hname => ?_⟩
      · refine bind_eq_ok.mpr ⟨k, rfl, ?_⟩
        rw [hf]
        exact bind_eq_ok.mpr ⟨(), Json.skip_toDraft j, hr⟩
      · rcases List.mem_cons.mp hname with hfk | hmem
        · have hno := List.find?_eq_none.mp hf f hfm
          exact absurd (by simp [Field.accepts, hfk]) hno
        · exact hnamed f hfm hmem
    | some f =>
      have hmem : f ∈ r.fields := List.mem_of_find?_eq_some hf
      have hname : f.name = k := hm.name_of_accepts hmem (by simpa using List.find?_some hf)
      have hfresh : seen.contains f.name = false := by
        rw [Bool.eq_false_iff]
        intro hc
        exact hseen f.name (by simpa using hc) (hname ▸ List.mem_cons_self)
      obtain ⟨v, hv⟩ := hread f hmem j (by simp [StringMap.find, hname])
      have hnext : ∀ name ∈ f.name :: seen, name ∉ rest.map (·.1) :=
        List.forall_mem_cons.mpr ⟨hname ▸ hk, hseenRest⟩
      obtain ⟨a, seen', hr, hkept, hnamed⟩ := ih hm.tail hrest hnext (f.set start v)
      obtain ⟨hfirst, hkept⟩ := List.forall_mem_cons.mp hkept
      refine ⟨a, seen', ?_, hkept, fun g hg hgname => ?_⟩
      · refine bind_eq_ok.mpr ⟨k, rfl, ?_⟩
        rw [hf]
        simp only [hfresh, Bool.and_false, Bool.false_eq_true, if_false]
        refine bind_eq_ok.mpr ⟨f.set start v, ?_, hr⟩
        rw [Field.read, hv]
        rfl
      · rcases List.mem_cons.mp hgname with hgk | hgm
        · have hgf : g.name = f.name := hgk.trans hname.symm
          exact hgf ▸ hfirst
        · exact hnamed g hg hgm

theorem decode_ok (hm : r.Plain members)
    (hread : ∀ f ∈ r.fields, ∀ j ∈ StringMap.find f.name members,
      ∃ v, f.decode .value j.toDraft = .ok v)
    (hrequired : ∀ f ∈ r.fields, f.required = true → f.name ∈ members.map (·.1)) :
    ∃ a, r.decode .value (Json.object members).toDraft = .ok a := by
  obtain ⟨a, seen, hr, _, hnamed⟩ := readMembers_ok hm hread (List.forall_mem_nil _) r.blank
  have hmissing : r.missing? seen = none := by
    simp only [missing?, Option.map_eq_none_iff, List.find?_eq_none]
    intro f hf
    by_cases hreq : f.required = true
    · simpa [hreq] using hnamed f hf (hrequired f hf hreq)
    · simp [hreq]
  refine ⟨a, bind_eq_ok.mpr ⟨(a, seen), hr, bind_eq_ok.mpr ⟨(), rfl, ?_⟩⟩⟩
  rw [hmissing]

/-- A record is read if all its fields are; those that are required must be written. -/
theorem codec_reads (h : r.Lawful)
    (hrequired : ∀ f ∈ r.fields, f.required = true → ∀ v, (f.encode v).isSome = true) (a : α) :
    r.codec.Reads a ↔ ∀ f ∈ r.fields, f.Reads (f.get a) := by
  constructor
  · rintro ⟨b, hb⟩ f hf j hj
    have htakes := decode_takes h (members_plain h a) hb f hf
    rw [find_members h hf, hj] at htakes
    exact ⟨_, htakes⟩
  · intro hread
    show ∃ b, r.decode .value (Json.object (r.members a)).toDraft = .ok b
    refine decode_ok (members_plain h a) (fun f hf j hj => ?_) fun f hf hreq => ?_
    · rw [find_members h hf] at hj
      exact hread f hf j hj
    · obtain ⟨j, hj⟩ := Option.isSome_iff_exists.mp (hrequired f hf hreq (f.get a))
      by_contra hnone
      rw [← StringMap.find_eq_none_iff, find_members h hf, hj] at hnone
      cases hnone

end Record

open Json

/-- What a field has in a record that was patched is read, unless it is removed. -/
def Field.Patches (f : Field α) (old : Option α) (new : α) : Prop :=
  ∀ j ∈ f.encode (f.get new), j ≠ .null →
    ∃ v, f.decode .value
      (mergePatch ((old.bind fun a => f.encode (f.get a)).getD .null) j).toDraft = .ok v

section Patches

variable {name : String} {c : Codec β} {old : Option α} {new : α}

theorem Field.defaulted_patches (hn : c.NeverNull) (get : α → β) (set : α → β → α) :
    (Field.defaulted name c get set).Patches old new ↔
      ∃ v, c.decode .value
        (mergePatch (c.option.encode (old.map get)) (c.encode (get new))).toDraft = .ok v := by
  have hold : (old.bind fun a => some (c.encode (get a))).getD .null =
      c.option.encode (old.map get) := by
    cases old <;> rfl
  simp [Field.Patches, Field.defaulted, hold, hn (get new)]

theorem Field.defaulted_flat_patches (hn : c.NeverNull) (ho : c.NeverObject) (get : α → β)
    (set : α → β → α) : (Field.defaulted name c get set).Patches old new ↔ c.Reads (get new) := by
  rw [Field.defaulted_patches hn, mergePatch_of_not_object (ho _)]
  exact Iff.rfl

theorem Field.nullable_flat_patches (hn : c.NeverNull) (ho : c.NeverObject) (get : α → Option β)
    (set : α → Option β → α) :
    (Field.nullable name c get set).Patches old new ↔ ∀ b ∈ get new, c.Reads b := by
  cases hb : get new with
  | none => simp [Field.Patches, Field.nullable, hb, Codec.option]
  | some b =>
    have henc : c.option.encode (some b) = c.encode b := rfl
    have hread := Codec.option_reads hn (a := some b)
    rw [← hread]
    simp [Field.Patches, Field.nullable, hb, henc, hn b, mergePatch_of_not_object (ho b),
      Codec.Reads]

/-- A record is read after it was patched with another one if all its fields are. -/
theorem Record.patched_reads {r : Record α} (h : r.Lawful)
    (hwritten : ∀ f ∈ r.fields, ∀ v, (f.encode v).isSome = true)
    (hrequired : ∀ f ∈ r.fields, f.required = false) :
    (∃ a, r.decode .value
        (mergePatch (r.codec.option.encode old) (r.encode new)).toDraft = .ok a) ↔
      ∀ f ∈ r.fields, f.Patches old new := by
  constructor
  · rintro ⟨a, ha⟩ f hf j hj hnull
    have htakes := decode_patched h ha hf hj
    rw [if_neg fun hn => hnull (isNull_iff.mp hn)] at htakes
    exact ⟨_, htakes⟩
  · intro hpatches
    rw [encode_eq, mergePatch_object]
    refine decode_ok (patched_plain h old new) (fun f hf j hj => ?_) fun f hf hreq => ?_
    · obtain ⟨v, hv⟩ := Option.isSome_iff_exists.mp (hwritten f hf (f.get new))
      rw [find_mergeMembers (members_plain h new).nodup, find_members h hf, hv,
        find_option h hf old] at hj
      dsimp only at hj
      split at hj
      · cases hj
      · rename_i hnull
        obtain rfl := Option.some.inj hj
        exact hpatches f hf v hv fun hn => hnull (isNull_iff.mpr hn)
    · rw [hrequired f hf] at hreq
      cases hreq

end Patches

theorem Timestamp.codec_reads {t : Timestamp} :
    Timestamp.codec.Reads t ↔ t.date.inRange = true := by
  simp only [Codec.Reads, Timestamp.codec, Json.toDraft, Timestamp.ofText?, Timestamp.text,
    String.toList_ofList, Timestamp.read?_write]
  cases t.date.inRange <;> simp

theorem Phase.codec_reads (p : Phase) : Phase.codec.Reads p := by
  cases p <;> exact ⟨_, rfl⟩

theorem Condition.codec_reads {c : Condition} :
    Condition.record.codec.Reads c ↔ ∀ t ∈ c.lastTransitionTime, t.date.inRange = true := by
  rw [Record.codec_reads Condition.record_lawful
    (by simp [Condition.record, Field.needed, Field.optional])]
  simp [Condition.record, Field.needed, Field.reads_of_codec, Codec.string_reads,
    Field.optional_reads Timestamp.codec_neverNull, Timestamp.codec_reads]

theorem ProviderHealth.codec_reads (h : ProviderHealth) : ProviderHealth.record.codec.Reads h := by
  rw [Record.codec_reads ProviderHealth.record_lawful
    (by simp [ProviderHealth.record, Field.defaulted, Field.optional])]
  simp [ProviderHealth.record, Field.defaulted, Field.reads_of_codec, Codec.string_reads,
    Field.optional_reads Codec.string_neverNull]

theorem Provider.codec_reads (p : Provider) : Provider.record.codec.Reads p := by
  rw [Record.codec_reads Provider.record_lawful
    (by simp [Provider.record, Field.defaulted, Field.optional, Field.withAlias])]
  simp [Provider.record, Field.defaulted, Field.withAlias, Field.reads_of_codec,
    Codec.string_reads, Field.optional_reads (Record.codec_neverNull _),
    ProviderHealth.codec_reads]

/-- The maps of distributions are merged, which needs no reading of values again. -/
theorem Json.strings_patched_reads (old : Option (StringMap String)) (new : StringMap String) :
    ∃ m, (Codec.map .string).decode .value (mergePatch ((Codec.map .string).option.encode old)
      ((Codec.map .string).encode new)).toDraft = .ok m := by
  rw [strings_mergePatch]
  exact Codec.map_reads Codec.string_reads _

theorem Summary.patched_reads (old : Option Summary) (new : Summary) :
    ∃ s, record.decode .value (mergePatch (record.codec.option.encode old)
      (record.encode new)).toDraft = .ok s := by
  refine (Record.patched_reads record_lawful (by simp [record, Field.defaulted, Field.nullable])
    (by simp [record, Field.defaulted, Field.nullable])).mpr ?_
  simp only [record, List.forall_mem_cons, List.not_mem_nil, false_implies, implies_true, and_true]
  refine ⟨?_, ?_, ?_⟩
  · exact (Field.nullable_flat_patches Codec.string_neverNull Codec.string_neverObject _ _).mpr
      fun s _ => Codec.string_reads s
  · exact (Field.defaulted_patches (Codec.map_neverNull _) _ _).mpr
      (Json.strings_patched_reads _ _)
  · exact (Field.defaulted_flat_patches (Codec.list_neverNull _) (Codec.list_neverObject _) _ _).mpr
      (Codec.list_reads.mpr fun p _ => Provider.codec_reads p)

theorem Versions.patched_reads {old : Option Versions} {new : Versions} :
    (∃ v, record.decode .value (mergePatch (record.codec.option.encode old)
      (record.encode new)).toDraft = .ok v) ↔ ∀ t ∈ new.lastUpdated, t.date.inRange = true := by
  rw [Record.patched_reads record_lawful (by simp [record, Field.nullable])
    (by simp [record, Field.nullable])]
  simp [record, Field.nullable_flat_patches Codec.string_neverNull Codec.string_neverObject,
    Field.nullable_flat_patches Timestamp.codec_neverNull Timestamp.codec_neverObject,
    Codec.string_reads, Timestamp.codec_reads]

/-- All moments that a status tells of can be read. -/
structure Status.Legible (s : Status) : Prop where
  conditions : ∀ c ∈ s.conditions, ∀ t ∈ c.lastTransitionTime, t.date.inRange = true
  versions : ∀ t ∈ s.versions.lastUpdated, t.date.inRange = true

theorem Status.patched_reads {old : Option Status} {new : Status} :
    (∃ s, record.decode .value (mergePatch (record.codec.option.encode old)
      (record.encode new)).toDraft = .ok s) ↔ new.Legible := by
  rw [Record.patched_reads record_lawful (by simp [record, Field.defaulted])
    (by simp [record, Field.defaulted])]
  simp only [record, List.forall_mem_cons, List.not_mem_nil, false_implies, implies_true, and_true,
    Field.defaulted_flat_patches Phase.codec_neverNull Phase.codec_neverObject,
    Field.defaulted_flat_patches (Codec.list_neverNull _) (Codec.list_neverObject _),
    Field.defaulted_flat_patches Codec.int32_neverNull Codec.int32_neverObject,
    Field.defaulted_patches (Record.codec_neverNull _), Codec.list_reads, Condition.codec_reads,
    Phase.codec_reads, Codec.int32_reads, true_and]
  constructor
  · rintro ⟨hconditions, _, hversions⟩
    exact ⟨hconditions, Versions.patched_reads.mp hversions⟩
  · intro h
    exact ⟨h.conditions, Summary.patched_reads _ _, Versions.patched_reads.mpr h.versions⟩

/-- Which statuses can be written over others, and what is stored then. -/
theorem patchStatus_ok_iff {old r : Option Status} {new : Status} :
    Store.patchStatus old new = .ok r ↔ new.Legible ∧ r = some (new.over old) := by
  have hdecode := patchStatus_decode old new
  constructor
  · intro h
    have hread : ∃ s, Status.record.decode .value (mergePatch
        (Status.record.codec.option.encode old) (Status.record.encode new)).toDraft = .ok s := by
      rw [hdecode] at h
      exact map_eq_ok.mp h |>.imp fun _ hs => hs.1
    exact ⟨Status.patched_reads.mp hread, patchStatus_eq h⟩
  · rintro ⟨hlegible, rfl⟩
    obtain ⟨s, hs⟩ := Status.patched_reads.mpr hlegible
    rw [hdecode, hs, Status.patched hs]
    rfl

end DistributionOperator
