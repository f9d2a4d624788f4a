import DistributionOperator.Distribution.Change
import DistributionOperator.Proofs.AmendedValues
import DistributionOperator.Proofs.DifferenceNames
import DistributionOperator.Proofs.LosslessEncodings

/-! Changes of specs, told in full and without anything besides. What is written of a spec has no
null members, since what is unset is left out, and its nested objects go by the names of fields. -/

namespace DistributionOperator

open Codec

variable {α β : Type}

/-- The fields of a spec and its parts. -/
def Spec.fieldNames : List String :=
  ["replicas", "server", "distribution", "containerSpec", "podOverrides", "storage", "name",
    "image", "ports", "env", "command", "args", "resources", "requests", "limits", "value",
    "serviceAccountName", "size", "mountPath"]

theorem Spec.fieldNames_apart :
    ∀ j ∈ fieldNames, ∀ k ∈ fieldNames, j.toList <+: k.toList → j = k := by
  decide +kernel

/-- A value that can stand for a part of a spec. -/
structure Json.SpecPart (j : Json) : Prop where
  trim : j.Trim
  named : j.Named Spec.fieldNames
  ne_null : j ≠ .null

/-- A field by a name of a spec, whose values are parts of one if they are written at all. -/
structure Field.OfSpec (f : Field α) : Prop where
  name_mem : f.name ∈ Spec.fieldNames
  part : ∀ v j, f.encode v = some j → j.SpecPart

namespace Codec

variable {c : Codec β}

def OfSpec (c : Codec β) : Prop := ∀ b, (c.encode b).SpecPart

theorem string_ofSpec : string.OfSpec := fun s =>
  ⟨⟨Json.tidy_string s, trivial⟩, .leaf nofun, nofun⟩

theorem int32_ofSpec : int32.OfSpec := fun n =>
  ⟨⟨Json.tidy_int n.toInt, trivial⟩, .leaf nofun, nofun⟩

theorem list_ofSpec (h : c.OfSpec) : (list c).OfSpec := fun l =>
  ⟨⟨Json.tidy_array_map (fun b => (h b).trim.toTidy) l, trivial⟩, .leaf nofun, nofun⟩

theorem strings_ofSpec : (map string).OfSpec := by
  intro m
  have hstring (e) (he : e ∈ (m.map string.encode).entries) : ∃ s, e.2 = .string s := by
    obtain ⟨x, _, rfl⟩ := List.mem_map.mp he
    exact ⟨x.2, rfl⟩
  refine ⟨⟨Json.tidy_ofStrings m, Json.filledMembers_iff.mpr fun e he => ?_⟩,
    .flat fun e he o => ?_, nofun⟩
  · obtain ⟨s, hs⟩ := hstring e he
    rw [hs]
    exact ⟨nofun, trivial⟩
  · obtain ⟨s, hs⟩ := hstring e he
    rw [hs]
    nofun

end Codec

namespace Field

variable {name : String} {c : Codec β}

theorem needed_ofSpec (hn : name ∈ Spec.fieldNames) (h : c.OfSpec) {get : α → β}
    {set : α → β → α} : (needed name c get set).OfSpec := by
  refine ⟨hn, ?_⟩
  rintro b _ ⟨⟩
  exact h b

theorem defaulted_ofSpec (hn : name ∈ Spec.fieldNames) (h : c.OfSpec) {get : α → β}
    {set : α → β → α} : (defaulted name c get set).OfSpec := by
  refine ⟨hn, ?_⟩
  rintro b _ ⟨⟩
  exact h b

theorem skippedIf_ofSpec (hn : name ∈ Spec.fieldNames) (h : c.OfSpec) {skipped : β → Bool}
    {get : α → β} {set : α → β → α} : (skippedIf name c skipped get set).OfSpec := by
  refine ⟨hn, fun b j hj => ?_⟩
  rw [← (skippedIf_encode hj).2]
  exact h b

theorem optional_ofSpec (hn : name ∈ Spec.fieldNames) (h : c.OfSpec) {get : α → Option β}
    {set : α → Option β → α} : (optional name c get set).OfSpec := by
  refine ⟨hn, fun o j hj => ?_⟩
  obtain ⟨b, _, rfl⟩ := Option.map_eq_some_iff.mp hj
  exact h b

end Field

theorem Record.codec_ofSpec {r : Record α} (h : ∀ f ∈ r.fields, f.OfSpec) : r.codec.OfSpec := by
  intro a
  have hmembers (m) (hm : m ∈ r.members a) : m.1 ∈ Spec.fieldNames ∧ m.2.SpecPart := by
    obtain ⟨e, he, hem⟩ := List.mem_filterMap.mp (StringMap.mem_of_mem_ofList hm)
    obtain ⟨f, hf, rfl⟩ := List.mem_map.mp he
    obtain ⟨j, hj, rfl⟩ := Option.map_eq_some_iff.mp hem
    exact ⟨(h f hf).name_mem, (h f hf).part _ j hj⟩
  refine ⟨⟨?_, ?_⟩, ?_, nofun⟩
  · exact Json.tidy_object (StringMap.sorted _) fun m hm => (hmembers m hm).2.trim.toTidy
  · refine Json.filledMembers_iff.mpr fun m hm => ?_
    exact ⟨(hmembers m hm).2.ne_null, (hmembers m hm).2.trim.filled⟩
  · exact .fields (fun m hm => (hmembers m hm).1) fun m hm => (hmembers m hm).2.named

theorem ImageChoice.codec_ofSpec : ImageChoice.record.codec.OfSpec := by
  refine Record.codec_ofSpec fun f hf => ?_
  simp only [record, List.mem_cons, List.not_mem_nil, or_false] at hf
  rcases hf with rfl | rfl
  · exact Field.optional_ofSpec (by decide) string_ofSpec
  · exact Field.optional_ofSpec (by decide) string_ofSpec

theorem EnvSetting.codec_ofSpec : EnvSetting.record.codec.OfSpec := by
  refine Record.codec_ofSpec fun f hf => ?_
  simp only [record, List.mem_cons, List.not_mem_nil, or_false] at hf
  rcases hf with rfl | rfl
  · exact Field.needed_ofSpec (by decide) string_ofSpec
  · exact Field.defaulted_ofSpec (by decide) string_ofSpec

theorem Amounts.codec_ofSpec : Amounts.record.codec.OfSpec := by
  refine Record.codec_ofSpec fun f hf => ?_
  simp only [record, List.mem_cons, List.not_mem_nil, or_false] at hf
  rcases hf with rfl | rfl
  · exact Field.skippedIf_ofSpec (by decide) strings_ofSpec
  · exact Field.skippedIf_ofSpec (by decide) strings_ofSpec

theorem ContainerSettings.codec_ofSpec : ContainerSettings.record.codec.OfSpec := by
  refine Record.codec_ofSpec fun f hf => ?_
  simp only [record, List.mem_cons, List.not_mem_nil, or_false] at hf
  rcases hf with rfl | rfl | rfl | rfl | rfl | rfl
  · exact Field.optional_ofSpec (by decide) string_ofSpec
  · exact Field.skippedIf_ofSpec (by decide) (list_ofSpec int32_ofSpec)
  · exact Field.skippedIf_ofSpec (by decide) (list_ofSpec EnvSetting.codec_ofSpec)
  · exact Field.skippedIf_ofSpec (by decide) (list_ofSpec string_ofSpec)
  · exact Field.skippedIf_ofSpec (by decide) (list_ofSpec string_ofSpec)
  · exact Field.optional_ofSpec (by decide) Amounts.codec_ofSpec

theorem PodSettings.codec_ofSpec : PodSettings.record.codec.OfSpec := by
  refine Record.codec_ofSpec fun f hf => ?_
  simp only [record, List.mem_singleton] at hf
  subst hf
  exact Field.optional_ofSpec (by decide) string_ofSpec

theorem Storage.codec_ofSpec : Storage.record.codec.OfSpec := by
  refine Record.codec_ofSpec fun f hf => ?_
  simp only [record, List.mem_cons, List.not_mem_nil, or_false] at hf
  rcases hf with rfl | rfl
  · exact Field.optional_ofSpec (by decide) string_ofSpec
  · exact Field.optional_ofSpec (by decide) string_ofSpec

theorem Server.codec_ofSpec : Server.record.codec.OfSpec := by
  refine Record.codec_ofSpec fun f hf => ?_
  simp only [record, List.mem_cons, List.not_mem_nil, or_false] at hf
  rcases hf with rfl | rfl | rfl | rfl
  · exact Field.needed_ofSpec (by decide) ImageChoice.codec_ofSpec
  · exact Field.defaulted_ofSpec (by decide) ContainerSettings.codec_ofSpec
  · exact Field.optional_ofSpec (by decide) PodSettings.codec_ofSpec
  · exact Field.optional_ofSpec (by decide) Storage.codec_ofSpec

theorem Spec.encode_ofSpec (s : Spec) : (Spec.record.encode s).SpecPart := by
  refine Record.codec_ofSpec (fun f hf => ?_) s
  simp only [record, List.mem_cons, List.not_mem_nil, or_false] at hf
  rcases hf with rfl | rfl
  · exact Field.defaulted_ofSpec (by decide) int32_ofSpec
  · exact Field.needed_ofSpec (by decide) Server.codec_ofSpec

theorem Spec.encode_inj {s s' : Spec} (h : Spec.record.encode s = Spec.record.encode s') : s = s' :=
  (Spec.codec_sound.lossless_of_reads Spec.codec_reads).encode_inj s s' trivial trivial h

theorem Json.Readable.under {j : Json} (h : j.Readable) (path : List String) :
    (j.under path).Readable := by
  induction path generalizing j with
  | nil => exact h
  | cons k path ih =>
    cases j with
    | object o =>
      rw [Json.under_cons]
      refine ih ?_
      cases hk : StringMap.find k o with
      | none => exact trivial
      | some v => exact Json.readableMembers_iff.mp h _ (StringMap.mem_of_find hk)
    | _ => exact trivial

theorem Spec.encode_readable (s : Spec) : (Spec.record.encode s).Readable :=
  Spec.codec_sound.readable s

namespace SpecChange

theorem differences_self {j : Json} (hj : j.Canonical) : Json.differences [] j j = [] := by
  refine List.eq_nil_iff_forall_not_mem.mpr fun d hd => ?_
  obtain ⟨hold, hnew, hne⟩ := Json.differences_tell hj hj d hd
  exact hne (hold.symm.trans hnew)

theorem between_eq (old new : Spec) :
    between old new = ⟨decide (old ≠ new),
      Json.differences [] (Spec.record.encode old) (Spec.record.encode new)⟩ := by
  unfold between
  split
  · rename_i heq
    subst heq
    simp [none, differences_self (Spec.encode_ofSpec old).trim.canonical]
  · rename_i hne
    simp [hne]

/-- The text of a change: a line for each difference, with its path and the two values. -/
theorem text?_eq (c : SpecChange) :
    c.text? = if c.differences = [] then .none else
      some ("\n".intercalate (c.differences.map fun d =>
        ".".intercalate ("spec" :: d.path) ++ ": " ++ d.old.text ++ " -> " ++ d.new.text)) := by
  simp only [text?, List.isEmpty_iff]
  rfl

theorem differences_eq_nil_iff (old new : Spec) :
    Json.differences [] (Spec.record.encode old) (Spec.record.encode new) = [] ↔ old = new := by
  have ho := (Spec.encode_ofSpec old).trim
  constructor
  · intro hnil
    have hamend := Json.amend_differences ho (Spec.encode_ofSpec new).trim
    rw [hnil] at hamend
    exact Spec.encode_inj hamend
  · rintro rfl
    exact differences_self ho.canonical

/-- The text of a change has one line for each difference. They name paths of the spec in increasing
order, each with two different values, and lead from what is written of the one spec to what is
written of the other. -/
theorem between_complete (old new : Spec) :
    ((between old new).changed = true ↔ old ≠ new) ∧
      ((between old new).text?.isSome = true ↔ (between old new).changed = true) ∧
      (between old new).text? = (if old = new then .none else
        some ("\n".intercalate ((between old new).differences.map fun d =>
          ".".intercalate ("spec" :: d.path) ++ ": " ++ d.old.text ++ " -> " ++ d.new.text))) ∧
      (between old new).differences =
        Json.differences [] (Spec.record.encode old) (Spec.record.encode new) ∧
      ((between old new).differences.Pairwise fun d e =>
        d.path < e.path ∧ d.name "spec" < e.name "spec") ∧
      (∀ d ∈ (between old new).differences,
        d.old ≠ d.new ∧ d.old.text ≠ d.new.text ∧ (Spec.record.encode old).under d.path = d.old ∧
          (Spec.record.encode new).under d.path = d.new) ∧
      (Spec.record.encode old).amend (between old new).differences = Spec.record.encode new := by
  have ho := Spec.encode_ofSpec old
  have hn := Spec.encode_ofSpec new
  have htext : (between old new).text? = if old = new then .none else
      some ("\n".intercalate ((between old new).differences.map fun d =>
        ".".intercalate ("spec" :: d.path) ++ ": " ++ d.old.text ++ " -> " ++ d.new.text)) := by
    rw [text?_eq, between_eq]
    simp only [differences_eq_nil_iff]
  refine ⟨by simp [between_eq], ?_, htext, ?_⟩
  · rw [htext, between_eq]
    by_cases heq : old = new <;> simp [heq]
  rw [between_eq]
  refine ⟨rfl, ?_, ?_, Json.amend_differences ho.trim hn.trim⟩
  · exact (Json.differences_increasing ho.trim.canonical hn.trim.canonical).and
      ((Json.differences_dotted ho.trim.canonical hn.trim.canonical Spec.fieldNames_apart
        ho.named hn.named).imp Difference.name_lt)
  · intro d hd
    obtain ⟨hold, hnew, hne⟩ := Json.differences_tell ho.trim.canonical hn.trim.canonical d hd
    have hread : d.old.Readable := hold ▸ (Spec.encode_readable old).under d.path
    have hread' : d.new.Readable := hnew ▸ (Spec.encode_readable new).under d.path
    exact ⟨hne, fun htexts => hne (hread.text_inj hread' htexts), hold, hnew⟩

example :
    let old : Spec := ⟨1, { Server.blank with storage := some ⟨some "1Gi", .none⟩ }⟩
    (between old ⟨2, Server.blank⟩).text? =
      some "spec.replicas: 1 -> 2\nspec.server.storage: \x7b\"size\":\"1Gi\"\x7d -> null" := by
  decide +kernel

end SpecChange

end DistributionOperator
