import DistributionOperator.Proofs.SpecRecords

/-! Encodings that lose nothing. Every value of a spec or a status, and of each part of them, is
read back from what is written of it, and so is whatever can be read at all. -/

namespace DistributionOperator

open Codec

theorem Timestamp.codec_sound : Timestamp.codec.Sound where
  faithful := Timestamp.codec_faithful
  fromText _ _ h := h
  rereads src d t h := by
    rw [Timestamp.codec_reads]
    simp only [codec] at h
    split at h
    · split at h
      · rename_i hread
        cases h
        exact inRange_of_ofText? hread
      · cases h
    · cases h
  readable _ := trivial

theorem Phase.codec_sound : Phase.codec.Sound where
  faithful := Phase.codec_faithful
  fromText := variants_fromText
  rereads _ _ p _ := Phase.codec_reads p
  readable _ := trivial

theorem Condition.codec_sound : Condition.record.codec.Sound := by
  refine Record.codec_sound record_lawful (by simp [record, Field.needed, Field.optional])
    fun f hf => ?_
  simp only [record, List.mem_cons, List.not_mem_nil, or_false] at hf
  rcases hf with rfl | rfl | rfl | rfl | rfl
  · exact Field.needed_sound string_sound (string_reads _)
  · exact Field.needed_sound string_sound (string_reads _)
  · exact Field.needed_sound string_sound (string_reads _)
  · exact Field.needed_sound string_sound (string_reads _)
  · exact Field.optional_sound Timestamp.codec_sound Timestamp.codec_neverNull rfl

theorem ProviderHealth.codec_sound : ProviderHealth.record.codec.Sound := by
  refine Record.codec_sound record_lawful (by simp [record, Field.defaulted, Field.optional])
    fun f hf => ?_
  simp only [record, List.mem_cons, List.not_mem_nil, or_false] at hf
  rcases hf with rfl | rfl
  · exact Field.defaulted_sound string_sound (string_reads _)
  · exact Field.optional_sound string_sound string_neverNull rfl

theorem Provider.codec_sound : Provider.record.codec.Sound := by
  refine Record.codec_sound record_lawful
    (by simp [record, Field.defaulted, Field.optional, Field.withAlias]) fun f hf => ?_
  simp only [record, List.mem_cons, List.not_mem_nil, or_false] at hf
  rcases hf with rfl | rfl | rfl | rfl
  · exact Field.defaulted_sound string_sound (string_reads _)
  · exact Field.withAlias_sound (Field.defaulted_sound string_sound (string_reads _)) _
  · exact Field.withAlias_sound (Field.defaulted_sound string_sound (string_reads _)) _
  · exact Field.optional_sound ProviderHealth.codec_sound (Record.codec_neverNull _) rfl

theorem Summary.codec_reads (s : Summary) : Summary.record.codec.Reads s := by
  rw [Record.codec_reads record_lawful (by simp [record, Field.defaulted, Field.nullable])]
  simp [record, Field.defaulted, Field.nullable, Field.reads_of_codec,
    option_reads string_neverNull, string_reads, map_reads string_reads, list_reads, Provider.codec_reads]

theorem Summary.codec_sound : Summary.record.codec.Sound := by
  refine Record.codec_sound record_lawful (by simp [record, Field.defaulted, Field.nullable])
    fun f hf => ?_
  simp only [record, List.mem_cons, List.not_mem_nil, or_false] at hf
  rcases hf with rfl | rfl | rfl
  · exact Field.nullable_sound string_sound string_neverNull rfl
  · exact Field.defaulted_sound (map_sound string_sound string_reads) (map_reads string_reads _)
  · exact Field.defaulted_sound (list_sound Provider.codec_sound)
      (list_reads.mpr (List.forall_mem_nil _))

theorem Versions.codec_reads {v : Versions} :
    Versions.record.codec.Reads v ↔ ∀ t ∈ v.lastUpdated, t.date.inRange = true := by
  rw [Record.codec_reads record_lawful (by simp [record, Field.nullable])]
  simp [record, Field.nullable, Field.reads_of_codec, option_reads string_neverNull,
    option_reads Timestamp.codec_neverNull, string_reads, Timestamp.codec_reads]

theorem Versions.codec_sound : Versions.record.codec.Sound := by
  refine Record.codec_sound record_lawful (by simp [record, Field.nullable]) fun f hf => ?_
  simp only [record, List.mem_cons, List.not_mem_nil, or_false] at hf
  rcases hf with rfl | rfl | rfl
  · exact Field.nullable_sound string_sound string_neverNull rfl
  · exact Field.nullable_sound string_sound string_neverNull rfl
  · exact Field.nullable_sound Timestamp.codec_sound Timestamp.codec_neverNull rfl

theorem Status.codec_reads {s : Status} : Status.record.codec.Reads s ↔ s.Legible := by
  rw [Record.codec_reads record_lawful (by simp [record, Field.defaulted])]
  simp only [record, List.forall_mem_cons, List.not_mem_nil, false_implies, implies_true, and_true,
    Field.defaulted, Field.reads_of_codec, list_reads, Condition.codec_reads, Phase.codec_reads,
    int32_reads, Summary.codec_reads, Versions.codec_reads, true_and]
  exact ⟨fun h => ⟨h.1, h.2⟩, fun h => ⟨h.conditions, h.versions⟩⟩

theorem Status.codec_sound : Status.record.codec.Sound := by
  refine Record.codec_sound record_lawful (by simp [record, Field.defaulted]) fun f hf => ?_
  simp only [record, List.mem_cons, List.not_mem_nil, or_false] at hf
  rcases hf with rfl | rfl | rfl | rfl | rfl
  · exact Field.defaulted_sound Phase.codec_sound (Phase.codec_reads _)
  · exact Field.defaulted_sound (list_sound Condition.codec_sound)
      (list_reads.mpr (List.forall_mem_nil _))
  · exact Field.defaulted_sound int32_sound (int32_reads _)
  · exact Field.defaulted_sound Summary.codec_sound (Summary.codec_reads _)
  · exact Field.defaulted_sound Versions.codec_sound (Versions.codec_reads.mpr (by
    simp [record, blank, Versions.blank]))

namespace Codec

variable {α : Type} {c : Codec α} {p : α → Prop} {a : α}

theorem Sound.ofJson_encode (h : c.Sound) (hr : c.Reads a) :
    c.decode.ofJson (c.encode a) = .ok a := by
  obtain ⟨b, hb⟩ := hr
  rw [Decoder.ofJson, hb, h.faithful a b hb]

theorem Sound.ofText_encode (h : c.Sound) (hr : c.Reads a) :
    c.decode.ofText (c.encode a).text = .ok a := by
  have htext := h.fromText _ _ (h.ofJson_encode hr)
  simp only [Decoder.ofText, Draft.ofText_text (h.readable a)]
  exact bind_eq_ok.mpr ⟨a, htext, rfl⟩

theorem Sound.reads_of_ofText (h : c.Sound) {s : String} (hd : c.decode.ofText s = .ok a) :
    c.Reads a := by
  unfold Decoder.ofText at hd
  generalize Draft.ofText s = read at hd
  obtain ⟨b, hb, htrailing⟩ := bind_eq_ok.mp hd
  split at htrailing
  · cases htrailing
  · cases htrailing
    exact h.rereads .text read.1 a hb

/-- Values of a kind are told from what is written of them, as a value or as a text, and all that is
read of documents is of that kind. -/
structure Lossless (c : Codec α) (p : α → Prop) : Prop where
  ofJson_encode : ∀ a, p a → c.decode.ofJson (c.encode a) = .ok a
  ofText_encode : ∀ a, p a → c.decode.ofText (c.encode a).text = .ok a
  encode_inj : ∀ a b, p a → p b → c.encode a = c.encode b → a = b
  text_inj : ∀ a b, p a → p b → (c.encode a).text = (c.encode b).text → a = b
  again_json : ∀ j a, c.decode.ofJson j = .ok a → p a ∧ c.decode.ofJson (c.encode a) = .ok a
  again_text : ∀ s a, c.decode.ofText s = .ok a → p a ∧ c.decode.ofText (c.encode a).text = .ok a

theorem Sound.lossless (h : c.Sound) (hp : ∀ a, c.Reads a ↔ p a) : c.Lossless p where
  ofJson_encode a ha := h.ofJson_encode ((hp a).mpr ha)
  ofText_encode a ha := h.ofText_encode ((hp a).mpr ha)
  encode_inj a b ha hb he := by
    have hread := h.ofJson_encode ((hp a).mpr ha)
    rw [he, h.ofJson_encode ((hp b).mpr hb)] at hread
    exact (Except.ok.inj hread).symm
  text_inj a b ha hb he := by
    have hread := h.ofText_encode ((hp a).mpr ha)
    rw [he, h.ofText_encode ((hp b).mpr hb)] at hread
    exact (Except.ok.inj hread).symm
  again_json j a hd := by
    have hreads := h.rereads .value j.toDraft a hd
    exact ⟨(hp a).mp hreads, h.ofJson_encode hreads⟩
  again_text s a hd := by
    have hreads := h.reads_of_ofText hd
    exact ⟨(hp a).mp hreads, h.ofText_encode hreads⟩

/-- All values of the type are read back. -/
theorem Sound.lossless_of_reads (h : c.Sound) (hreads : ∀ a, c.Reads a) :
    c.Lossless fun _ => True :=
  h.lossless fun a => iff_of_true (hreads a) trivial

end Codec

/-- Specs and statuses are lossless with all their parts. Their moments must be in the years from
-262143 to 262142, which no moment that was read is outside of. -/
theorem resources_lossless :
    (Spec.record.codec.Lossless fun _ => True) ∧
    (Server.record.codec.Lossless fun _ => True) ∧
    (ImageChoice.record.codec.Lossless fun _ => True) ∧
    (ContainerSettings.record.codec.Lossless fun _ => True) ∧
    (EnvSetting.record.codec.Lossless fun _ => True) ∧
    (Amounts.record.codec.Lossless fun _ => True) ∧
    (PodSettings.record.codec.Lossless fun _ => True) ∧
    (Storage.record.codec.Lossless fun _ => True) ∧
    Status.record.codec.Lossless Status.Legible ∧
    Phase.codec.Lossless (fun _ => True) ∧
    (Condition.record.codec.Lossless fun c => ∀ t ∈ c.lastTransitionTime, t.date.inRange = true) ∧
    (Summary.record.codec.Lossless fun _ => True) ∧
    (Provider.record.codec.Lossless fun _ => True) ∧
    (ProviderHealth.record.codec.Lossless fun _ => True) ∧
    (Versions.record.codec.Lossless fun v => ∀ t ∈ v.lastUpdated, t.date.inRange = true) ∧
    Timestamp.codec.Lossless fun t => t.date.inRange = true := by
  refine ⟨?_, ?_, ?_, ?_, ?_, ?_, ?_, ?_, ?_, ?_, ?_, ?_, ?_, ?_, ?_, ?_⟩
  · exact Spec.codec_sound.lossless_of_reads Spec.codec_reads
  · exact Server.codec_sound.lossless_of_reads Server.codec_reads
  · exact ImageChoice.codec_sound.lossless_of_reads ImageChoice.codec_reads
  · exact ContainerSettings.codec_sound.lossless_of_reads ContainerSettings.codec_reads
  · exact EnvSetting.codec_sound.lossless_of_reads EnvSetting.codec_reads
  · exact Amounts.codec_sound.lossless_of_reads Amounts.codec_reads
  · exact PodSettings.codec_sound.lossless_of_reads PodSettings.codec_reads
  · exact Storage.codec_sound.lossless_of_reads Storage.codec_reads
  · exact Status.codec_sound.lossless fun _ => Status.codec_reads
  · exact Phase.codec_sound.lossless_of_reads Phase.codec_reads
  · exact Condition.codec_sound.lossless fun _ => Condition.codec_reads
  · exact Summary.codec_sound.lossless_of_reads Summary.codec_reads
  · exact Provider.codec_sound.lossless_of_reads Provider.codec_reads
  · exact ProviderHealth.codec_sound.lossless_of_reads ProviderHealth.codec_reads
  · exact Versions.codec_sound.lossless fun _ => Versions.codec_reads
  · exact Timestamp.codec_sound.lossless fun _ => Timestamp.codec_reads

end DistributionOperator
