import DistributionOperator.Distribution.Spec
import DistributionOperator.Proofs.SoundCodecs

/-! The records that make up a spec. All of their values are read back from what is written of them;
where a field is not written, it has the value that a record starts with. -/

namespace DistributionOperator

open Codec

theorem ImageChoice.record_lawful : ImageChoice.record.Lawful where
  nodup := by decide
  aliases := by simp [ImageChoice.record, Field.optional]
  get_set := by simp [ImageChoice.record, Field.optional]
  get_set_other := by simp [ImageChoice.record, Field.optional]
  ext a b h := by
    cases a
    cases b
    simpa [ImageChoice.record, Field.optional] using h

theorem ImageChoice.codec_reads (c : ImageChoice) : ImageChoice.record.codec.Reads c := by
  rw [Record.codec_reads record_lawful (by simp [record, Field.optional])]
  simp [record, Field.optional_reads string_neverNull, string_reads]

theorem ImageChoice.codec_sound : ImageChoice.record.codec.Sound := by
  refine Record.codec_sound record_lawful (by simp [record, Field.optional]) fun f hf => ?_
  simp only [record, List.mem_cons, List.not_mem_nil, or_false] at hf
  rcases hf with rfl | rfl
  · exact Field.optional_sound string_sound string_neverNull rfl
  · exact Field.optional_sound string_sound string_neverNull rfl

theorem EnvSetting.record_lawful : EnvSetting.record.Lawful where
  nodup := by decide
  aliases := by simp [EnvSetting.record, Field.needed, Field.defaulted]
  get_set := by simp [EnvSetting.record, Field.needed, Field.defaulted]
  get_set_other := by simp [EnvSetting.record, Field.needed, Field.defaulted]
  ext a b h := by
    cases a
    cases b
    simpa [EnvSetting.record, Field.needed, Field.defaulted] using h

theorem EnvSetting.codec_reads (e : EnvSetting) : EnvSetting.record.codec.Reads e := by
  rw [Record.codec_reads record_lawful (by simp [record, Field.needed, Field.defaulted])]
  simp [record, Field.needed, Field.defaulted, Field.reads_of_codec, string_reads]

theorem EnvSetting.codec_sound : EnvSetting.record.codec.Sound := by
  refine Record.codec_sound record_lawful (by simp [record, Field.needed, Field.defaulted])
    fun f hf => ?_
  simp only [record, List.mem_cons, List.not_mem_nil, or_false] at hf
  rcases hf with rfl | rfl
  · exact Field.needed_sound string_sound (string_reads _)
  · exact Field.defaulted_sound string_sound (string_reads _)

theorem Amounts.record_lawful : Amounts.record.Lawful where
  nodup := by decide
  aliases := by simp [Amounts.record, Field.skippedIf]
  get_set := by simp [Amounts.record, Field.skippedIf]
  get_set_other := by simp [Amounts.record, Field.skippedIf]
  ext a b h := by
    cases a
    cases b
    simpa [Amounts.record, Field.skippedIf] using h

theorem Amounts.codec_reads (a : Amounts) : Amounts.record.codec.Reads a := by
  rw [Record.codec_reads record_lawful (by simp [record, Field.skippedIf])]
  simp only [record, List.forall_mem_cons, List.not_mem_nil, false_implies, implies_true, and_true]
  exact ⟨Field.skippedIf_reads (map_reads string_reads _),
    Field.skippedIf_reads (map_reads string_reads _)⟩

theorem Amounts.codec_sound : Amounts.record.codec.Sound := by
  refine Record.codec_sound record_lawful (by simp [record, Field.skippedIf]) fun f hf => ?_
  simp only [record, List.mem_cons, List.not_mem_nil, or_false] at hf
  rcases hf with rfl | rfl
  · exact Field.skippedIf_map_sound string_sound string_reads rfl
  · exact Field.skippedIf_map_sound string_sound string_reads rfl

theorem ContainerSettings.record_lawful : ContainerSettings.record.Lawful where
  nodup := by decide
  aliases := by simp [ContainerSettings.record, Field.optional, Field.skippedIf]
  get_set := by simp [ContainerSettings.record, Field.optional, Field.skippedIf]
  get_set_other := by simp [ContainerSettings.record, Field.optional, Field.skippedIf]
  ext a b h := by
    cases a
    cases b
    simpa [ContainerSettings.record, Field.optional, Field.skippedIf] using h

theorem ContainerSettings.codec_reads (c : ContainerSettings) :
    ContainerSettings.record.codec.Reads c := by
  rw [Record.codec_reads record_lawful (by simp [record, Field.optional, Field.skippedIf])]
  simp only [record, List.forall_mem_cons, List.not_mem_nil, false_implies, implies_true, and_true]
  refine ⟨(Field.optional_reads string_neverNull).mpr fun s _ => string_reads s, ?_, ?_, ?_, ?_,
    (Field.optional_reads (Record.codec_neverNull _)).mpr fun a _ => a.codec_reads⟩
  · exact Field.skippedIf_reads (list_reads.mpr fun n _ => int32_reads n)
  · exact Field.skippedIf_reads (list_reads.mpr fun e _ => e.codec_reads)
  · exact Field.skippedIf_reads (list_reads.mpr fun s _ => string_reads s)
  · exact Field.skippedIf_reads (list_reads.mpr fun s _ => string_reads s)

theorem ContainerSettings.codec_sound : ContainerSettings.record.codec.Sound := by
  refine Record.codec_sound record_lawful (by simp [record, Field.optional, Field.skippedIf])
    fun f hf => ?_
  simp only [record, List.mem_cons, List.not_mem_nil, or_false] at hf
  rcases hf with rfl | rfl | rfl | rfl | rfl | rfl
  · exact Field.optional_sound string_sound string_neverNull rfl
  · exact Field.skippedIf_list_sound int32_sound rfl
  · exact Field.skippedIf_list_sound EnvSetting.codec_sound rfl
  · exact Field.skippedIf_list_sound string_sound rfl
  · exact Field.skippedIf_list_sound string_sound rfl
  · exact Field.optional_sound Amounts.codec_sound (Record.codec_neverNull _) rfl

theorem PodSettings.record_lawful : PodSettings.record.Lawful where
  nodup := by decide
  aliases := by simp [PodSettings.record, Field.optional]
  get_set := by simp [PodSettings.record, Field.optional]
  get_set_other := by simp [PodSettings.record, Field.optional]
  ext a b h := by
    cases a
    cases b
    simpa [PodSettings.record, Field.optional] using h

theorem PodSettings.codec_reads (p : PodSettings) : PodSettings.record.codec.Reads p := by
  rw [Record.codec_reads record_lawful (by simp [record, Field.optional])]
  simp [record, Field.optional_reads string_neverNull, string_reads]

theorem PodSettings.codec_sound : PodSettings.record.codec.Sound := by
  refine Record.codec_sound record_lawful (by simp [record, Field.optional]) fun f hf => ?_
  simp only [record, List.mem_singleton] at hf
  subst hf
  exact Field.optional_sound string_sound string_neverNull rfl

theorem Storage.record_lawful : Storage.record.Lawful where
  nodup := by decide
  aliases := by simp [Storage.record, Field.optional]
  get_set := by simp [Storage.record, Field.optional]
  get_set_other := by simp [Storage.record, Field.optional]
  ext a b h := by
    cases a
    cases b
    simpa [Storage.record, Field.optional] using h

theorem Storage.codec_reads (s : Storage) : Storage.record.codec.Reads s := by
  rw [Record.codec_reads record_lawful (by simp [record, Field.optional])]
  simp [record, Field.optional_reads string_neverNull, string_reads]

theorem Storage.codec_sound : Storage.record.codec.Sound := by
  refine Record.codec_sound record_lawful (by simp [record, Field.optional]) fun f hf => ?_
  simp only [record, List.mem_cons, List.not_mem_nil, or_false] at hf
  rcases hf with rfl | rfl
  · exact Field.optional_sound string_sound string_neverNull rfl
  · exact Field.optional_sound string_sound string_neverNull rfl

theorem Server.record_lawful : Server.record.Lawful where
  nodup := by decide
  aliases := by simp [Server.record, Field.needed, Field.defaulted, Field.optional]
  get_set := by simp [Server.record, Field.needed, Field.defaulted, Field.optional]
  get_set_other := by simp [Server.record, Field.needed, Field.defaulted, Field.optional]
  ext a b h := by
    cases a
    cases b
    simpa [Server.record, Field.needed, Field.defaulted, Field.optional] using h

theorem Server.codec_reads (s : Server) : Server.record.codec.Reads s := by
  rw [Record.codec_reads record_lawful
    (by simp [record, Field.needed, Field.defaulted, Field.optional])]
  simp [record, Field.needed, Field.defaulted, Field.reads_of_codec,
    Field.optional_reads (Record.codec_neverNull _), ImageChoice.codec_reads,
    ContainerSettings.codec_reads, PodSettings.codec_reads, Storage.codec_reads]

theorem Server.codec_sound : Server.record.codec.Sound := by
  refine Record.codec_sound record_lawful
    (by simp [record, Field.needed, Field.defaulted, Field.optional]) fun f hf => ?_
  simp only [record, List.mem_cons, List.not_mem_nil, or_false] at hf
  rcases hf with rfl | rfl | rfl | rfl
  · exact Field.needed_sound ImageChoice.codec_sound (ImageChoice.codec_reads _)
  · exact Field.defaulted_sound ContainerSettings.codec_sound (ContainerSettings.codec_reads _)
  · exact Field.optional_sound PodSettings.codec_sound (Record.codec_neverNull _) rfl
  · exact Field.optional_sound Storage.codec_sound (Record.codec_neverNull _) rfl

theorem Spec.record_lawful : Spec.record.Lawful where
  nodup := by decide
  aliases := by simp [Spec.record, Field.needed, Field.defaulted]
  get_set := by simp [Spec.record, Field.needed, Field.defaulted]
  get_set_other := by simp [Spec.record, Field.needed, Field.defaulted]
  ext a b h := by
    cases a
    cases b
    simpa [Spec.record, Field.needed, Field.defaulted] using h

theorem Spec.codec_reads (s : Spec) : Spec.record.codec.Reads s := by
  rw [Record.codec_reads record_lawful (by simp [record, Field.needed, Field.defaulted])]
  simp [record, Field.needed, Field.defaulted, Field.reads_of_codec, int32_reads,
    Server.codec_reads]

theorem Spec.codec_sound : Spec.record.codec.Sound := by
  refine Record.codec_sound record_lawful (by simp [record, Field.needed, Field.defaulted])
    fun f hf => ?_
  simp only [record, List.mem_cons, List.not_mem_nil, or_false] at hf
  rcases hf with rfl | rfl
  · exact Field.defaulted_sound int32_sound (int32_reads _)
  · exact Field.needed_sound Server.codec_sound (Server.codec_reads _)

end DistributionOperator
