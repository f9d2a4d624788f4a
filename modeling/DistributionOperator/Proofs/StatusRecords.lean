import DistributionOperator.Distribution.Status
import DistributionOperator.Proofs.Records
import DistributionOperator.Proofs.Timestamps

/-! The records that make up a status. Their fields are set apart from each other, and what they hold
is read back as it was written. -/

namespace DistributionOperator

open Codec

theorem Timestamp.codec_faithful : Timestamp.codec.Faithful := by
  intro t u h
  simp only [Timestamp.codec, Json.toDraft] at h
  split at h
  · rename_i v hv
    rw [← Except.ok.inj h]
    exact Timestamp.ofText?_text hv
  · cases h

theorem Timestamp.codec_neverNull : Timestamp.codec.NeverNull := by
  intro t h
  cases h

theorem Phase.codec_faithful : Phase.codec.Faithful := by
  intro p q h
  cases p <;> exact (Except.ok.inj h).symm

theorem Phase.codec_neverNull : Phase.codec.NeverNull := by
  intro p h
  cases h

theorem Condition.record_lawful : Condition.record.Lawful where
  nodup := by decide
  aliases := by simp [Condition.record, Field.needed, Field.optional]
  get_set := by simp [Condition.record, Field.needed, Field.optional]
  get_set_other := by simp [Condition.record, Field.needed, Field.optional]
  ext a b h := by
    cases a
    cases b
    simpa [Condition.record, Field.needed, Field.optional] using h

theorem Condition.codec_faithful : Condition.record.codec.Faithful := by
  refine Record.codec_faithful Condition.record_lawful fun f hf => ?_
  simp only [Condition.record, List.mem_cons, List.not_mem_nil, or_false] at hf
  rcases hf with rfl | rfl | rfl | rfl | rfl
  · exact Field.needed_faithful string_faithful _ _
  · exact Field.needed_faithful string_faithful _ _
  · exact Field.needed_faithful string_faithful _ _
  · exact Field.needed_faithful string_faithful _ _
  · exact Field.optional_faithful Timestamp.codec_faithful Timestamp.codec_neverNull _ rfl

theorem ProviderHealth.record_lawful : ProviderHealth.record.Lawful where
  nodup := by decide
  aliases := by simp [ProviderHealth.record, Field.defaulted, Field.optional]
  get_set := by simp [ProviderHealth.record, Field.defaulted, Field.optional]
  get_set_other := by simp [ProviderHealth.record, Field.defaulted, Field.optional]
  ext a b h := by
    cases a
    cases b
    simpa [ProviderHealth.record, Field.defaulted, Field.optional] using h

theorem ProviderHealth.codec_faithful : ProviderHealth.record.codec.Faithful := by
  refine Record.codec_faithful ProviderHealth.record_lawful fun f hf => ?_
  simp only [ProviderHealth.record, List.mem_cons, List.not_mem_nil, or_false] at hf
  rcases hf with rfl | rfl
  · exact Field.defaulted_faithful string_faithful _ _
  · exact Field.optional_faithful string_faithful string_neverNull _ rfl

theorem Provider.record_lawful : Provider.record.Lawful where
  nodup := by decide
  aliases := by simp [Provider.record, Field.defaulted, Field.optional, Field.withAlias]
  get_set := by simp [Provider.record, Field.defaulted, Field.optional, Field.withAlias]
  get_set_other := by simp [Provider.record, Field.defaulted, Field.optional, Field.withAlias]
  ext a b h := by
    cases a
    cases b
    simpa [Provider.record, Field.defaulted, Field.optional, Field.withAlias] using h

theorem Provider.codec_faithful : Provider.record.codec.Faithful := by
  refine Record.codec_faithful Provider.record_lawful fun f hf => ?_
  simp only [Provider.record, List.mem_cons, List.not_mem_nil, or_false] at hf
  rcases hf with rfl | rfl | rfl | rfl
  · exact Field.defaulted_faithful string_faithful _ _
  · exact Field.withAlias_faithful (Field.defaulted_faithful string_faithful _ _) _
  · exact Field.withAlias_faithful (Field.defaulted_faithful string_faithful _ _) _
  · exact Field.optional_faithful ProviderHealth.codec_faithful (Record.codec_neverNull _) _ rfl

theorem Summary.record_lawful : Summary.record.Lawful where
  nodup := by decide
  aliases := by simp [Summary.record, Field.defaulted, Field.nullable]
  get_set := by simp [Summary.record, Field.defaulted, Field.nullable]
  get_set_other := by simp [Summary.record, Field.defaulted, Field.nullable]
  ext a b h := by
    cases a
    cases b
    simpa [Summary.record, Field.defaulted, Field.nullable] using h

theorem Versions.record_lawful : Versions.record.Lawful where
  nodup := by decide
  aliases := by simp [Versions.record, Field.nullable]
  get_set := by simp [Versions.record, Field.nullable]
  get_set_other := by simp [Versions.record, Field.nullable]
  ext a b h := by
    cases a
    cases b
    simpa [Versions.record, Field.nullable] using h

theorem Status.record_lawful : Status.record.Lawful where
  nodup := by decide
  aliases := by simp [Status.record, Field.defaulted]
  get_set := by simp [Status.record, Field.defaulted]
  get_set_other := by simp [Status.record, Field.defaulted]
  ext a b h := by
    cases a
    cases b
    simpa [Status.record, Field.defaulted] using h

end DistributionOperator
