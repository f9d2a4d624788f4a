import DistributionOperator.Proofs.MergePatches
import DistributionOperator.Proofs.Scene
import DistributionOperator.Proofs.StatusRecords
import DistributionOperator.Proofs.StoreWrites

/-! What is stored after a status was written. The write is a merge patch over the status before. All
fields are replaced but one: the map of the distributions that can be had is an object, so that
those of the status before stay in it. -/

namespace DistributionOperator

open Codec Json

theorem Timestamp.codec_neverObject : Timestamp.codec.NeverObject := by
  intro t members h
  cases h

theorem Phase.codec_neverObject : Phase.codec.NeverObject := by
  intro p members h
  cases h

theorem Versions.patched {old : Option Versions} {new v : Versions}
    (hd : record.decode .value (mergePatch (record.codec.option.encode old)
      (record.encode new)).toDraft = .ok v) : v = new := by
  refine record_lawful.ext v new fun f hf => Record.decode_patched_flat record_lawful hd hf ?_
  simp only [record, List.mem_cons, List.not_mem_nil, or_false] at hf
  rcases hf with rfl | rfl | rfl
  · exact Field.nullable_flat string_faithful string_neverNull string_neverObject _ rfl
  · exact Field.nullable_flat string_faithful string_neverNull string_neverObject _ rfl
  · exact Field.nullable_flat Timestamp.codec_faithful Timestamp.codec_neverNull
      Timestamp.codec_neverObject _ rfl

def Summary.over (new : Summary) (old : Option Summary) : Summary :=
  { new with
    availableDistributions :=
      .overlay ((old.map (·.availableDistributions)).getD .empty) new.availableDistributions }

theorem Summary.patched {old : Option Summary} {new s : Summary}
    (hd : record.decode .value (mergePatch (record.codec.option.encode old)
      (record.encode new)).toDraft = .ok s) : s = new.over old := by
  refine record_lawful.ext s (new.over old) fun f hf => ?_
  have hflat : f.Flat record.blank → f.get s = f.get new :=
    Record.decode_patched_flat record_lawful hd hf
  have hmem := hf
  simp only [record, List.mem_cons, List.not_mem_nil, or_false] at hf
  rcases hf with rfl | rfl | rfl
  · exact hflat (Field.nullable_flat string_faithful string_neverNull string_neverObject _ rfl)
  · exact strings_patched (Record.decode_patched_defaulted record_lawful hd hmem (map_neverNull _))
  · exact hflat (Field.defaulted_flat (list_faithful Provider.codec_faithful) (list_neverNull _)
      (list_neverObject _) _ _)

/-- A new status as it is after it was written over an earlier one, if there was one. -/
def Status.over (new : Status) (old : Option Status) : Status :=
  { new with summary := new.summary.over (old.map (·.summary)) }

theorem Status.patched {old : Option Status} {new s : Status}
    (hd : record.decode .value (mergePatch (record.codec.option.encode old)
      (record.encode new)).toDraft = .ok s) : s = new.over old := by
  refine record_lawful.ext s (new.over old) fun f hf => ?_
  have hflat : f.Flat record.blank → f.get s = f.get new :=
    Record.decode_patched_flat record_lawful hd hf
  have hmem := hf
  simp only [record, List.mem_cons, List.not_mem_nil, or_false] at hf
  rcases hf with rfl | rfl | rfl | rfl | rfl
  · exact hflat (Field.defaulted_flat Phase.codec_faithful Phase.codec_neverNull
      Phase.codec_neverObject _ _)
  · exact hflat (Field.defaulted_flat (list_faithful Condition.codec_faithful) (list_neverNull _)
      (list_neverObject _) _ _)
  · exact hflat (Field.defaulted_flat int32_faithful int32_neverNull int32_neverObject _ _)
  · exact Summary.patched (Record.decode_patched_defaulted record_lawful hd hmem
      (Record.codec_neverNull _))
  · exact Versions.patched (Record.decode_patched_defaulted record_lawful hd hmem
      (Record.codec_neverNull _))

theorem patchStatus_decode (old : Option Status) (new : Status) :
    Store.patchStatus old new = (Status.record.decode .value
      (mergePatch (Status.record.codec.option.encode old) (Status.record.encode new)).toDraft).map
        some := by
  have hne : mergePatch (Status.record.codec.option.encode old) (Status.record.encode new) ≠
      .null := by
    rw [Record.encode_eq, mergePatch_object]
    simp
  exact option_decode_of_ne_null (c := Status.record.codec) hne

theorem patchStatus_eq {old r : Option Status} {new : Status}
    (h : Store.patchStatus old new = .ok r) : r = some (new.over old) := by
  rw [patchStatus_decode] at h
  obtain ⟨s, hs, rfl⟩ := map_eq_ok.mp h
  rw [Status.patched hs]

/-- A status that was written: all is as before but for the version and the status of the one
distribution. -/
theorem updateStatus_ok {s s' : Store} {k : Key} {v : Option String} {new : Status}
    (h : s.updateStatus k v new = (.ok (), s')) :
    ∃ d, s.distributions k = some d ∧ s'.children = s.children ∧
      s'.distributions = s.distributions.set k (some { d with
        status := some (new.over d.status)
        metadata := { d.metadata with resourceVersion := some s.nextVersion } }) := by
  unfold Store.updateStatus at h
  split at h
  · cases h
  · split at h
    · cases h
    · rename_i d hd
      split at h
      · split at h
        · cases h
        · rename_i r hr
          obtain rfl := patchStatus_eq hr
          cases h
          exact ⟨d, hd, rfl, rfl⟩
      · cases h

/-- With nothing in the earlier map of distributions that the new one lacks, a status that is written
over an earlier one is the new status. -/
theorem Status.over_eq_iff {new : Status} {old : Option Status} :
    new.over old = new ↔ ∀ st ∈ old, ∀ name,
      st.summary.availableDistributions.get? name ≠ none →
        new.summary.availableDistributions.get? name ≠ none := by
  have hmaps : new.over old = new ↔
      StringMap.overlay ((old.map (·.summary.availableDistributions)).getD .empty)
        new.summary.availableDistributions = new.summary.availableDistributions := by
    constructor
    · intro h
      have hs := congrArg (·.summary.availableDistributions) h
      simpa [Status.over, Summary.over, Function.comp_def] using hs
    · intro h
      simp [Status.over, Summary.over, Function.comp_def, h]
  rw [hmaps, StringMap.overlay_eq_right_iff]
  cases old with
  | none => simp
  | some st => simp

/-- What is read back after a write is the new status over the one before, and that is the new status
itself exactly if it knows all distributions that the one before knew. The spec is untouched. -/
theorem status_read_back_iff {s s' : Store} {k : Key} {v : Option String} {new : Status}
    (h : s.answer (.updateStatus k v new) = (.ok (), s')) :
    ∃ d d', (s.answer (.getDistribution k)).1 = .ok (some d) ∧
      (s'.answer (.getDistribution k)).1 = .ok (some d') ∧ d'.spec = d.spec ∧
      d'.status = some (new.over d.status) ∧
      (d'.status = some new ↔ ∀ st ∈ d.status, ∀ name,
        st.summary.availableDistributions.get? name ≠ none →
          new.summary.availableDistributions.get? name ≠ none) := by
  obtain ⟨d, hd, _, hs'⟩ := updateStatus_ok h
  have hread : s'.distributions k = some { d with
      status := some (new.over d.status)
      metadata := { d.metadata with resourceVersion := some s.nextVersion } } := by
    rw [hs', Table.set_same]
  refine ⟨d, _, congrArg Except.ok hd, congrArg Except.ok hread, rfl, rfl, ?_⟩
  rw [Option.some.injEq]
  exact Status.over_eq_iff

/-- A distribution whose status has something in every part. -/
def Distribution.sampleServed : Distribution :=
  { Distribution.sample with
    status := some {
      phase := .ready
      conditions := [⟨"HealthCheck", "True", "HealthCheckPassed", "Health check passed", none⟩]
      availableReplicas := 1
      summary := ⟨some "starter", .ofList [("starter", "starter:1")],
        [⟨"inference", "ollama", "remote::ollama", none⟩]⟩
      versions := ⟨some "1.0", some "0.2", none⟩ } }

/-- A status of a failure, with another image for this distribution and one more distribution. -/
def Status.refused : Status where
  phase := .failed
  conditions := [⟨"DeploymentReady", "False", "DeploymentFailed", "refused", none⟩]
  availableReplicas := 0
  summary := ⟨none, .ofList [("starter", "starter:2"), ("remote", "remote:1")], []⟩
  versions := ⟨some "1.1", none, none⟩

theorem status_read_back_served : ∃ s' d',
    (Store.empty.addDistribution .sampleServed).answer
        (.updateStatus ⟨"ai", "demo"⟩ none .refused) = (.ok (), s') ∧
      (s'.answer (.getDistribution ⟨"ai", "demo"⟩)).1 = .ok (some d') ∧
      d'.status = some .refused := by
  have hok : ((Store.empty.addDistribution .sampleServed).answer
      (.updateStatus ⟨"ai", "demo"⟩ none .refused)).1 = .ok () := by decide +kernel
  have hw : (Store.empty.addDistribution .sampleServed).answer
      (.updateStatus ⟨"ai", "demo"⟩ none .refused) = (.ok (), _) := Prod.ext hok rfl
  obtain ⟨d, d', hd, hd', _, _, hiff⟩ := status_read_back_iff hw
  refine ⟨_, d', hw, hd', hiff.mpr ?_⟩
  cases hd
  rintro st ⟨⟩ name hname
  have hstarter : "starter" = name := by
    by_contra hne
    simp [StringMap.ofList, hne] at hname
  subst hstarter
  simp [Status.refused, StringMap.ofList]

/-- A distribution whose status tells of an image that the operator does not have any more. -/
def Distribution.sampleRetired : Distribution :=
  { Distribution.sample with
    status := some { Status.blank with
      summary := { Summary.blank with
        availableDistributions := .ofList [("retired", "retired:1")] } } }

theorem status_write_keeps_retired : ¬∀ (s s' : Store) k v new d',
    s.answer (.updateStatus k v new) = (.ok (), s') →
      (s'.answer (.getDistribution k)).1 = .ok (some d') → d'.status = some new := by
  intro h
  have hw : (Store.empty.addDistribution .sampleRetired).answer
      (.updateStatus ⟨"ai", "demo"⟩ none .blank) = (.ok (), _) := rfl
  exact absurd (h _ _ _ _ _ _ hw rfl) (by decide +kernel)

end DistributionOperator
