import DistributionOperator.Proofs.ContainmentOrder
import DistributionOperator.Proofs.MergePatches

/-! Merge patches against RFC 7386. The rules of the standard leave one result for each target and
patch, and it is the computed one. From the rules it follows that a patch holds in its result, and
that the result stays as it is under the same patch. -/

namespace DistributionOperator.Json

/-- The rules for the result of a patch, with a target that may be missing. A patch that is no
object is the result. With an object, a key that it lacks keeps what the target has there, a null
drops the key, and any other value is merged into what the target has there: nothing, if the target
is no object. -/
inductive Merged : Option Json → Json → Json → Prop where
  | replaced {target : Option Json} {patch : Json} (plain : ∀ fields, patch ≠ .object fields) :
      Merged target patch patch
  | merged {target : Option Json} {fields members : List (String × Json)}
      (sorted : members.Pairwise fun a b => a.1 < b.1)
      (kept : ∀ k, StringMap.find k fields = none →
        StringMap.find k members = target.bind (·.member? k))
      (dropped : ∀ k, StringMap.find k fields = some .null → StringMap.find k members = none)
      (present : ∀ k v, StringMap.find k fields = some v → v ≠ .null →
        ∃ w, StringMap.find k members = some w)
      (inner : ∀ k v w, StringMap.find k fields = some v → v ≠ .null →
        StringMap.find k members = some w → Merged (target.bind (·.member? k)) v w) :
      Merged target (.object fields) (.object members)

variable {target : Option Json} {patch result other : Json} {j v : Json} {k : String}

theorem find_memberList (j : Json) (k : String) :
    StringMap.find k j.memberList = j.member? k := by
  cases j <;> rfl

theorem member?_getD (target : Option Json) (k : String) :
    (target.getD .null).member? k = target.bind (·.member? k) := by
  cases target <;> rfl

theorem Canonical.memberList_sorted (h : j.Canonical) :
    j.memberList.Pairwise fun a b => a.1 < b.1 := by
  cases j with
  | object members => exact h.1
  | _ => exact .nil

theorem Canonical.member? (h : j.Canonical) (hv : j.member? k = some v) : v.Canonical := by
  cases j with
  | object members => exact canonicalMembers_iff.mp h.2 _ (StringMap.mem_of_find hv)
  | _ => cases hv

theorem Canonical.getD (h : ∀ t ∈ target, t.Canonical) : (target.getD .null).Canonical := by
  cases target with
  | none => trivial
  | some t => exact h t rfl

theorem Canonical.of_bind (h : ∀ t ∈ target, t.Canonical) (k : String) :
    ∀ v ∈ target.bind (·.member? k), v.Canonical := by
  intro v hv
  obtain ⟨t, ht, hv⟩ := Option.bind_eq_some_iff.mp hv
  exact (h t ht).member? hv

theorem Merged.unique (h : Merged target patch result) (h' : Merged target patch other) :
    result = other := by
  induction h generalizing other with
  | replaced plain =>
    cases h' with
    | replaced => rfl
    | merged => exact absurd rfl (plain _)
  | @merged target fields members sorted kept dropped present inner ih =>
    cases h' with
    | replaced plain => exact absurd rfl (plain _)
    | merged sorted' kept' dropped' present' inner' =>
      refine congrArg Json.object (StringMap.eq_of_find_eq sorted sorted' fun k => ?_)
      cases hf : StringMap.find k fields with
      | none => rw [kept k hf, kept' k hf]
      | some v =>
        by_cases hv : v = .null
        · rw [dropped k (hv ▸ hf), dropped' k (hv ▸ hf)]
        · obtain ⟨w, hw⟩ := present k v hf hv
          obtain ⟨w', hw'⟩ := present' k v hf hv
          rw [hw, hw', ih k v w hf hv hw (inner' k v w' hf hv hw')]

theorem Merged.canonical (h : Merged target patch result) (ht : ∀ t ∈ target, t.Canonical)
    (hp : patch.Canonical) : result.Canonical := by
  induction h with
  | replaced => exact hp
  | @merged target fields members sorted kept dropped present inner ih =>
    refine ⟨sorted, canonicalMembers_iff.mpr fun m hm => ?_⟩
    have hw : StringMap.find m.1 members = some m.2 :=
      StringMap.find_of_mem (StringMap.nodup_of_sorted sorted) hm
    cases hf : StringMap.find m.1 fields with
    | none => exact Canonical.of_bind ht m.1 m.2 ((kept m.1 hf).symm.trans hw)
    | some v =>
      by_cases hv : v = .null
      · rw [dropped m.1 (hv ▸ hf)] at hw
        cases hw
      · exact ih m.1 v m.2 hf hv hw (Canonical.of_bind ht m.1) (hp.member? hf)

theorem Merged.again (h : Merged target patch result) : Merged (some result) patch result := by
  induction h with
  | replaced plain => exact .replaced plain
  | @merged target fields members sorted kept dropped present inner ih =>
    -- the target is now the result, which keeps its own members and was merged in the others
    refine .merged sorted (fun k _ => rfl) dropped present fun k v w hf hv hw => ?_
    have hthere : (some (object members)).bind (·.member? k) = some w := hw
    rw [hthere]
    exact ih k v w hf hv hw

theorem Merged.contains (h : Merged target patch result) (hp : patch.Canonical) :
    patch.containedIn result = true := by
  induction h with
  | replaced => exact containedIn_refl _ hp
  | @merged target fields members sorted kept dropped present inner ih =>
    rw [containedIn, membersIn_iff (StringMap.nodup_of_sorted hp.1)]
    intro k v hf
    by_cases hv : v = .null
    · exact .inl (isNull_iff.mpr hv)
    · obtain ⟨w, hw⟩ := present k v hf hv
      exact .inr ⟨w, hw, ih k v w hf hv hw (hp.member? hf)⟩

theorem merged_mergePatch (ht : ∀ t ∈ target, t.Canonical) (hp : patch.Canonical) :
    Merged target patch (mergePatch (target.getD .null) patch) := by
  induction patch using Json.induction generalizing target with
  | object fields ih =>
    have hold (k : String) :
        StringMap.find k (target.getD .null).memberList = target.bind (·.member? k) :=
      (find_memberList _ k).trans (member?_getD target k)
    have hfind (k : String) := find_mergeMembers (StringMap.nodup_of_sorted hp.1)
      (target.getD .null).memberList k
    rw [mergePatch_object]
    refine .merged (mergeMembers_sorted (Canonical.getD ht).memberList_sorted fields)
      (fun k hf => ?_) (fun k hf => ?_) (fun k v hf hv => ?_) (fun k v w hf hv hw => ?_)
    · rw [hfind, hf, ← hold]
    · rw [hfind, hf]
      rfl
    · rw [hfind, hf]
      simp [isNull_iff, hv]
    · -- a missing member is merged as a null one, which has no members either
      obtain rfl : mergePatch ((target.bind (·.member? k)).getD .null) v = w := by
        simpa [hfind, hf, isNull_iff, hv, hold] using hw
      exact ih (k, v) (StringMap.mem_of_find hf) (Canonical.of_bind ht k) (hp.member? hf)
  | _ =>
    rw [mergePatch_of_not_object (by simp)]
    exact .replaced (by simp)

theorem mergePatch_eq_iff {target : Json} (ht : target.Canonical) (hp : patch.Canonical) :
    mergePatch target patch = result ↔ Merged (some target) patch result := by
  have hmerged : Merged (some target) patch (mergePatch target patch) :=
    merged_mergePatch (by simpa using ht) hp
  constructor
  · rintro rfl
    exact hmerged
  · exact hmerged.unique

/-- A merge patch gives the result of the standard and no other. The same patch changes nothing in
it any more, and is contained in it. -/
theorem mergePatch_standard (target patch : Json) (ht : target.Canonical) (hp : patch.Canonical) :
    (∀ result, mergePatch target patch = result ↔ Merged (some target) patch result) ∧
      mergePatch (mergePatch target patch) patch = mergePatch target patch ∧
      patch.containedIn (mergePatch target patch) = true := by
  have hmerged : Merged (some target) patch (mergePatch target patch) :=
    (mergePatch_eq_iff ht hp).mp rfl
  have hcanonical : (mergePatch target patch).Canonical :=
    hmerged.canonical (by simpa using ht) hp
  refine ⟨fun result => mergePatch_eq_iff ht hp, ?_, hmerged.contains hp⟩
  exact (mergePatch_eq_iff hcanonical hp).mpr hmerged.again

/-- A scalar and a missing member become objects, an array is replaced with its nulls, and the
members that are null in the patch are gone at both depths. -/
theorem mergePatch_standard_nested :
    ∃ target patch result : Json, target.Canonical ∧ patch.Canonical ∧
      mergePatch target patch = result ∧ Merged (some target) patch result ∧
      mergePatch result patch = result ∧ patch.containedIn result = true ∧
      result.containedIn patch = false := by
  let target : Json := .object
    [("a", .int 1), ("b", .object [("c", .int 2), ("d", .int 3)]), ("l", .array [.int 1, .int 2]),
      ("s", .string "x"), ("z", .bool true)]
  let patch : Json := .object
    [("b", .object [("c", .null)]), ("e", .object [("f", .null), ("g", .object [("h", .int 4)])]),
      ("l", .array [.null]), ("s", .object [("t", .null), ("u", .string "y")]), ("z", .null)]
  let result : Json := .object
    [("a", .int 1), ("b", .object [("d", .int 3)]), ("e", .object [("g", .object [("h", .int 4)])]),
      ("l", .array [.null]), ("s", .object [("u", .string "y")])]
  have ht : target.Canonical :=
    ⟨by decide, trivial, ⟨by decide, trivial, trivial, trivial⟩, ⟨trivial, trivial, trivial⟩,
      trivial, trivial, trivial⟩
  have hp : patch.Canonical :=
    ⟨by decide, ⟨by decide, trivial, trivial⟩,
      ⟨by decide, trivial, ⟨by decide, trivial, trivial⟩, trivial⟩, ⟨trivial, trivial⟩,
      ⟨by decide, trivial, trivial, trivial⟩, trivial, trivial⟩
  obtain ⟨hiff, hagain, hin⟩ := mergePatch_standard target patch ht hp
  have hresult : mergePatch target patch = result := by decide +kernel
  rw [hresult] at hagain hin
  exact ⟨target, patch, result, ht, hp, hresult, (hiff result).mp hresult, hagain, hin,
    by decide +kernel⟩

end DistributionOperator.Json
