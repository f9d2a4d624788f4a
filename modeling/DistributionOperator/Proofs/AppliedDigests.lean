import DistributionOperator.Proofs.JsonTexts
import DistributionOperator.Proofs.SettledValues
import Mathlib.Data.Set.Function

/-! What the digest of a child tells apart. The bytes that are digested are those of one pair of
labels and spec only, so as long as digests do not collide, so are the digests. -/

namespace DistributionOperator

namespace Sha256

theorem digitChar_inj : ∀ n < 16, ∀ m < 16, Nat.digitChar n = Nat.digitChar m → n = m := by
  decide

theorem hexByte_inj {b b' : UInt8} (h : hexByte b = hexByte b') : b = b' := by
  have hb := b.toNat_lt
  have hb' := b'.toNat_lt
  simp only [hexByte, List.cons.injEq, and_true] at h
  have hhigh := digitChar_inj _ (by omega) _ (by omega) h.1
  have hlow := digitChar_inj _ (by omega) _ (by omega) h.2
  exact UInt8.toNat_inj.mp (by omega)

theorem hexBytes_inj {l l' : List UInt8} (h : l.flatMap hexByte = l'.flatMap hexByte) :
    l = l' := by
  induction l generalizing l' with
  | nil =>
    cases l' with
    | nil => rfl
    | cons c s => simp [hexByte] at h
  | cons b r ih =>
    cases l' with
    | nil => simp [hexByte] at h
    | cons c s =>
      rw [List.flatMap_cons, List.flatMap_cons] at h
      obtain ⟨hbyte, hrest⟩ := List.append_inj h rfl
      rw [hexByte_inj hbyte, ih hrest]

/-- Whether different messages among these have different digests. -/
def NoCollision (messages : Set ByteArray) : Prop :=
  Set.InjOn (fun bytes => digest bytes.toList) messages

theorem toList_loop (bytes : ByteArray) (i : Nat) (seen : List UInt8) :
    ByteArray.toList.loop bytes i seen = seen.reverse ++ bytes.data.toList.drop i := by
  fun_induction ByteArray.toList.loop bytes i seen with
  | case1 i seen h ih =>
    have hlt : i < bytes.data.toList.length := h
    have hget : bytes.get! i = bytes.data.toList[i] := by
      simp [ByteArray.get!, getElem!_pos, h]
    rw [ih, hget, List.drop_eq_getElem_cons hlt]
    simp
  | case2 i seen h =>
    have hle : bytes.data.toList.length ≤ i := Nat.le_of_not_lt h
    rw [List.drop_eq_nil_of_le hle, List.append_nil]

/-- The bytes of a text, character by character. -/
theorem toUTF8_toList (text : String) :
    text.toUTF8.toList = text.toList.flatMap String.utf8EncodeChar := by
  have htext : text.toUTF8 = (text.toList.flatMap String.utf8EncodeChar).toByteArray :=
    String.utf8Encode_toList.symm
  rw [ByteArray.toList, toList_loop, htext, List.toList_data_toByteArray]
  rfl

/-- Texts with one written digest have one digest. -/
theorem digest_eq_of_hex {t t' : String} (h : hex t = hex t') :
    digest t.toUTF8.toList = digest t'.toUTF8.toList :=
  hexBytes_inj (String.ofList_injective h)

end Sha256

namespace Child

open Sha256 (NoCollision)

variable {labels labels' : Option (StringMap String)} {spec spec' : Json}

/-- The bytes that are digested for labels and a spec. -/
def digested (labels : Option (StringMap String)) (spec : Json) : ByteArray :=
  (wantedText labels (some spec)).toUTF8

theorem digested_inj (hs : spec.Whole) (hs' : spec'.Whole)
    (h : digested labels spec = digested labels' spec') : labels = labels' ∧ spec = spec' :=
  wantedText_inj hs hs' (String.toByteArray_inj.mp h)

theorem digested_eq_of_hash (hsha : NoCollision {digested labels spec, digested labels' spec'})
    (h : appliedHash labels (some spec) = appliedHash labels' (some spec')) :
    digested labels spec = digested labels' spec' :=
  hsha (.inl rfl) (.inr rfl) (Sha256.digest_eq_of_hex h)

theorem appliedHash_eq_iff (hs : spec.Whole) (hs' : spec'.Whole)
    (hsha : NoCollision {digested labels spec, digested labels' spec'}) :
    appliedHash labels (some spec) = appliedHash labels' (some spec') ↔
      labels = labels' ∧ spec = spec' := by
  constructor
  · intro h
    exact digested_inj hs hs' (digested_eq_of_hash hsha h)
  · rintro ⟨rfl, rfl⟩
    rfl

/-- The digested bytes of two pairs are the same just if the pairs are equal, and as long as
digests do not collide, so are the digests; in particular they change if a field of the spec or a
label is removed. -/
theorem appliedHash_separates (labels labels' : Option (StringMap String)) {spec spec' : Json}
    (hs : spec.Whole) (hs' : spec'.Whole) :
    (digested labels spec.settled = digested labels' spec'.settled ↔
        labels = labels' ∧ spec.Equal spec') ∧
      (NoCollision {digested labels spec.settled, digested labels' spec'.settled} →
        (appliedHash labels (some spec.settled) = appliedHash labels' (some spec'.settled) ↔
          labels = labels' ∧ spec.Equal spec')) ∧
      (∀ (p : List Json.Place) (k : String),
        (spec.settled.at? (p ++ [.member k])).isSome = true →
        NoCollision {digested labels (spec.settled.withoutMember k p),
          digested labels spec.settled} →
        appliedHash labels (some (spec.settled.withoutMember k p)) ≠
          appliedHash labels (some spec.settled)) ∧
      (∀ (m : StringMap String) (k : String), labels = some m → (m.get? k).isSome = true →
        NoCollision {digested (some (m.erase k)) spec.settled, digested labels spec.settled} →
        appliedHash (some (m.erase k)) (some spec.settled) ≠
          appliedHash labels (some spec.settled)) := by
  have hw := Json.settled_whole hs
  have hw' := Json.settled_whole hs'
  refine ⟨?_, ?_, ?_, ?_⟩
  · rw [← Json.settled_eq_iff]
    constructor
    · exact digested_inj hw hw'
    · rintro ⟨rfl, h⟩
      rw [h]
  · intro hsha
    rw [← Json.settled_eq_iff]
    exact appliedHash_eq_iff hw hw' hsha
  · intro p k hk hsha heq
    have hpair := (appliedHash_eq_iff (Json.whole_withoutMember hw k p) hw hsha).mp heq
    exact Json.withoutMember_ne hk hpair.2
  · rintro m k rfl hk hsha heq
    have hpair := (appliedHash_eq_iff hw hw hsha).mp heq
    have herase : m.erase k = m := Option.some.inj hpair.1
    rw [← herase] at hk
    simp at hk

/-- Members inserted in two orders, and the account of the pods dropped. -/
theorem appliedHash_separates_account :
    let labels : Option (StringMap String) := some (.ofList [("app", "llama-stack")])
    let pod : Json := .object [("serviceAccountName", .string "llama-sa"), ("replicas", .int 1)]
    let other : Json := .object [("replicas", .int 1), ("serviceAccountName", .string "llama-sa")]
    let spec : Json := .object [("template", .object [("spec", pod)])]
    let spec' : Json := .object [("template", .object [("spec", other)])]
    let bare : Json := spec.settled.withoutMember "serviceAccountName"
      [.member "template", .member "spec"]
    spec.Whole ∧ spec'.Whole ∧ spec ≠ spec' ∧
      digested labels spec.settled = digested labels spec'.settled ∧
      digested labels spec.settled ≠ digested none spec.settled ∧
      appliedHash labels (some bare) ≠ appliedHash labels (some spec.settled) ∧
      appliedHash (some .empty) (some spec.settled) ≠ appliedHash labels (some spec.settled) := by
  intro labels pod other spec spec' bare
  have hs : spec.Whole := by simp [spec, pod, Json.Whole, Json.WholeMembers, Json.int]
  have hs' : spec'.Whole := by simp [spec', other, Json.Whole, Json.WholeMembers, Json.int]
  have hequal : spec.Equal spec' := Json.settled_eq_iff.mp (by decide +kernel)
  refine ⟨hs, hs', by decide +kernel, ?_, ?_, ?_, ?_⟩
  · exact (appliedHash_separates labels labels hs hs').1.mpr ⟨rfl, hequal⟩
  · intro h
    exact Option.some_ne_none _ ((appliedHash_separates labels none hs hs).1.mp h).1
  · refine (appliedHash_separates labels labels hs hs).2.2.1 _ _ (by decide +kernel) ?_
    exact Set.injOn_pair.mpr fun h => absurd h (by decide +kernel)
  · have herase : labels.get!.erase "app" = .empty := by decide +kernel
    rw [← herase]
    refine (appliedHash_separates labels labels hs hs).2.2.2 _ _ rfl (by decide +kernel) ?_
    exact Set.injOn_pair.mpr fun h => absurd h (by decide +kernel)

end Child

end DistributionOperator
