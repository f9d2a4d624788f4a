import DistributionOperator.Text.Utf8

/-! Texts written as UTF-8 and read again. A reading that puts up with anything is exact on them. -/

namespace DistributionOperator

variable {b low high : UInt8} {rest tail : List UInt8} {n v : Nat}

theorem toNat_byte (h : n < 256) : (UInt8.ofNat n).toNat = n := by
  rw [UInt8.toNat_ofNat', Nat.mod_eq_of_lt h]

theorem continueChar_next {missing value : Nat} (h : n < 64) (hlow : low.toNat ≤ n + 128)
    (hhigh : n + 128 ≤ high.toNat) :
    continueChar (missing + 1) low high value (UInt8.ofNat (n + 128) :: rest) =
      continueChar missing 0x80 0xBF (value * 64 + n) rest := by
  have hn : (UInt8.ofNat (n + 128)).toNat = n + 128 := toNat_byte (by omega)
  have hin : (decide (low ≤ UInt8.ofNat (n + 128)) && decide (UInt8.ofNat (n + 128) ≤ high)) =
      true := by
    simp only [UInt8.le_iff_toNat_le, hn, hlow, hhigh, decide_true, Bool.and_self]
  have hsub : n + 128 - 0x80 = n := by omega
  rw [continueChar, if_pos hin, hn, hsub]

/-- Bytes that go on with a sequence, from the second of them on. -/
theorem continueChar_follow {missing value : Nat} (h : n < 64) :
    continueChar (missing + 1) 0x80 0xBF value (UInt8.ofNat (n + 128) :: rest) =
      continueChar missing 0x80 0xBF (value * 64 + n) rest := by
  have hlow : (0x80 : UInt8).toNat = 128 := rfl
  have hhigh : (0xBF : UInt8).toNat = 191 := rfl
  exact continueChar_next h (by omega) (by omega)

theorem continueChar_done {value : Nat} :
    continueChar 0 low high value rest = (0, value, rest) := by
  cases rest <;> rfl

/-- The lead of a sequence, by its value: how many bytes follow and the range of the first. -/
theorem sequenceOf_lead : ∀ n < 0xF5, 0xC2 ≤ n → sequenceOf (UInt8.ofNat n) =
    if n < 0xE0 then some (1, 0x80, 0xBF)
    else if n < 0xF0 then some (2, if n = 0xE0 then 0xA0 else 0x80, if n = 0xED then 0x9F else 0xBF)
    else some (3, if n = 0xF0 then 0x90 else 0x80, if n = 0xF4 then 0x8F else 0xBF) := by
  decide +kernel

theorem decodePieces_single (h : n < 0x80) :
    decodePieces (UInt8.ofNat n :: rest) = some (Char.ofNat n) :: decodePieces rest := by
  have hn : (UInt8.ofNat n).toNat = n := toNat_byte (by omega)
  have hlt : UInt8.ofNat n < 0x80 := by
    rw [UInt8.lt_iff_toNat_lt, hn]
    exact h
  rw [decodePieces, if_pos hlt, hn]

theorem decodePieces_sequence {missing : Nat} (hn : 0x80 ≤ n) (hn' : n < 256)
    (hs : sequenceOf (UInt8.ofNat n) = some (missing, low, high))
    (hc : continueChar missing low high
      (if missing = 1 then n - 0xC0 else if missing = 2 then n - 0xE0 else n - 0xF0) tail =
        (0, v, rest)) :
    decodePieces (UInt8.ofNat n :: tail) = some (Char.ofNat v) :: decodePieces rest := by
  have hbyte : (UInt8.ofNat n).toNat = n := toNat_byte hn'
  have hge : ¬UInt8.ofNat n < 0x80 := by
    rw [UInt8.lt_iff_toNat_lt, hbyte]
    exact Nat.not_lt.mpr hn
  rw [decodePieces, if_neg hge, hs]
  simp only [hbyte, hc, if_true]

theorem decodePieces_two (h : 0x80 ≤ v) (h' : v ≤ 0x7FF) :
    decodePieces (UInt8.ofNat (v / 64 % 32 + 192) :: UInt8.ofNat (v % 64 + 128) :: rest) =
      some (Char.ofNat v) :: decodePieces rest := by
  have hlead : sequenceOf (UInt8.ofNat (v / 64 % 32 + 192)) = some (1, 0x80, 0xBF) := by
    rw [sequenceOf_lead _ (by omega) (by omega), if_pos (by omega)]
  refine decodePieces_sequence (by omega) (by omega) hlead ?_
  rw [continueChar_follow (by omega), continueChar_done]
  have hv : v / 64 % 32 * 64 + v % 64 = v := by omega
  simp [hv]

theorem decodePieces_three (h : 0x800 ≤ v) (h' : v ≤ 0xFFFF) (hs : v < 0xD800 ∨ 0xDFFF < v) :
    decodePieces (UInt8.ofNat (v / 4096 % 16 + 224) :: UInt8.ofNat (v / 64 % 64 + 128) ::
      UInt8.ofNat (v % 64 + 128) :: rest) = some (Char.ofNat v) :: decodePieces rest := by
  -- two of the leads narrow the range of the next byte: no shorter form, and no surrogates
  obtain ⟨n, hn⟩ : ∃ n, n = v / 4096 % 16 + 224 := ⟨_, rfl⟩
  have hlead := sequenceOf_lead n (by omega) (by omega)
  rw [if_neg (by omega), if_pos (by omega)] at hlead
  have hlow : (if n = 0xE0 then 0xA0 else 0x80 : UInt8).toNat ≤ v / 64 % 64 + 128 := by
    split
    · show 160 ≤ _
      omega
    · show 128 ≤ _
      omega
  have hhigh : v / 64 % 64 + 128 ≤ (if n = 0xED then 0x9F else 0xBF : UInt8).toNat := by
    split
    · show _ ≤ 159
      omega
    · show _ ≤ 191
      omega
  rw [← hn]
  refine decodePieces_sequence (by omega) (by omega) hlead ?_
  rw [continueChar_next (by omega) hlow hhigh, continueChar_follow (by omega), continueChar_done]
  have hv : ((n - 224) * 64 + v / 64 % 64) * 64 + v % 64 = v := by omega
  simp [hv]

theorem decodePieces_four (h : 0x10000 ≤ v) (h' : v < 0x110000) :
    decodePieces (UInt8.ofNat (v / 262144 % 8 + 240) :: UInt8.ofNat (v / 4096 % 64 + 128) ::
      UInt8.ofNat (v / 64 % 64 + 128) :: UInt8.ofNat (v % 64 + 128) :: rest) =
      some (Char.ofNat v) :: decodePieces rest := by
  obtain ⟨n, hn⟩ : ∃ n, n = v / 262144 % 8 + 240 := ⟨_, rfl⟩
  have hlead := sequenceOf_lead n (by omega) (by omega)
  rw [if_neg (by omega), if_neg (by omega)] at hlead
  have hlow : (if n = 0xF0 then 0x90 else 0x80 : UInt8).toNat ≤ v / 4096 % 64 + 128 := by
    split
    · show 144 ≤ _
      omega
    · show 128 ≤ _
      omega
  have hhigh : v / 4096 % 64 + 128 ≤ (if n = 0xF4 then 0x8F else 0xBF : UInt8).toNat := by
    split
    · show _ ≤ 143
      omega
    · show _ ≤ 191
      omega
  rw [← hn]
  refine decodePieces_sequence (by omega) (by omega) hlead ?_
  rw [continueChar_next (by omega) hlow hhigh, continueChar_follow (by omega),
    continueChar_follow (by omega), continueChar_done]
  have hv : (((n - 240) * 64 + v / 4096 % 64) * 64 + v / 64 % 64) * 64 + v % 64 = v := by omega
  simp [hv]

theorem decodePieces_char (c : Char) (rest : List UInt8) :
    decodePieces (String.utf8EncodeChar c ++ rest) = some c :: decodePieces rest := by
  obtain ⟨v, hv⟩ : ∃ v, v = c.val.toNat := ⟨_, rfl⟩
  have hc : some (Char.ofNat v) = some c := congrArg some (hv ▸ Char.ofNat_toNat c)
  have hvalid : v < 0xD800 ∨ 0xDFFF < v ∧ v < 0x110000 := hv ▸ c.valid
  unfold String.utf8EncodeChar
  rw [← hv, ← hc]
  dsimp only
  split
  · exact decodePieces_single (by omega)
  · split
    · exact decodePieces_two (by omega) (by omega)
    · split
      · exact decodePieces_three (by omega) (by omega) (by omega)
      · exact decodePieces_four (by omega) (by omega)

theorem decodePieces_chars (cs : List Char) :
    decodePieces (cs.flatMap String.utf8EncodeChar) = cs.map some := by
  induction cs with
  | nil => rw [List.flatMap_nil, decodePieces, List.map_nil]
  | cons c cs ih => rw [List.flatMap_cons, decodePieces_char, ih, List.map_cons]

/-- Whether bytes are those of a text in UTF-8. -/
def Spells (body : List UInt8) (text : String) : Prop := body.toByteArray = text.toUTF8

variable {body : List UInt8} {text : String}

theorem spells_iff : Spells body text ↔ body = text.toList.flatMap String.utf8EncodeChar := by
  have htext : text.toUTF8 = (text.toList.flatMap String.utf8EncodeChar).toByteArray :=
    String.utf8Encode_toList.symm
  rw [Spells, htext, List.toByteArray_inj]

theorem Spells.lenient (h : Spells body text) : decodeUtf8Lenient body = text := by
  rw [spells_iff.mp h, decodeUtf8Lenient, decodePieces_chars, List.map_map]
  simp [Function.comp_def]

end DistributionOperator
