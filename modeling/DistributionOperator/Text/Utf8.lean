/-! Bytes read as UTF-8. The lenient reading puts one replacement character in the place of each
longest piece that begins a character and does not finish it. -/

namespace DistributionOperator

/-- How many bytes continue the character that a byte begins, and the range of the first of them. -/
def sequenceOf (b : UInt8) : Option (Nat × UInt8 × UInt8) :=
  if 0xC2 ≤ b && b ≤ 0xDF then some (1, 0x80, 0xBF)
  else if b = 0xE0 then some (2, 0xA0, 0xBF)
  else if b = 0xED then some (2, 0x80, 0x9F)
  else if 0xE1 ≤ b && b ≤ 0xEF then some (2, 0x80, 0xBF)
  else if b = 0xF0 then some (3, 0x90, 0xBF)
  else if 0xF1 ≤ b && b ≤ 0xF3 then some (3, 0x80, 0xBF)
  else if b = 0xF4 then some (3, 0x80, 0x8F)
  else none

/-- The value of the bytes so far, extended by as many of the next bytes as continue it: the bytes
still missing, the value, and the rest. -/
def continueChar : Nat → UInt8 → UInt8 → Nat → List UInt8 → Nat × Nat × List UInt8
  | 0, _, _, value, rest => (0, value, rest)
  | missing + 1, _, _, value, [] => (missing + 1, value, [])
  | missing + 1, low, high, value, b :: rest =>
    if low ≤ b && b ≤ high then
      continueChar missing 0x80 0xBF (value * 64 + (b.toNat - 0x80)) rest
    else (missing + 1, value, b :: rest)

theorem continueChar_length (missing : Nat) (low high : UInt8) (value : Nat) (s : List UInt8) :
    (continueChar missing low high value s).2.2.length ≤ s.length := by
  induction s generalizing missing low high value with
  | nil => cases missing <;> simp [continueChar]
  | cons b r ih =>
    cases missing with
    | zero => simp [continueChar]
    | succ m =>
      unfold continueChar
      split
      · exact Nat.le_succ_of_le (ih m _ _ _)
      · simp

/-- One piece of the bytes: a character, or nothing where they begin none. -/
def decodePieces (s : List UInt8) : List (Option Char) :=
  match s with
  | [] => []
  | b :: rest =>
    if b < 0x80 then some (Char.ofNat b.toNat) :: decodePieces rest
    else
      match sequenceOf b with
      | none => none :: decodePieces rest
      | some (n, low, high) =>
        let begun :=
          if n = 1 then b.toNat - 0xC0 else if n = 2 then b.toNat - 0xE0 else b.toNat - 0xF0
        let c := continueChar n low high begun rest
        (if c.1 = 0 then some (Char.ofNat c.2.1) else none) :: decodePieces c.2.2
termination_by s.length
decreasing_by
  · simp
  · simp
  · exact Nat.lt_succ_of_le (continueChar_length _ _ _ _ _)

def decodeUtf8? (s : List UInt8) : Option String :=
  ((decodePieces s).mapM id).map String.ofList

def decodeUtf8Lenient (s : List UInt8) : String :=
  String.ofList ((decodePieces s).map fun c => c.getD (Char.ofNat 0xFFFD))

end DistributionOperator
