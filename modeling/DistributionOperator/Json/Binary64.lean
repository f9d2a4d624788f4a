/-! Finite floating-point numbers of 64 bits, read from decimals by rounding to the nearest and
written with the fewest decimals that read back. All arithmetic is on whole numbers. -/

namespace DistributionOperator

/-- The number `significand * 2 ^ exponent`, with a sign of its own at zero too. A significand has
53 bits, unless the exponent is the least. -/
structure Binary64 where
  negative : Bool
  significand : Nat
  exponent : Int
  fits : significand < 0x20000000000000 ∧ -1074 ≤ exponent ∧ exponent ≤ 971
  normal : 0x10000000000000 ≤ significand ∨ exponent = -1074
deriving DecidableEq

namespace Binary64

def zero (negative : Bool) : Binary64 := ⟨negative, 0, -1074, by decide, by decide⟩

def same (a b : Binary64) : Bool := a = b || (a.significand = 0 && b.significand = 0)

def ofParts? (negative : Bool) (m : Nat) (e : Int) : Option Binary64 :=
  if h : m < 0x20000000000000 ∧ -1074 ≤ e ∧ e ≤ 971 then
    if hn : 0x10000000000000 ≤ m ∨ e = -1074 then some ⟨negative, m, e, h, hn⟩ else none
  else none

/-- The whole number nearest to a quotient, the even one of two. -/
def roundEven (num den : Nat) : Nat :=
  let q := num / den
  let r := num % den
  if 2 * r < den then q else if den < 2 * r then q + 1 else if q % 2 = 0 then q else q + 1

def scaleTwo (num den : Nat) (e : Int) : Nat × Nat :=
  if 0 ≤ e then (num <<< e.toNat, den) else (num, den <<< (-e).toNat)

def floorLog (num den : Nat) : Int :=
  let k : Int := num.log2 - den.log2
  let s := scaleTwo num den (-k)
  if s.2 ≤ s.1 then k else k - 1

def ofQuotient? (negative : Bool) (num den : Nat) : Option Binary64 :=
  if num = 0 then some (zero negative)
  else
    let e := max (-1074) (floorLog num den - 52)
    let s := scaleTwo num den (-e)
    let m := roundEven s.1 s.2
    if m = 0x20000000000000 then ofParts? negative 0x10000000000000 (e + 1)
    else ofParts? negative m e

/-- The number nearest to `digits * 10 ^ exponent`; far beyond either end of the range nothing is
computed. -/
def ofDecimal? (negative : Bool) (digits : Nat) (exponent : Int) : Option Binary64 :=
  let places : Int := (Nat.toDigits 10 digits).length
  if digits = 0 then some (zero negative)
  else if 400 < exponent + places then none
  else if exponent + places < -400 then some (zero negative)
  else if 0 ≤ exponent then ofQuotient? negative (digits * Nat.pow 10 exponent.toNat) 1
  else ofQuotient? negative digits (Nat.pow 10 (-exponent).toNat)

/-- The exponent of the greatest power of ten below a positive quotient, for quotients no smaller
than `10 ^ -fuel`. -/
def decimalOrder (num den : Nat) : Nat → Int
  | 0 => 0
  | fuel + 1 =>
    if den ≤ num then ((Nat.toDigits 10 (num / den)).length : Int) - 1
    else decimalOrder (num * 10) den fuel - 1

def scaleTen (num den : Nat) (e : Int) : Nat × Nat :=
  if 0 ≤ e then (num * Nat.pow 10 e.toNat, den) else (num, den * Nat.pow 10 (-e).toNat)

/-- Whether `d * 10 ^ p` rounds to the number: it is at most half a step away, and an end of that
interval belongs to the even significand. Below a power of two the steps are half as long. -/
def readsBack (x : Binary64) (d : Nat) (p : Int) : Bool :=
  let steps : Nat := if x.significand = 0x10000000000000 && x.exponent != -1074 then 1 else 2
  let low := 4 * x.significand - steps
  let high := 4 * x.significand + 2
  let s := scaleTen d 1 p
  let v := scaleTwo s.1 s.2 (-(x.exponent - 2))
  if x.significand % 2 = 0 then low * v.2 ≤ v.1 && v.1 ≤ high * v.2
  else low * v.2 < v.1 && v.1 < high * v.2

def onGrid (x : Binary64) (num den : Nat) (p : Int) : Option Nat :=
  let s := scaleTen num den (-p)
  let d := s.1 / s.2
  let r := s.1 % s.2
  let below := readsBack x d p
  let above := readsBack x (d + 1) p
  if below && above then
    some (if 2 * r < s.2 then d else if s.2 < 2 * r then d + 1 else if d % 2 = 0 then d else d + 1)
  else if below then some d
  else if above then some (d + 1)
  else none

/-- The first grid, from the coarsest of those left, with a decimal that reads back. -/
def firstGrid (x : Binary64) (num den : Nat) : Nat → Int → Nat × Int
  | 0, p => (0, p)
  | left + 1, p =>
    match onGrid x num den p with
    | some d => (d, p)
    | none => firstGrid x num den left (p - 1)

def dropZeros : Nat → Nat → Int → Nat × Int
  | 0, d, p => (d, p)
  | fuel + 1, d, p => if d % 10 = 0 && d != 0 then dropZeros fuel (d / 10) (p + 1) else (d, p)

/-- The shortest decimal `digits * 10 ^ exponent` that reads back, nearest to the number. -/
def shortest (x : Binary64) : Nat × Int :=
  if x.significand = 0 then (0, 0)
  else
    let v := scaleTwo x.significand 1 x.exponent
    let found := firstGrid x v.1 v.2 17 (decimalOrder v.1 v.2 400)
    dropZeros 20 found.1 found.2

/-- Positional from `10 ^ -5` up to `10 ^ 16`, with a point always; otherwise with an exponent. -/
def writeDecimal (digits : List Char) (p : Int) : List Char :=
  let n : Int := digits.length
  let point := n + p
  if 0 ≤ p && point ≤ 16 then digits ++ List.replicate p.toNat '0' ++ ['.', '0']
  else if 0 < point && point ≤ 16 then
    digits.take point.toNat ++ '.' :: digits.drop point.toNat
  else if -5 < point && point ≤ 0 then
    ['0', '.'] ++ List.replicate (-point).toNat '0' ++ digits
  else
    let mantissa := match digits with
      | [] => []
      | [d] => [d]
      | d :: r => d :: '.' :: r
    mantissa ++ 'e' :: (toString (point - 1)).toList

def write (x : Binary64) : List Char :=
  let s := x.shortest
  (if x.negative then ['-'] else []) ++ writeDecimal (Nat.toDigits 10 s.1) s.2

end Binary64

end DistributionOperator
