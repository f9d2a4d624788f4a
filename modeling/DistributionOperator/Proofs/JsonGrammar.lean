import DistributionOperator.Proofs.JsonReadings

/-! The grammar of JSON, with the drafts that go with its texts. Its leaves are blanks, strings and
numbers, and what the reader makes of a leaf is what the grammar makes of it. -/

namespace DistributionOperator

namespace Grammar

open Draft Json

def Blanks (s : List Char) : Prop := ∀ c ∈ s, c = ' ' ∨ c = '\n' ∨ c = '\t' ∨ c = '\r'

structure Digits (s : List Char) : Prop where
  present : s ≠ []
  digits : ∀ c ∈ s, isDigit c = true

/-- Digits of which the first is a zero only if it is the only one. -/
structure Whole (s : List Char) : Prop extends Digits s where
  zero : s.head? = some '0' → s.length = 1

/-- What an exponent raises to, after its letter. -/
inductive Power : List Char → Int → Prop
  | bare {s} : Digits s → Power s (digitsValue s)
  | positive {s} : Digits s → Power ('+' :: s) (digitsValue s)
  | negative {s} : Digits s → Power ('-' :: s) (-(digitsValue s))

def floating (negative : Bool) (digits : Nat) (power : Int) : Option Number :=
  (Binary64.ofDecimal? negative digits power).map .float

/-- Numbers without their sign. -/
inductive Numeral (negative : Bool) : List Char → Option Number → Prop
  | whole {w} : Whole w → Numeral negative w (wholeNumber negative (digitsValue w))
  | power {w c e k} : Whole w → c = 'e' ∨ c = 'E' → Power e k →
    Numeral negative (w ++ c :: e) (floating negative (digitsValue w) k)
  | fraction {w p} : Whole w → Digits p →
    Numeral negative (w ++ '.' :: p) (floating negative (digitsValue (w ++ p)) (-p.length))
  | fractionPower {w p c e k} : Whole w → Digits p → c = 'e' ∨ c = 'E' → Power e k →
    Numeral negative (w ++ '.' :: (p ++ c :: e))
      (floating negative (digitsValue (w ++ p)) (k - p.length))

/-- What stands for a character in a string, or for half of a surrogate pair. -/
inductive Piece : List Char → Char ⊕ Nat → Prop
  | plain {c} : 0x20 ≤ c.toNat → c ≠ '"' → c ≠ '\\' → Piece [c] (.inl c)
  | escape {e c} : simpleEscape? e = some c → Piece ['\\', e] (.inl c)
  | unit {a b c d n} : fourHex? a b c d = some n → isHigh n = false → isLow n = false →
    Piece ['\\', 'u', a, b, c, d] (.inl (Char.ofNat n))
  | half {a b c d n} : fourHex? a b c d = some n → isHigh n = true ∨ isLow n = true →
    Piece ['\\', 'u', a, b, c, d] (.inr n)

/-- A string from within its quotes up to the second of them. -/
inductive Quoted : List Char → List (Char ⊕ Nat) → Prop
  | done : Quoted ['"'] []
  | next {p s x xs} : Piece p x → Quoted s xs → Quoted (p ++ s) (x :: xs)

/-- Characters, if the halves come in pairs. -/
def joined : List (Char ⊕ Nat) → Option (List Char)
  | [] => some []
  | .inl c :: xs => (joined xs).map (c :: ·)
  | .inr high :: .inr low :: xs =>
    if isHigh high && isLow low then (joined xs).map (joinHalves high low :: ·) else none
  | .inr _ :: _ => none

def stringOf (xs : List (Char ⊕ Nat)) : Option String := (joined xs).map String.ofList

mutual

inductive Value : List Char → Draft → Prop
  | null : Value ['n', 'u', 'l', 'l'] .null
  | isTrue : Value ['t', 'r', 'u', 'e'] (.bool true)
  | isFalse : Value ['f', 'a', 'l', 's', 'e'] (.bool false)
  | number {s n} : Numeral false s n → Value s (.number n)
  | negative {s n} : Numeral true s n → Value ('-' :: s) (.number n)
  | string {s xs} : Quoted s xs → Value ('"' :: s) (.string (stringOf xs))
  | emptyArray {b} : Blanks b → Value ('[' :: (b ++ [']'])) (.array [] none)
  | array {s ds} : Items s ds → Value ('[' :: s) (.array ds none)
  | emptyObject {b} : Blanks b → Value (opening :: (b ++ [closing])) (.object [] none none)
  | object {b s ms} : Blanks b → Members s ms →
    Value (opening :: (b ++ '"' :: s)) (.object ms none none)

/-- Items up to the bracket after them. -/
inductive Items : List Char → List Draft → Prop
  | last {a s b d} : Blanks a → Value s d → Blanks b → Items (a ++ (s ++ (b ++ [']']))) [d]
  | next {a s b t d ds} : Blanks a → Value s d → Blanks b → Items t ds →
    Items (a ++ (s ++ (b ++ ',' :: t))) (d :: ds)

/-- Members from within the quotes of the first key up to the brace after them. -/
inductive Members : List Char → List (Draft × Draft) → Prop
  | last {k a b s c xs d} : Quoted k xs → Blanks a → Blanks b → Value s d → Blanks c →
    Members (k ++ (a ++ ':' :: (b ++ (s ++ (c ++ [closing]))))) [(.string (stringOf xs), d)]
  | next {k a b s c e t xs d ms} : Quoted k xs → Blanks a → Blanks b → Value s d → Blanks c →
    Blanks e → Members t ms →
    Members (k ++ (a ++ ':' :: (b ++ (s ++ (c ++ ',' :: (e ++ '"' :: t))))))
      ((.string (stringOf xs), d) :: ms)

end

/-- A text that is JSON, and its draft. -/
def Derives (s : List Char) (d : Draft) : Prop :=
  ∃ a w b, s = a ++ (w ++ b) ∧ Blanks a ∧ Value w d ∧ Blanks b

variable {b s u w : List Char} {d : Draft} {n : Option Number} {negative : Bool}

theorem skipBlank_blanks (h : Blanks b) : skipBlank (b ++ s) = skipBlank s := by
  induction b with
  | nil => rfl
  | cons c b ih =>
    obtain ⟨hc, hb⟩ := List.forall_mem_cons.mp h
    have hblank : (c = ' ' || c = '\n' || c = '\t' || c = '\r') = true := by
      simpa [or_assoc] using hc
    rw [List.cons_append, skipBlank, List.dropWhile_cons, if_pos hblank]
    exact ih hb

theorem exists_blanks (s : List Char) : ∃ b, Blanks b ∧ s = b ++ skipBlank s := by
  refine ⟨_, fun c hc => ?_, List.takeWhile_append_dropWhile.symm⟩
  have hblank := List.all_eq_true.mp List.all_takeWhile c hc
  simpa [or_assoc] using hblank

theorem skipBlank_idem (s : List Char) : skipBlank (skipBlank s) = skipBlank s := by
  obtain ⟨b, hb, hs⟩ := exists_blanks s
  calc skipBlank (skipBlank s) = skipBlank (b ++ skipBlank s) := (skipBlank_blanks hb).symm
    _ = skipBlank s := by rw [← hs]

theorem blanks_of_skipBlank (h : skipBlank s = []) : Blanks s := by
  obtain ⟨b, hb, hs⟩ := exists_blanks s
  rw [h, List.append_nil] at hs
  rwa [hs]

variable {xs : List (Char ⊕ Nat)} {high : Option Nat} {lone : Bool} {seen r : List Char}

theorem readString_plain {c : Char} (hlow : 0x20 ≤ c.toNat) (hquote : c ≠ '"') (hslash : c ≠ '\\') :
    readString (c :: r) high lone seen = readString r none (lone || high.isSome) (c :: seen) := by
  have hplain := Nat.not_lt.mpr hlow
  simp [readString, hplain]

theorem readString_escape {e c : Char} (h : simpleEscape? e = some c) :
    readString ('\\' :: e :: r) high lone seen =
      readString r none (lone || high.isSome) (c :: seen) := by
  unfold simpleEscape? at h
  split at h <;> cases h <;> simp [readString, simpleEscape?]

theorem readString_unit {a b c d : Char} {n : Nat} (h : fourHex? a b c d = some n) :
    readString ('\\' :: 'u' :: a :: b :: c :: d :: r) high lone seen =
      match high with
      | some first =>
        if isLow n then readString r none lone (joinHalves first n :: seen)
        else readString r none true seen
      | none =>
        if isHigh n then readString r (some n) lone seen
        else if isLow n then readString r none true seen
        else readString r none lone (Char.ofNat n :: seen) := by
  cases high <;> simp [readString, h]

/-- A half that has stayed alone spoils a string, whatever follows. -/
theorem readString_spoilt (h : Quoted s xs) (high : Option Nat) (seen : List Char) :
    readString (s ++ u) high true seen = (.string none, some u) := by
  induction h generalizing high seen with
  | done => simp [readString]
  | next hp _ ih =>
    rw [List.append_assoc]
    cases hp with
    | plain hlow hquote hslash => exact (readString_plain hlow hquote hslash).trans (ih _ _)
    | escape he => exact (readString_escape he).trans (ih _ _)
    | unit hn | half hn =>
      refine (readString_unit hn).trans ?_
      split
      · split <;> exact ih _ _
      · split
        · exact ih _ _
        · split <;> exact ih _ _

theorem joined_of_not_high {n : Nat} (h : isHigh n = false) : joined (.inr n :: xs) = none := by
  cases xs with
  | nil => rfl
  | cons x xs => cases x <;> simp [joined, h]

theorem readString_quoted (h : Quoted s xs) (high : Option Nat) (seen : List Char)
    (hhigh : ∀ n ∈ high, isHigh n = true) :
    readString (s ++ u) high false seen =
      (.string ((joined (high.toList.map .inr ++ xs)).map fun cs =>
        String.ofList (seen.reverse ++ cs)), some u) := by
  induction h generalizing high seen with
  | done => cases high <;> simp [readString, joined]
  | next hp hs ih =>
    rw [List.append_assoc]
    cases hp with
    | plain hlow hquote hslash =>
      refine (readString_plain hlow hquote hslash).trans ?_
      -- a half that waits is left alone by whatever is not the other half
      cases high with
      | none => simp [ih, joined, Function.comp_def]
      | some first => simp [readString_spoilt hs, joined]
    | escape he =>
      refine (readString_escape he).trans ?_
      cases high with
      | none => simp [ih, joined, Function.comp_def]
      | some first => simp [readString_spoilt hs, joined]
    | unit hn hh hl =>
      refine (readString_unit hn).trans ?_
      cases high with
      | none => simp [hh, hl, ih, joined, Function.comp_def]
      | some first => simp [hl, readString_spoilt hs, joined]
    | @half _ _ _ _ n hn hor =>
      refine (readString_unit hn).trans ?_
      cases high with
      | none =>
        cases hh : isHigh n with
        | true => simp [ih (some n) seen (by simpa using hh)]
        | false =>
          have hl : isLow n = true := hor.resolve_left (by simp [hh])
          simp [hl, readString_spoilt hs, joined_of_not_high hh]
      | some first =>
        have hfirst : isHigh first = true := hhigh first rfl
        cases hl : isLow n with
        | true => simp [ih, joined, hfirst, hl, Function.comp_def]
        | false => simp [readString_spoilt hs, joined, hl]

theorem readString_start (h : Quoted s xs) :
    readString (s ++ u) none false [] = (.string (stringOf xs), some u) := by
  refine (readString_quoted h none [] (by simp)).trans ?_
  simp [stringOf]

/-- Whether a text begins with a string, and this follows it. -/
def QuotedBefore (s r : List Char) : Prop := ∃ w xs, s = w ++ r ∧ Quoted w xs

theorem QuotedBefore.next {p : List Char} {x : Char ⊕ Nat} (hp : Piece p x)
    (h : QuotedBefore s r) : QuotedBefore (p ++ s) r := by
  obtain ⟨w, xs, rfl, hw⟩ := h
  exact ⟨p ++ w, x :: xs, (List.append_assoc _ _ _).symm, .next hp hw⟩

theorem exists_piece {a b c d : Char} {n : Nat} (h : fourHex? a b c d = some n) :
    ∃ x, Piece ['\\', 'u', a, b, c, d] x := by
  cases hh : isHigh n with
  | true => exact ⟨_, .half h (.inl hh)⟩
  | false =>
    cases hl : isLow n with
    | true => exact ⟨_, .half h (.inr hl)⟩
    | false => exact ⟨_, .unit h hh hl⟩

theorem quotedBefore_of_readString (h : readString s high lone seen = (d, some r)) :
    QuotedBefore s r := by
  fun_induction readString s high lone seen with
  | case2 high lone seen rest =>
    cases h
    exact ⟨['"'], [], rfl, .done⟩
  | case5 _ _ _ _ _ _ _ _ hn _ _ ih | case6 _ _ _ _ _ _ _ _ hn _ _ ih
  | case7 _ _ _ _ _ _ _ _ hn _ ih | case8 _ _ _ _ _ _ _ _ hn _ _ ih
  | case9 _ _ _ _ _ _ _ _ hn _ _ ih =>
    obtain ⟨x, hx⟩ := exists_piece hn
    exact (ih h).next hx
  | case12 _ _ _ _ _ _ _ _ he ih => exact (ih h).next (.escape he)
  | case14 _ _ _ _ _ hquote hslash hlow ih =>
    exact (ih h).next (.plain (Nat.not_lt.mp hlow) hquote hslash)
  | _ => cases h

theorem readString_faulty (h : readString s high lone seen = (d, none)) :
    d.skipFault? ≠ none := by
  fun_induction readString s high lone seen with
  | case2 => cases h
  | case5 _ _ _ _ _ _ _ _ _ _ _ ih | case6 _ _ _ _ _ _ _ _ _ _ _ ih
  | case7 _ _ _ _ _ _ _ _ _ _ ih | case8 _ _ _ _ _ _ _ _ _ _ _ ih
  | case9 _ _ _ _ _ _ _ _ _ _ _ ih | case12 _ _ _ _ _ _ _ _ _ ih
  | case14 _ _ _ _ _ _ _ _ ih => exact ih h
  | _ =>
    cases h
    simp [skipFault?]

theorem Digits.lead (h : Digits s) : ∃ c t, s = c :: t ∧ isDigit c = true := by
  obtain ⟨c, t, rfl⟩ := List.exists_cons_of_ne_nil h.present
  exact ⟨c, t, rfl, h.digits c List.mem_cons_self⟩

theorem Digits.takeWhile (h : Digits s) (hu : ∀ c ∈ u.head?, isDigit c = false) :
    (s ++ u).takeWhile isDigit = s := Timestamp.takeWhile_digits h.digits hu

theorem Digits.dropWhile (h : Digits s) (hu : ∀ c ∈ u.head?, isDigit c = false) :
    (s ++ u).dropWhile isDigit = u := Timestamp.dropWhile_digits h.digits hu

theorem digits_takeWhile (h : (s.takeWhile isDigit).isEmpty = false) :
    Digits (s.takeWhile isDigit) where
  present := by simpa using h
  digits := List.all_eq_true.mp List.all_takeWhile

theorem split_digits (s : List Char) : s = s.takeWhile isDigit ++ s.dropWhile isDigit :=
  List.takeWhile_append_dropWhile.symm

theorem readExponent_power {e : List Char} {k : Int} (h : Power e k) (digits places : Nat)
    (hu : ∀ c ∈ u.head?, isDigit c = false) :
    readExponent negative digits places (e ++ u) =
      (.number (floating negative digits (k - places)), some u) := by
  cases h with
  | bare hs =>
    have htake := hs.takeWhile hu
    have hdrop := hs.dropWhile hu
    obtain ⟨c, t, rfl, hdigit⟩ := hs.lead
    have hplus : c ≠ '+' := by
      rintro rfl
      cases hdigit
    have hminus : c ≠ '-' := by
      rintro rfl
      cases hdigit
    rw [List.cons_append] at htake hdrop
    simp [readExponent, hplus, hminus, htake, hdrop, floating]
  | positive hs => simp [readExponent, hs.takeWhile hu, hs.dropWhile hu, hs.present, floating]
  | negative hs => simp [readExponent, hs.takeWhile hu, hs.dropWhile hu, hs.present, floating]

theorem readFraction_digits {w p : List Char} (hp : Digits p) (hu : Ends u) :
    readFraction negative w (p ++ u) =
      (.number (floating negative (digitsValue (w ++ p)) (-p.length)), some u) := by
  have hdigit : ∀ c ∈ u.head?, isDigit c = false := fun c hc => (hu c hc).1
  simp only [readFraction, hp.takeWhile hdigit, hp.dropWhile hdigit]
  cases u with
  | nil => simp [hp.present, floating]
  | cons c r =>
    obtain ⟨_, _, hlower, hupper⟩ := hu c rfl
    simp [hp.present, hlower, hupper, floating]

theorem readFraction_power {w p e : List Char} {c : Char} {k : Int} (hp : Digits p)
    (hc : c = 'e' ∨ c = 'E') (he : Power e k) (hu : ∀ c ∈ u.head?, isDigit c = false) :
    readFraction negative w (p ++ c :: (e ++ u)) =
      (.number (floating negative (digitsValue (w ++ p)) (k - p.length)), some u) := by
  have hdigit : ∀ c' ∈ (c :: (e ++ u)).head?, isDigit c' = false := by
    rintro _ ⟨⟩
    rcases hc with rfl | rfl <;> rfl
  simp only [readFraction, hp.takeWhile hdigit, hp.dropWhile hdigit]
  rcases hc with rfl | rfl <;> simpa [hp.present] using readExponent_power he _ _ hu

/-- What is read after the whole part of a number. -/
def readAfter (negative : Bool) (w : List Char) : List Char → Draft × Option (List Char)
  | '.' :: r => readFraction negative w r
  | 'e' :: r | 'E' :: r => readExponent negative (digitsValue w) 0 r
  | r => (.number (wholeNumber negative (digitsValue w)), some r)

theorem readDigits_whole (hw : Whole w) (hu : ∀ c ∈ u.head?, isDigit c = false) :
    readDigits negative (w ++ u) = readAfter negative w u := by
  have hzero : ¬(w.head? = some '0' && 1 < w.length) := by
    simp only [Bool.and_eq_true, decide_eq_true_eq, not_and]
    intro hlead
    have hone := hw.zero hlead
    omega
  have hsome : w.isEmpty = false := by simpa using hw.present
  simp only [readDigits, hw.takeWhile hu, hw.dropWhile hu, hzero, hsome]
  rfl

theorem readAfter_end (hu : Ends u) :
    readAfter negative w u = (.number (wholeNumber negative (digitsValue w)), some u) := by
  cases u with
  | nil => rfl
  | cons c r =>
    obtain ⟨_, hpoint, hlower, hupper⟩ := hu c rfl
    simp [readAfter, hpoint, hlower, hupper]

theorem readDigits_numeral (h : Numeral negative w n) (hu : Ends u) :
    readDigits negative (w ++ u) = (.number n, some u) := by
  have hend : ∀ c ∈ u.head?, isDigit c = false := fun c hc => (hu c hc).1
  have hpoint : ∀ {t : List Char}, ∀ c' ∈ ('.' :: t).head?, isDigit c' = false := by
    rintro t _ ⟨⟩
    rfl
  cases h with
  | whole hw => exact (readDigits_whole hw hend).trans (readAfter_end hu)
  | @power w _ e k hw hc he =>
    have hread : readExponent negative (digitsValue w) 0 (e ++ u) =
        (.number (floating negative (digitsValue w) k), some u) := by
      simpa using readExponent_power he (digitsValue w) 0 hend
    rw [List.append_assoc]
    rcases hc with rfl | rfl
    · exact (readDigits_whole hw (by rintro _ ⟨⟩; rfl)).trans hread
    · exact (readDigits_whole hw (by rintro _ ⟨⟩; rfl)).trans hread
  | fraction hw hp =>
    rw [List.append_assoc]
    exact (readDigits_whole hw hpoint).trans (readFraction_digits hp hu)
  | fractionPower hw hp hc he =>
    rw [List.append_assoc, List.cons_append, List.append_assoc, List.cons_append]
    exact (readDigits_whole hw hpoint).trans (readFraction_power hp hc he hend)

theorem power_of_readExponent {digits places : Nat}
    (h : readExponent negative digits places s = (d, some r)) :
    ∃ e k, s = e ++ r ∧ Power e k ∧ d = .number (floating negative digits (k - places)) := by
  unfold readExponent at h
  split at h <;> dsimp only at h <;> split at h
  · cases h
  · rename_i t hsome
    have ht : Digits (t.takeWhile isDigit) := digits_takeWhile (by simpa using hsome)
    cases h
    exact ⟨_, _, congrArg ('+' :: ·) (split_digits t), .positive ht, rfl⟩
  · cases h
  · rename_i t hsome
    have ht : Digits (t.takeWhile isDigit) := digits_takeWhile (by simpa using hsome)
    cases h
    exact ⟨_, _, congrArg ('-' :: ·) (split_digits t), .negative ht, rfl⟩
  · cases h
  · rename_i hsome
    have hs : Digits (s.takeWhile isDigit) := digits_takeWhile (by simpa using hsome)
    cases h
    exact ⟨_, _, split_digits s, .bare hs, rfl⟩

/-- Whether a text begins with a number, and this follows it. -/
def NumeralBefore (negative : Bool) (s r : List Char) (d : Draft) : Prop :=
  ∃ w n, s = w ++ r ∧ Numeral negative w n ∧ d = .number n

theorem numeralBefore_of_readFraction (hw : Whole w)
    (h : readFraction negative w s = (d, some r)) :
    NumeralBefore negative (w ++ '.' :: s) r d := by
  unfold readFraction at h
  dsimp only at h
  split at h
  · cases h
  · rename_i hsome
    obtain ⟨p, hp⟩ : ∃ p, p = s.takeWhile isDigit := ⟨_, rfl⟩
    have hdigits : Digits p := hp ▸ digits_takeWhile (by simpa using hsome)
    have hs : s = p ++ s.dropWhile isDigit := hp ▸ split_digits s
    rw [← hp] at h
    have hpower : ∀ {c : Char} {t : List Char}, c = 'e' ∨ c = 'E' → s.dropWhile isDigit = c :: t →
        readExponent negative (digitsValue (w ++ p)) p.length t = (d, some r) →
        NumeralBefore negative (w ++ '.' :: s) r d := by
      intro c t hc ht hread
      obtain ⟨e, k, rfl, he, rfl⟩ := power_of_readExponent hread
      refine ⟨w ++ '.' :: (p ++ c :: e), _, ?_, .fractionPower hw hdigits hc he, rfl⟩
      rw [hs, ht]
      simp
    split at h
    · rename_i ht
      exact hpower (.inl rfl) ht h
    · rename_i ht
      exact hpower (.inr rfl) ht h
    · cases h
      exact ⟨w ++ '.' :: p, _, by simpa using hs, .fraction hw hdigits, rfl⟩

theorem numeralBefore_of_readDigits (h : readDigits negative s = (d, some r)) :
    NumeralBefore negative s r d := by
  unfold readDigits at h
  dsimp only at h
  split at h
  · cases h
  · rename_i hsome
    split at h
    · cases h
    · rename_i hzero
      obtain ⟨w, hw⟩ : ∃ w, w = s.takeWhile isDigit := ⟨_, rfl⟩
      have hwhole : Whole w :=
        { toDigits := hw ▸ digits_takeWhile (by simpa using hsome)
          zero := fun hlead => by
            rw [← hw] at hzero hsome
            have hlong : ¬1 < w.length := by simpa [hlead] using hzero
            have hpresent : 0 < w.length := List.length_pos_of_ne_nil (by simpa using hsome)
            omega }
      have hs : s = w ++ s.dropWhile isDigit := hw ▸ split_digits s
      rw [← hw] at h
      have hpower : ∀ {c : Char} {t : List Char}, c = 'e' ∨ c = 'E' →
          s.dropWhile isDigit = c :: t →
          readExponent negative (digitsValue w) 0 t = (d, some r) →
          NumeralBefore negative s r d := by
        intro c t hc ht hread
        obtain ⟨e, k, rfl, he, rfl⟩ := power_of_readExponent hread
        refine ⟨w ++ c :: e, _, ?_, .power hwhole hc he, by simp⟩
        rw [hs, ht]
        simp
      split at h
      · rename_i ht
        rw [hs, ht]
        exact numeralBefore_of_readFraction hwhole h
      · rename_i ht
        exact hpower (.inl rfl) ht h
      · rename_i ht
        exact hpower (.inr rfl) ht h
      · cases h
        exact ⟨w, _, hs, .whole hwhole, rfl⟩

theorem faulty_of_fault {f g k : Fault} {rest : Option (List Char)}
    (h : (Draft.fault f g k, rest) = (d, none)) : d.skipFault? ≠ none := by
  cases h
  simp [skipFault?]

theorem readExponent_faulty {digits places : Nat}
    (h : readExponent negative digits places s = (d, none)) : d.skipFault? ≠ none := by
  unfold readExponent at h
  split at h <;> dsimp only at h <;> split at h
  all_goals first | exact faulty_of_fault h | cases h

theorem readFraction_faulty (h : readFraction negative w s = (d, none)) : d.skipFault? ≠ none := by
  unfold readFraction at h
  dsimp only at h
  split at h
  · exact faulty_of_fault h
  · split at h
    · exact readExponent_faulty h
    · exact readExponent_faulty h
    · cases h

theorem readDigits_faulty (h : readDigits negative s = (d, none)) : d.skipFault? ≠ none := by
  unfold readDigits at h
  dsimp only at h
  split at h
  · exact faulty_of_fault h
  · split at h
    · exact faulty_of_fault h
    · split at h
      · exact readFraction_faulty h
      · exact readExponent_faulty h
      · exact readExponent_faulty h
      · cases h

end Grammar

end DistributionOperator
