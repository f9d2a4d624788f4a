import DistributionOperator.Json.Draft
import DistributionOperator.Proofs.JsonTexts
import DistributionOperator.Proofs.Timestamps

/-! The reader of JSON texts reads what the writer has written. The text of a value is followed by
something that ends a number, and the reader stops right before it. Numbers must be whole and fit
into 64 bits, as the reader takes all others for floating. -/

namespace DistributionOperator

namespace Json

mutual

/-- No numbers but whole ones of 64 bits, with a sign or without, at any depth. -/
def Readable : Json → Prop
  | .number (.int n) => -9223372036854775808 ≤ n ∧ n ≤ 18446744073709551615
  | .number (.float _) => False
  | .array items => ReadableItems items
  | .object members => ReadableMembers members
  | _ => True

def ReadableItems : List Json → Prop
  | [] => True
  | j :: r => Readable j ∧ ReadableItems r

def ReadableMembers : List (String × Json) → Prop
  | [] => True
  | (_, j) :: r => Readable j ∧ ReadableMembers r

end

theorem readableItems_iff {items : List Json} :
    ReadableItems items ↔ ∀ j ∈ items, j.Readable := by
  induction items with
  | nil => simp [ReadableItems]
  | cons j r ih => simp [ReadableItems, ih]

theorem readableMembers_iff {members : List (String × Json)} :
    ReadableMembers members ↔ ∀ m ∈ members, m.2.Readable := by
  induction members with
  | nil => simp [ReadableMembers]
  | cons m r ih => simp [ReadableMembers, ih]

mutual

theorem Readable.whole : {j : Json} → j.Readable → j.Whole
  | .null, _ | .bool _, _ | .number (.int _), _ | .string _, _ => trivial
  | .number (.float _), h => h
  | .array _, h => ReadableItems.whole h
  | .object _, h => ReadableMembers.whole h

theorem ReadableItems.whole : {items : List Json} → ReadableItems items → WholeItems items
  | [], _ => trivial
  | _ :: _, h => ⟨h.1.whole, ReadableItems.whole h.2⟩

theorem ReadableMembers.whole : {members : List (String × Json)} → ReadableMembers members →
    WholeMembers members
  | [], _ => trivial
  | (_, _) :: _, h => ⟨h.1.whole, ReadableMembers.whole h.2⟩

end

mutual

theorem toDraft_inj : (a b : Json) → a.toDraft = b.toDraft → a = b
  | .null, b, h | .bool _, b, h | .number _, b, h | .string _, b, h => by
    cases b <;> simp_all [toDraft]
  | .array items, b, h => by
    cases b with
    | array items' => exact congrArg array (draftItems_inj items items' (by simpa [toDraft] using h))
    | _ => simp [toDraft] at h
  | .object members, b, h => by
    cases b with
    | object members' =>
      exact congrArg object (draftMembers_inj members members' (by simpa [toDraft] using h))
    | _ => simp [toDraft] at h

theorem draftItems_inj : (a b : List Json) → draftItems a = draftItems b → a = b
  | [], b, h => by cases b <;> simp_all [draftItems]
  | _ :: _, [], h => by simp [draftItems] at h
  | x :: r, y :: s, h => by
    simp only [draftItems, List.cons.injEq] at h
    rw [toDraft_inj x y h.1, draftItems_inj r s h.2]

theorem draftMembers_inj : (a b : List (String × Json)) → draftMembers a = draftMembers b → a = b
  | [], b, h => by cases b <;> simp_all [draftMembers]
  | _ :: _, [], h => by simp [draftMembers] at h
  | (j, x) :: r, (k, y) :: s, h => by
    simp only [draftMembers, List.cons.injEq, Prod.mk.injEq, Draft.string.injEq,
      Option.some.injEq] at h
    rw [h.1.1, toDraft_inj x y h.1.2, draftMembers_inj r s h.2]

end

end Json

namespace Draft

open Json

/-- Whether what comes next ends a number before it. -/
def Ends (u : List Char) : Prop :=
  ∀ c ∈ u.head?, isDigit c = false ∧ c ≠ '.' ∧ c ≠ 'e' ∧ c ≠ 'E'

theorem fourHex?_hexDigit : ∀ n < 0x20,
    fourHex? '0' '0' (hexDigit (n / 16)) (hexDigit (n % 16)) = some n ∧
      isHigh n = false ∧ isLow n = false := by
  decide

theorem readString_escapeChar (c : Char) (r seen : List Char) :
    readString (escapeChar c ++ r) none false seen = readString r none false (c :: seen) := by
  unfold escapeChar
  split
  · simp [readString, simpleEscape?]
  · simp [readString, simpleEscape?]
  · simp [readString, simpleEscape?]
  · simp [readString, simpleEscape?]
  · simp [readString, simpleEscape?]
  · simp [readString, simpleEscape?]
  · simp [readString, simpleEscape?]
  · split
    · rename_i hlow
      obtain ⟨hfour, hhigh, hlone⟩ := fourHex?_hexDigit c.toNat hlow
      simp [readString, hfour, hhigh, hlone]
    · rename_i hplain
      simp [readString, hplain]

theorem readString_escaped (s u seen : List Char) :
    readString (s.flatMap escapeChar ++ '"' :: u) none false seen =
      (.string (some (String.ofList (seen.reverse ++ s))), some u) := by
  induction s generalizing seen with
  | nil => simp [readString]
  | cons c r ih =>
    rw [List.flatMap_cons, List.append_assoc, readString_escapeChar, ih]
    simp

theorem isDigit_toDigits {n : Nat} {c : Char} (h : c ∈ Nat.toDigits 10 n) : isDigit c = true :=
  Nat.isDigit_of_mem_toDigits (by decide) (by decide) h

theorem digitsValue_toDigits (n : Nat) : digitsValue (Nat.toDigits 10 n) = n :=
  (Timestamp.value_eq _).trans Nat.ofDigitChars_ten_toDigits

/-- Only zero starts with a zero. -/
theorem head_toDigits {n : Nat} (h : (Nat.toDigits 10 n).head? = some '0') : n = 0 := by
  have hdigit : ∀ n < 10, [Nat.digitChar n].head? = some '0' → n = 0 := by decide
  induction n using Nat.strongRecOn with
  | ind n ih =>
    by_cases hlow : n < 10
    · rw [Nat.toDigits_of_lt_base hlow] at h
      exact hdigit n hlow h
    · rw [Nat.toDigits_of_base_le (by decide) (by omega),
        List.head?_append_of_ne_nil _ Nat.toDigits_ne_nil] at h
      have hsmall := ih (n / 10) (by omega) h
      omega

theorem readDigits_toDigits (negative : Bool) (n : Nat) {u : List Char} (hu : Ends u) :
    readDigits negative (Nat.toDigits 10 n ++ u) =
      (.number (wholeNumber negative n), some u) := by
  have htake : (Nat.toDigits 10 n ++ u).takeWhile isDigit = Nat.toDigits 10 n :=
    Timestamp.takeWhile_digits (fun _ => isDigit_toDigits) fun c hc => (hu c hc).1
  have hdrop : (Nat.toDigits 10 n ++ u).dropWhile isDigit = u :=
    Timestamp.dropWhile_digits (fun _ => isDigit_toDigits) fun c hc => (hu c hc).1
  have hzero : ¬((Nat.toDigits 10 n).head? = some '0' && 1 < (Nat.toDigits 10 n).length) := by
    intro h
    simp only [Bool.and_eq_true, decide_eq_true_eq] at h
    rw [head_toDigits h.1] at h
    simp at h
  unfold readDigits
  dsimp only
  rw [htake, hdrop, if_neg (by simp [Nat.toDigits_ne_nil]), if_neg hzero,
    digitsValue_toDigits]
  cases u with
  | nil => rfl
  | cons c r =>
    obtain ⟨_, hpoint, hlower, hupper⟩ := hu c rfl
    split
    · rename_i heq
      exact absurd (List.cons.inj heq).1 hpoint
    · rename_i heq
      exact absurd (List.cons.inj heq).1 hlower
    · rename_i heq
      exact absurd (List.cons.inj heq).1 hupper
    · rfl

theorem skipBlank_cons {c : Char} (r : List Char) (hspace : c ≠ ' ') (hline : c ≠ '\n')
    (htab : c ≠ '\t') (hreturn : c ≠ '\r') : skipBlank (c :: r) = c :: r := by
  simp [skipBlank, hspace, hline, htab, hreturn]

theorem skipBlank_write {j : Json} (h : j.Whole) (u : List Char) :
    skipBlank (j.write ++ u) = j.write ++ u ∧ ∃ c r, j.write ++ u = c :: r ∧ c ≠ ']' := by
  have hlead := ofText_write h u
  cases hw : j.write ++ u with
  | nil =>
    rw [hw] at hlead
    cases hlead
  | cons c r =>
    rw [hw] at hlead
    have hne : ∀ d, Lead.ofText [d] = none → c ≠ d := by
      rintro d hd rfl
      have hsame : Lead.ofText (c :: r) = Lead.ofText [c] := rfl
      rw [hsame, hd] at hlead
      cases hlead
    exact ⟨skipBlank_cons r (hne ' ' (by decide)) (hne '\n' (by decide)) (hne '\t' (by decide))
      (hne '\r' (by decide)), c, r, rfl, hne ']' (by decide)⟩

theorem ends_of_mark {u : List Char} {c : Char} (hc : c = ',' ∨ c = ']' ∨ c = closing) :
    Ends (c :: u) := by
  rintro _ ⟨⟩
  rcases hc with rfl | rfl | rfl <;> decide

theorem ends_writeItems (l : List Json) (u : List Char) : Ends (writeItems l ++ u) := by
  cases l <;> exact ends_of_mark (by decide)

theorem ends_writeMembers (l : List (String × Json)) (u : List Char) :
    Ends (writeMembers l ++ u) := by
  cases l <;> exact ends_of_mark (by decide)

theorem writeItems_pos (l : List Json) : 0 < (writeItems l).length := by
  cases l <;> simp [writeItems]

/-- Digits are read as a number without a sign. -/
theorem readValue_digits (fuel : Nat) {ds : List Char} (hd : ∀ c ∈ ds, isDigit c = true)
    (hne : ds ≠ []) (u : List Char) :
    readValue (fuel + 1) (ds ++ u) = readDigits false (ds ++ u) := by
  cases ds with
  | nil => exact absurd rfl hne
  | cons c r =>
    have hdigit : isDigit c = true := hd c List.mem_cons_self
    have hother : ∀ d, isDigit d = false → c ≠ d := by
      rintro d hno rfl
      rw [hdigit] at hno
      cases hno
    have hblank := skipBlank_cons (r ++ u) (hother ' ' rfl) (hother '\n' rfl) (hother '\t' rfl)
      (hother '\r' rfl)
    rw [List.cons_append, readValue, hblank]
    simp [hother 'n' rfl, hother 't' rfl, hother 'f' rfl, hother '"' rfl, hother '-' rfl,
      hother '[' rfl, hother opening rfl, hdigit]

theorem readNumber_write {n : Int} (hn : (Json.number (.int n)).Readable) (fuel : Nat)
    {u : List Char} (hu : Ends u) :
    readValue (fuel + 1) ((toString n).toList ++ u) = (.number (some (.int n)), some u) := by
  obtain ⟨hlow, hhigh⟩ : -9223372036854775808 ≤ n ∧ n ≤ 18446744073709551615 := hn
  cases n with
  | ofNat m =>
    have htext : (toString (Int.ofNat m)).toList = Nat.toDigits 10 m := Nat.toList_repr
    have hwhole : wholeNumber false m = some (.int m) := by
      have hm : ¬18446744073709551615 < m := by
        simp only [Int.ofNat_eq_natCast] at hhigh
        omega
      simp [wholeNumber, hm]
    rw [htext, readValue_digits fuel (fun _ => isDigit_toDigits) Nat.toDigits_ne_nil,
      readDigits_toDigits false m hu, hwhole]
    rfl
  | negSucc m =>
    have htext : (toString (Int.negSucc m)).toList = '-' :: Nat.toDigits 10 (m + 1) := by
      show ("-" ++ Nat.repr (m + 1)).toList = _
      simp [Nat.toList_repr]
    have hwhole : wholeNumber true (m + 1) = some (.int (Int.negSucc m)) := by
      have hm : ¬9223372036854775808 < m + 1 := by omega
      simp [wholeNumber, hm, Int.negSucc_eq]
    rw [htext]
    exact (readDigits_toDigits true (m + 1) hu).trans (by rw [hwhole])

theorem readArray_write {j : Json} {r : List Json} (hj : j.Readable) {fuel : Nat} {u : List Char}
    (hitems : readItems fuel ((writeItems (j :: r)).tail ++ u) =
      (draftItems (j :: r), none, some u)) :
    readValue (fuel + 1) ((Json.array (j :: r)).write ++ u) =
      ((Json.array (j :: r)).toDraft, some u) := by
  obtain ⟨hblank, c, rest, hcons, hc⟩ := skipBlank_write hj.whole (writeItems r ++ u)
  have hwrite : (Json.array (j :: r)).write ++ u = '[' :: c :: rest := by
    simp [write, ← hcons]
  have htail : (writeItems (j :: r)).tail ++ u = c :: rest := by
    simp [writeItems, ← hcons]
  have hopen : skipBlank ('[' :: c :: rest) = '[' :: c :: rest := rfl
  rw [hcons] at hblank
  rw [htail] at hitems
  rw [hwrite]
  simp [readValue, hopen, hblank, hc, hitems, toDraft]

theorem readObject_write {k : String} {j : Json} {r : List (String × Json)} {fuel : Nat}
    {u : List Char}
    (hmembers : readMembers fuel ((writeMembers ((k, j) :: r)).tail.tail ++ u) =
      (draftMembers ((k, j) :: r), none, some u)) :
    readValue (fuel + 1) ((Json.object ((k, j) :: r)).write ++ u) =
      ((Json.object ((k, j) :: r)).toDraft, some u) := by
  have hwrite : (Json.object ((k, j) :: r)).write ++ u =
      '\x7b' :: '"' :: ((writeMembers ((k, j) :: r)).tail.tail ++ u) := by
    simp [write, writeMembers, writeString, opening]
  rw [hwrite]
  show ((Draft.object (readMembers fuel _).1 (readMembers fuel _).2.1 none),
    (readMembers fuel _).2.2) = _
  rw [hmembers]
  rfl

mutual

theorem readValue_write : (j : Json) → j.Readable → (fuel : Nat) → j.write.length < fuel →
    {u : List Char} → Ends u → readValue fuel (j.write ++ u) = (j.toDraft, some u)
  | .null, _, _ + 1, _, _, _ => rfl
  | .bool true, _, _ + 1, _, _, _ => rfl
  | .bool false, _, _ + 1, _, _, _ => rfl
  | .number (.int _), hn, fuel + 1, _, _, hu => readNumber_write hn fuel hu
  | .number (.float _), h, _, _, _, _ => h.elim
  | .string s, _, _ + 1, _, u, _ => by
    have hs := readString_escaped s.toList u []
    simp only [write, writeString, toDraft, List.cons_append, List.append_assoc, List.nil_append]
    show readString _ none false [] = _
    rw [hs]
    simp
  | .array [], _, _ + 1, _, _, _ => rfl
  | .array (j :: r), h, fuel + 1, hfuel, u, _ =>
    readArray_write h.1 (readItems_write (j :: r) h (List.cons_ne_nil j r) fuel (by
      simp only [write, writeItems, List.length_append, List.length_cons] at hfuel ⊢
      omega) u)
  | .object [], _, fuel + 1, _, _, _ => by
    simp [write, readValue, opening, closing, skipBlank, toDraft, draftMembers]
  | .object ((k, j) :: r), h, fuel + 1, hfuel, u, _ =>
    readObject_write (readMembers_write ((k, j) :: r) h (List.cons_ne_nil (k, j) r) fuel (by
      simp only [write, writeMembers, List.length_append, List.length_cons] at hfuel ⊢
      omega) u)

/-- The items from the first on, without the comma that would stand before them. -/
theorem readItems_write : (l : List Json) → ReadableItems l → l ≠ [] → (fuel : Nat) →
    (writeItems l).length ≤ fuel → (u : List Char) →
    readItems fuel ((writeItems l).tail ++ u) = (draftItems l, none, some u)
  | [], _, hne, _, _, _ => absurd rfl hne
  | j :: r, hl, _, fuel + 1, hfuel, u => by
    have hlength : j.write.length + (writeItems r).length ≤ fuel := by
      simpa [writeItems] using hfuel
    have hvalue := readValue_write j hl.1 fuel (by
      have := writeItems_pos r
      omega) (ends_writeItems r u)
    have htail : (writeItems (j :: r)).tail ++ u = j.write ++ (writeItems r ++ u) := by
      simp [writeItems]
    rw [htail, readItems, hvalue]
    cases r with
    | nil => rfl
    | cons i r =>
      have hmore := readItems_write (i :: r) hl.2 (List.cons_ne_nil i r) fuel (by omega) u
      exact congrArg (fun more => (j.toDraft :: more.1, more.2)) hmore

/-- The members from the first key on, without the quote that begins it and the comma that would
stand before that. -/
theorem readMembers_write : (l : List (String × Json)) → ReadableMembers l → l ≠ [] →
    (fuel : Nat) → (writeMembers l).length ≤ fuel → (u : List Char) →
    readMembers fuel ((writeMembers l).tail.tail ++ u) = (draftMembers l, none, some u)
  | [], _, hne, _, _, _ => absurd rfl hne
  | (k, j) :: r, hl, _, fuel + 1, hfuel, u => by
    have hlength : j.write.length + (writeMembers r).length < fuel := by
      simp [writeMembers, writeString] at hfuel
      omega
    have hvalue := readValue_write j hl.1 fuel (by omega) (ends_writeMembers r u)
    have htail : (writeMembers ((k, j) :: r)).tail.tail ++ u =
        k.toList.flatMap escapeChar ++ '"' :: ':' :: (j.write ++ (writeMembers r ++ u)) := by
      simp [writeMembers, writeString]
    have hcolon : ∀ s, skipBlank (':' :: s) = ':' :: s := fun s => rfl
    rw [htail, readMembers, readString_escaped]
    simp only [hcolon, hvalue, List.reverse_nil, List.nil_append, String.ofList_toList]
    cases r with
    | nil => simp [writeMembers, skipBlank, closing, draftMembers]
    | cons m r =>
      have hmore := readMembers_write (m :: r) hl.2 (List.cons_ne_nil m r) fuel (by omega) u
      exact congrArg (fun more => ((Draft.string (some k), j.toDraft) :: more.1, more.2)) hmore

end

/-- A text that was written is the draft of its value, with nothing after it. -/
theorem ofText_text {j : Json} (h : j.Readable) : ofText j.text = (j.toDraft, false) := by
  have hread := readValue_write j h (2 * j.write.length + 2) (by omega) (u := []) (by simp [Ends])
  rw [List.append_nil] at hread
  simp [ofText, text, hread, skipBlank]

end Draft

theorem Json.Readable.text_inj {a b : Json} (ha : a.Readable) (hb : b.Readable)
    (h : a.text = b.text) : a = b := by
  have hread : (a.toDraft, false) = (b.toDraft, false) := by
    rw [← Draft.ofText_text ha, h, Draft.ofText_text hb]
  exact toDraft_inj a b (congrArg Prod.fst hread)

end DistributionOperator
