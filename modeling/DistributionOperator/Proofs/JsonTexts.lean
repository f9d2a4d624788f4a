import DistributionOperator.Proofs.JsonShapes
import DistributionOperator.Reconcile.Apply

/-! The compact text of a value without floating numbers says which value it is. Reading goes from
the left: the first character tells what kind of value comes, a text between quotes ends at the
first quote that is not escaped, and a number goes on as long as there are numerals. -/

namespace DistributionOperator

namespace Json

def hexValue (c : Char) : Nat := if c.isDigit then c.toNat - '0'.toNat else c.toNat - 'a'.toNat + 10

/-- The character that a backslash stands for together with what follows it. -/
def readEscape : List Char → Option (Char × List Char)
  | [] => none
  | 'b' :: r => some ('\x08', r)
  | 'f' :: r => some ('\x0c', r)
  | 'n' :: r => some ('\n', r)
  | 'r' :: r => some ('\r', r)
  | 't' :: r => some ('\t', r)
  | 'u' :: _ :: _ :: a :: b :: r => some (Char.ofNat (16 * hexValue a + hexValue b), r)
  | c :: r => some (c, r)

def readChar : List Char → Option (Char × List Char)
  | [] => none
  | c :: r => if c = '\\' then readEscape r else some (c, r)

theorem hexValue_hexDigit : ∀ n < 0x20,
    Char.ofNat (16 * hexValue (hexDigit (n / 16)) + hexValue (hexDigit (n % 16))) =
      Char.ofNat n := by
  decide

theorem readChar_escapeChar (c : Char) (r : List Char) :
    readChar (escapeChar c ++ r) = some (c, r) := by
  unfold escapeChar
  split
  · rfl
  · rfl
  · rfl
  · rfl
  · rfl
  · rfl
  · rfl
  · rename_i hslash _ _ _ _ _
    split
    · rename_i hlow
      simp [readChar, readEscape, hexValue_hexDigit c.toNat hlow]
    · have hne : c ≠ '\\' := hslash
      simp [readChar, hne]

theorem escapeChar_append_inj {c c' : Char} {u v : List Char}
    (h : escapeChar c ++ u = escapeChar c' ++ v) : c = c' ∧ u = v := by
  have hread := congrArg readChar h
  rw [readChar_escapeChar, readChar_escapeChar] at hread
  simpa using hread

theorem escapeChar_ne_quote (c : Char) (u v : List Char) : escapeChar c ++ u ≠ '"' :: v := by
  intro h
  have hread := congrArg readChar h
  rw [readChar_escapeChar] at hread
  have hc : c = '"' := by
    simp [readChar] at hread
    exact hread.1
  subst hc
  simp [escapeChar] at h

theorem escaped_append_inj {l l' u v : List Char}
    (h : l.flatMap escapeChar ++ '"' :: u = l'.flatMap escapeChar ++ '"' :: v) :
    l = l' ∧ u = v := by
  induction l generalizing l' with
  | nil =>
    cases l' with
    | nil => simpa using h
    | cons c r =>
      simp only [List.flatMap_nil, List.nil_append, List.flatMap_cons, List.append_assoc] at h
      exact absurd h.symm (escapeChar_ne_quote c _ _)
  | cons c r ih =>
    cases l' with
    | nil =>
      simp only [List.flatMap_nil, List.nil_append, List.flatMap_cons, List.append_assoc] at h
      exact absurd h (escapeChar_ne_quote c _ _)
    | cons c' r' =>
      simp only [List.flatMap_cons, List.append_assoc] at h
      obtain ⟨rfl, hr⟩ := escapeChar_append_inj h
      obtain ⟨rfl, huv⟩ := ih hr
      exact ⟨rfl, huv⟩

theorem writeString_append_inj {s s' : String} {u v : List Char}
    (h : writeString s ++ u = writeString s' ++ v) : s = s' ∧ u = v := by
  simp only [writeString, List.cons_append, List.append_assoc, List.nil_append, List.cons.injEq,
    true_and] at h
  obtain ⟨hs, huv⟩ := escaped_append_inj h
  exact ⟨String.toList_inj.mp hs, huv⟩

def isNumeral (c : Char) : Bool := c.isDigit || c = '-'

theorem isNumeral_of_mem_toString {n : Int} {c : Char} (h : c ∈ (toString n).toList) :
    isNumeral c = true := by
  have hnat : ∀ {m : Nat}, c ∈ (Nat.repr m).toList → isNumeral c = true := by
    intro m hm
    rw [Nat.toList_repr] at hm
    simp [isNumeral, Nat.isDigit_of_mem_toDigits (by decide) (by decide) hm]
  cases n with
  | ofNat m => exact hnat h
  | negSucc m =>
    have hcons : c = '-' ∨ c ∈ (Nat.repr (m + 1)).toList := by
      have hm : c ∈ ("-" ++ Nat.repr (m + 1)).toList := h
      simpa using hm
    rcases hcons with rfl | hm
    · rfl
    · exact hnat hm

theorem digits_inj {n m : Nat} (h : (Nat.repr n).toList = (Nat.repr m).toList) : n = m := by
  have hvalue := congrArg (fun digits => Nat.ofDigitChars 10 digits 0) h
  simpa using hvalue

theorem toString_inj {n m : Int} (h : (toString n).toList = (toString m).toList) : n = m := by
  have hminus : ∀ {k : Nat} {r : List Char}, (Nat.repr k).toList ≠ '-' :: r := by
    intro k r hk
    have hmem : '-' ∈ Nat.toDigits 10 k := by
      rw [← Nat.toList_repr, hk]
      exact List.mem_cons_self
    have hdigit := Nat.isDigit_of_mem_toDigits (by decide) (by decide) hmem
    cases hdigit
  have hsign : ∀ k : Nat, (toString (Int.negSucc k)).toList = '-' :: (Nat.repr (k + 1)).toList := by
    intro k
    show ("-" ++ Nat.repr (k + 1)).toList = _
    simp
  cases n with
  | ofNat n =>
    cases m with
    | ofNat m => exact congrArg Int.ofNat (digits_inj h)
    | negSucc m => exact absurd (h.trans (hsign m)) hminus
  | negSucc n =>
    cases m with
    | ofNat m => exact absurd (h.symm.trans (hsign n)) hminus
    | negSucc m =>
      rw [hsign, hsign, List.cons.injEq] at h
      have hnm := digits_inj h.2
      rw [Nat.succ.inj hnm]

/-- Whether what comes next cannot belong to a number before it. -/
def Apart (u : List Char) : Prop := ∀ c ∈ u.head?, isNumeral c = false

theorem takeWhile_apart {u : List Char} (h : Apart u) : u.takeWhile isNumeral = [] := by
  cases u with
  | nil => rfl
  | cons c r => simp [h c rfl]

theorem toString_append_inj {n m : Int} {u v : List Char} (hu : Apart u) (hv : Apart v)
    (h : (toString n).toList ++ u = (toString m).toList ++ v) : n = m ∧ u = v := by
  have htake := congrArg (List.takeWhile isNumeral) h
  rw [List.takeWhile_append_of_pos fun _ => isNumeral_of_mem_toString,
    List.takeWhile_append_of_pos fun _ => isNumeral_of_mem_toString, takeWhile_apart hu,
    takeWhile_apart hv, List.append_nil, List.append_nil] at htake
  obtain rfl := toString_inj htake
  exact ⟨rfl, List.append_cancel_left h⟩

/-- What a value can be, as far as the first character of its text shows it. -/
inductive Lead where
  | null
  | yes
  | no
  | number
  | string
  | array
  | object
deriving DecidableEq

def lead : Json → Lead
  | .null => .null
  | .bool true => .yes
  | .bool false => .no
  | .number _ => .number
  | .string _ => .string
  | .array _ => .array
  | .object _ => .object

def Lead.ofText : List Char → Option Lead
  | [] => none
  | c :: _ =>
    if isNumeral c then some .number
    else if c = 'n' then some .null
    else if c = 't' then some .yes
    else if c = 'f' then some .no
    else if c = '"' then some .string
    else if c = '[' then some .array
    else if c = opening then some .object
    else none

theorem ofText_write {j : Json} (h : j.Whole) (u : List Char) :
    Lead.ofText (j.write ++ u) = some j.lead := by
  cases j with
  | null => rfl
  | bool b => cases b <;> rfl
  | number n =>
    cases n with
    | float x => exact h.elim
    | int n =>
      have hmem := fun c => isNumeral_of_mem_toString (n := n) (c := c)
      have hne : (toString n).toList ≠ [] := by
        cases n with
        | ofNat m => exact Nat.toList_repr ▸ Nat.toDigits_ne_nil
        | negSucc m => simp [Int.toString_eq_repr, Int.repr]
      simp only [write, writeNumber]
      cases ht : (toString n).toList with
      | nil => exact absurd ht hne
      | cons c r =>
        rw [ht] at hmem
        simp [Lead.ofText, lead, hmem c List.mem_cons_self]
  | string s => rfl
  | array l => cases l <;> rfl
  | object l => cases l <;> rfl

theorem lead_eq_of_write {j j' : Json} (hj : j.Whole) (hj' : j'.Whole) {u v : List Char}
    (h : j.write ++ u = j'.write ++ v) : j.lead = j'.lead := by
  have htext := congrArg Lead.ofText h
  rw [ofText_write hj, ofText_write hj'] at htext
  exact Option.some.inj htext

theorem write_append_ne {j : Json} (h : j.Whole) {u v : List Char}
    (hv : Lead.ofText v = none) : j.write ++ u ≠ v := by
  rintro rfl
  rw [ofText_write h] at hv
  cases hv

theorem writeItems_apart (l : List Json) (u : List Char) : Apart (writeItems l ++ u) := by
  cases l <;> simp [writeItems, Apart, isNumeral]

theorem writeMembers_apart (l : List (String × Json)) (u : List Char) :
    Apart (writeMembers l ++ u) := by
  have hclosing : isNumeral closing = false := by decide
  cases l with
  | nil => simpa [writeMembers, Apart] using hclosing
  | cons m r => simp [writeMembers, Apart, isNumeral]

/-- Items after the first have a comma before them where the first has a bracket. -/
theorem array_append_inj {l l' : List Json} (hl : WholeItems l) (hl' : WholeItems l')
    {u v : List Char} (hitems : writeItems l ++ u = writeItems l' ++ v → l = l' ∧ u = v)
    (h : (array l).write ++ u = (array l').write ++ v) : l = l' ∧ u = v := by
  cases l with
  | nil =>
    cases l' with
    | nil => exact ⟨rfl, List.append_cancel_left h⟩
    | cons j' r' =>
      simp only [write, List.cons_append, List.append_assoc, List.cons.injEq, true_and] at h
      exact absurd h.symm (write_append_ne hl'.1 rfl)
  | cons j r =>
    cases l' with
    | nil =>
      simp only [write, List.cons_append, List.append_assoc, List.cons.injEq, true_and] at h
      exact absurd h (write_append_ne hl.1 rfl)
    | cons j' r' =>
      refine hitems ?_
      simpa only [write, writeItems, List.cons_append, List.cons.injEq, true_and] using h

theorem object_append_inj {l l' : List (String × Json)} {u v : List Char}
    (hmembers : writeMembers l ++ u = writeMembers l' ++ v → l = l' ∧ u = v)
    (h : (object l).write ++ u = (object l').write ++ v) : l = l' ∧ u = v := by
  have hclosing : closing ≠ '"' := by decide
  cases l with
  | nil =>
    cases l' with
    | nil => exact ⟨rfl, List.append_cancel_left h⟩
    | cons m' r' => simp [write, writeString, hclosing] at h
  | cons m r =>
    cases l' with
    | nil => simp [write, writeString, hclosing.symm] at h
    | cons m' r' =>
      refine hmembers ?_
      simpa only [write, writeMembers, List.cons_append, List.cons.injEq, true_and] using h

mutual

theorem write_append_inj : (j j' : Json) → j.Whole → j'.Whole → {u v : List Char} → Apart u →
    Apart v → j.write ++ u = j'.write ++ v → j = j' ∧ u = v
  | .null, j', hj, hj', _, _, _, _, h => by
    have hlead := lead_eq_of_write hj hj' h
    cases j' with
    | null => exact ⟨rfl, List.append_cancel_left h⟩
    | bool b => cases b <;> cases hlead
    | _ => cases hlead
  | .bool a, j', hj, hj', _, _, _, _, h => by
    have hlead := lead_eq_of_write hj hj' h
    cases j' with
    | bool b =>
      have hab : a = b := by
        cases a <;> cases b <;> first | rfl | cases hlead
      subst hab
      exact ⟨rfl, List.append_cancel_left h⟩
    | _ => cases a <;> cases hlead
  | .number (.int n), j', hj, hj', _, _, hu, hv, h => by
    have hlead := lead_eq_of_write hj hj' h
    cases j' with
    | number m =>
      cases m with
      | float x => exact hj'.elim
      | int m =>
        obtain ⟨rfl, huv⟩ := toString_append_inj hu hv h
        exact ⟨rfl, huv⟩
    | bool b => cases b <;> cases hlead
    | _ => cases hlead
  | .number (.float _), _, hj, _, _, _, _, _, _ => hj.elim
  | .string s, j', hj, hj', _, _, _, _, h => by
    have hlead := lead_eq_of_write hj hj' h
    cases j' with
    | string s' =>
      obtain ⟨rfl, huv⟩ := writeString_append_inj h
      exact ⟨rfl, huv⟩
    | bool b => cases b <;> cases hlead
    | _ => cases hlead
  | .array l, j', hj, hj', _, _, _, _, h => by
    have hlead := lead_eq_of_write hj hj' h
    cases j' with
    | array l' =>
      obtain ⟨rfl, huv⟩ := array_append_inj hj hj' (writeItems_append_inj l l' hj hj') h
      exact ⟨rfl, huv⟩
    | bool b => cases b <;> cases hlead
    | _ => cases hlead
  | .object l, j', hj, hj', _, _, _, _, h => by
    have hlead := lead_eq_of_write hj hj' h
    cases j' with
    | object l' =>
      obtain ⟨rfl, huv⟩ := object_append_inj (writeMembers_append_inj l l' hj hj') h
      exact ⟨rfl, huv⟩
    | bool b => cases b <;> cases hlead
    | _ => cases hlead

theorem writeItems_append_inj : (l l' : List Json) → WholeItems l → WholeItems l' →
    {u v : List Char} → writeItems l ++ u = writeItems l' ++ v → l = l' ∧ u = v
  | [], [], _, _, _, _, h => ⟨rfl, List.append_cancel_left h⟩
  | [], j' :: r', _, hl', u, v, h => by
    simp [writeItems] at h
  | j :: r, [], hl, _, u, v, h => by
    simp [writeItems] at h
  | j :: r, j' :: r', hl, hl', u, v, h => by
    simp only [writeItems, List.cons_append, List.append_assoc, List.cons.injEq, true_and] at h
    obtain ⟨rfl, hr⟩ := write_append_inj j j' hl.1 hl'.1 (writeItems_apart r u)
      (writeItems_apart r' v) h
    obtain ⟨rfl, huv⟩ := writeItems_append_inj r r' hl.2 hl'.2 hr
    exact ⟨rfl, huv⟩

theorem writeMembers_append_inj : (l l' : List (String × Json)) → WholeMembers l →
    WholeMembers l' → {u v : List Char} → writeMembers l ++ u = writeMembers l' ++ v →
    l = l' ∧ u = v
  | [], [], _, _, _, _, h => ⟨rfl, List.append_cancel_left h⟩
  | [], (k', j') :: r', _, hl', u, v, h => by
    simp [writeMembers, closing] at h
  | (k, j) :: r, [], hl, _, u, v, h => by
    simp [writeMembers, closing] at h
  | (k, j) :: r, (k', j') :: r', hl, hl', u, v, h => by
    simp only [writeMembers, List.cons_append, List.append_assoc, List.cons.injEq, true_and] at h
    obtain ⟨rfl, hj⟩ := writeString_append_inj h
    simp only [List.cons.injEq, true_and] at hj
    obtain ⟨rfl, hr⟩ := write_append_inj j j' hl.1 hl'.1 (writeMembers_apart r u)
      (writeMembers_apart r' v) hj
    obtain ⟨rfl, huv⟩ := writeMembers_append_inj r r' hl.2 hl'.2 hr
    exact ⟨rfl, huv⟩

end

theorem text_inj {j j' : Json} (hj : j.Whole) (hj' : j'.Whole) (h : j.text = j'.text) : j = j' := by
  have hwrite : j.write ++ [] = j'.write ++ [] := by
    have hlist := congrArg String.toList h
    simpa [text] using hlist
  exact (write_append_inj j j' hj hj' (by simp [Apart]) (by simp [Apart]) hwrite).1

theorem ofStrings_inj {m m' : StringMap String} (h : ofStrings m = ofStrings m') : m = m' := by
  have hinj : Function.Injective fun e : String × String => (e.1, string e.2) := by
    rintro ⟨k, v⟩ ⟨k', v'⟩ he
    simpa using he
  exact StringMap.ext (List.map_injective_iff.mpr hinj (object.inj h))

end Json

/-- What is wanted of a child can be told from the text that stands for it. -/
theorem Child.wantedText_inj {labels labels' : Option (StringMap String)} {spec spec' : Json}
    (hs : spec.Whole) (hs' : spec'.Whole)
    (h : wantedText labels (some spec) = wantedText labels' (some spec')) :
    labels = labels' ∧ spec = spec' := by
  have hwhole : ∀ (m : Option (StringMap String)) {j : Json}, j.Whole →
      (Json.array [(m.map Json.ofStrings).getD .null, j]).Whole := by
    intro m j hj
    cases m with
    | none => exact ⟨trivial, hj, trivial⟩
    | some m => exact ⟨(Json.tidy_ofStrings m).whole, hj, trivial⟩
  have hjson := Json.text_inj (hwhole labels hs) (hwhole labels' hs') h
  simp only [Json.array.injEq, List.cons.injEq, and_true] at hjson
  obtain ⟨hlabels, hspec⟩ := hjson
  refine ⟨?_, hspec⟩
  cases labels with
  | none => cases labels' with
    | none => rfl
    | some m => cases hlabels
  | some m => cases labels' with
    | none => cases hlabels
    | some m' => rw [Json.ofStrings_inj hlabels]

end DistributionOperator
