import DistributionOperator.Timestamp

/-! The reader of timestamps reads back what the writer has written, if the year can be told. -/

namespace DistributionOperator

theorem trimStart_append_of_head {c : Char} {ds : List Char} (h : ds.head? = some c)
    (hc : isBlank c = false) (r : List Char) : trimStart (ds ++ r) = ds ++ r := by
  cases ds with
  | nil => simp at h
  | cons x xs =>
    have hx : x = c := by simpa using h
    rw [List.cons_append, hx, trimStart_of_not_blank hc]

namespace Timestamp

theorem isDigit_eq (c : Char) : isDigit c = c.isDigit := rfl

theorem value_eq (ds : List Char) : value ds = Nat.ofDigitChars 10 ds 0 := by
  unfold value Nat.ofDigitChars
  congr 1
  funext n c
  rw [Nat.mul_comm]
  rfl

theorem not_blank_of_isDigit {c : Char} (h : isDigit c = true) : isBlank c = false := by
  have hd : 48 ≤ c.toNat ∧ c.toNat ≤ 57 := by
    simpa [isDigit, Char.le_def, UInt32.le_iff_toNat_le] using h
  simp only [isBlank, blankRanges, List.any_cons, List.any_nil, Bool.or_false,
    Bool.or_eq_false_iff, Bool.and_eq_false_iff, decide_eq_false_iff_not]
  omega

theorem isDigit_padded {width n : Nat} {c : Char} (h : c ∈ padded width n) :
    isDigit c = true := by
  rcases List.mem_append.mp h with h | h
  · rw [(List.mem_replicate.mp h).2]
    rfl
  · rw [isDigit_eq]
    exact Nat.isDigit_of_mem_toDigits (by decide) (by decide) h

@[simp] theorem value_padded (width n : Nat) : value (padded width n) = n := by
  simp [value_eq, padded, Nat.ofDigitChars_append]

theorem length_padded {width n : Nat} (hw : 0 < width) (h : n < Nat.pow 10 width) :
    (padded width n).length = width := by
  have hl := (Nat.length_toDigits_le_iff (by decide : 1 < 10) hw).mpr h
  simp only [padded, List.length_append, List.length_replicate]
  omega

theorem padded_ne_nil (width n : Nat) : padded width n ≠ [] := by
  simp [padded]

theorem head_padded (width n : Nat) :
    ∃ c, (padded width n).head? = some c ∧ isDigit c = true := by
  cases h : padded width n with
  | nil => exact absurd h (padded_ne_nil width n)
  | cons c r => exact ⟨c, rfl, isDigit_padded (h ▸ List.mem_cons_self)⟩

theorem takeWhile_digits {ds r : List Char} (hd : ∀ c ∈ ds, isDigit c = true)
    (hr : ∀ c, r.head? = some c → isDigit c = false) : (ds ++ r).takeWhile isDigit = ds := by
  induction ds with
  | nil =>
    cases r with
    | nil => rfl
    | cons c r => simp [hr c rfl]
  | cons c ds ih =>
    rw [List.cons_append, List.takeWhile_cons, if_pos (hd c List.mem_cons_self),
      ih fun x hx => hd x (List.mem_cons_of_mem _ hx)]

theorem dropWhile_digits {ds r : List Char} (hd : ∀ c ∈ ds, isDigit c = true)
    (hr : ∀ c, r.head? = some c → isDigit c = false) : (ds ++ r).dropWhile isDigit = r := by
  have happ := List.takeWhile_append_dropWhile (p := isDigit) (l := ds ++ r)
  rw [takeWhile_digits hd hr] at happ
  exact List.append_cancel_left happ

theorem number?_of_takeWhile {width : Nat} {ds r : List Char} (hne : ds ≠ [])
    (h : ((ds ++ r).take width).takeWhile isDigit = ds) :
    number? width (ds ++ r) = some (value ds, r) := by
  simp [number?, h, hne]

theorem number?_padded {width n : Nat} (hw : 0 < width) (h : n < Nat.pow 10 width) (r : List Char) :
    number? width (padded width n ++ r) = some (n, r) := by
  have htake : (padded width n ++ r).take width = padded width n :=
    List.take_left' (length_padded hw h)
  have hdigits : (padded width n).takeWhile isDigit = padded width n := by
    simpa using takeWhile_digits (r := []) (fun c => isDigit_padded) (by simp)
  rw [number?_of_takeWhile (padded_ne_nil _ _) (by rw [htake, hdigits]), value_padded]

theorem field?_padded {n : Nat} (h : n < 100) (r : List Char) :
    field? (padded 2 n ++ r) = some (n, r) := by
  obtain ⟨c, hc, hd⟩ := head_padded 2 n
  have hwidth : n < Nat.pow 10 2 := h
  rw [field?, trimStart_append_of_head hc (not_blank_of_isDigit hd),
    number?_padded (by decide) hwidth]

/-- A signed year ends where its digits end. -/
theorem number?_signed (n : Nat) (r : List Char) :
    number? (padded 4 n ++ '-' :: r).length (padded 4 n ++ '-' :: r) = some (n, '-' :: r) := by
  have hdigits : (padded 4 n ++ '-' :: r).takeWhile isDigit = padded 4 n :=
    takeWhile_digits (fun c => isDigit_padded) fun c hc => by
      cases hc
      rfl
  rw [number?_of_takeWhile (padded_ne_nil _ _) (by rw [List.take_length, hdigits]), value_padded]

theorem year?_write (year : Int) (r : List Char) :
    year? (writeYear year ++ '-' :: r) = some (year, '-' :: r) := by
  unfold writeYear
  split
  · rename_i h
    have hn : number? 4 (padded 4 year.toNat ++ '-' :: r) = some (year.toNat, '-' :: r) :=
      number?_padded (by decide) (by show year.toNat < 10000; omega) _
    obtain ⟨c, hc, hd⟩ := head_padded 4 year.toNat
    cases hp : padded 4 year.toNat with
    | nil => exact absurd hp (padded_ne_nil _ _)
    | cons x xs =>
      have hx : isDigit x = true := isDigit_padded (hp ▸ List.mem_cons_self)
      rw [hp] at hn
      rw [List.cons_append] at hn ⊢
      unfold year?
      split
      · rename_i heq
        cases heq
        cases hx
      · rename_i heq
        cases heq
        cases hx
      · rw [hn]
        simp only [Option.map_some, Option.some.injEq, Prod.mk.injEq, and_true]
        omega
  · split
    · rename_i hneg
      simp only [List.cons_append, year?, number?_signed, Option.map_some, Option.some.injEq,
        Prod.mk.injEq, and_true]
      omega
    · rename_i hpos
      simp only [List.cons_append, year?, number?_signed, Option.map_some, Option.some.injEq,
        Prod.mk.injEq, and_true]
      omega

theorem head_writeYear (year : Int) :
    ∃ c, (writeYear year).head? = some c ∧ isBlank c = false := by
  unfold writeYear
  split
  · obtain ⟨c, hc, hd⟩ := head_padded 4 year.toNat
    exact ⟨c, hc, not_blank_of_isDigit hd⟩
  · split
    · exact ⟨'-', rfl, by decide⟩
    · exact ⟨'+', rfl, by decide⟩

theorem fraction?_padded {k n : Nat} (hk : 0 < k) (h9 : k ≤ 9) (h : n < Nat.pow 10 k) :
    fraction? ('.' :: (padded k n ++ ['Z'])) = some (n * Nat.pow 10 (9 - k), ['Z']) := by
  have hdigit : ∀ c ∈ padded k n, isDigit c = true := fun c => isDigit_padded
  have hmark : ∀ c, ['Z'].head? = some c → isDigit c = false := fun c hc => by
    cases hc
    rfl
  have hdigits := takeWhile_digits hdigit hmark
  have hrest := dropWhile_digits hdigit hmark
  have hlen := length_padded hk h
  have htake : (padded k n).take 9 = padded k n := List.take_of_length_le (by omega)
  simp only [fraction?, hdigits, hrest, hlen, htake, List.isEmpty_iff, padded_ne_nil, if_false,
    value_padded]

theorem fraction?_write {nanos : Nat} (h : nanos ≤ 999999999) :
    fraction? (writeFraction nanos ++ ['Z']) = some (nanos, ['Z']) := by
  unfold writeFraction
  split
  · rename_i h0
    rw [h0]
    rfl
  · split
    · have hmillis : nanos / 1000000 < Nat.pow 10 3 := by
        show nanos / 1000000 < 1000
        omega
      rw [List.cons_append, fraction?_padded (by decide) (by decide) hmillis]
      simp only [Option.some.injEq, Prod.mk.injEq, and_true]
      show nanos / 1000000 * 1000000 = nanos
      omega
    · split
      · have hmicros : nanos / 1000 < Nat.pow 10 6 := by
          show nanos / 1000 < 1000000
          omega
        rw [List.cons_append, fraction?_padded (by decide) (by decide) hmicros]
        simp only [Option.some.injEq, Prod.mk.injEq, and_true]
        show nanos / 1000 * 1000 = nanos
        omega
      · have hnanos : nanos < Nat.pow 10 9 := by
          show nanos < 1000000000
          omega
        rw [List.cons_append, fraction?_padded (by decide) (by decide) hnanos]
        simp

theorem make?_self (t : Timestamp) : make? t.date t.hour t.minute t.second t.nanos = some t :=
  dif_pos t.time_valid

theorem ofLocal?_zero (t : Timestamp) : ofLocal? t 0 = some t := by
  have hv := t.time_valid
  unfold ofLocal?
  dsimp only
  rw [if_neg (by omega), if_pos (by omega)]
  have hm : ((t.hour : Int) * 60 + t.minute - 0).toNat = t.hour * 60 + t.minute := by omega
  have hh : (t.hour * 60 + t.minute) / 60 = t.hour := by omega
  have hmin : (t.hour * 60 + t.minute) % 60 = t.minute := by omega
  rw [hm, hh, hmin, make?_self]

theorem date_make?_self (d : Date) :
    Date.make? d.year d.month d.day = some d := by
  unfold Date.make?
  rw [dif_pos d.month_valid, dif_pos d.day_valid]

theorem daysInMonth_le (year : Int) (month : Nat) : daysInMonth year month ≤ 31 := by
  unfold daysInMonth
  split
  · split <;> omega
  · split <;> omega

theorem date?_write (d : Date) (r : List Char) :
    date? (writeYear d.year ++ '-' :: (padded 2 d.month ++ '-' :: (padded 2 d.day ++ r))) =
      some (d, r) := by
  have hmonth : d.month < 100 := by
    have := d.month_valid
    omega
  have hday : d.day < 100 := by
    have := d.day_valid
    have := daysInMonth_le d.year d.month
    omega
  obtain ⟨c, hc, hb⟩ := head_writeYear d.year
  have hmark : ∀ r : List Char, mark? '-' (trimStart ('-' :: r)) = some r := fun _ => rfl
  simp only [date?, trimStart_append_of_head hc hb, year?_write, hmark, field?_padded hmonth,
    field?_padded hday, date_make?_self, Option.bind_eq_bind, Option.bind_some]
  rfl

/-- What is written is read back, except years that cannot be told. -/
theorem read?_write (t : Timestamp) :
    read? t.write = if t.date.inRange then some t else none := by
  have hv := t.time_valid
  have hhour : t.hour < 100 := by omega
  have hminute : t.minute < 100 := by omega
  have hsecond : t.second < 100 := by omega
  have hmark : ∀ r : List Char, mark? ':' (trimStart (':' :: r)) = some r := fun _ => rfl
  have hsep : ∀ r : List Char, separator? ('T' :: r) = some r := fun _ => rfl
  have hoffset : offset? (trimStart ['Z']) = some (0, []) := by decide
  simp only [read?, write, List.append_assoc, List.cons_append, date?_write, hsep,
    field?_padded hhour, hmark, field?_padded hminute, field?_padded hsecond,
    fraction?_write hv.2.2.2, hoffset, make?_self, ofLocal?_zero, Option.bind_eq_bind,
    Option.bind_some]
  simp [trimStart]

theorem ofText?_text {t u : Timestamp} (h : ofText? t.text = some u) : u = t := by
  rw [ofText?, text, String.toList_ofList, read?_write] at h
  split at h
  · exact (Option.some.inj h).symm
  · cases h

theorem inRange_of_ofText? {s : String} {t : Timestamp} (h : ofText? s = some t) :
    t.date.inRange = true := by
  simp only [ofText?, read?, Option.bind_eq_bind, Option.bind_eq_some_iff] at h
  -- the last of the eleven steps looks at the year of the moment that is returned
  obtain ⟨_, _, _, _, _, _, _, _, _, _, _, _, _, _, _, _, _, _, _, _, u, _, hyear⟩ := h
  split at hyear
  · rename_i hall
    cases hyear
    exact (Bool.and_eq_true_iff.mp hall).2
  · cases hyear

end Timestamp

end DistributionOperator
