import DistributionOperator.Proofs.JsonGrammar

/-! The reader of JSON held against the grammar. A text is read without a fault exactly if the
grammar derives it, and its draft is the one that goes with the derivation. -/

namespace DistributionOperator

namespace Grammar

open Draft Json

variable {b s u w r : List Char} {d : Draft} {n : Option Number} {negative : Bool}

theorem word_of_readWord {e : Draft} {ws : List Char} (h : readWord e ws s = (d, some r)) :
    s = ws ++ r ∧ d = e := by
  induction ws generalizing s with
  | nil =>
    cases h
    exact ⟨rfl, rfl⟩
  | cons c ws ih =>
    cases s with
    | nil => cases h
    | cons c' s =>
      simp only [readWord] at h
      split at h
      · rename_i hc
        obtain ⟨rfl, hd⟩ := ih h
        exact ⟨by rw [hc]; rfl, hd⟩
      · cases h

theorem readWord_faulty {e : Draft} {ws : List Char} (h : readWord e ws s = (d, none)) :
    d.skipFault? ≠ none := by
  induction ws generalizing s with
  | nil => cases h
  | cons c ws ih =>
    cases s with
    | nil =>
      cases h
      simp [skipFault?]
    | cons c' s =>
      simp only [readWord] at h
      split at h
      · exact ih h
      · cases h
        simp [skipFault?]

theorem readValue_skipBlank (fuel : Nat) (s : List Char) :
    readValue fuel (skipBlank s) = readValue fuel s := by
  cases fuel with
  | zero => rfl
  | succ fuel => rw [readValue, readValue, skipBlank_idem]

theorem readValue_blanks (fuel : Nat) (hb : Blanks b) :
    readValue fuel (b ++ s) = readValue fuel s := by
  rw [← readValue_skipBlank, skipBlank_blanks hb, readValue_skipBlank]

theorem readItems_skipBlank (fuel : Nat) (s : List Char) :
    readItems fuel (skipBlank s) = readItems fuel s := by
  cases fuel with
  | zero => rfl
  | succ fuel => rw [readItems, readItems, readValue_skipBlank]

theorem readValue_array {fuel : Nat} {c : Char} (h : skipBlank s = c :: r) (hc : c ≠ ']') :
    readValue (fuel + 1) ('[' :: s) =
      (.array (readItems fuel s).1 (readItems fuel s).2.1, (readItems fuel s).2.2) := by
  have hopen : skipBlank ('[' :: s) = '[' :: s := rfl
  rw [← readItems_skipBlank fuel s, h]
  simp [readValue, hopen, h, hc]

theorem readValue_object {fuel : Nat} (h : skipBlank s = '"' :: r) :
    readValue (fuel + 1) (opening :: s) =
      (.object (readMembers fuel r).1 (readMembers fuel r).2.1 none, (readMembers fuel r).2.2) := by
  have hopen : skipBlank (opening :: s) = opening :: s := rfl
  rw [readValue, hopen]
  simp [h, opening, closing]

/-- Blanks end a number, if what follows them does. -/
theorem ends_blanks (hb : Blanks b) (hu : Ends u) : Ends (b ++ u) := by
  cases b with
  | nil => exact hu
  | cons c b =>
    rintro _ ⟨⟩
    rcases (List.forall_mem_cons.mp hb).1 with rfl | rfl | rfl | rfl <;> decide

theorem ends_nil : Ends [] := by simp [Ends]

theorem Numeral.lead (h : Numeral negative w n) : ∃ c t, w = c :: t ∧ isDigit c = true := by
  cases h with
  | whole hw => exact hw.toDigits.lead
  | power hw | fraction hw | fractionPower hw =>
    obtain ⟨c, t, rfl, hc⟩ := hw.toDigits.lead
    exact ⟨c, _, rfl, hc⟩

/-- A value begins with no blank, and not as an array ends. -/
theorem Value.lead (h : Value w d) (u : List Char) :
    ∃ c t, w ++ u = c :: t ∧ skipBlank (c :: t) = c :: t ∧ c ≠ ']' := by
  cases h with
  | number hn =>
    obtain ⟨c, t, rfl, hc⟩ := hn.lead
    have hother : ∀ d, isDigit d = false → c ≠ d := by
      rintro d hd rfl
      rw [hc] at hd
      cases hd
    exact ⟨c, t ++ u, rfl, skipBlank_cons _ (hother _ rfl) (hother _ rfl) (hother _ rfl)
      (hother _ rfl), hother _ rfl⟩
  | _ => exact ⟨_, _, rfl, rfl, by decide⟩

theorem Items.lead {ds : List Draft} (h : Items s ds) (u : List Char) :
    ∃ c t, skipBlank (s ++ u) = c :: t ∧ c ≠ ']' := by
  cases h with
  | last hb hv | next hb hv =>
    obtain ⟨c, t, hcons, hc, hne⟩ := hv.lead _
    refine ⟨c, t, ?_, hne⟩
    rw [List.append_assoc, List.append_assoc, skipBlank_blanks hb, hcons, hc]

mutual

theorem Value.read : {w : List Char} → {d : Draft} → Value w d → (fuel : Nat) → w.length < fuel →
    (u : List Char) → Ends u → readValue fuel (w ++ u) = (d, some u)
  | _, _, .null, _ + 1, _, _, _ | _, _, .isTrue, _ + 1, _, _, _ | _, _, .isFalse, _ + 1, _, _, _ =>
    rfl
  | _, _, .number hn, fuel + 1, _, u, hu => by
    obtain ⟨c, t, rfl, hc⟩ := hn.lead
    have hdigit : readValue (fuel + 1) ([c] ++ (t ++ u)) = readDigits false ([c] ++ (t ++ u)) :=
      readValue_digits fuel (by simpa using hc) (by simp) _
    exact hdigit.trans (readDigits_numeral hn hu)
  | _, _, .negative hn, _ + 1, _, u, hu => readDigits_numeral hn hu
  | _, _, .string hs, _ + 1, _, u, _ => readString_start hs
  | _, _, .emptyArray (b := b) hb, fuel + 1, _, u, _ => by
    have hclose : skipBlank (b ++ (']' :: u)) = ']' :: u := skipBlank_blanks hb
    have hopen : skipBlank ('[' :: (b ++ ']' :: u)) = '[' :: (b ++ ']' :: u) := rfl
    simp [readValue, hopen, hclose]
  | _, _, .array hs, fuel + 1, hfuel, u, _ => by
    -- the blanks before the first item are skipped once for the array and once for the item
    obtain ⟨c, t, hlead, hc⟩ := hs.lead u
    have hitems := hs.read fuel (by simpa using hfuel) u
    rw [List.cons_append, readValue_array hlead hc, hitems]
  | _, _, .emptyObject (b := b) hb, fuel + 1, _, u, _ => by
    have hclose : skipBlank (b ++ (closing :: u)) = closing :: u := skipBlank_blanks hb
    have hopen : skipBlank (opening :: (b ++ closing :: u)) = opening :: (b ++ closing :: u) := rfl
    simp only [List.cons_append, List.append_assoc, List.nil_append]
    rw [readValue, hopen]
    simp [hclose, opening]
  | _, _, .object (b := b) (s := s) hb hs, fuel + 1, hfuel, u, _ => by
    have hquote : skipBlank (b ++ '"' :: (s ++ u)) = '"' :: (s ++ u) := skipBlank_blanks hb
    have hmembers := hs.read fuel (by simp at hfuel; omega) u
    simp only [List.cons_append, List.append_assoc]
    rw [readValue_object hquote, hmembers]

theorem Items.read : {s : List Char} → {ds : List Draft} → Items s ds → (fuel : Nat) →
    s.length < fuel → (u : List Char) → readItems fuel (s ++ u) = (ds, none, some u)
  | _, _, .last (b := b) ha hv hb, fuel + 1, hfuel, u => by
    have hvalue := hv.read fuel (by simp at hfuel; omega) (b ++ ']' :: u)
      (ends_blanks hb (ends_of_mark (by decide)))
    have hclose : skipBlank (b ++ ']' :: u) = ']' :: u := skipBlank_blanks hb
    simp only [List.append_assoc, List.cons_append, List.nil_append]
    rw [readItems, readValue_blanks fuel ha, hvalue]
    simp [hclose]
  | _, _, .next (b := b) (t := t) ha hv hb ht, fuel + 1, hfuel, u => by
    have hvalue := hv.read fuel (by simp at hfuel; omega) (b ++ ',' :: (t ++ u))
      (ends_blanks hb (ends_of_mark (by decide)))
    have hcomma : skipBlank (b ++ ',' :: (t ++ u)) = ',' :: (t ++ u) := skipBlank_blanks hb
    have hmore := ht.read fuel (by simp at hfuel; omega) u
    simp only [List.append_assoc, List.cons_append]
    rw [readItems, readValue_blanks fuel ha, hvalue]
    simp [hcomma, hmore]

theorem Members.read : {s : List Char} → {ms : List (Draft × Draft)} → Members s ms →
    (fuel : Nat) → s.length < fuel → (u : List Char) →
    readMembers fuel (s ++ u) = (ms, none, some u)
  | _, _, .last (a := a) (b := b) (s := s) (c := c) hk ha hb hv hc, fuel + 1, hfuel, u => by
    have hvalue := hv.read fuel (by simp at hfuel; omega) (c ++ closing :: u)
      (ends_blanks hc (ends_of_mark (by decide)))
    have hcolon : skipBlank (a ++ ':' :: (b ++ (s ++ (c ++ closing :: u)))) =
        ':' :: (b ++ (s ++ (c ++ closing :: u))) := skipBlank_blanks ha
    have hclose : skipBlank (c ++ closing :: u) = closing :: u := skipBlank_blanks hc
    simp only [List.append_assoc, List.cons_append, List.nil_append]
    rw [readMembers, readString_start hk]
    simp only [hcolon, readValue_blanks fuel hb, hvalue, hclose]
    rfl
  | _, _, .next (a := a) (b := b) (s := s) (c := c) (e := e) (t := t) hk ha hb hv hc he ht,
      fuel + 1, hfuel, u => by
    have hvalue := hv.read fuel (by simp at hfuel; omega) (c ++ ',' :: (e ++ '"' :: (t ++ u)))
      (ends_blanks hc (ends_of_mark (by decide)))
    have hcolon : skipBlank (a ++ ':' :: (b ++ (s ++ (c ++ ',' :: (e ++ '"' :: (t ++ u)))))) =
        ':' :: (b ++ (s ++ (c ++ ',' :: (e ++ '"' :: (t ++ u))))) := skipBlank_blanks ha
    have hcomma : skipBlank (c ++ ',' :: (e ++ '"' :: (t ++ u))) = ',' :: (e ++ '"' :: (t ++ u)) :=
      skipBlank_blanks hc
    have hquote : skipBlank (e ++ '"' :: (t ++ u)) = '"' :: (t ++ u) := skipBlank_blanks he
    have hmore := ht.read fuel (by simp at hfuel; omega) u
    simp only [List.append_assoc, List.cons_append]
    rw [readMembers, readString_start hk]
    simp [hcolon, readValue_blanks fuel hb, hvalue, hcomma, hquote, hmore]

end

/-- Whether a text begins with a value, after blanks, and goes on with this. -/
def ValueBefore (s r : List Char) (d : Draft) : Prop :=
  ∃ b w, s = b ++ (w ++ r) ∧ Blanks b ∧ Value w d

def ItemsBefore (s r : List Char) (ds : List Draft) : Prop := ∃ t, s = t ++ r ∧ Items t ds

def MembersBefore (s r : List Char) (ms : List (Draft × Draft)) : Prop :=
  ∃ t, s = t ++ r ∧ Members t ms

/-- Where the readers get through with some fuel, the grammar derives what they have read. -/
structure ReadsSoundly (fuel : Nat) : Prop where
  value : ∀ {s d r}, readValue fuel s = (d, some r) → ValueBefore s r d
  items : ∀ {s ds stop r}, readItems fuel s = (ds, stop, some r) → stop = none ∧ ItemsBefore s r ds
  members : ∀ {s ms stop r}, readMembers fuel s = (ms, stop, some r) →
    stop = none ∧ MembersBefore s r ms

/-- Where they do not get through, they leave a fault for those who pass over the value. -/
structure LeavesFaults (fuel : Nat) : Prop where
  value : ∀ {s d}, readValue fuel s = (d, none) → d.skipFault? ≠ none
  items : ∀ {s ds stop}, readItems fuel s = (ds, stop, none) → skipItems ds stop ≠ none
  members : ∀ {s ms stop}, readMembers fuel s = (ms, stop, none) → skipMembers ms stop ≠ none

theorem valueBefore_of_skipBlank (h : skipBlank s = w ++ r) (hv : Value w d) :
    ValueBefore s r d := by
  obtain ⟨b, hb, hs⟩ := exists_blanks s
  exact ⟨b, w, by rw [← h, ← hs], hb, hv⟩

variable {fuel : Nat} {ds : List Draft} {ms : List (Draft × Draft)} {stop : Option Fault}

theorem ReadsSoundly.value_succ (hf : ReadsSoundly fuel)
    (h : readValue (fuel + 1) s = (d, some r)) : ValueBefore s r d := by
  rw [readValue] at h
  split at h
  · cases h
  · rename_i t ht
    obtain ⟨rfl, rfl⟩ := word_of_readWord h
    exact valueBefore_of_skipBlank ht .null
  · rename_i t ht
    obtain ⟨rfl, rfl⟩ := word_of_readWord h
    exact valueBefore_of_skipBlank ht .isTrue
  · rename_i t ht
    obtain ⟨rfl, rfl⟩ := word_of_readWord h
    exact valueBefore_of_skipBlank ht .isFalse
  · rename_i t ht
    obtain ⟨w, xs, rfl, hw⟩ := quotedBefore_of_readString h
    rw [readString_start hw] at h
    cases h
    exact valueBefore_of_skipBlank ht (.string hw)
  · rename_i t ht
    obtain ⟨w, n, rfl, hw, rfl⟩ := numeralBefore_of_readDigits h
    exact valueBefore_of_skipBlank ht (.negative hw)
  · rename_i t ht
    split at h
    · cases h
    · rename_i t' ht'
      cases h
      obtain ⟨b, hb, hs⟩ := exists_blanks t
      rw [ht'] at hs
      refine valueBefore_of_skipBlank ?_ (.emptyArray hb)
      rw [ht, hs]
      simp
    · rw [readItems_skipBlank] at h
      obtain ⟨⟨ds, stop, rest⟩, hread⟩ : ∃ read, readItems fuel t = read := ⟨_, rfl⟩
      rw [hread] at h
      cases h
      obtain ⟨rfl, t', rfl, hds⟩ := hf.items hread
      exact valueBefore_of_skipBlank ht (.array hds)
  · rename_i c t _ _ _ _ _ _ ht
    split at h
    · rename_i hopen
      obtain rfl := hopen
      obtain ⟨b, hb, hs⟩ := exists_blanks t
      split at h
      · cases h
      · rename_i c' t' ht'
        rw [ht'] at hs
        split at h
        · rename_i hclose
          obtain rfl := hclose
          cases h
          refine valueBefore_of_skipBlank ?_ (.emptyObject hb)
          rw [ht, hs]
          simp
        · split at h
          · rename_i hquote
            obtain rfl := hquote
            obtain ⟨⟨ms, stop, rest⟩, hread⟩ : ∃ read, readMembers fuel t' = read := ⟨_, rfl⟩
            rw [hread] at h
            cases h
            obtain ⟨rfl, k, rfl, hms⟩ := hf.members hread
            refine valueBefore_of_skipBlank ?_ (.object hb hms)
            rw [ht, hs]
            simp
          · cases h
    · split at h
      · obtain ⟨w, n, hw, hn, rfl⟩ := numeralBefore_of_readDigits h
        exact valueBefore_of_skipBlank (ht.trans hw) (.number hn)
      · cases h

theorem ReadsSoundly.items_succ (hf : ReadsSoundly fuel)
    (h : readItems (fuel + 1) s = (ds, stop, some r)) : stop = none ∧ ItemsBefore s r ds := by
  rw [readItems] at h
  split at h
  · cases h
  · rename_i d rest hread
    obtain ⟨a, w, rfl, ha, hw⟩ := hf.value hread
    obtain ⟨b, hb, hrest⟩ := exists_blanks rest
    split at h
    · cases h
    · rename_i t ht
      cases h
      refine ⟨rfl, _, ?_, .last ha hw hb⟩
      rw [hrest, ht]
      simp
    · rename_i t ht
      obtain ⟨⟨ds, stop, rest⟩, hmore⟩ : ∃ read, readItems fuel t = read := ⟨_, rfl⟩
      rw [hmore] at h
      cases h
      obtain ⟨rfl, t', rfl, hds⟩ := hf.items hmore
      refine ⟨rfl, _, ?_, .next ha hw hb hds⟩
      rw [hrest, ht]
      simp
    · cases h

theorem ReadsSoundly.members_succ (hf : ReadsSoundly fuel)
    (h : readMembers (fuel + 1) s = (ms, stop, some r)) :
    stop = none ∧ MembersBefore s r ms := by
  rw [readMembers] at h
  split at h
  · cases h
  · rename_i k rest hkey
    obtain ⟨w, xs, rfl, hw⟩ := quotedBefore_of_readString hkey
    rw [readString_start hw] at hkey
    cases hkey
    obtain ⟨a, ha, hrest⟩ := exists_blanks rest
    split at h
    · cases h
    · rename_i t ht
      split at h
      · cases h
      · rename_i d rest' hread
        obtain ⟨b, v, rfl, hb, hv⟩ := hf.value hread
        obtain ⟨c, hc, hrest'⟩ := exists_blanks rest'
        split at h
        · cases h
        · rename_i t' ht'
          obtain ⟨e, he, ht''⟩ := exists_blanks t'
          split at h
          · cases h
          · rename_i q hq
            obtain ⟨⟨ms, stop, rest⟩, hmore⟩ : ∃ read, readMembers fuel q = read := ⟨_, rfl⟩
            rw [hmore] at h
            cases h
            obtain ⟨rfl, q', rfl, hms⟩ := hf.members hmore
            refine ⟨rfl, _, ?_, .next hw ha hb hv hc he hms⟩
            rw [hrest, ht, hrest', ht', ht'', hq]
            simp
          · cases h
        · split at h
          · rename_i hclose
            obtain rfl := hclose
            cases h
            refine ⟨rfl, _, ?_, .last hw ha hb hv hc⟩
            rw [hrest, ht, hrest', ‹skipBlank rest' = _›]
            simp
          · cases h
    · cases h

theorem reads_soundly (fuel : Nat) : ReadsSoundly fuel := by
  induction fuel with
  | zero => exact ⟨fun h => (by cases h), fun h => (by cases h), fun h => (by cases h)⟩
  | succ fuel ih => exact ⟨ih.value_succ, ih.items_succ, ih.members_succ⟩

theorem LeavesFaults.value_succ (hf : LeavesFaults fuel)
    (h : readValue (fuel + 1) s = (d, none)) : d.skipFault? ≠ none := by
  rw [readValue] at h
  split at h
  · cases h
    simp [skipFault?]
  · exact readWord_faulty h
  · exact readWord_faulty h
  · exact readWord_faulty h
  · exact readString_faulty h
  · exact readDigits_faulty h
  · split at h
    · cases h
      simp [skipFault?, skipItems]
    · cases h
    · rename_i t _ _ _ _
      rw [readItems_skipBlank] at h
      obtain ⟨⟨ds, stop, rest⟩, hread⟩ : ∃ read, readItems fuel t = read := ⟨_, rfl⟩
      rw [hread] at h
      cases h
      exact hf.items hread
  · split at h
    · split at h
      · cases h
        simp [skipFault?, skipMembers]
      · rename_i t _
        split at h
        · cases h
        · split at h
          · obtain ⟨⟨ms, stop, rest⟩, hread⟩ : ∃ read, readMembers fuel t = read := ⟨_, rfl⟩
            rw [hread] at h
            cases h
            exact hf.members hread
          · cases h
            simp [skipFault?, skipMembers]
    · split at h
      · exact readDigits_faulty h
      · cases h
        simp [skipFault?]

theorem LeavesFaults.items_succ (hf : LeavesFaults fuel)
    (h : readItems (fuel + 1) s = (ds, stop, none)) : skipItems ds stop ≠ none := by
  rw [readItems] at h
  split at h
  · rename_i hread
    cases h
    simp [skipItems, hf.value hread]
  · split at h
    · cases h
      simp [skipItems]
    · cases h
    · rename_i t _
      obtain ⟨⟨ds, stop, rest⟩, hmore⟩ : ∃ read, readItems fuel t = read := ⟨_, rfl⟩
      rw [hmore] at h
      cases h
      simp [skipItems, hf.items hmore]
    · cases h
      simp [skipItems]

theorem LeavesFaults.members_succ (hf : LeavesFaults fuel)
    (h : readMembers (fuel + 1) s = (ms, stop, none)) : skipMembers ms stop ≠ none := by
  rw [readMembers] at h
  split at h
  · rename_i hkey
    cases h
    simp [skipMembers, readString_faulty hkey]
  · split at h
    · cases h
      simp [skipMembers, skipFault?]
    · split at h
      · rename_i hread
        cases h
        simp [skipMembers, hf.value hread]
      · split at h
        · cases h
          simp [skipMembers]
        · split at h
          · cases h
            simp [skipMembers, skipFault?]
          · rename_i q _
            obtain ⟨⟨ms, stop, rest⟩, hmore⟩ : ∃ read, readMembers fuel q = read := ⟨_, rfl⟩
            rw [hmore] at h
            cases h
            simp [skipMembers, hf.members hmore]
          · cases h
            simp [skipMembers, skipFault?]
        · split at h
          · cases h
          · cases h
            simp [skipMembers]
    · cases h
      simp [skipMembers, skipFault?]

theorem leaves_faults (fuel : Nat) : LeavesFaults fuel := by
  induction fuel with
  | zero =>
    refine ⟨fun h => ?_, fun h => ?_, fun h => ?_⟩ <;>
    · cases h
      simp [skipFault?, skipItems, skipMembers]
  | succ fuel ih => exact ⟨ih.value_succ, ih.items_succ, ih.members_succ⟩

mutual

theorem Value.faultless : {w : List Char} → {d : Draft} → Value w d → d.skipFault? = none
  | _, _, .null | _, _, .isTrue | _, _, .isFalse | _, _, .number _ | _, _, .negative _
  | _, _, .string _ | _, _, .emptyArray _ | _, _, .emptyObject _ => rfl
  | _, _, .array hs => hs.faultless
  | _, _, .object _ hs => hs.faultless

theorem Items.faultless : {s : List Char} → {ds : List Draft} → Items s ds →
    skipItems ds none = none
  | _, _, .last _ hv _ => by simp [skipItems, hv.faultless]
  | _, _, .next _ hv _ ht => by simp [skipItems, hv.faultless, ht.faultless]

theorem Members.faultless : {s : List Char} → {ms : List (Draft × Draft)} → Members s ms →
    skipMembers ms none = none
  | _, _, .last _ _ _ hv _ => by simp [skipMembers, skipFault?, hv.faultless]
  | _, _, .next _ _ _ hv _ _ ht => by simp [skipMembers, skipFault?, hv.faultless, ht.faultless]

end

/-- A text is read without a fault exactly if it is JSON. -/
theorem derives_iff {text : String} :
    Derives text.toList d ↔ Draft.ofText text = (d, false) ∧ d.skipFault? = none := by
  constructor
  · rintro ⟨a, w, b, htext, ha, hw, hb⟩
    have hlength : w.length < 2 * text.toList.length + 2 := by
      rw [htext]
      simp
      omega
    have hread : readValue (2 * text.toList.length + 2) text.toList = (d, some b) := by
      rw [htext, readValue_blanks _ ha, ← htext]
      exact hw.read _ hlength b (List.append_nil b ▸ ends_blanks hb ends_nil)
    have hblank : skipBlank b = [] := List.append_nil b ▸ skipBlank_blanks (s := []) hb
    exact ⟨by simp [Draft.ofText, hread, hblank], hw.faultless⟩
  · rintro ⟨hread, hfaultless⟩
    obtain ⟨⟨d', rest⟩, hvalue⟩ :
        ∃ read, readValue (2 * text.toList.length + 2) text.toList = read := ⟨_, rfl⟩
    simp only [Draft.ofText, hvalue, Prod.mk.injEq] at hread
    obtain ⟨rfl, hrest⟩ := hread
    cases rest with
    | none => exact absurd hfaultless ((leaves_faults _).value hvalue)
    | some b =>
      obtain ⟨a, w, htext, ha, hw⟩ := (reads_soundly _).value hvalue
      exact ⟨a, w, b, htext, ha, hw, blanks_of_skipBlank (by simpa using hrest)⟩

theorem Derives.draft {text : String} (h : Derives text.toList d) : (Draft.ofText text).1 = d :=
  congrArg Prod.fst (derives_iff.mp h).1

theorem Derives.unique {text : String} {d' : Draft} (h : Derives text.toList d)
    (h' : Derives text.toList d') : d = d' := h.draft.symm.trans h'.draft

end Grammar

end DistributionOperator
