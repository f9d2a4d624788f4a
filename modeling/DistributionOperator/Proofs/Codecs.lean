import DistributionOperator.Json.Codec
import DistributionOperator.Proofs.StringMaps

/-! Values that are written and read again. A codec is faithful if nothing else is read back than
what was written; the reader may still refuse it. -/

namespace DistributionOperator

theorem bind_eq_ok {ε α β : Type} {x : Except ε α} {f : α → Except ε β} {b : β} :
    (x >>= f) = .ok b ↔ ∃ a, x = .ok a ∧ f a = .ok b := by
  cases x with
  | error e =>
    constructor
    · intro h
      cases h
    · rintro ⟨a, ha, _⟩
      cases ha
  | ok a =>
    constructor
    · intro h
      exact ⟨a, rfl, h⟩
    · rintro ⟨_, ⟨⟩, h⟩
      exact h

theorem map_eq_ok {ε α β : Type} {x : Except ε α} {f : α → β} {b : β} :
    x.map f = .ok b ↔ ∃ a, x = .ok a ∧ b = f a := by
  cases x with
  | error e => simp [Except.map]
  | ok a => simp [Except.map, eq_comm]

namespace Json

mutual

theorem skipFault?_toDraft : (j : Json) → j.toDraft.skipFault? = none
  | .null | .bool _ | .number _ | .string _ => rfl
  | .array items => skipItems_draftItems items
  | .object members => skipMembers_draftMembers members

theorem skipItems_draftItems : (items : List Json) →
    Draft.skipItems (draftItems items) none = none
  | [] => rfl
  | j :: r => by
    rw [draftItems, Draft.skipItems, skipFault?_toDraft j, skipItems_draftItems r]
    rfl

theorem skipMembers_draftMembers : (members : List (String × Json)) →
    Draft.skipMembers (draftMembers members) none = none
  | [] => rfl
  | (k, j) :: r => by
    rw [draftMembers, Draft.skipMembers, skipFault?_toDraft j, skipMembers_draftMembers r]
    rfl

end

theorem skip_toDraft (j : Json) : j.toDraft.skip = .ok () := by
  rw [Draft.skip, skipFault?_toDraft]

end Json

namespace Codec

variable {α : Type} {c : Codec α}

def Faithful (c : Codec α) : Prop :=
  ∀ a b, c.decode .value (c.encode a).toDraft = .ok b → b = a

def NeverNull (c : Codec α) : Prop := ∀ a, c.encode a ≠ .null

theorem string_faithful : string.Faithful := by
  intro a b h
  exact (Except.ok.inj h).symm

theorem string_neverNull : string.NeverNull := by
  intro a h
  cases h

theorem int32_faithful : int32.Faithful := by
  intro a b h
  simp only [int32, Json.int, Json.toDraft] at h
  split at h
  · rw [← Except.ok.inj h, Int32.ofInt_toInt]
  · cases h

theorem int32_neverNull : int32.NeverNull := by
  intro n h
  cases h

theorem list_neverNull (c : Codec α) : (list c).NeverNull := by
  intro as h
  cases h

theorem map_neverNull (c : Codec α) : (map c).NeverNull := by
  intro m h
  cases h

theorem decodeItems_faithful (h : c.Faithful) {as bs : List α}
    (hd : decodeItems c.decode .value (Json.draftItems (as.map c.encode)) = .ok bs) : bs = as := by
  induction as generalizing bs with
  | nil => exact (Except.ok.inj hd).symm
  | cons a r ih =>
    obtain ⟨b, hb, hd⟩ := bind_eq_ok.mp hd
    obtain ⟨s, hs, hd⟩ := bind_eq_ok.mp hd
    rw [← Except.ok.inj hd, h a b hb, ih hs]

theorem list_faithful (h : c.Faithful) : (list c).Faithful := by
  intro as bs hd
  obtain ⟨s, hs, hd⟩ := bind_eq_ok.mp hd
  rw [← Except.ok.inj hd]
  exact decodeItems_faithful h hs

theorem decodeEntries_faithful (h : c.Faithful) {l es : List (String × α)}
    (hd : decodeEntries c.decode .value (Json.draftMembers (l.map fun e => (e.1, c.encode e.2))) =
      .ok es) : es = l := by
  induction l generalizing es with
  | nil => exact (Except.ok.inj hd).symm
  | cons e r ih =>
    obtain ⟨k, hk, hd⟩ := bind_eq_ok.mp hd
    obtain ⟨b, hb, hd⟩ := bind_eq_ok.mp hd
    obtain ⟨s, hs, hd⟩ := bind_eq_ok.mp hd
    cases hk
    rw [← Except.ok.inj hd, h e.2 b hb, ih hs]

theorem map_faithful (h : c.Faithful) : (map c).Faithful := by
  intro m n hd
  obtain ⟨es, hes, hd⟩ := bind_eq_ok.mp hd
  rw [← Except.ok.inj hd, decodeEntries_faithful h hes, StringMap.ofList_entries]

theorem toDraft_ne_null {j : Json} (h : j ≠ .null) : j.toDraft ≠ .null := by
  cases j with
  | null => exact absurd rfl h
  | _ => simp [Json.toDraft]

theorem option_decode_of_not_null {d : Draft} (h : d ≠ .null) (src : Source) :
    c.option.decode src d = (c.decode src d).map some := by
  unfold option
  dsimp only
  split
  · exact absurd rfl h
  · rfl

theorem option_decode_of_ne_null {j : Json} (h : j ≠ .null) :
    c.option.decode .value j.toDraft = (c.decode .value j.toDraft).map some :=
  option_decode_of_not_null (toDraft_ne_null h) .value

theorem option_faithful (h : c.Faithful) (hn : c.NeverNull) : c.option.Faithful := by
  intro a b hd
  cases a with
  | none => exact (Except.ok.inj hd).symm
  | some a =>
    have henc : c.option.encode (some a) = c.encode a := rfl
    rw [henc, option_decode_of_ne_null (hn a)] at hd
    cases hc : c.decode .value (c.encode a).toDraft with
    | error e =>
      rw [hc] at hd
      cases hd
    | ok v =>
      rw [hc] at hd
      rw [← Except.ok.inj hd, h a v hc]

end Codec

end DistributionOperator
