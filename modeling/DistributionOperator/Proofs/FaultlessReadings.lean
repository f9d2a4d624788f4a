import DistributionOperator.Proofs.JsonAcceptance
import DistributionOperator.Proofs.RecordForms

/-! Readers that go through all of a text, wanted or not, so that nothing is read of a text that is
not JSON. -/

namespace DistributionOperator

variable {α : Type}

namespace Draft

theorem skipItems_eq_none {items : List Draft} :
    skipItems items none = none ↔ ∀ d ∈ items, d.skipFault? = none := by
  induction items with
  | nil => simp [skipItems]
  | cons d items ih => simp [skipItems, ih]

theorem skipMembers_eq_none {ms : List (Draft × Draft)} :
    skipMembers ms none = none ↔ ∀ m ∈ ms, m.1.skipFault? = none ∧ m.2.skipFault? = none := by
  induction ms with
  | nil => simp [skipMembers]
  | cons m ms ih => simp [skipMembers, ih]

end Draft

namespace Decoder

variable {decode : Decoder α}

/-- Nothing is read of a draft with a fault in it. -/
def Heedful (decode : Decoder α) : Prop := ∀ d a, decode .text d = .ok a → d.skipFault? = none

theorem ofText_eq_ok {s : String} {a : α} :
    decode.ofText s = .ok a ↔ ∃ d, Draft.ofText s = (d, false) ∧ decode .text d = .ok a := by
  obtain ⟨d, trailing, hread⟩ : ∃ d trailing, Draft.ofText s = (d, trailing) := ⟨_, _, rfl⟩
  unfold Decoder.ofText
  rw [hread]
  constructor
  · intro h
    obtain ⟨a', ha', h⟩ := bind_eq_ok.mp h
    cases trailing with
    | true => cases h
    | false =>
      cases h
      exact ⟨d, rfl, ha'⟩
  · rintro ⟨d', hd', ha⟩
    cases hd'
    exact bind_eq_ok.mpr ⟨a, ha, rfl⟩

/-- Texts are read by way of the draft that the grammar gives to them. -/
theorem Heedful.ofText_iff (h : decode.Heedful) {s : String} {a : α} :
    decode.ofText s = .ok a ↔ ∃ d, Grammar.Derives s.toList d ∧ decode .text d = .ok a := by
  rw [ofText_eq_ok]
  refine exists_congr fun d => ?_
  rw [Grammar.derives_iff]
  exact ⟨fun ⟨hread, ha⟩ => ⟨⟨hread, h d a ha⟩, ha⟩, fun ⟨⟨hread, _⟩, ha⟩ => ⟨hread, ha⟩⟩

end Decoder

namespace Codec

variable {c : Codec α} {src : Source}

theorem decodeItems_eq_ok {items : List Draft} {as : List α} :
    decodeItems c.decode src items = .ok as ↔
      List.Forall₂ (fun d a => c.decode src d = .ok a) items as := by
  induction items generalizing as with
  | nil => cases as <;> simp [decodeItems]
  | cons d items ih =>
    rw [List.forall₂_cons_left_iff]
    constructor
    · intro h
      obtain ⟨a, ha, h⟩ := bind_eq_ok.mp h
      obtain ⟨rest, hrest, h⟩ := bind_eq_ok.mp h
      cases h
      exact ⟨a, rest, ha, ih.mp hrest, rfl⟩
    · rintro ⟨a, rest, ha, hrest, rfl⟩
      exact bind_eq_ok.mpr ⟨a, ha, bind_eq_ok.mpr ⟨rest, ih.mpr hrest, rfl⟩⟩

theorem list_eq_ok {d : Draft} {as : List α} :
    c.list.decode src d = .ok as ↔ ∃ items, d = .array items none ∧
      List.Forall₂ (fun d a => c.decode src d = .ok a) items as := by
  cases d with
  | array items stop =>
    constructor
    · intro h
      obtain ⟨as', hitems, h⟩ := bind_eq_ok.mp h
      obtain ⟨_, hstop, h⟩ := bind_eq_ok.mp h
      obtain rfl := Draft.stopped_eq_ok.mp hstop
      cases h
      exact ⟨items, rfl, decodeItems_eq_ok.mp hitems⟩
    · rintro ⟨_, ⟨⟩, hitems⟩
      exact bind_eq_ok.mpr ⟨as, decodeItems_eq_ok.mpr hitems, rfl⟩
  | _ => simp [list]

theorem string_heedful : string.decode.Heedful := by
  intro d s h
  cases d with
  | string s => rfl
  | _ => cases h

theorem option_heedful (h : c.decode.Heedful) : c.option.decode.Heedful := by
  intro d a hd
  by_cases hnull : d = .null
  · rw [hnull]
    rfl
  · rw [option_decode_of_not_null hnull] at hd
    obtain ⟨b, hb, _⟩ := map_eq_ok.mp hd
    exact h d b hb

theorem list_heedful (h : c.decode.Heedful) : c.list.decode.Heedful := by
  intro d as hd
  obtain ⟨items, rfl, hitems⟩ := list_eq_ok.mp hd
  refine Draft.skipItems_eq_none.mpr fun d hmem => ?_
  obtain ⟨i, hi, rfl⟩ := List.getElem_of_mem hmem
  have hi' : i < as.length := hitems.length_eq ▸ hi
  exact h _ _ (hitems.get hi hi')

end Codec

namespace Record

variable {r : Record α} {a : α} {ms : List (Draft × Draft)}

theorem FitsItems.heedful {start : α} {fields : List (Field α)} {items : List Draft}
    (h : FitsItems .text start a fields items) (hfields : ∀ f ∈ fields, f.decode.Heedful) :
    ∀ d ∈ items, d.skipFault? = none := by
  induction fields generalizing items with
  | nil =>
    obtain rfl : items = [] := h
    simp
  | cons f fields ih =>
    obtain ⟨hf, hrest⟩ := List.forall_mem_cons.mp hfields
    cases items with
    | nil => simp
    | cons d items => exact List.forall_mem_cons.mpr ⟨hf d _ h.1, ih h.2 hrest⟩

/-- A member of a field is read, and any other is passed over. -/
theorem Fits.heedful (h : r.Fits .text ms a) (hfields : ∀ f ∈ r.fields, f.decode.Heedful) :
    ∀ m ∈ ms, m.1.skipFault? = none ∧ m.2.skipFault? = none := by
  intro m hm
  obtain ⟨key, hkey, hpassed⟩ := h.keyed m hm
  refine ⟨by rw [hkey]; rfl, ?_⟩
  by_cases hnone : ∀ f ∈ r.fields, f.accepts key = false
  · exact hpassed hnone
  · obtain ⟨f, hf, hk⟩ : ∃ f ∈ r.fields, f.accepts key = true := by simpa using hnone
    have hsaid : m.2 ∈ f.said ms := List.mem_filterMap.mpr ⟨m, hm, by simp [hkey, hk]⟩
    rcases h.settled f hf with ⟨hnil, _⟩ | ⟨d, hone, hd⟩
    · rw [hnil] at hsaid
      cases hsaid
    · rw [hone] at hsaid
      rw [List.mem_singleton.mp hsaid]
      exact hfields f hf d _ hd

theorem heedful (h : r.Strict) (hfields : ∀ f ∈ r.fields, f.decode.Heedful) :
    r.decode.Heedful := by
  intro d a hd
  rcases (decode_text_iff h).mp hd with ⟨ms, stray, rfl, hfits⟩ | ⟨items, rfl, hitems⟩
  · exact Draft.skipMembers_eq_none.mpr (hfits.heedful hfields)
  · exact Draft.skipItems_eq_none.mpr (hitems.heedful hfields)

end Record

end DistributionOperator
