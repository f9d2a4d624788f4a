import DistributionOperator.Proofs.JsonReadings
import DistributionOperator.Proofs.LegibleStatuses

/-! Codecs that can be trusted with a document. What is written is read back as it was, from a value
as well as from a text, and nothing is read that could not be written and read again. Lists, maps
and records of sound parts are sound. -/

namespace DistributionOperator

variable {α β : Type}

/-- What is read of a value is also read of its text. -/
def Decoder.Textual (decode : Decoder α) : Prop :=
  ∀ (j : Json) a, decode .value j.toDraft = .ok a → decode .text j.toDraft = .ok a

namespace Codec

variable {c : Codec α}

structure Sound (c : Codec α) : Prop where
  faithful : c.Faithful
  fromText : c.decode.Textual
  rereads : ∀ src d a, c.decode src d = .ok a → c.Reads a
  readable : ∀ a, (c.encode a).Readable

theorem string_sound : string.Sound where
  faithful := string_faithful
  fromText _ _ h := h
  rereads _ _ s _ := string_reads s
  readable _ := trivial

theorem int32_sound : int32.Sound where
  faithful := int32_faithful
  fromText _ _ h := h
  rereads _ _ n _ := int32_reads n
  readable n := by
    have hlow := n.le_toInt
    have hhigh := n.toInt_lt
    constructor <;> omega

theorem decodeItems_fromText (h : c.Sound) {l : List Json} {as : List α}
    (hd : decodeItems c.decode .value (Json.draftItems l) = .ok as) :
    decodeItems c.decode .text (Json.draftItems l) = .ok as := by
  induction l generalizing as with
  | nil => exact hd
  | cons j r ih =>
    obtain ⟨a, ha, hd⟩ := bind_eq_ok.mp hd
    obtain ⟨s, hs, hd⟩ := bind_eq_ok.mp hd
    exact bind_eq_ok.mpr ⟨a, h.fromText j a ha, bind_eq_ok.mpr ⟨s, ih hs, hd⟩⟩

theorem decodeItems_rereads (h : c.Sound) {src : Source} {l : List Draft} {as : List α}
    (hd : decodeItems c.decode src l = .ok as) : ∀ a ∈ as, c.Reads a := by
  induction l generalizing as with
  | nil =>
    cases hd
    simp
  | cons d r ih =>
    obtain ⟨a, ha, hd⟩ := bind_eq_ok.mp hd
    obtain ⟨s, hs, hd⟩ := bind_eq_ok.mp hd
    cases hd
    exact List.forall_mem_cons.mpr ⟨h.rereads src d a ha, ih hs⟩

theorem list_sound (h : c.Sound) : (list c).Sound where
  faithful := list_faithful h.faithful
  fromText j as hd := by
    cases j with
    | array l =>
      obtain ⟨bs, hbs, hd⟩ := bind_eq_ok.mp hd
      exact bind_eq_ok.mpr ⟨bs, decodeItems_fromText h hbs, hd⟩
    | number n => cases n <;> cases hd
    | _ => cases hd
  rereads src d as hd := by
    cases d with
    | array l stop =>
      obtain ⟨bs, hbs, hd⟩ := bind_eq_ok.mp hd
      obtain ⟨_, _, hd⟩ := bind_eq_ok.mp hd
      cases hd
      exact list_reads.mpr (decodeItems_rereads h hbs)
    | _ => cases hd
  readable as := Json.readableItems_iff.mpr fun j hj => by
    obtain ⟨a, _, rfl⟩ := List.mem_map.mp hj
    exact h.readable a

theorem decodeEntries_fromText (h : c.Sound) {l : List (String × Json)} {es : List (String × α)}
    (hd : decodeEntries c.decode .value (Json.draftMembers l) = .ok es) :
    decodeEntries c.decode .text (Json.draftMembers l) = .ok es := by
  induction l generalizing es with
  | nil => exact hd
  | cons m r ih =>
    obtain ⟨k, hk, hd⟩ := bind_eq_ok.mp hd
    obtain ⟨a, ha, hd⟩ := bind_eq_ok.mp hd
    obtain ⟨s, hs, hd⟩ := bind_eq_ok.mp hd
    exact bind_eq_ok.mpr ⟨k, hk, bind_eq_ok.mpr ⟨a, h.fromText m.2 a ha,
      bind_eq_ok.mpr ⟨s, ih hs, hd⟩⟩⟩

theorem map_sound (h : c.Sound) (htotal : ∀ a, c.Reads a) : (map c).Sound where
  faithful := map_faithful h.faithful
  fromText j m hd := by
    cases j with
    | object l =>
      obtain ⟨es, hes, hd⟩ := bind_eq_ok.mp hd
      exact bind_eq_ok.mpr ⟨es, decodeEntries_fromText h hes, hd⟩
    | number n => cases n <;> cases hd
    | _ => cases hd
  rereads _ _ m _ := map_reads htotal m
  readable m := Json.readableMembers_iff.mpr fun e he => by
    obtain ⟨x, _, rfl⟩ := List.mem_map.mp he
    exact h.readable x.2

theorem option_sound (h : c.Sound) (hn : c.NeverNull) : c.option.Sound where
  faithful := option_faithful h.faithful hn
  fromText j a hd := by
    by_cases hj : j = .null
    · subst hj
      exact hd
    · have hne := toDraft_ne_null hj
      rw [option_decode_of_not_null hne] at hd ⊢
      obtain ⟨b, hb, rfl⟩ := map_eq_ok.mp hd
      exact map_eq_ok.mpr ⟨b, h.fromText j b hb, rfl⟩
  rereads src d a hd := by
    by_cases hnull : d = .null
    · subst hnull
      cases hd
      exact (option_reads hn).mpr (by simp)
    · rw [option_decode_of_not_null hnull] at hd
      obtain ⟨b, hb, rfl⟩ := map_eq_ok.mp hd
      refine (option_reads hn).mpr ?_
      rintro _ ⟨⟩
      exact h.rereads src d b hb
  readable a := by
    cases a with
    | none => trivial
    | some a => exact h.readable a

theorem variants_fromText {known : List (Variant α)} {name : α → String} :
    (variants known name).decode.Textual := by
  intro j a hd
  cases j with
  | string s => exact hd
  | object l =>
    rcases l with _ | ⟨m, _ | _⟩
    · cases hd
    · obtain ⟨k, hk, hnamed⟩ := bind_eq_ok.mp hd
      obtain ⟨b, hb, hunit⟩ := bind_eq_ok.mp hnamed
      obtain ⟨_, hnull, ha⟩ := bind_eq_ok.mp hunit
      cases hk
      exact bind_eq_ok.mpr ⟨b, hb, bind_eq_ok.mpr ⟨(), hnull, ha⟩⟩
    · cases hd
  | number n => cases n <;> cases hd
  | _ => cases hd

end Codec

/-- A field of a sound record. Its start is what the field has in a record in which nothing was set
yet. -/
structure Field.Sound (f : Field α) (start : α) : Prop where
  faithful : f.Faithful start
  fromText : f.decode.Textual
  rereads : ∀ src d v, f.decode src d = .ok v → f.Reads v
  starts : f.Reads (f.get start)
  readable : ∀ v, ∀ j ∈ f.encode v, j.Readable

namespace Field

variable {name : String} {c : Codec β} {start : α}

/-- A field that is always written is as sound as its value. -/
theorem written_sound {required : Bool} {aliases : List String} {get : α → β}
    {set : α → β → α} (h : c.Sound) (hs : c.Reads (get start)) :
    (⟨name, aliases, required, β, get, set, c.decode, fun b => some (c.encode b)⟩ :
      Field α).Sound start where
  faithful := h.faithful
  fromText := h.fromText
  rereads src d v hd := reads_of_codec.mpr (h.rereads src d v hd)
  starts := reads_of_codec.mpr hs
  readable v := by
    rintro _ ⟨⟩
    exact h.readable v

theorem needed_sound {get : α → β} {set : α → β → α} (h : c.Sound) (hs : c.Reads (get start)) :
    (needed name c get set).Sound start :=
  written_sound h hs

theorem defaulted_sound {get : α → β} {set : α → β → α} (h : c.Sound)
    (hs : c.Reads (get start)) : (defaulted name c get set).Sound start :=
  written_sound h hs

theorem nullable_sound {get : α → Option β} {set : α → Option β → α} (h : c.Sound)
    (hn : c.NeverNull) (hs : get start = none) : (nullable name c get set).Sound start :=
  written_sound (Codec.option_sound h hn) (hs ▸ (Codec.option_reads hn).mpr (by simp))

theorem withAlias_sound {f : Field α} (h : f.Sound start) (other : String) :
    (f.withAlias other).Sound start :=
  ⟨h.faithful, h.fromText, h.rereads, h.starts, h.readable⟩

theorem optional_sound {get : α → Option β} {set : α → Option β → α} (h : c.Sound)
    (hn : c.NeverNull) (hs : get start = none) : (optional name c get set).Sound start where
  faithful := optional_faithful h.faithful hn set hs
  fromText := (Codec.option_sound h hn).fromText
  rereads src d v hd j hj := by
    obtain ⟨b, rfl, rfl⟩ := Option.map_eq_some_iff.mp hj
    exact (Codec.option_sound h hn).rereads src d (some b) hd
  starts j hj := by
    obtain ⟨b, hb, _⟩ := Option.map_eq_some_iff.mp hj
    cases hs.symm.trans hb
  readable v j hj := by
    obtain ⟨b, _, rfl⟩ := Option.map_eq_some_iff.mp hj
    exact h.readable b

theorem skippedIf_sound {skipped : β → Bool} {get : α → β} {set : α → β → α} (h : c.Sound)
    (hskipped : ∀ b, skipped b = true → b = get start) (hs : c.Reads (get start)) :
    (skippedIf name c skipped get set).Sound start where
  faithful := skippedIf_faithful h.faithful set hskipped
  fromText := h.fromText
  rereads src d v hd := skippedIf_reads (h.rereads src d v hd)
  starts := skippedIf_reads hs
  readable v j hj := by
    obtain ⟨_, rfl⟩ := skippedIf_encode hj
    exact h.readable v

theorem skippedIf_list_sound {get : α → List β} {set : α → List β → α} (h : c.Sound)
    (hs : get start = []) : (skippedIf name (.list c) (·.isEmpty) get set).Sound start :=
  skippedIf_sound (Codec.list_sound h) (fun _ he => (List.isEmpty_iff.mp he).trans hs.symm)
    (hs ▸ Codec.list_reads.mpr (List.forall_mem_nil _))

theorem skippedIf_map_sound {get : α → StringMap β} {set : α → StringMap β → α} (h : c.Sound)
    (htotal : ∀ b, c.Reads b) (hs : get start = .empty) :
    (skippedIf name (.map c) (·.isEmpty) get set).Sound start :=
  skippedIf_sound (Codec.map_sound h htotal)
    (fun _ he => (StringMap.isEmpty_iff.mp he).trans hs.symm) (Codec.map_reads htotal _)

end Field

namespace Record

variable {r : Record α}

theorem readMembers_fromText (hf : ∀ f ∈ r.fields, f.decode.Textual)
    {members : List (String × Json)} {seen : List String} {start : α} {b : α × List String}
    (hd : r.readMembers .value (Json.draftMembers members) seen start = .ok b) :
    r.readMembers .text (Json.draftMembers members) seen start = .ok b := by
  induction members generalizing seen start with
  | nil => exact hd
  | cons m rest ih =>
    obtain ⟨key, hkey, hd⟩ := bind_eq_ok.mp hd
    refine bind_eq_ok.mpr ⟨key, hkey, ?_⟩
    split at hd
    · obtain ⟨_, hskip, hd⟩ := bind_eq_ok.mp hd
      exact bind_eq_ok.mpr ⟨(), hskip, ih hd⟩
    · rename_i f hfind
      split at hd
      · cases hd
      · rename_i hfresh
        obtain ⟨a, ha, hd⟩ := bind_eq_ok.mp hd
        obtain ⟨v, hv, rfl⟩ := map_eq_ok.mp ha
        have htext := hf f (List.mem_of_find?_eq_some hfind) m.2 v hv
        rw [if_neg hfresh]
        exact bind_eq_ok.mpr ⟨f.set start v, map_eq_ok.mpr ⟨v, htext, rfl⟩, ih hd⟩

theorem readItems_fromText {fields : List (Field α)} (hf : ∀ f ∈ fields, f.decode.Textual)
    {i : Nat} {items : List Json} {start : α} {b : α × List Draft}
    (hd : r.readItems .value none fields i (Json.draftItems items) start = .ok b) :
    r.readItems .text none fields i (Json.draftItems items) start = .ok b := by
  induction fields generalizing i items start with
  | nil => exact hd
  | cons f fields ih =>
    obtain ⟨hfirst, hfields⟩ := List.forall_mem_cons.mp hf
    cases items with
    | nil =>
      obtain ⟨_, _, hd⟩ := bind_eq_ok.mp hd
      refine bind_eq_ok.mpr ⟨(), rfl, ?_⟩
      split at hd
      · cases hd
      · rename_i hreq
        rw [if_neg hreq]
        exact @ih hfields _ [] _ hd
    | cons j rest =>
      obtain ⟨a, ha, hd⟩ := bind_eq_ok.mp hd
      obtain ⟨v, hv, rfl⟩ := map_eq_ok.mp ha
      exact bind_eq_ok.mpr ⟨f.set start v, map_eq_ok.mpr ⟨v, hfirst j v hv, rfl⟩, ih hfields hd⟩

theorem decode_fromText (hf : ∀ f ∈ r.fields, f.decode.Textual) : r.decode.Textual := by
  intro j a hd
  cases j with
  | object members =>
    obtain ⟨b, hb, hd⟩ := bind_eq_ok.mp hd
    exact bind_eq_ok.mpr ⟨b, readMembers_fromText hf hb, hd⟩
  | array items =>
    change (if r.strict = true then _ else _) = _ at hd ⊢
    split at hd
    · rename_i hstrict
      rw [if_pos hstrict]
      obtain ⟨⟨b, left⟩, hb, hleft⟩ := bind_eq_ok.mp hd
      refine bind_eq_ok.mpr ⟨(b, left), readItems_fromText hf hb, ?_⟩
      dsimp only at hleft ⊢
      split at hleft
      · rename_i hempty
        rw [if_pos hempty]
        exact hleft
      · cases hleft
    · cases hd
  | number n => cases n <;> cases hd
  | _ => cases hd

section Preserved

variable {P : α → Prop}
  (hset : ∀ f ∈ r.fields, ∀ src d v, f.decode src d = .ok v → ∀ a, P a → P (f.set a v))

include hset

theorem readMembers_preserves {src : Source} {members : List (Draft × Draft)}
    {seen : List String} {start : α} (hstart : P start) {b : α × List String}
    (hd : r.readMembers src members seen start = .ok b) : P b.1 := by
  induction members generalizing seen start with
  | nil =>
    cases hd
    exact hstart
  | cons m rest ih =>
    obtain ⟨key, _, hkey⟩ := bind_eq_ok.mp hd
    split at hkey
    · obtain ⟨_, _, hrest⟩ := bind_eq_ok.mp hkey
      exact ih hstart hrest
    · rename_i f hfind
      split at hkey
      · cases hkey
      · obtain ⟨a, ha, hrest⟩ := bind_eq_ok.mp hkey
        obtain ⟨v, hv, rfl⟩ := map_eq_ok.mp ha
        exact ih (hset f (List.mem_of_find?_eq_some hfind) src m.2 v hv start hstart) hrest

theorem readItems_preserves {src : Source} {stop : Option Fault} {fields : List (Field α)}
    (hfields : ∀ f ∈ fields, f ∈ r.fields) {i : Nat} {items : List Draft} {start : α}
    (hstart : P start) {b : α × List Draft}
    (hd : r.readItems src stop fields i items start = .ok b) : P b.1 := by
  induction fields generalizing i items start with
  | nil =>
    cases hd
    exact hstart
  | cons f fields ih =>
    obtain ⟨hf, hrest⟩ := List.forall_mem_cons.mp hfields
    cases items with
    | nil =>
      obtain ⟨_, _, hstop⟩ := bind_eq_ok.mp hd
      split at hstop
      · cases hstop
      · exact ih hrest hstart hstop
    | cons d items =>
      obtain ⟨a, ha, hnext⟩ := bind_eq_ok.mp hd
      obtain ⟨v, hv, rfl⟩ := map_eq_ok.mp ha
      exact ih hrest (hset f hf src d v hv start hstart) hnext

/-- What setting a field to a value that was read preserves, reading a record does. -/
theorem decode_preserves (hblank : P r.blank) {src : Source} {d : Draft} {a : α}
    (hd : r.decode src d = .ok a) : P a := by
  cases d with
  | object members stop stray =>
    obtain ⟨b, hb, hstop⟩ := bind_eq_ok.mp hd
    have hread := readMembers_preserves hset hblank hb
    obtain ⟨_, _, hmissing⟩ := bind_eq_ok.mp hstop
    split at hmissing
    · cases hmissing
    · cases hmissing
      exact hread
  | array items stop =>
    change (if r.strict = true then _ else _) = _ at hd
    split at hd
    · obtain ⟨b, hb, hleft⟩ := bind_eq_ok.mp hd
      have hread := readItems_preserves hset (fun _ h => h) hblank hb
      dsimp only at hleft
      split at hleft
      · obtain ⟨_, _, ha⟩ := bind_eq_ok.mp hleft
        cases ha
        exact hread
      · cases src <;> cases hleft
    · cases hd
  | _ => cases hd

end Preserved

theorem codec_sound (h : r.Lawful)
    (hrequired : ∀ f ∈ r.fields, f.required = true → ∀ v, (f.encode v).isSome = true)
    (hf : ∀ f ∈ r.fields, f.Sound r.blank) : r.codec.Sound where
  faithful := codec_faithful h fun f hm => (hf f hm).faithful
  fromText := decode_fromText fun f hm => (hf f hm).fromText
  rereads src d a hd := by
    rw [codec_reads h hrequired]
    refine decode_preserves (P := fun a => ∀ f ∈ r.fields, f.Reads (f.get a))
      (fun f hm src d v hv a ha g hg => ?_) (fun f hm => (hf f hm).starts) hd
    by_cases hname : g.name = f.name
    · obtain rfl := h.eq_of_name hg hm hname
      rw [h.get_set g hm]
      exact (hf g hm).rereads src d v hv
    · rw [h.get_set_other f hm g hg hname]
      exact ha g hg
  readable a := Json.readableMembers_iff.mpr fun m hm => by
    obtain ⟨e, he, hem⟩ := List.mem_filterMap.mp (StringMap.mem_of_mem_ofList hm)
    obtain ⟨f, hmem, rfl⟩ := List.mem_map.mp he
    obtain ⟨j, hj, rfl⟩ := Option.map_eq_some_iff.mp hem
    exact (hf f hmem).readable _ j hj

end Record

end DistributionOperator
