import DistributionOperator.Probe.Client
import DistributionOperator.Proofs.FaultlessReadings
import DistributionOperator.Proofs.StatusRecords
import DistributionOperator.Proofs.Utf8Texts

/-! What answers to the question for providers are taken. The envelope is an object with one member
`data`, an array of objects, in a text of proper UTF-8. Beyond it, bytes that are no UTF-8 are put
up with, and arrays in the place of the objects. -/

namespace DistributionOperator

open Http

namespace Record

variable {α : Type}

def WrittenAsObject (r : Record α) (d : Draft) (a : α) : Prop :=
  ∃ ms stray, d = .object ms none stray ∧ r.Fits .text ms a

def WrittenAsArray (r : Record α) (d : Draft) (a : α) : Prop :=
  ∃ items, d = .array items none ∧ FitsItems .text r.blank a r.fields items

def Written (r : Record α) (d : Draft) (a : α) : Prop :=
  r.WrittenAsObject d a ∨ r.WrittenAsArray d a

end Record

theorem ProviderHealth.record_strict : ProviderHealth.record.Strict where
  lawful := ProviderHealth.record_lawful
  strict := rfl
  names := by decide

theorem Provider.record_strict : Provider.record.Strict where
  lawful := Provider.record_lawful
  strict := rfl
  names := by decide

theorem ProviderList.record_strict : ProviderList.record.Strict where
  lawful :=
    { nodup := by decide
      aliases := by simp [ProviderList.record, Field.needed]
      get_set := by simp [ProviderList.record, Field.needed]
      get_set_other := by simp [ProviderList.record, Field.needed]
      ext := fun a b h => by
        cases a
        cases b
        simpa [ProviderList.record, Field.needed] using h }
  strict := rfl
  names := by decide

theorem ProviderHealth.decode_heedful : ProviderHealth.record.codec.decode.Heedful := by
  refine Record.heedful ProviderHealth.record_strict fun f hf => ?_
  simp only [ProviderHealth.record, List.mem_cons, List.not_mem_nil, or_false] at hf
  rcases hf with rfl | rfl
  · exact Codec.string_heedful
  · exact Codec.option_heedful Codec.string_heedful

theorem Provider.decode_heedful : Provider.record.codec.decode.Heedful := by
  refine Record.heedful Provider.record_strict fun f hf => ?_
  simp only [Provider.record, List.mem_cons, List.not_mem_nil, or_false] at hf
  rcases hf with rfl | rfl | rfl | rfl
  · exact Codec.string_heedful
  · exact Codec.string_heedful
  · exact Codec.string_heedful
  · exact Codec.option_heedful ProviderHealth.decode_heedful

theorem ProviderList.decode_heedful : ProviderList.record.decode.Heedful := by
  refine Record.heedful ProviderList.record_strict fun f hf => ?_
  obtain rfl := List.mem_singleton.mp hf
  exact Codec.list_heedful Provider.decode_heedful

namespace Draft

/-- A member of another name than the envelope's, with a value that can be passed over. -/
def PassedOver (m : Draft × Draft) : Prop :=
  ∃ key, m.1 = .string (some key) ∧ key ≠ "data" ∧ m.2.skipFault? = none

/-- An object with one member `data`, an array of items of some form. -/
def Envelope (item : Draft → Provider → Prop) (d : Draft) (ps : List Provider) : Prop :=
  ∃ before items after stray,
    d = .object (before ++ (.string (some "data"), .array items none) :: after) none stray ∧
    (∀ m ∈ before ++ after, PassedOver m) ∧ List.Forall₂ item items ps

/-- An array with nothing but an array of items of some form. -/
def Wrapping (item : Draft → Provider → Prop) (d : Draft) (ps : List Provider) : Prop :=
  ∃ items, d = .array [.array items none] none ∧ List.Forall₂ item items ps

end Draft

theorem Provider.decode_eq_ok {d : Draft} {p : Provider} :
    Provider.record.codec.decode .text d = .ok p ↔ Provider.record.Written d p :=
  Record.decode_text_iff Provider.record_strict

namespace ProviderList

variable {ms : List (Draft × Draft)} {d : Draft} {ps : List Provider}

/-- The one field of the envelope. -/
abbrev listed : Field ProviderList :=
  .needed "data" (.list Provider.record.codec) (·.data) ({ · with data := · })

theorem accepts_listed {key : String} : listed.accepts key = true ↔ key = "data" := by
  simp [Field.accepts, Field.needed, eq_comm]

theorem listed_decode : listed.decode .text d = .ok ps ↔
    ∃ items, d = .array items none ∧ List.Forall₂ Provider.record.Written items ps := by
  refine Codec.list_eq_ok.trans ?_
  simp only [Provider.decode_eq_ok]

theorem keyed_of_passedOver {m : Draft × Draft} (h : Draft.PassedOver m) :
    ProviderList.record.Keyed m := by
  obtain ⟨key, hkey, _, hskip⟩ := h
  exact ⟨key, hkey, fun _ => hskip⟩

theorem fits_iff : ProviderList.record.Fits .text ms ⟨ps⟩ ↔ ∃ before items after,
    ms = before ++ (.string (some "data"), .array items none) :: after ∧
    (∀ m ∈ before ++ after, Draft.PassedOver m) ∧
    List.Forall₂ Provider.record.Written items ps := by
  constructor
  · rintro ⟨hkeyed, hsettled⟩
    rcases hsettled listed List.mem_cons_self with ⟨_, ⟨⟩, _⟩ | ⟨d, hsaid, hd⟩
    obtain ⟨before, key, after, rfl, hkey, hnone⟩ := Field.said_eq_singleton.mp hsaid
    obtain rfl := accepts_listed.mp hkey
    obtain ⟨items, rfl, hitems⟩ := listed_decode.mp hd
    refine ⟨before, items, after, rfl, fun m hm => ?_, hitems⟩
    have hin : m ∈ before ++ (.string (some "data"), .array items none) :: after :=
      List.mem_append.mpr ((List.mem_append.mp hm).imp_right (List.mem_cons_of_mem _))
    obtain ⟨key, hkey, hskip⟩ := hkeyed m hin
    have hother : listed.accepts key = false := Field.said_eq_nil.mp hnone m hm key hkey
    refine ⟨key, hkey, fun he => ?_, hskip fun f hf => ?_⟩
    · rw [accepts_listed.mpr he] at hother
      cases hother
    · obtain rfl := List.mem_singleton.mp hf
      exact hother
  · rintro ⟨before, items, after, rfl, hpassed, hitems⟩
    refine ⟨fun m hm => ?_, fun f hf => ?_⟩
    · rcases List.mem_append.mp hm with hbefore | hrest
      · exact keyed_of_passedOver (hpassed m (List.mem_append_left _ hbefore))
      · rcases List.mem_cons.mp hrest with rfl | hafter
        · exact ⟨"data", rfl, fun hnone => absurd (hnone listed List.mem_cons_self) (by decide)⟩
        · exact keyed_of_passedOver (hpassed m (List.mem_append_right _ hafter))
    · obtain rfl := List.mem_singleton.mp hf
      refine .inr ⟨.array items none, ?_, listed_decode.mpr ⟨items, rfl, hitems⟩⟩
      refine Field.said_eq_singleton.mpr ⟨before, "data", after, rfl, by decide, ?_⟩
      refine Field.said_eq_nil.mpr fun m hm key hkey => ?_
      obtain ⟨key', hkey', hne, _⟩ := hpassed m hm
      obtain rfl : key = key' := by simpa [hkey] using hkey'
      by_contra htrue
      exact hne (accepts_listed.mp (by simpa using htrue))

theorem fitsItems_iff {items : List Draft} :
    Record.FitsItems .text ProviderList.record.blank ⟨ps⟩ ProviderList.record.fields items ↔
      ∃ d, items = [d] ∧ listed.decode .text d = .ok ps := by
  match items with
  | [] => simp [ProviderList.record, Record.FitsItems, Field.needed]
  | [d] => simp [ProviderList.record, Record.FitsItems]; rfl
  | d :: d' :: rest => simp [ProviderList.record, Record.FitsItems]

/-- A list of providers is read from an envelope, or from what an array has in its place. -/
theorem decode_eq_ok : ProviderList.record.decode .text d = .ok ⟨ps⟩ ↔
    Draft.Envelope Provider.record.Written d ps ∨ Draft.Wrapping Provider.record.Written d ps := by
  rw [Record.decode_text_iff record_strict]
  refine or_congr ?_ ?_
  · constructor
    · rintro ⟨ms, stray, rfl, hfits⟩
      obtain ⟨before, items, after, rfl, hpassed, hitems⟩ := fits_iff.mp hfits
      exact ⟨before, items, after, stray, rfl, hpassed, hitems⟩
    · rintro ⟨before, items, after, stray, rfl, hpassed, hitems⟩
      exact ⟨_, stray, rfl, fits_iff.mpr ⟨before, items, after, rfl, hpassed, hitems⟩⟩
  · constructor
    · rintro ⟨items, rfl, hfits⟩
      obtain ⟨d, rfl, hd⟩ := fitsItems_iff.mp hfits
      obtain ⟨items, rfl, hitems⟩ := listed_decode.mp hd
      exact ⟨items, rfl, hitems⟩
    · rintro ⟨items, rfl, hitems⟩
      exact ⟨_, rfl, fitsItems_iff.mpr ⟨_, rfl, listed_decode.mpr ⟨items, rfl, hitems⟩⟩⟩

end ProviderList

namespace Draft

variable {d : Draft} {ps : List Provider}

def isArray : Draft → Bool
  | .array _ _ => true
  | _ => false

def items : Draft → List Draft
  | .array items _ => items
  | _ => []

/-- What stands in the place of providers. -/
def listed : Draft → List Draft
  | .object ms _ _ => (ProviderList.listed.said ms).flatMap items
  | _ => []

theorem writtenAsObject_iff {p : Provider} : Provider.record.WrittenAsObject d p ↔
    d.isArray = false ∧ Provider.record.Written d p := by
  constructor
  · rintro ⟨ms, stray, rfl, hfits⟩
    exact ⟨rfl, .inl ⟨ms, stray, rfl, hfits⟩⟩
  · rintro ⟨hobject, hwritten | ⟨items, rfl, _⟩⟩
    · exact hwritten
    · cases hobject

theorem said_passedOver {ms : List (Draft × Draft)} (h : ∀ m ∈ ms, PassedOver m) :
    ProviderList.listed.said ms = [] := by
  refine Field.said_eq_nil.mpr fun m hm key hkey => ?_
  obtain ⟨key', hkey', hother, _⟩ := h m hm
  obtain rfl : key = key' := by simpa [hkey] using hkey'
  by_contra htrue
  exact hother (ProviderList.accepts_listed.mp (by simpa using htrue))

/-- Objects are all that is promised, and the arrays are all that is put up with. -/
theorem envelope_iff : d.Envelope Provider.record.WrittenAsObject ps ↔
    (d.Envelope Provider.record.Written ps ∨ d.Wrapping Provider.record.Written ps) ∧
      d.isArray = false ∧ ∀ item ∈ d.listed, item.isArray = false := by
  have hlisted : ∀ before items after stray, (∀ m ∈ before ++ after, PassedOver m) →
      listed (.object (before ++ (.string (some "data"), .array items none) :: after) none stray) =
        items := fun before items after stray hpassed => by
    have hsaid : ProviderList.listed.said
        (before ++ (.string (some "data"), .array items none) :: after) = [.array items none] :=
      Field.said_eq_singleton.mpr ⟨before, "data", after, rfl, by decide, said_passedOver hpassed⟩
    simp [listed, hsaid, Draft.items]
  have hsplit : ∀ items, List.Forall₂ Provider.record.WrittenAsObject items ps ↔
      (∀ item ∈ items, item.isArray = false) ∧ List.Forall₂ Provider.record.Written items ps :=
    fun items => by
      have hobject : Provider.record.WrittenAsObject = fun d p =>
          d.isArray = false ∧ Provider.record.Written d p := by
        funext d p
        exact propext writtenAsObject_iff
      rw [hobject, List.forall₂_and_left]
  constructor
  · rintro ⟨before, items, after, stray, rfl, hpassed, hitems⟩
    obtain ⟨hobjects, hwritten⟩ := (hsplit items).mp hitems
    refine ⟨.inl ⟨before, items, after, stray, rfl, hpassed, hwritten⟩, rfl, ?_⟩
    rwa [hlisted _ _ _ _ hpassed]
  · rintro ⟨⟨before, items, after, stray, rfl, hpassed, hitems⟩ | ⟨items, rfl, _⟩, hd, hobjects⟩
    · rw [hlisted _ _ _ _ hpassed] at hobjects
      exact ⟨before, items, after, stray, rfl, hpassed, (hsplit items).mpr ⟨hobjects, hitems⟩⟩
    · cases hd

end Draft

namespace Probe

/-- What is taken for a list of providers. -/
def Taken (body : List UInt8) (ps : List Provider) : Prop :=
  ∃ d, Grammar.Derives (decodeUtf8Lenient body).toList d ∧
    (d.Envelope Provider.record.Written ps ∨ d.Wrapping Provider.record.Written ps)

/-- What is promised to be one. -/
def Promised (body : List UInt8) (ps : List Provider) : Prop :=
  ∃ text d, Spells body text ∧ Grammar.Derives text.toList d ∧
    d.Envelope Provider.record.WrittenAsObject ps

/-- A body in UTF-8 without arrays in the place of objects. -/
def Proper (body : List UInt8) : Prop :=
  ∃ text, Spells body text ∧ ∀ d, Grammar.Derives text.toList d →
    d.isArray = false ∧ ∀ item ∈ d.listed, item.isArray = false

variable {send : Transport} {e : Endpoint} {u : Url} {q : Request} {r : Response}
  {body : List UInt8} {ps : List Provider}

theorem promised_iff : Promised body ps ↔ Taken body ps ∧ Proper body := by
  constructor
  · rintro ⟨text, d, hspells, hderives, hd⟩
    obtain ⟨htaken, hobjects⟩ := Draft.envelope_iff.mp hd
    refine ⟨⟨d, ?_, htaken⟩, text, hspells, fun d' hd' => ?_⟩
    · rwa [hspells.lenient]
    · obtain rfl := hderives.unique hd'
      exact hobjects
  · rintro ⟨⟨d, hderives, htaken⟩, text, hspells, hobjects⟩
    rw [hspells.lenient] at hderives
    exact ⟨text, d, hspells, hderives, Draft.envelope_iff.mpr ⟨htaken, hobjects d hderives⟩⟩

theorem taken_iff : Taken body ps ↔
    ProviderList.record.decode.ofText (decodeUtf8Lenient body) = .ok ⟨ps⟩ := by
  refine Iff.trans ?_ ProviderList.decode_heedful.ofText_iff.symm
  simp only [Taken, ProviderList.decode_eq_ok]

theorem providersOf_other (h : r.status ≠ 200) :
    providersOf (.ok r) = .error (.status r.status) := by
  have hfails : r.succeeded = false := by simpa [Response.succeeded] using h
  show (if r.succeeded = true then _ else _) = _
  rw [if_neg (by simp [hfails])]

theorem providersOf_read (h : r.status = 200) :
    providersOf (.ok r) =
      ((ProviderList.record.decode.ofText (decodeUtf8Lenient r.body)).map (·.data)).mapError
        .serialization := by
  have hsucceeds : r.succeeded = true := by simpa [Response.succeeded] using h
  show (if r.succeeded = true then _ else _) = _
  rw [if_pos hsucceeds]
  cases ProviderList.record.decode.ofText (decodeUtf8Lenient r.body) <;> rfl

theorem perform_providers (hu : Url.parse? (e.url Endpoint.providersPath) = some u)
    (hq : requestTo u = some q) (hr : send q = some r)
    (hdirect : (redirection? r).bind u.follow? = none) :
    perform send (.providers e) = (providersOf (.ok r), [q]) := by
  have hfetch : fetch send 10 u = ([q], some r) := by simp [fetch, hq, hr, hdirect]
  simp [perform, get, hu, hfetch]

/-- An answer of 200 lists the providers that its body is taken to say, and any other fails by its
status. A body that is taken for nothing fails as well. What is promised is taken, and whatever else
is taken is no UTF-8, or has an array in the place of an object. -/
theorem providers_listed (hu : Url.parse? (e.url Endpoint.providersPath) = some u)
    (hq : requestTo u = some q) (hr : send q = some r)
    (hdirect : (redirection? r).bind u.follow? = none) :
    (r.status ≠ 200 → (perform send (.providers e)).1 = .error (.status r.status)) ∧
    (r.status = 200 →
      (∀ ps, (perform send (.providers e)).1 = .ok ps ↔ Taken r.body ps) ∧
      ((∀ ps, ¬Taken r.body ps) →
        ∃ f, (perform send (.providers e)).1 = .error (.serialization f)) ∧
      ∀ ps, Promised r.body ps ↔ (perform send (.providers e)).1 = .ok ps ∧ Proper r.body) := by
  rw [perform_providers hu hq hr hdirect]
  refine ⟨providersOf_other, fun hstatus => ?_⟩
  simp only [providersOf_read hstatus]
  have htaken : ∀ ps, ((ProviderList.record.decode.ofText (decodeUtf8Lenient r.body)).map
      (·.data)).mapError ProbeError.serialization = .ok ps ↔ Taken r.body ps := fun ps => by
    rw [taken_iff]
    cases ProviderList.record.decode.ofText (decodeUtf8Lenient r.body) with
    | error f => simp [Except.map, Except.mapError]
    | ok list =>
      obtain ⟨as⟩ := list
      simp [Except.map, Except.mapError]
  refine ⟨htaken, fun hnone => ?_, fun ps => ?_⟩
  · cases hread : ProviderList.record.decode.ofText (decodeUtf8Lenient r.body) with
    | error f => exact ⟨f, rfl⟩
    | ok list => exact absurd (taken_iff.mpr hread) (hnone list.data)
  · rw [htaken, promised_iff]

def envelopeText : String := "\x7b\"data\":[\x7b\"api\":\"inference\"\x7d]\x7d"

def arrayText : String := "[[\x7b\"api\":\"inference\"\x7d]]"

def inference : Provider := ⟨"inference", "", "", none⟩

/-- An answer of 200 with a text. -/
def answering (text : String) : Response := ⟨200, [], text.toList.flatMap String.utf8EncodeChar⟩

theorem answering_spells (text : String) : Spells (answering text).body text := spells_iff.mpr rfl

theorem local_requested : ∃ u q,
    Url.parse? ((⟨"http://localhost:8321"⟩ : Endpoint).url Endpoint.providersPath) = some u ∧
      requestTo u = some q := by
  have htarget : (target? "/v1/providers").isSome = true := by
    simp only [target?]
    rw [if_pos (by decide +kernel)]
    rfl
  obtain ⟨t, ht⟩ := Option.isSome_iff_exists.mp htarget
  refine ⟨⟨"localhost:8321", "/v1/providers"⟩, ⟨"GET", t.1, t.2, none, none⟩, ?_, ?_⟩
  · decide +kernel
  · simp [requestTo, ht]

theorem providers_listed_inference :
    (perform (fun _ => some (answering envelopeText)) (.providers ⟨"http://localhost:8321"⟩)).1 =
      .ok [inference] ∧ Promised (answering envelopeText).body [inference] := by
  obtain ⟨u, q, hu, hq⟩ := local_requested
  have hspells := answering_spells envelopeText
  obtain ⟨_, hread⟩ :=
    @providers_listed (fun _ => some (answering envelopeText)) _ _ _ _ hu hq rfl rfl
  obtain ⟨htaken, _, hpromised⟩ := hread rfl
  have hok := (htaken [inference]).mpr (taken_iff.mpr (by rw [hspells.lenient]; decide +kernel))
  refine ⟨hok, (hpromised _).mpr ⟨hok, envelopeText, hspells, fun d hd => ?_⟩⟩
  rw [← hd.draft]
  decide +kernel

/-- An array of an array of providers is taken for a list of them. -/
theorem array_listed : ¬∀ send e u q r, Url.parse? (e.url Endpoint.providersPath) = some u →
    requestTo u = some q → send q = some r → (redirection? r).bind u.follow? = none →
    r.status = 200 →
    ∀ ps, (perform send (.providers e)).1 = .ok ps ↔ Promised r.body ps := by
  intro h
  obtain ⟨u, q, hu, hq⟩ := local_requested
  have hspells := answering_spells arrayText
  have hread := h (fun _ => some (answering arrayText)) _ u q _ hu hq rfl rfl rfl [inference]
  have hlist : ProviderList.record.decode.ofText arrayText = .ok ⟨[inference]⟩ := by
    decide +kernel
  rw [perform_providers hu hq rfl rfl, providersOf_read rfl, hspells.lenient, hlist] at hread
  obtain ⟨_, text, htext, hobjects⟩ := promised_iff.mp (hread.mp rfl)
  obtain rfl : text = arrayText := htext.lenient.symm.trans hspells.lenient
  obtain ⟨d, hd, _⟩ := taken_iff.mpr (hspells.lenient.symm ▸ hlist)
  have harray : (Draft.ofText arrayText).1.isArray = true := by decide +kernel
  rw [hspells.lenient] at hd
  rw [hd.draft, (hobjects d hd).1] at harray
  cases harray

end Probe

end DistributionOperator
