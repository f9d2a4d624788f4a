import DistributionOperator.Http.ApiClient
import DistributionOperator.Rehearsal

/-! Calls that the API server refuses. Deletions, and the errors of all calls, go by the code of the
refusal. A read finds nothing by its reason, whatever the code. -/

namespace DistributionOperator

open Http

namespace StoreCall

/-- How a call says that there is nothing under its key, if it can. -/
def absence? : (c : StoreCall) → Option c.Answer
  | getDistribution _ | get _ _ | getConfigMap _ => some (.ok none)
  | deletePolicy _ => some (.ok false)
  | _ => none

def refusedAs (c : StoreCall) (s : ApiStatus) : StoreError :=
  if s.code = 404 then .notFound (contextOf c ++ ": " ++ s.message)
  else if s.code = 409 then .conflict (contextOf c ++ ": " ++ s.message)
  else .failure (.refused s)

/-- The answer to a refused call by its code alone. -/
def byCode (c : StoreCall) (s : ApiStatus) : c.Answer :=
  if s.code = 404 then c.absence?.getD (.error (c.refusedAs s)) else .error (c.refusedAs s)

end StoreCall

namespace Http

/-- An answer that refuses a request, and the account that it gives of it. -/
structure Response.Refuses (r : Response) (s : ApiStatus) : Prop where
  isError : r.isError = true
  account : ∃ text, decodeUtf8? r.body = some text ∧ refusal r.status text = s

variable {α : Type} {r : Response} {s : ApiStatus} {c : StoreCall} {q : Request} {send : Transport}

theorem textOf_refused (h : r.Refuses s) : textOf (some r) = .error (.refused s) := by
  obtain ⟨text, htext, haccount⟩ := h.account
  simp [textOf, htext, h.isError, haccount]

theorem objectOf_refused (h : r.Refuses s) (c : Codec α) :
    objectOf c (some r) = .error (.refused s) := by
  rw [objectOf, textOf_refused h]
  rfl

theorem optionalOf_refused (h : r.Refuses s) (c : Codec α) :
    optionalOf c (some r) =
      if s.reason = "NotFound" then .ok none else .error (.refused s) := by
  rw [optionalOf, objectOf_refused h]

theorem deletionOf_refused (h : r.Refuses s) :
    deletionOf (some r) = if s.code = 404 then .ok false else .error (.refused s) := by
  rw [deletionOf, objectOf_refused h]

theorem ofFailure_refused (c : StoreCall) (s : ApiStatus) :
    StoreError.ofFailure (contextOf c) (.refused s) = c.refusedAs s := by
  unfold StoreError.ofFailure StoreCall.refusedAs
  by_cases hconflict : s.code = 409
  · simp [hconflict]
  · simp [hconflict]

theorem perform_answer (hq : requestOf c = .ok q) : (perform send c).1 = answerOf c (send q) := by
  rw [perform, hq]

/-- A read that is refused finds nothing, or fails. -/
theorem read_refused {b : c.Answer} (h : r.Refuses s) (hb : c.missed? = some b) :
    answerOf c (some r) = if s.reason = "NotFound" then b else .error (c.refusedAs s) := by
  have hread : ∀ {β : Type} (codec : Codec β),
      (optionalOf codec (some r)).mapError (StoreError.ofFailure (contextOf c)) =
        if s.reason = "NotFound" then .ok none else .error (c.refusedAs s) := by
    intro β codec
    rw [optionalOf_refused h]
    split
    · rfl
    · exact congrArg Except.error (ofFailure_refused c s)
  cases c with
  | getDistribution k =>
    cases hb
    exact hread Distribution.codec
  | get kind k =>
    cases hb
    exact hread (Child.codec kind)
  | getConfigMap k =>
    cases hb
    exact hread ConfigMap.codec
  | _ => cases hb

/-- Whatever is not a read goes by the code. -/
theorem other_refused (h : r.Refuses s) (hc : c.missed? = none) :
    answerOf c (some r) = c.byCode s := by
  have hwrite : ∀ {β γ : Type} (codec : Codec β) (f : β → γ),
      ((objectOf codec (some r)).map f).mapError (StoreError.ofFailure (contextOf c)) =
        .error (c.refusedAs s) := by
    intro β γ codec f
    rw [objectOf_refused h]
    exact congrArg Except.error (ofFailure_refused c s)
  have hkept : ∀ {β : Type} (codec : Codec β),
      (objectOf codec (some r)).mapError (StoreError.ofFailure (contextOf c)) =
        .error (c.refusedAs s) := by
    intro β codec
    rw [objectOf_refused h]
    exact congrArg Except.error (ofFailure_refused c s)
  cases c with
  | getDistribution k => cases hc
  | get kind k => cases hc
  | getConfigMap k => cases hc
  | deletePolicy k =>
    show (deletionOf (some r)).mapError _ = _
    rw [deletionOf_refused h, StoreCall.byCode]
    split
    · rfl
    · exact congrArg Except.error (ofFailure_refused _ s)
  | updateStatus k v status => exact (hwrite Distribution.codec _).trans (ite_self _).symm
  | create kind space child => exact (hkept (Child.codec kind)).trans (ite_self _).symm
  | replace m space child => exact (hkept (Child.codec (.managed m))).trans (ite_self _).symm
  | createConfigMap space map => exact (hkept ConfigMap.codec).trans (ite_self _).symm

theorem byCode_read {b : c.Answer} (hb : c.missed? = some b) :
    c.byCode s = if s.code = 404 then b else .error (c.refusedAs s) := by
  cases c with
  | getDistribution k | get kind k | getConfigMap k =>
    cases hb
    rfl
  | _ => cases hb

theorem missed_ne_error {b : c.Answer} (hb : c.missed? = some b) (e : StoreError) :
    b ≠ .error e := by
  cases c with
  | getDistribution k | get kind k | getConfigMap k =>
    cases hb
    simp
  | _ => cases hb

/-- Of the calls that are refused, creations, replacements, deletions and writes of a status go by
the code: there is nothing, somebody was first, or the refusal is passed on as it is. So do reads,
except that they find nothing exactly if the reason is `NotFound`, so that they follow the code only
where reason and code agree. -/
theorem refused_calls (hq : requestOf c = .ok q) (hr : send q = some r) (h : r.Refuses s) :
    (c.missed? = none → (perform send c).1 = c.byCode s) ∧
    (∀ b, c.missed? = some b →
      ((perform send c).1 = b ↔ s.reason = "NotFound") ∧
      (s.reason ≠ "NotFound" → (perform send c).1 = .error (c.refusedAs s))) ∧
    ((perform send c).1 = c.byCode s ↔
      c.missed? = none ∨ (s.reason = "NotFound" ↔ s.code = 404)) := by
  have hanswer : (perform send c).1 = answerOf c (some r) := by rw [perform_answer hq, hr]
  rw [hanswer]
  refine ⟨other_refused h, fun b hb => ?_, ?_⟩
  · rw [read_refused h hb]
    by_cases hreason : s.reason = "NotFound"
    · simp [hreason]
    · have hfails := (missed_ne_error hb (c.refusedAs s)).symm
      simp [hreason, hfails]
  · cases hc : c.missed? with
    | none => simpa using other_refused h hc
    | some b =>
      have hfails := missed_ne_error hc (c.refusedAs s)
      rw [read_refused h hc, byCode_read hc]
      by_cases hreason : s.reason = "NotFound" <;> by_cases hcode : s.code = 404 <;>
        simp [hreason, hcode, hfails, hfails.symm]

/-- A refusal with the code of what is not there, but without a reason. -/
def reasonless : ApiStatus := ⟨"Failure", "no such claim", "", 404⟩

def reasonlessText : String :=
  "\x7b\"status\":\"Failure\",\"message\":\"no such claim\",\"reason\":\"\",\"code\":404\x7d"

def Response.reasonless : Response := ⟨404, [], reasonlessText.toUTF8.toList⟩

theorem reasonless_refuses : Response.reasonless.Refuses reasonless where
  isError := by decide
  account := ⟨reasonlessText, by decide +kernel, by decide +kernel⟩

theorem demoClaim_requested : ∃ q, requestOf (.get .claim ⟨"ai", "demo-pvc"⟩) = .ok q := by
  have htarget :
      (target? "/api/v1/namespaces/ai/persistentvolumeclaims/demo-pvc").isSome = true := by
    simp only [target?]
    rw [if_pos (by decide +kernel)]
    rfl
  obtain ⟨t, ht⟩ := Option.isSome_iff_exists.mp htarget
  refine ⟨⟨"GET", t.1, t.2, none, none⟩, ?_⟩
  simp [requestOf, getRequest, named, ApiResource.child, ApiResource.inSpace, request, ht, bind,
    Except.bind]

theorem refused_calls_claim :
    Response.reasonless.Refuses reasonless ∧
      (perform (fun _ => some .reasonless) (.get .claim ⟨"ai", "demo-pvc"⟩)).1 =
        .error (.notFound "get PersistentVolumeClaim ai/demo-pvc: no such claim") := by
  obtain ⟨q, hq⟩ := demoClaim_requested
  have hcalls := @refused_calls _ _ _ _ (fun _ => some .reasonless) hq rfl reasonless_refuses
  exact ⟨reasonless_refuses, (hcalls.2.1 _ rfl).2 (by decide)⟩

/-- A read by the reason takes a claim that is not there for an error, where the code says so. -/
theorem absence_missed : ¬∀ send c q r s, requestOf c = .ok q → send q = some r →
    r.Refuses s → (perform send c).1 = c.byCode s := by
  intro h
  obtain ⟨q, hq⟩ := demoClaim_requested
  have hcode := h (fun _ => some .reasonless) _ q _ _ hq rfl reasonless_refuses
  rw [perform_answer hq, read_refused reasonless_refuses rfl, byCode_read rfl] at hcode
  have hreason : reasonless.reason ≠ "NotFound" := by decide
  have hmissing : reasonless.code = 404 := rfl
  rw [if_neg hreason, if_pos hmissing] at hcode
  cases hcode

end Http

end DistributionOperator
