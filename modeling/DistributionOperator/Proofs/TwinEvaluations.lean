import DistributionOperator.Proofs.Evaluation
import DistributionOperator.Proofs.LegibleStatuses

/-! Evaluations up to versions and moments. An evaluation looks neither at the versions of children
nor at the clock to decide what to ask next, so that two evaluations that hear the same but for
these ask the same and come to the same status but for its moments. -/

namespace DistributionOperator

open Program

/-- Both fail in the same way, or both succeed with alike values. -/
def ResultsAgree {ε α β : Type} (R : α → β → Prop) : Except ε α → Except ε β → Prop
  | .ok a, .ok b => R a b
  | .error e, .error e' => e = e'
  | _, _ => False

namespace Program

variable {α β γ δ ε : Type} {alike : (c : Call) → c.Answer → c.Answer → Prop} {R : α → β → Prop}
  {S : γ → δ → Prop}

/-- Programs that make the same calls as long as these are answered alike, and end alike. -/
inductive Twins (alike : (c : Call) → c.Answer → c.Answer → Prop) (R : α → β → Prop) :
    Program α → Program β → Prop where
  | done {a : α} {b : β} (h : R a b) : Twins alike R (.done a) (.done b)
  | ask {c : Call} {next : c.Answer → Program α} {next' : c.Answer → Program β}
      (h : ∀ a a', alike c a a' → Twins alike R (next a) (next' a')) :
      Twins alike R (.ask c next) (.ask c next')

theorem Twins.bind {p : Program α} {q : Program β} {f : α → Program γ} {g : β → Program δ}
    (h : Twins alike R p q) (hf : ∀ a b, R a b → Twins alike S (f a) (g b)) :
    Twins alike S (p.bind f) (q.bind g) := by
  induction h with
  | done hab => exact hf _ _ hab
  | ask _ ih => exact .ask ih

theorem Twins.andThen {p : Program (Except ε α)} {q : Program (Except ε β)}
    {f : α → Program (Except ε γ)} {g : β → Program (Except ε δ)}
    (h : Twins alike (ResultsAgree R) p q)
    (hf : ∀ a b, R a b → Twins alike (ResultsAgree S) (f a) (g b)) :
    Twins alike (ResultsAgree S) (p.andThen f) (q.andThen g) := by
  refine h.bind fun r r' hr => ?_
  cases r with
  | ok a =>
    cases r' with
    | ok b => exact hf a b hr
    | error e => exact hr.elim
  | error e =>
    cases r' with
    | ok b => exact hr.elim
    | error e' => exact .done hr

/-- Dialogues of twins that hear alike answers end alike. -/
theorem Twins.agree {p : Program α} {q : Program β} {t t' : List Exchange} {a : α} {b : β}
    (h : Twins alike R p q) (hp : p.Dialogue t a) (hq : q.Dialogue t' b)
    (hall : ∀ c x x', ⟨c, x⟩ ∈ t → ⟨c, x'⟩ ∈ t' → alike c x x') : R a b := by
  induction h generalizing t t' with
  | done hab =>
    obtain ⟨_, rfl⟩ := dialogue_done.mp hp
    obtain ⟨_, rfl⟩ := dialogue_done.mp hq
    exact hab
  | ask _ ih =>
    obtain ⟨x, r, rfl, hnext⟩ := dialogue_ask.mp hp
    obtain ⟨x', r', rfl, hnext'⟩ := dialogue_ask.mp hq
    exact ih x x' (hall _ x x' List.mem_cons_self List.mem_cons_self) hnext hnext'
      fun c y y' hy hy' => hall c y y' (List.mem_cons_of_mem _ hy) (List.mem_cons_of_mem _ hy')

end Program

/-! What is left aside. -/

def ObjectMeta.unversioned (m : ObjectMeta) : ObjectMeta :=
  { m with resourceVersion := m.resourceVersion.map fun _ => "" }

def Child.unversioned (c : Child) : Child := { c with metadata := c.metadata.unversioned }

/-- One moment for all that can be read. -/
def Timestamp.blurred (t : Timestamp) : Timestamp := if t.date.inRange then .epoch else t

namespace Status

def retimed (f : Timestamp → Timestamp) (s : Status) : Status :=
  { s with
    conditions := s.conditions.map fun c =>
      { c with lastTransitionTime := c.lastTransitionTime.map f }
    versions := { s.versions with lastUpdated := s.versions.lastUpdated.map f } }

variable {s s' : Status}

theorem retimed_retimed (f g : Timestamp → Timestamp) (s : Status) :
    (s.retimed f).retimed g = s.retimed (g ∘ f) := by
  simp [retimed, Function.comp_def]

/-- Whether a condition changes does not depend on when. -/
theorem retimed_report (f : Timestamp → Timestamp) (s : Status) (a : Aspect) (ready : Bool)
    (message : String) (now : Timestamp) :
    (s.report a ready message now).retimed f =
      (s.retimed f).report a ready message (f now) := by
  have hset : ∀ (type reason : String) (l : List Condition),
      (setCondition type ready reason message now l).map (fun c =>
          { c with lastTransitionTime := c.lastTransitionTime.map f }) =
        setCondition type ready reason message (f now) (l.map fun c =>
          { c with lastTransitionTime := c.lastTransitionTime.map f }) := by
    intro type reason l
    induction l with
    | nil => rfl
    | cons c r ih =>
      simp only [setCondition, List.map_cons]
      split
      · simp only [List.map_cons, Condition.update]
        split <;> rfl
      · rw [List.map_cons, ih]
  simp only [retimed, report, hset]

/-- The same status, but for moments that can be read. -/
def Twin (s s' : Status) : Prop := s.retimed .blurred = s'.retimed .blurred

theorem Twin.refl (s : Status) : s.Twin s := rfl

theorem Twin.map (h : s.Twin s') {f : Status → Status}
    (hf : ∀ s : Status, (f s).retimed .blurred = f (s.retimed .blurred)) : (f s).Twin (f s') := by
  rw [Twin, hf, hf, h]

theorem Twin.report (h : s.Twin s') {t t' : Timestamp} (ht : t.blurred = t'.blurred) (a : Aspect)
    (ready : Bool) (message : String) :
    (s.report a ready message t).Twin (s'.report a ready message t') := by
  rw [Twin, retimed_report, retimed_report, h, ht]

theorem Twin.untimed (h : s.Twin s') :
    s.retimed (fun _ => .epoch) = s'.retimed fun _ => .epoch := by
  have hblurred := congrArg (retimed fun _ => .epoch) h
  rwa [retimed_retimed, retimed_retimed] at hblurred

theorem legible_iff_of_blurred : s.Legible ↔ (s.retimed .blurred).Legible := by
  have hrange : ∀ t : Timestamp, t.blurred.date.inRange = t.date.inRange := by
    intro t
    unfold Timestamp.blurred
    split
    · rename_i ht
      rw [ht]
      rfl
    · rfl
  constructor
  · rintro ⟨hconditions, hversions⟩
    constructor
    · simpa [retimed, hrange] using hconditions
    · simpa [retimed, hrange] using hversions
  · rintro ⟨hconditions, hversions⟩
    constructor
    · simpa [retimed, hrange] using hconditions
    · simpa [retimed, hrange] using hversions

theorem Twin.legible_iff (h : s.Twin s') : s.Legible ↔ s'.Legible := by
  rw [legible_iff_of_blurred, h, ← legible_iff_of_blurred]

theorem Twin.over (h : s.Twin s') (old : Option Status) : (s.over old).Twin (s'.over old) :=
  h.map (f := fun s => s.over old) fun _ => rfl

end Status

theorem Timestamp.blurred_of_inRange {t : Timestamp} (h : t.date.inRange = true) :
    t.blurred = .epoch := if_pos h

/-- Answers that an evaluation does not tell apart. -/
def Call.AlikeAnswers : (c : Call) → c.Answer → c.Answer → Prop
  | .store (.get _ _), a, a' =>
    a.map (Option.map Child.unversioned) = a'.map (Option.map Child.unversioned)
  | .now, t, t' => t.blurred = t'.blurred
  | _, a, a' => a = a'

section Evaluations

variable {o : Operator} {d : Distribution} {s s' : Status}

theorem reportNow_twins (h : s.Twin s') (a : Aspect) (ready : Bool) (message : String) :
    Twins Call.AlikeAnswers Status.Twin (s.reportNow a ready message)
      (s'.reportNow a ready message) :=
  .ask fun _ _ ht => .done (h.report ht a ready message)

theorem get_twins (operation resource : String) (kind : ChildKind) (k : Key) :
    Twins Call.AlikeAnswers
      (ResultsAgree fun c c' => Option.map Child.unversioned c = Option.map Child.unversioned c')
      (attempt operation resource (.get kind k)) (attempt operation resource (.get kind k)) := by
  refine .ask fun a a' ha => .done ?_
  cases a with
  | ok c =>
    cases a' with
    | ok c' => exact Except.ok.inj ha
    | error e => cases ha
  | error e =>
    cases a' with
    | ok c => cases ha
    | error e' => exact congrArg _ (Except.error.inj ha)

theorem readyReplicas_of_unversioned {c c' : Child} (h : c.unversioned = c'.unversioned) :
    c.readyReplicas = c'.readyReplicas := by
  show c.unversioned.readyReplicas = c'.unversioned.readyReplicas
  rw [h]

theorem judgeDeployment_twins {live live' : Option Child} (h : s.Twin s')
    (hl : live.map Child.unversioned = live'.map Child.unversioned) :
    Twins Call.AlikeAnswers (fun x x' => x.1 = x'.1 ∧ x.2.Twin x'.2) (judgeDeployment o d live s)
      (judgeDeployment o d live' s') := by
  cases live with
  | none =>
    obtain rfl : live' = none := by simpa [eq_comm] using hl
    refine (reportNow_twins (h.map (f := (·.withPhase .pending)) fun _ => rfl) _ _ _).bind
      fun u u' hu => .done ⟨rfl, hu.map (f := ({ · with availableReplicas := 0 })) fun _ => rfl⟩
  | some c =>
    cases live' with
    | none => cases hl
    | some c' =>
      have hready := readyReplicas_of_unversioned (Option.some.inj hl)
      have hcounted := h.map (f := ({ · with availableReplicas := c'.readyReplicas })) fun _ => rfl
      simp only [judgeDeployment, hready]
      split
      · exact (reportNow_twins (hcounted.map (f := (·.withPhase .initializing)) fun _ => rfl)
          _ _ _).bind fun u u' hu => .done ⟨rfl, hu⟩
      · refine (reportNow_twins (hcounted.map (f := (·.withPhase .ready)) fun _ => rfl)
          _ _ _).bind fun u u' hu => .done ⟨rfl, ?_⟩
        exact hu.map (f := fun u => { u with
          versions := { u.versions with
            llamaStackServerVersion :=
              u.versions.llamaStackServerVersion.or o.config.stackVersion } }) fun _ => rfl

theorem claimReport_congr {name : String} {a a' : Except StoreError (Option Child)}
    (h : a.map (Option.map Child.unversioned) = a'.map (Option.map Child.unversioned)) :
    claimReport name a = claimReport name a' := by
  have hplain : ∀ a, claimReport name (a.map (Option.map Child.unversioned)) =
      claimReport name a := by
    rintro (e | _ | c) <;> rfl
  rw [← hplain a, h, hplain]

theorem serviceReport_congr {name : String} {a a' : Except StoreError (Option Child)}
    (h : a.map (Option.map Child.unversioned) = a'.map (Option.map Child.unversioned)) :
    serviceReport name a = serviceReport name a' := by
  have hplain : ∀ a, serviceReport name (a.map (Option.map Child.unversioned)) =
      serviceReport name a := by
    rintro (e | _ | c) <;> rfl
  rw [← hplain a, h, hplain]

theorem evaluateStorage_twins (h : s.Twin s') :
    Twins Call.AlikeAnswers Status.Twin (evaluateStorage d s) (evaluateStorage d s') := by
  unfold evaluateStorage
  split
  · exact .done h
  · refine .ask fun a a' ha => ?_
    dsimp only [Program.bind]
    rw [claimReport_congr ha]
    exact reportNow_twins h _ _ _

theorem evaluateService_twins (h : s.Twin s') :
    Twins Call.AlikeAnswers Status.Twin (evaluateService d s) (evaluateService d s') := by
  unfold evaluateService
  split
  · refine .ask fun a a' ha => ?_
    dsimp only [Program.bind]
    rw [serviceReport_congr ha]
    exact reportNow_twins h _ _ _
  · exact .done h

theorem checkHealth_twins (h : s.Twin s') :
    Twins Call.AlikeAnswers Status.Twin (checkHealth d s) (checkHealth d s') := by
  refine .ask fun a a' ha => ?_
  obtain rfl : a = a' := ha
  refine (reportNow_twins (h.map (f := (·.withPhase (healthReport a).1)) fun _ => rfl) _ _ _).bind
    fun u u' hu => .ask fun ps ps' hps => ?_
  obtain rfl : ps = ps' := hps
  exact .done (hu.map (f := (·.withProviders _)) fun _ => rfl)

theorem skipHealth_twins (h : s.Twin s') :
    Twins Call.AlikeAnswers Status.Twin (skipHealth s) (skipHealth s') :=
  (reportNow_twins h _ _ _).bind fun _ _ hu => .done (hu.map fun _ => rfl)

theorem observedStatus_twins (h : s.Twin s') :
    Twins Call.AlikeAnswers (ResultsAgree Status.Twin) (observedStatus o d s)
      (observedStatus o d s') := by
  have hjudged : Twins Call.AlikeAnswers (ResultsAgree fun x x' => x.1 = x'.1 ∧ x.2.Twin x'.2)
      (evaluateDeployment o d s) (evaluateDeployment o d s') :=
    (get_twins _ _ _ _).andThen fun live live' hl =>
      (judgeDeployment_twins h hl).bind fun _ _ hj => .done hj
  refine hjudged.andThen fun j j' hj => (evaluateStorage_twins hj.2).bind fun u u' hu =>
    (evaluateService_twins hu).bind fun u u' hu => ?_
  have hsummed := hu.map (f := (o.summarize d ·)) fun _ => rfl
  rw [hj.1]
  split
  · exact (checkHealth_twins hsummed).bind fun _ _ hv => .done hv
  · exact (skipHealth_twins hsummed).bind fun _ _ hv => .done hv

theorem failedStatus_twins (h : s.Twin s') (e : OperatorError) :
    Twins Call.AlikeAnswers Status.Twin (failedStatus e s) (failedStatus e s') :=
  (reportNow_twins (h.map (f := (·.withPhase .failed)) fun _ => rfl) _ _ _).bind
    fun _ _ hu => .done (hu.map fun _ => rfl)

theorem stamp_twins (h : s.Twin s') :
    Twins Call.AlikeAnswers Status.Twin s.stamp s'.stamp := by
  refine .ask fun t t' ht => .done ?_
  have hstamped : ∀ (s : Status) (t : Timestamp), (s.stampedAt t).retimed .blurred =
      (s.retimed .blurred).stampedAt t.blurred := fun _ _ => rfl
  have ht : t.blurred = t'.blurred := ht
  show (s.stampedAt t).retimed .blurred = (s'.stampedAt t').retimed .blurred
  rw [hstamped, hstamped, h, ht]

theorem evaluate_twins (o : Operator) (d : Distribution) (failure : Option OperatorError) :
    Twins Call.AlikeAnswers (ResultsAgree Status.Twin) (evaluate o d failure)
      (evaluate o d failure) := by
  refine Twins.andThen (R := Status.Twin) ?_ fun s s' hs =>
    (stamp_twins hs).bind fun _ _ hu => .done hu
  cases failure with
  | none => exact observedStatus_twins (.refl _)
  | some e => exact (failedStatus_twins (.refl _) e).bind fun _ _ hu => .done hu

end Evaluations

end DistributionOperator
