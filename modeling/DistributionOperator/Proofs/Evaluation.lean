import DistributionOperator.Proofs.Conditions
import DistributionOperator.Proofs.Dialogue
import DistributionOperator.Reconcile.Evaluate

/-! The dialogues of an evaluation. Each part is taken apart once, into what it asks and the status
that it makes of the answers. -/

namespace DistributionOperator

open Program

variable {o : Operator} {d : Distribution} {s s' : Status} {t : List Exchange}

def Status.stampedAt (s : Status) (now : Timestamp) : Status :=
  { s with versions := { s.versions with lastUpdated := some now } }

theorem reportNow_dialogue {a : Aspect} {ready : Bool} {message : String} :
    (s.reportNow a ready message).Dialogue t s' ↔
      ∃ now, t = [⟨.now, now⟩] ∧ s' = s.report a ready message now := by
  simp only [Status.reportNow, dialogue_now_bind, dialogue_done]
  constructor
  · rintro ⟨now, _, rfl, rfl, rfl⟩
    exact ⟨now, rfl, rfl⟩
  · rintro ⟨now, rfl, rfl⟩
    exact ⟨now, [], rfl, rfl, rfl⟩

theorem reportNow_bind_dialogue {α : Type} {a : Aspect} {ready : Bool} {message : String}
    {f : Status → Program α} {b : α} :
    ((s.reportNow a ready message).bind f).Dialogue t b ↔
      ∃ now r, t = ⟨.now, now⟩ :: r ∧ (f (s.report a ready message now)).Dialogue r b := by
  simp only [dialogue_bind, reportNow_dialogue]
  constructor
  · rintro ⟨_, _, t₂, rfl, ⟨now, rfl, rfl⟩, h⟩
    exact ⟨now, t₂, rfl, h⟩
  · rintro ⟨now, r, rfl, h⟩
    exact ⟨_, [⟨.now, now⟩], r, rfl, ⟨now, rfl, rfl⟩, h⟩

theorem reportNow_done_dialogue {α : Type} {a : Aspect} {ready : Bool} {message : String}
    {f : Status → α} {b : α} :
    ((s.reportNow a ready message).bind fun s => done (f s)).Dialogue t b ↔
      ∃ now, t = [⟨.now, now⟩] ∧ b = f (s.report a ready message now) := by
  simp only [reportNow_bind_dialogue, dialogue_done]
  constructor
  · rintro ⟨now, _, rfl, rfl, rfl⟩
    exact ⟨now, rfl, rfl⟩
  · rintro ⟨now, rfl, rfl⟩
    exact ⟨now, [], rfl, rfl, rfl⟩

theorem stamp_done_dialogue {α : Type} {f : Status → α} {b : α} :
    (s.stamp.bind fun s => done (f s)).Dialogue t b ↔
      ∃ now, t = [⟨.now, now⟩] ∧ b = f (s.stampedAt now) := by
  simp only [Status.stamp, bind_assoc, dialogue_now_bind]
  constructor
  · rintro ⟨now, _, rfl, h⟩
    obtain ⟨rfl, rfl⟩ := dialogue_done.mp h
    exact ⟨now, rfl, rfl⟩
  · rintro ⟨now, rfl, rfl⟩
    exact ⟨now, [], rfl, .done _⟩

theorem replicaTrouble_eq_none {ready wanted : Int32} :
    replicaTrouble ready wanted = none ↔ ready = wanted ∧ ready ≠ 0 := by
  unfold replicaTrouble
  split
  · rename_i h
    simp [h]
  · rename_i h
    split
    · rename_i hlt
      simp only [reduceCtorEq, false_iff, not_and]
      rintro rfl
      exact absurd hlt Int32.lt_irrefl
    · rename_i hge
      split
      · rename_i hgt
        simp only [reduceCtorEq, false_iff, not_and]
        rintro rfl
        exact absurd hgt Int32.lt_irrefl
      · rename_i hle
        exact ⟨fun _ => ⟨Int32.le_antisymm (Int32.not_lt.mp hle) (Int32.not_lt.mp hge), h⟩,
          fun _ => rfl⟩

/-- The status of a deployment that was judged, and whether it is ready. -/
structure Judged (d : Distribution) (s : Status) (ready : Bool) (s' : Status) : Prop where
  verdict : s'.verdict? .deployment = some (truth ready)
  oneEach : s.OneEach → s'.OneEach
  ready_iff : s'.phase = .ready ↔ ready = true
  ready_replicas : ready = true →
    s'.availableReplicas = d.spec.replicas ∧ s'.availableReplicas ≠ 0
  pending_replicas : s'.phase = .pending → s'.availableReplicas = 0

theorem Judged.of_report {ready : Bool} {message : String} {now : Timestamp}
    (hc : s'.conditions = (s.report .deployment ready message now).conditions)
    (hready : s'.phase = .ready ↔ ready = true)
    (hrep : ready = true → s'.availableReplicas = d.spec.replicas ∧ s'.availableReplicas ≠ 0)
    (hpend : s'.phase = .pending → s'.availableReplicas = 0) : Judged d s ready s' where
  verdict := by
    rw [Status.verdict?_congr hc, Status.verdict?_report, if_pos rfl]
  oneEach h := (h.report .deployment ready message now).congr hc
  ready_iff := hready
  ready_replicas := hrep
  pending_replicas := hpend

theorem judgeDeployment_dialogue {live : Option Child} {judged : Bool × Status}
    (h : (judgeDeployment o d live s).Dialogue t judged) :
    (∃ now, t = [⟨.now, now⟩]) ∧ Judged d s judged.1 judged.2 := by
  unfold judgeDeployment at h
  split at h
  · obtain ⟨now, ht, rfl⟩ := reportNow_done_dialogue.mp h
    exact ⟨⟨now, ht⟩, .of_report rfl (by simp [Status.withPhase]) (by simp) (fun _ => rfl)⟩
  · rename_i live
    dsimp only at h
    split at h
    · obtain ⟨now, ht, rfl⟩ := reportNow_done_dialogue.mp h
      exact ⟨⟨now, ht⟩, .of_report rfl (by simp [Status.withPhase]) (by simp)
        (by simp [Status.withPhase])⟩
    · rename_i htrouble
      obtain ⟨now, ht, rfl⟩ := reportNow_done_dialogue.mp h
      exact ⟨⟨now, ht⟩, .of_report rfl (by simp [Status.withPhase])
        (fun _ => replicaTrouble_eq_none.mp htrouble) (by simp [Status.withPhase])⟩

/-- A status that differs at most in what it says of one aspect. -/
structure Status.SameButFor (a : Aspect) (s s' : Status) : Prop where
  verdicts : ∀ b, b ≠ a → s'.verdict? b = s.verdict? b
  phase : s'.phase = s.phase
  availableReplicas : s'.availableReplicas = s.availableReplicas
  summary : s'.summary = s.summary
  versions : s'.versions = s.versions
  oneEach : s.OneEach → s'.OneEach

theorem Status.SameButFor.refl (a : Aspect) (s : Status) : s.SameButFor a s :=
  ⟨fun _ _ => rfl, rfl, rfl, rfl, rfl, id⟩

theorem Status.SameButFor.report (a : Aspect) (s : Status) (ready : Bool) (message : String)
    (now : Timestamp) : s.SameButFor a (s.report a ready message now) :=
  ⟨fun b hb => by rw [verdict?_report, if_neg hb.symm], rfl, rfl, rfl, rfl,
    fun h => h.report a ready message now⟩

theorem Judged.of_same {ready : Bool} {u u' : Status} {a : Aspect} (h : Judged d s ready u)
    (hs : u.SameButFor a u') (ha : a ≠ .deployment) : Judged d s ready u' where
  verdict := (hs.verdicts .deployment ha.symm).trans h.verdict
  oneEach ho := hs.oneEach (h.oneEach ho)
  ready_iff := by rw [hs.phase, h.ready_iff]
  ready_replicas hr := by
    rw [hs.availableReplicas]
    exact h.ready_replicas hr
  pending_replicas hp := by
    rw [hs.availableReplicas]
    exact h.pending_replicas (hs.phase ▸ hp)

theorem Judged.summarize {ready : Bool} {u : Status} (h : Judged d s ready u) (o : Operator) :
    Judged d s ready (o.summarize d u) :=
  ⟨h.verdict, h.oneEach, h.ready_iff, h.ready_replicas, h.pending_replicas⟩

theorem evaluateStorage_dialogue (h : (evaluateStorage d s).Dialogue t s') :
    (d.spec.server.storage = none ∧ t = [] ∧ s' = s) ∨
      ∃ (a : Except StoreError (Option Child)) (now : Timestamp),
        d.spec.server.storage ≠ none ∧
        t = [⟨.store (.get .claim ⟨d.space, d.claimName⟩), a⟩, ⟨.now, now⟩] ∧
        s' = s.report .storage (claimReport d.claimName a).1 (claimReport d.claimName a).2 now := by
  unfold evaluateStorage at h
  split at h
  · rename_i hs
    obtain ⟨rfl, rfl⟩ := dialogue_done.mp h
    exact .inl ⟨by simpa using hs, rfl, rfl⟩
  · rename_i hs
    obtain ⟨a, _, rfl, hr⟩ := dialogue_store_bind.mp h
    obtain ⟨now, rfl, rfl⟩ := reportNow_dialogue.mp hr
    exact .inr ⟨a, now, by simpa using hs, rfl, rfl⟩

theorem evaluateService_dialogue (h : (evaluateService d s).Dialogue t s') :
    (d.hasPorts = false ∧ t = [] ∧ s' = s) ∨
      ∃ (a : Except StoreError (Option Child)) (now : Timestamp),
        d.hasPorts = true ∧
        t = [⟨.store (.get .service ⟨d.space, d.serviceName⟩), a⟩, ⟨.now, now⟩] ∧
        s' = s.report .service (serviceReport d.serviceName a).1
          (serviceReport d.serviceName a).2 now := by
  unfold evaluateService at h
  split at h
  · rename_i hp
    obtain ⟨a, _, rfl, hr⟩ := dialogue_store_bind.mp h
    obtain ⟨now, rfl, rfl⟩ := reportNow_dialogue.mp hr
    exact .inr ⟨a, now, hp, rfl, rfl⟩
  · rename_i hp
    obtain ⟨rfl, rfl⟩ := dialogue_done.mp h
    exact .inl ⟨by simpa using hp, rfl, rfl⟩

theorem evaluateStorage_same (h : (evaluateStorage d s).Dialogue t s') :
    s.SameButFor .storage s' ∧ AsksNoServer t := by
  rcases evaluateStorage_dialogue h with ⟨_, rfl, rfl⟩ | ⟨a, now, _, rfl, rfl⟩
  · exact ⟨.refl _ _, .nil⟩
  · exact ⟨.report _ _ _ _ _, by simp [AsksNoServer]⟩

theorem evaluateService_same (h : (evaluateService d s).Dialogue t s') :
    s.SameButFor .service s' ∧ AsksNoServer t := by
  rcases evaluateService_dialogue h with ⟨_, rfl, rfl⟩ | ⟨a, now, _, rfl, rfl⟩
  · exact ⟨.refl _ _, .nil⟩
  · exact ⟨.report _ _ _ _ _, by simp [AsksNoServer]⟩

theorem checkHealth_dialogue (h : (checkHealth d s).Dialogue t s') :
    ∃ (a : Except ProbeError Bool) (now : Timestamp) (ps : Except ProbeError (List Provider)),
      t = [⟨.probe (.health d.endpoint), a⟩, ⟨.now, now⟩,
        ⟨.probe (.providers d.endpoint), ps⟩] ∧
      s' = (((s.withPhase (healthReport a).1).report .health (healthReport a).2.1
        (healthReport a).2.2 now)).withProviders (reportedProviders (healthReport a).2.1 ps) := by
  obtain ⟨a, _, rfl, hr⟩ := dialogue_probe_bind.mp h
  obtain ⟨now, _, rfl, hl⟩ := reportNow_bind_dialogue.mp hr
  obtain ⟨ps, _, rfl, hd⟩ := dialogue_probe_bind.mp hl
  obtain ⟨rfl, rfl⟩ := dialogue_done.mp hd
  exact ⟨a, now, ps, rfl, rfl⟩

theorem skipHealth_dialogue (h : (skipHealth s).Dialogue t s') :
    ∃ now, t = [⟨.now, now⟩] ∧
      s' = (s.report .health false "Deployment not ready" now).clearProviders :=
  reportNow_done_dialogue.mp h

/-- An evaluation stops at a deployment that cannot be read; otherwise it goes through its parts
in order, and probes the server only if the deployment is ready. -/
theorem observedStatus_dialogue {r : Except OperatorError Status}
    (h : (observedStatus o d s).Dialogue t r) :
    (∃ e, t = [⟨.store (.get .deployment d.key), .error e⟩] ∧
        r = .error (.store "get" ChildKind.deployment.kind e)) ∨
      ∃ (live : Option Child) (judged : Bool × Status) (t₁ t₂ t₃ t₄ : List Exchange)
        (s₂ s₃ s₄ : Status),
        t = ⟨.store (.get .deployment d.key), .ok live⟩ :: (t₁ ++ (t₂ ++ (t₃ ++ t₄))) ∧
        (judgeDeployment o d live s).Dialogue t₁ judged ∧
        (evaluateStorage d judged.2).Dialogue t₂ s₂ ∧
        (evaluateService d s₂).Dialogue t₃ s₃ ∧
        (if judged.1 then checkHealth d (o.summarize d s₃)
          else skipHealth (o.summarize d s₃)).Dialogue t₄ s₄ ∧
        r = .ok s₄ := by
  rcases dialogue_andThen.mp h with ⟨e, he, rfl⟩ | ⟨judged, t₁, t', rfl, hj, hr⟩
  · refine .inl ?_
    rcases dialogue_andThen.mp he with ⟨e, he, hee⟩ | ⟨live, _, _, _, _, hd⟩
    · obtain ⟨a, rfl, ha⟩ := dialogue_attempt.mp he
      cases a with
      | error x =>
        cases ha
        cases hee
        exact ⟨x, rfl, rfl⟩
      | ok live => cases ha
    · obtain ⟨judged, _, _, _, _, hd⟩ := dialogue_bind.mp hd
      cases (dialogue_done.mp hd).2
  · refine .inr ?_
    rcases dialogue_andThen.mp hj with ⟨_, _, hee⟩ | ⟨live, _, _, rfl, ha, hd⟩
    · cases hee
    · obtain rfl := dialogue_attempt_ok.mp ha
      obtain ⟨judged, t₁, _, rfl, h₁, hd⟩ := dialogue_bind.mp hd
      obtain ⟨rfl, hjj⟩ := dialogue_done.mp hd
      obtain ⟨s₂, t₂, _, rfl, h₂, hr⟩ := dialogue_bind.mp hr
      obtain ⟨s₃, t₃, _, rfl, h₃, hr⟩ := dialogue_bind.mp hr
      obtain ⟨s₄, t₄, _, rfl, h₄, hr⟩ := dialogue_bind.mp hr
      obtain ⟨rfl, rfl⟩ := dialogue_done.mp hr
      cases hjj
      exact ⟨live, judged, t₁, t₂, t₃, t₄, s₂, s₃, s₄, by simp, h₁, h₂, h₃, h₄, rfl⟩

/-- Up to the health of the server, an observation is a judgement of the deployment. -/
theorem observedStatus_judged (h : (observedStatus o d s).Dialogue t (.ok s')) :
    ∃ ready u t₁ t₂, t = t₁ ++ t₂ ∧ AsksNoServer t₁ ∧ Judged d s ready u ∧
      (if ready then checkHealth d u else skipHealth u).Dialogue t₂ s' := by
  rcases observedStatus_dialogue h with ⟨e, _, he⟩ |
    ⟨live, judged, t₁, t₂, t₃, t₄, s₂, s₃, s₄, rfl, h₁, h₂, h₃, h₄, hr⟩
  · cases he
  · cases hr
    obtain ⟨⟨now, rfl⟩, hj⟩ := judgeDeployment_dialogue h₁
    obtain ⟨hs₂, ha₂⟩ := evaluateStorage_same h₂
    obtain ⟨hs₃, ha₃⟩ := evaluateService_same h₃
    have hjudged := (hj.of_same hs₂ (by decide)).of_same hs₃ (by decide)
    refine ⟨judged.1, o.summarize d s₃, ⟨.store (.get .deployment d.key), .ok live⟩ ::
      ⟨.now, now⟩ :: (t₂ ++ t₃), t₄, by simp, ?_, hjudged.summarize o, h₄⟩
    exact asksNoServer_cons.mpr ⟨fun _ => by simp,
      asksNoServer_cons.mpr ⟨fun _ => by simp, ha₂.append ha₃⟩⟩

theorem evaluate_failed_dialogue {e : OperatorError} {r : Except OperatorError Status}
    (h : (evaluate o d (some e)).Dialogue t r) :
    ∃ t₁ t₂, t = [⟨.now, t₁⟩, ⟨.now, t₂⟩] ∧
      r = .ok (((((o.startingStatus d).withPhase .failed).report .deployment false
        ("Resource reconciliation failed: " ++ e.message) t₁).clearProviders).stampedAt t₂) := by
  rcases dialogue_andThen.mp h with ⟨_, he, _⟩ | ⟨s, _, _, rfl, hs, hr⟩
  · obtain ⟨_, _, _, _, _, hd⟩ := dialogue_bind.mp he
    cases (dialogue_done.mp hd).2
  · obtain ⟨s₁, _, _, rfl, h₁, hd⟩ := dialogue_bind.mp hs
    obtain ⟨rfl, hss⟩ := dialogue_done.mp hd
    cases hss
    obtain ⟨t₁, rfl, rfl⟩ := reportNow_done_dialogue.mp h₁
    obtain ⟨t₂, rfl, rfl⟩ := stamp_done_dialogue.mp hr
    exact ⟨t₁, t₂, rfl, rfl⟩

theorem evaluate_observed_dialogue {r : Except OperatorError Status}
    (h : (evaluate o d none).Dialogue t r) :
    (∃ e, (observedStatus o d (o.startingStatus d)).Dialogue t (.error e) ∧ r = .error e) ∨
      ∃ s t₁ t₂, t = t₁ ++ [⟨.now, t₂⟩] ∧
        (observedStatus o d (o.startingStatus d)).Dialogue t₁ (.ok s) ∧
        r = .ok (s.stampedAt t₂) := by
  rcases dialogue_andThen.mp h with ⟨e, he, rfl⟩ | ⟨s, t₁, _, rfl, hs, hr⟩
  · exact .inl ⟨e, he, rfl⟩
  · obtain ⟨t₂, rfl, rfl⟩ := stamp_done_dialogue.mp hr
    exact .inr ⟨s, t₁, t₂, rfl, hs, rfl⟩

def Call.Observes : Call → Prop
  | .store (.get _ _) | .probe _ | .now => True
  | _ => False

/-- What an evaluation asks: it looks at three children, at the server and at the clock. -/
def Distribution.Asks (d : Distribution) : Call → Prop
  | .store (.get .deployment k) => k = d.key
  | .store (.get .claim k) => k = ⟨d.space, d.claimName⟩
  | .store (.get .service k) => k = ⟨d.space, d.serviceName⟩
  | .probe _ | .now => True
  | _ => False

theorem Distribution.Asks.observes {c : Call} (h : d.Asks c) : c.Observes := by
  cases c with
  | store c =>
    cases c with
    | get kind k => exact trivial
    | _ => exact h
  | memory c => exact h
  | _ => exact trivial

theorem reportNow_asks (d : Distribution) (s : Status) (a : Aspect) (ready : Bool)
    (message : String) : (s.reportNow a ready message).Within d.Asks :=
  ⟨trivial, fun _ => trivial⟩

theorem evaluateDeployment_asks (o : Operator) (d : Distribution) (s : Status) :
    (evaluateDeployment o d s).Within d.Asks := by
  refine .andThen (.attempt (show d.Asks (.store (.get .deployment d.key)) from rfl) _ _)
    fun live => .bind ?_ fun _ => trivial
  unfold judgeDeployment
  split
  · exact (reportNow_asks d _ _ _ _).bind fun _ => trivial
  · dsimp only
    split
    · exact (reportNow_asks d _ _ _ _).bind fun _ => trivial
    · exact (reportNow_asks d _ _ _ _).bind fun _ => trivial

theorem observedStatus_asks (o : Operator) (d : Distribution) (s : Status) :
    (observedStatus o d s).Within d.Asks := by
  refine (evaluateDeployment_asks o d s).andThen fun judged =>
    .bind ?_ fun _ => .bind ?_ fun _ => .bind ?_ fun _ => trivial
  · unfold evaluateStorage
    split
    · exact trivial
    · exact .bind (.call (show d.Asks (.store (.get .claim ⟨d.space, d.claimName⟩)) from rfl))
        fun _ => reportNow_asks d _ _ _ _
  · unfold evaluateService
    split
    · exact .bind (.call (show d.Asks (.store (.get .service ⟨d.space, d.serviceName⟩)) from rfl))
        fun _ => reportNow_asks d _ _ _ _
    · exact trivial
  · split
    · exact .bind (.call trivial) fun _ => (reportNow_asks d _ _ _ _).bind fun _ =>
        .bind (.call trivial) fun _ => trivial
    · exact (reportNow_asks d _ _ _ _).bind fun _ => trivial

theorem evaluate_asks (o : Operator) (d : Distribution) (failure : Option OperatorError) :
    (evaluate o d failure).Within d.Asks := by
  refine .andThen ?_ fun _ => .bind (.bind (.call trivial) fun _ => trivial) fun _ => trivial
  cases failure with
  | none => exact observedStatus_asks o d _
  | some e => exact .bind ((reportNow_asks d _ _ _ _).bind fun _ => trivial) fun _ => trivial

theorem evaluate_within (o : Operator) (d : Distribution) (failure : Option OperatorError) :
    (evaluate o d failure).Within Call.Observes :=
  (evaluate_asks o d failure).mono fun _ hc => hc.observes

end DistributionOperator
