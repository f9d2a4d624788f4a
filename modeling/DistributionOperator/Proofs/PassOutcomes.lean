import DistributionOperator.Proofs.ChildPasses
import DistributionOperator.Proofs.ForeignChildren
import DistributionOperator.Proofs.FreshStatuses

/-! How a pass over a distribution that it finds ends, whatever its calls are answered. A failed
synchronization is told first, then an evaluation that could not be made, and then the write of the
status. -/

namespace DistributionOperator

open Program

def Exchange.isStatusWrite (x : Exchange) : Bool :=
  match x.call with
  | .store (.updateStatus _ _ _) => true
  | _ => false

/-- Whether a status tells of an error, as the reason why the deployment is not ready. -/
def Status.Blames (s : Status) (e : OperatorError) : Prop :=
  ∃ c, s.condition? Aspect.deployment.type = some c ∧ c.isTrue = false ∧
    c.message = "Resource reconciliation failed: " ++ e.message

/-- How a pass ends, by how the synchronization ended, what the pass said after that, and which
statuses it tried to write. -/
inductive Distribution.Ends (d : Distribution) : Except OperatorError Unit → List Exchange →
    List Exchange → Except OperatorError Outcome → Prop where
  | failed {e : OperatorError} {t : List Exchange} {new : Status} {a : Except StoreError Unit}
      (hphase : new.phase = .failed) (hblames : new.Blames e) :
      Ends d (.error e) t [statusWrite d.key d.metadata.resourceVersion new a] (.error e)
  | unread (cause : StoreError) :
      Ends d (.ok ()) [⟨.store (.get .deployment d.key), .error cause⟩] []
        (.error (.store "get" ChildKind.deployment.kind cause))
  | unwritten (live : Option Child) (t : List Exchange) (new : Status) (cause : StoreError) :
      Ends d (.ok ()) (⟨.store (.get .deployment d.key), .ok live⟩ :: t)
        [statusWrite d.key d.metadata.resourceVersion new (.error cause)]
        (.error (.store "update" (Distribution.kind ++ " status") cause))
  | written (live : Option Child) (t : List Exchange) (new : Status) :
      Ends d (.ok ()) (⟨.store (.get .deployment d.key), .ok live⟩ :: t)
        [statusWrite d.key d.metadata.resourceVersion new (.ok ())]
        (.ok ⟨some new.phase, if new.phase = .initializing then some 10 else none⟩)

variable {o : Operator} {d : Distribution} {k : Key} {t : List Exchange}

theorem statusWrites_none (h : NoStatusWrite t) : t.filter (·.isStatusWrite) = [] := by
  refine List.filter_eq_nil_iff.mpr fun x hx => ?_
  obtain ⟨c, a⟩ := x
  cases c with
  | store c =>
    cases c with
    | updateStatus k v new => exact absurd rfl (h _ hx k v new)
    | _ => exact Bool.false_ne_true
  | _ => exact Bool.false_ne_true

theorem filter_evaluate {failure : Option OperatorError} {r : Except OperatorError Status}
    (h : (evaluate o d failure).Dialogue t r) : t.filter (!·.isMemory) = t := by
  refine List.filter_eq_self.mpr fun x hx => ?_
  obtain ⟨c, a⟩ := x
  have hc : c.Observes := (evaluate_within o d failure).of_dialogue h _ hx
  cases c with
  | memory c => exact hc.elim
  | _ => rfl

theorem Status.condition?_report (s : Status) (a : Aspect) (ready : Bool) (message : String)
    (now : Timestamp) : ∃ c, (s.report a ready message now).condition? a.type = some c ∧
      c.status = truth ready ∧ c.message = message :=
  find_setCondition a.type ready (a.reason ready) message now s.conditions

theorem evaluate_failed_blames {e : OperatorError} {new : Status}
    (h : (evaluate o d (some e)).Dialogue t (.ok new)) : new.phase = .failed ∧ new.Blames e := by
  obtain ⟨t₁, t₂, _, hr⟩ := evaluate_failed_dialogue h
  obtain rfl := Except.ok.inj hr
  obtain ⟨c, hc, hs, hm⟩ := ((o.startingStatus d).withPhase .failed).condition?_report .deployment
    false ("Resource reconciliation failed: " ++ e.message) t₁
  refine ⟨rfl, c, hc, ?_, hm⟩
  rw [Condition.isTrue, hs]
  rfl

/-- An evaluation without a failure begins with the deployment, and fails only if that is not
read. -/
theorem evaluate_observed_reads {r : Except OperatorError Status}
    (h : (evaluate o d none).Dialogue t r) :
    (∃ cause, t = [⟨.store (.get .deployment d.key), .error cause⟩] ∧
        r = .error (.store "get" ChildKind.deployment.kind cause)) ∨
      ∃ live t' new, t = ⟨.store (.get .deployment d.key), .ok live⟩ :: t' ∧ r = .ok new := by
  rcases evaluate_observed_dialogue h with ⟨e, he, rfl⟩ | ⟨s, t₁, now, rfl, hs, rfl⟩
  · rcases observedStatus_dialogue he with ⟨cause, ht, hr⟩ | ⟨_, _, _, _, _, _, _, _, _, _, _, _, _,
      _, hr⟩
    · exact .inl ⟨cause, ht, hr⟩
    · cases hr
  · rcases observedStatus_dialogue hs with ⟨_, _, hr⟩ | ⟨live, _, _, _, _, _, _, _, _, rfl, _⟩
    · cases hr
    · exact .inr ⟨live, _, _, rfl, rfl⟩

/-- What comes of the write of the status, once the synchronization has ended. -/
theorem updateStatus_ends {synced : Except OperatorError Unit} {r : Except OperatorError Phase}
    (h : (updateStatus o d (failureOf synced)).Dialogue t r) :
    t.filter (!·.isMemory) = t ∧
      d.Ends synced t (t.filter (·.isStatusWrite)) (passResult synced r) := by
  rcases updateStatus_dialogue h with ⟨e, rfl, he⟩ | ⟨new, a, t₁, rfl, hn, rfl⟩
  · refine ⟨filter_evaluate he, ?_⟩
    rw [statusWrites_none (noStatusWrite_evaluate he)]
    cases synced with
    | error cause =>
      obtain ⟨_, _, _, hr⟩ := evaluate_failed_dialogue he
      cases hr
    | ok =>
      rcases evaluate_observed_reads he with ⟨cause, rfl, hr⟩ | ⟨_, _, _, _, hr⟩
      · cases hr
        exact .unread cause
      · cases hr
  · refine ⟨?_, ?_⟩
    · rw [List.filter_append, filter_evaluate hn]
      rfl
    · rw [List.filter_append, statusWrites_none (noStatusWrite_evaluate hn), List.nil_append]
      cases synced with
      | error e =>
        obtain ⟨hphase, hblames⟩ := evaluate_failed_blames hn
        exact .failed hphase hblames
      | ok =>
        rcases evaluate_observed_reads hn with ⟨_, _, hr⟩ | ⟨live, t', _, rfl, _⟩
        · cases hr
        · cases a with
          | error cause => exact .unwritten live _ new cause
          | ok => exact .written live _ new

/-- A pass that finds its distribution synchronizes the children, and ends by that and by what its
evaluation and its write are answered. Apart from what it recalls, it does nothing else. -/
theorem pass_ends {r : Except OperatorError Outcome}
    (h : (pass o k).Dialogue (distributionRead k (.ok (some d)) :: t) r) :
    ∃ synced t₁ t₂, t.filter (!·.isMemory) = t₁ ++ t₂ ∧ (synchronize o d).Dialogue t₁ synced ∧
      d.Ends synced t₂ (t.filter (·.isStatusWrite)) r := by
  rcases pass_dialogue h with ⟨a, _, ht, _, ha, _⟩ | ⟨d', t₁, t₂, t₃, ht, hrecalls, hw⟩
  · simp only [distributionRead, List.cons.injEq, Exchange.mk.injEq, heq_eq_eq, true_and] at ht
    exact absurd ht.1.symm (ha d)
  · simp only [distributionRead, List.cons.injEq, Exchange.mk.injEq, heq_eq_eq, true_and,
      Except.ok.injEq, Option.some.injEq] at ht
    obtain ⟨rfl, rfl⟩ := ht
    obtain ⟨synced, written, ts, tw, rfl, hs, hu, rfl⟩ := workOn_dialogue hw
    obtain ⟨hmemory, hends⟩ := updateStatus_ends hu
    have hnone := noStatusWrite_append.mp (noStatusWrite_recalls hrecalls)
    refine ⟨synced, ts, tw, ?_, hs, ?_⟩
    · have hparts : (distributionRead k (.ok (some d)) :: (t₁ ++ ((ts ++ tw) ++ t₃))).filter
          (!·.isMemory) = _ := filter_parts rfl hrecalls hs
      rw [hmemory, List.filter_cons_of_pos rfl] at hparts
      exact List.tail_eq_of_cons_eq hparts
    · simpa only [List.filter_append, statusWrites_none hnone.1, statusWrites_none hnone.2,
        statusWrites_none (noStatusWrite_synchronize hs), List.nil_append, List.append_nil] using
        hends

/-! A deployment in foreign hands, and statuses that cannot be written: the pass tries to write that
it failed, and tells why. -/

def Rehearsal.occupied : Rehearsal :=
  (Rehearsal.beside .deployment (.foreignSample "demo")).disturb .updateStatus
    (some (.fails (.api "busy")))

theorem pass_ends_foreign : ∃ t new a,
    (pass .sample ⟨"ai", "demo"⟩).Dialogue t (.error (.ownershipConflict "Deployment" "demo")) ∧
      t.filter (·.isStatusWrite) = [statusWrite ⟨"ai", "demo"⟩ (some "1") new a] ∧
      new.phase = .failed ∧ new.Blames (.ownershipConflict "Deployment" "demo") := by
  have h := dialogue_transcript Rehearsal.answer (pass .sample ⟨"ai", "demo"⟩) .occupied
  have hresult : ((pass .sample ⟨"ai", "demo"⟩).run Rehearsal.answer .occupied).1 =
      .error (.ownershipConflict "Deployment" "demo") := by decide +kernel
  have hread : (pass .sample ⟨"ai", "demo"⟩).transcript Rehearsal.answer .occupied =
      distributionRead ⟨"ai", "demo"⟩ (.ok (some (Distribution.sample.stamped "1"))) :: _ := rfl
  rw [hresult, hread] at h
  obtain ⟨synced, t₁, t₂, _, _, hends⟩ := pass_ends h
  generalize hw : List.filter _ _ = ws at hends
  cases hends with
  | failed hphase hblames => exact ⟨_, _, _, h, hw, hphase, hblames⟩

end DistributionOperator
