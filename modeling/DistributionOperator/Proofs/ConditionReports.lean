import DistributionOperator.Proofs.Evaluation

/-! What an evaluation reports, in its order. Each aspect that is looked at has one report with a
reading of the clock of its own, and a last reading tells when the status was made. -/

namespace DistributionOperator

open Program

/-- What is found of an aspect, and when. -/
structure Report where
  aspect : Aspect
  ready : Bool
  message : String
  time : Timestamp

namespace Report

variable {r r' : Report} {rs rs' : List Report} {l : List Condition}

/-- The condition that a report makes of the one before. -/
def condition (r : Report) : Option Condition → Condition
  | some c => c.update r.ready (r.aspect.reason r.ready) r.message r.time
  | none => ⟨r.aspect.type, truth r.ready, r.aspect.reason r.ready, r.message, some r.time⟩

def on (l : List Condition) (r : Report) : List Condition :=
  setCondition r.aspect.type r.ready (r.aspect.reason r.ready) r.message r.time l

/-- Conditions after reports, one after the other. -/
def all (l : List Condition) (rs : List Report) : List Condition := rs.foldl on l

@[simp] theorem condition_status (r : Report) (old : Option Condition) :
    (r.condition old).status = truth r.ready := by
  cases old <;> rfl

/-- The time of a condition moves when its verdict turns, and only then. -/
theorem condition_time (r : Report) (old : Option Condition) :
    (r.condition old).lastTransitionTime =
      if old.map (·.status) = some (truth r.ready) then old.bind (·.lastTransitionTime)
      else some r.time := by
  cases old with
  | none => rfl
  | some c => simp [condition, Condition.update]

theorem find_on (r : Report) (l : List Condition) :
    (on l r).find? (·.type = r.aspect.type) =
      some (r.condition (l.find? (·.type = r.aspect.type))) := by
  unfold on
  induction l with
  | nil => simp [setCondition, condition]
  | cons c l ih =>
    by_cases h : c.type = r.aspect.type
    · simp [setCondition, h, condition]
    · simpa [setCondition, h] using ih

theorem find_all_other {a : Aspect} (h : a ∉ rs.map (·.aspect)) (l : List Condition) :
    (all l rs).find? (·.type = a.type) = l.find? (·.type = a.type) := by
  induction rs generalizing l with
  | nil => rfl
  | cons r rs ih =>
    simp only [List.map_cons, List.mem_cons, not_or] at h
    have hne : a.type ≠ r.aspect.type := fun he => h.1 (Aspect.type_inj.mp he)
    exact (ih h.2 _).trans (find_setCondition_other hne _ _ _ _ _)

theorem find_all (hn : (rs.map (·.aspect)).Nodup) (hr : r ∈ rs) (l : List Condition) :
    (all l rs).find? (·.type = r.aspect.type) =
      some (r.condition (l.find? (·.type = r.aspect.type))) := by
  induction rs generalizing l with
  | nil => simp at hr
  | cons r' rs ih =>
    obtain ⟨hnew, hrest⟩ := List.nodup_cons.mp hn
    rcases List.mem_cons.mp hr with rfl | hr
    · exact (find_all_other hnew _).trans (find_on r l)
    · have hne : r.aspect.type ≠ r'.aspect.type := fun he =>
        hnew (List.mem_map.mpr ⟨r, hr, Aspect.type_inj.mp he⟩)
      have hkept : (on l r').find? (·.type = r.aspect.type) = l.find? (·.type = r.aspect.type) :=
        find_setCondition_other hne _ _ _ _ _
      rw [← hkept]
      exact ih hrest hr _

theorem all_nodup (h : (l.map (·.type)).Nodup) (rs : List Report) :
    ((all l rs).map (·.type)).Nodup := by
  induction rs generalizing l with
  | nil => exact h
  | cons r rs ih => exact ih (setCondition_nodup h _ _ _ _ _)

theorem mem_all_type {type : String} (h : type ∈ (all l rs).map (·.type)) :
    type ∈ rs.map (·.aspect.type) ∨ type ∈ l.map (·.type) := by
  induction rs generalizing l with
  | nil => exact .inr h
  | cons r rs ih =>
    rcases ih h with hrest | hon
    · exact .inl (List.mem_cons_of_mem _ hrest)
    · exact (mem_setCondition_type hon).imp_left fun he => by simp [he]

end Report

/-- What the clock told in an exchange, if it was asked. -/
def Exchange.clock? : Exchange → Option Timestamp
  | ⟨.now, time⟩ => some time
  | _ => none

def clockReadings (t : List Exchange) : List Timestamp := t.filterMap (·.clock?)

theorem clockReadings_append (t₁ t₂ : List Exchange) :
    clockReadings (t₁ ++ t₂) = clockReadings t₁ ++ clockReadings t₂ := List.filterMap_append

theorem clockReadings_nil_of {t : List Exchange} (h : ∀ x ∈ t, x.call ≠ .now) :
    clockReadings t = [] := by
  refine List.filterMap_eq_nil_iff.mpr fun x hx => ?_
  obtain ⟨c, a⟩ := x
  cases c with
  | now => exact absurd rfl (h _ hx)
  | _ => rfl

/-- A stretch of an evaluation that makes these reports. -/
structure Reporting (t : List Exchange) (rs : List Report) (s s' : Status) : Prop where
  times : clockReadings t = rs.map (·.time)
  conditions : s'.conditions = Report.all s.conditions rs

/-- The aspects that an evaluation looks at, in its order. After a failure it tells of nothing but
the deployment. -/
def Distribution.examined (d : Distribution) : Option OperatorError → List Aspect
  | some _ => [.deployment]
  | none => .deployment :: (if d.spec.server.storage.isSome then [.storage] else []) ++
      (if d.hasPorts then [.service] else []) ++ [.health]

variable {o : Operator} {d : Distribution} {s s' u v : Status} {t t₁ t₂ : List Exchange}
  {rs₁ rs₂ : List Report}

theorem Distribution.examined_nodup (d : Distribution) (failure : Option OperatorError) :
    (d.examined failure).Nodup := by
  cases failure with
  | some e => simp [examined]
  | none =>
    cases hs : d.spec.server.storage.isSome <;> cases hp : d.hasPorts <;> simp [examined, hs, hp]

namespace Reporting

theorem refl (s : Status) : Reporting [] [] s s := ⟨rfl, rfl⟩

theorem trans (h₁ : Reporting t₁ rs₁ s u) (h₂ : Reporting t₂ rs₂ u v) :
    Reporting (t₁ ++ t₂) (rs₁ ++ rs₂) s v where
  times := by rw [clockReadings_append, h₁.times, h₂.times, List.map_append]
  conditions := by rw [h₂.conditions, h₁.conditions, Report.all, Report.all, Report.all,
    List.foldl_append]

/-- One report, made at the only reading of the clock. -/
theorem single {a : Aspect} {ready : Bool} {message : String} {now : Timestamp}
    (ht : clockReadings t = [now])
    (hc : s'.conditions = (s.report a ready message now).conditions) :
    Reporting t [⟨a, ready, message, now⟩] s s' := ⟨ht, hc⟩

end Reporting

theorem judgeDeployment_reports {live : Option Child} {judged : Bool × Status}
    (h : (judgeDeployment o d live s).Dialogue t judged) :
    ∃ r, r.aspect = .deployment ∧ Reporting t [r] s judged.2 := by
  unfold judgeDeployment at h
  split at h
  · obtain ⟨now, rfl, rfl⟩ := reportNow_done_dialogue.mp h
    exact ⟨_, rfl, .single rfl rfl⟩
  · dsimp only at h
    split at h
    · obtain ⟨now, rfl, rfl⟩ := reportNow_done_dialogue.mp h
      exact ⟨_, rfl, .single rfl rfl⟩
    · obtain ⟨now, rfl, rfl⟩ := reportNow_done_dialogue.mp h
      exact ⟨_, rfl, .single rfl rfl⟩

theorem evaluateStorage_reports (h : (evaluateStorage d s).Dialogue t s') :
    ∃ rs, rs.map (·.aspect) = (if d.spec.server.storage.isSome then [.storage] else []) ∧
      Reporting t rs s s' := by
  rcases evaluateStorage_dialogue h with ⟨hnone, rfl, rfl⟩ | ⟨a, now, hsome, rfl, rfl⟩
  · exact ⟨[], by simp [hnone], .refl _⟩
  · exact ⟨_, by simp [Option.isSome_iff_ne_none.mpr hsome], .single rfl rfl⟩

theorem evaluateService_reports (h : (evaluateService d s).Dialogue t s') :
    ∃ rs, rs.map (·.aspect) = (if d.hasPorts then [.service] else []) ∧
      Reporting t rs s s' := by
  rcases evaluateService_dialogue h with ⟨hnone, rfl, rfl⟩ | ⟨a, now, hsome, rfl, rfl⟩
  · exact ⟨[], by simp [hnone], .refl _⟩
  · exact ⟨_, by simp [hsome], .single rfl rfl⟩

theorem health_reports {ready : Bool}
    (h : (if ready then checkHealth d s else skipHealth s).Dialogue t s') :
    ∃ r, r.aspect = .health ∧ Reporting t [r] s s' := by
  cases ready with
  | true =>
    obtain ⟨a, now, ps, rfl, rfl⟩ := checkHealth_dialogue h
    exact ⟨_, rfl, .single rfl rfl⟩
  | false =>
    obtain ⟨now, rfl, rfl⟩ := skipHealth_dialogue h
    exact ⟨_, rfl, .single rfl rfl⟩

theorem observedStatus_reports (h : (observedStatus o d s).Dialogue t (.ok s')) :
    ∃ rs, rs.map (·.aspect) = d.examined none ∧ Reporting t rs s s' := by
  rcases observedStatus_dialogue h with ⟨_, _, he⟩ |
    ⟨live, judged, t₁, t₂, t₃, t₄, s₂, s₃, s₄, rfl, h₁, h₂, h₃, h₄, hr⟩
  · cases he
  · cases hr
    obtain ⟨r₁, ha₁, hr₁⟩ := judgeDeployment_reports h₁
    obtain ⟨rs₂, ha₂, hr₂⟩ := evaluateStorage_reports h₂
    obtain ⟨rs₃, ha₃, hr₃⟩ := evaluateService_reports h₃
    obtain ⟨r₄, ha₄, hr₄⟩ := health_reports h₄
    have hread : Reporting [⟨.store (.get .deployment d.key), .ok live⟩] [] s s := ⟨rfl, rfl⟩
    have hsummed : Reporting [] [] s₃ (o.summarize d s₃) := ⟨rfl, rfl⟩
    have hreports := hread.trans (hr₁.trans (hr₂.trans (hr₃.trans (hsummed.trans hr₄))))
    refine ⟨_, ?_, hreports⟩
    simp [ha₁, ha₂, ha₃, ha₄, Distribution.examined]

/-- The reports of an evaluation are those on the aspects that are looked at, each at its own reading
of the clock; the last reading is the time of the status. -/
theorem evaluate_reports {failure : Option OperatorError}
    (h : (evaluate o d failure).Dialogue t (.ok s')) :
    ∃ rs last, rs.map (·.aspect) = d.examined failure ∧
      clockReadings t = rs.map (·.time) ++ [last] ∧
      s'.conditions = Report.all (d.status.getD .blank).conditions rs ∧
      s'.versions.lastUpdated = some last := by
  cases failure with
  | some e =>
    obtain ⟨time, last, rfl, hr⟩ := evaluate_failed_dialogue h
    cases hr
    exact ⟨[⟨.deployment, false, _, time⟩], last, rfl, rfl, rfl, rfl⟩
  | none =>
    rcases evaluate_observed_dialogue h with ⟨_, _, he⟩ | ⟨v, t₁, last, rfl, hv, hr⟩
    · cases he
    · cases hr
      obtain ⟨rs, haspects, hreports⟩ := observedStatus_reports hv
      refine ⟨rs, last, haspects, ?_, hreports.conditions, rfl⟩
      rw [clockReadings_append, hreports.times]
      rfl

end DistributionOperator
