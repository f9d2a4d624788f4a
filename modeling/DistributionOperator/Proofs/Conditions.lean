import DistributionOperator.Distribution.Status

/-! The conditions of a status under reports. A report settles the verdict on its own aspect and
leaves the other verdicts as they are, and it never makes a second condition of one type. -/

namespace DistributionOperator

theorem Aspect.type_inj {a b : Aspect} : a.type = b.type ↔ a = b := by
  cases a <;> cases b <;> simp [Aspect.type]

@[simp] theorem truth_inj {a b : Bool} : truth a = truth b ↔ a = b := by
  cases a <;> cases b <;> simp [truth]

@[simp] theorem Condition.update_type (c : Condition) (ready : Bool) (reason message : String)
    (now : Timestamp) : (c.update ready reason message now).type = c.type := rfl

@[simp] theorem Condition.update_status (c : Condition) (ready : Bool) (reason message : String)
    (now : Timestamp) : (c.update ready reason message now).status = truth ready := rfl

/-- The condition of a type that was set says what was reported. -/
theorem find_setCondition (type : String) (ready : Bool) (reason message : String)
    (now : Timestamp) (l : List Condition) :
    ∃ c, (setCondition type ready reason message now l).find? (·.type = type) = some c ∧
      c.status = truth ready ∧ c.message = message := by
  induction l with
  | nil => exact ⟨⟨type, truth ready, reason, message, some now⟩, by simp [setCondition], rfl, rfl⟩
  | cons c r ih =>
    by_cases h : c.type = type
    · exact ⟨c.update ready reason message now, by simp [setCondition, h], rfl, rfl⟩
    · simpa [setCondition, h] using ih

theorem find_setCondition_self (type : String) (ready : Bool) (reason message : String)
    (now : Timestamp) (l : List Condition) :
    ((setCondition type ready reason message now l).find? (·.type = type)).map (·.status) =
      some (truth ready) := by
  obtain ⟨c, hc, hs, _⟩ := find_setCondition type ready reason message now l
  rw [hc, Option.map_some, hs]

theorem find_setCondition_other {type other : String} (h : other ≠ type) (ready : Bool)
    (reason message : String) (now : Timestamp) (l : List Condition) :
    (setCondition type ready reason message now l).find? (·.type = other) =
      l.find? (·.type = other) := by
  induction l with
  | nil => simp [setCondition, h.symm]
  | cons c r ih =>
    by_cases hc : c.type = type
    · simp [setCondition, hc, h.symm]
    · by_cases hco : c.type = other
      · simp [setCondition, hco, h]
      · simpa [setCondition, hc, hco] using ih

theorem mem_setCondition_type {type ty : String} {ready : Bool} {reason message : String}
    {now : Timestamp} {l : List Condition}
    (h : ty ∈ (setCondition type ready reason message now l).map (·.type)) :
    ty = type ∨ ty ∈ l.map (·.type) := by
  induction l with
  | nil => simpa [setCondition] using h
  | cons c r ih =>
    by_cases hc : c.type = type
    · simp only [setCondition, hc, if_true, List.map_cons, Condition.update_type,
        List.mem_cons] at h
      exact h.imp id fun h => by simp [h]
    · simp only [setCondition, hc, if_false, List.map_cons, List.mem_cons] at h
      rcases h with h | h
      · exact .inr (by simp [h])
      · exact (ih h).imp id fun h => by simp [h]

theorem setCondition_nodup {l : List Condition} (h : (l.map (·.type)).Nodup) (type : String)
    (ready : Bool) (reason message : String) (now : Timestamp) :
    ((setCondition type ready reason message now l).map (·.type)).Nodup := by
  induction l with
  | nil => simp [setCondition]
  | cons c r ih =>
    have hn := List.nodup_cons.mp h
    by_cases hc : c.type = type
    · simpa [setCondition, hc] using h
    · simp only [setCondition, hc, if_false, List.map_cons]
      refine List.nodup_cons.mpr ⟨fun hm => ?_, ih hn.2⟩
      exact (mem_setCondition_type hm).elim hc hn.1

namespace Status

def verdict? (s : Status) (a : Aspect) : Option String := (s.condition? a.type).map (·.status)

/-- At most one condition of each type. -/
def OneEach (s : Status) : Prop := (s.conditions.map (·.type)).Nodup

theorem verdict?_congr {s s' : Status} (h : s.conditions = s'.conditions) (a : Aspect) :
    s.verdict? a = s'.verdict? a := by
  simp [verdict?, condition?, h]

theorem OneEach.congr {s s' : Status} (h : s.OneEach) (hc : s'.conditions = s.conditions) :
    s'.OneEach := by
  unfold OneEach
  rwa [hc]

theorem verdict?_report (s : Status) (a b : Aspect) (ready : Bool) (message : String)
    (now : Timestamp) :
    (s.report a ready message now).verdict? b = if a = b then some (truth ready) else s.verdict? b := by
  by_cases h : a = b
  · subst h
    simpa [verdict?, condition?, report] using find_setCondition_self _ _ _ _ _ s.conditions
  · have hne : b.type ≠ a.type := fun e => h (Aspect.type_inj.mp e).symm
    simp [verdict?, condition?, report, h, find_setCondition_other hne]

theorem OneEach.report {s : Status} (h : s.OneEach) (a : Aspect) (ready : Bool) (message : String)
    (now : Timestamp) : (s.report a ready message now).OneEach :=
  setCondition_nodup h _ _ _ _ _

theorem OneEach.condition?_eq {s : Status} (h : s.OneEach) {a : Aspect} {c : Condition}
    (hc : c ∈ s.conditions) (ht : c.type = a.type) : s.condition? a.type = some c := by
  have hfind : ∀ l : List Condition, (l.map (·.type)).Nodup → c ∈ l →
      l.find? (·.type = a.type) = some c := by
    intro l hl hm
    induction l with
    | nil => simp at hm
    | cons x r ih =>
      have hn := List.nodup_cons.mp hl
      rcases List.mem_cons.mp hm with rfl | hm
      · simp [ht]
      · have hx : x.type ≠ a.type := fun e =>
          hn.1 (List.mem_map.mpr ⟨c, hm, ht.trans e.symm⟩)
        simpa [hx] using ih hn.2 hm
  exact hfind s.conditions h hc

theorem OneEach.verdict?_eq {s : Status} (h : s.OneEach) {a : Aspect} {c : Condition}
    (hc : c ∈ s.conditions) (ht : c.type = a.type) : s.verdict? a = some c.status := by
  rw [verdict?, h.condition?_eq hc ht, Option.map_some]

theorem exists_of_verdict? {s : Status} {a : Aspect} {v : String} (h : s.verdict? a = some v) :
    ∃ c ∈ s.conditions, c.type = a.type ∧ c.status = v := by
  obtain ⟨c, hc, hv⟩ := Option.map_eq_some_iff.mp h
  exact ⟨c, List.mem_of_find?_eq_some hc, by simpa using List.find?_some hc, hv⟩

/-- Whether there is a condition that says that all is well with an aspect. -/
def Holds (s : Status) (a : Aspect) : Prop :=
  ∃ c ∈ s.conditions, c.type = a.type ∧ c.isTrue = true

theorem OneEach.holds_iff {s : Status} (h : s.OneEach) (a : Aspect) :
    s.Holds a ↔ s.verdict? a = some (truth true) := by
  constructor
  · rintro ⟨c, hc, ht, htrue⟩
    rw [h.verdict?_eq hc ht]
    exact congrArg some (of_decide_eq_true htrue)
  · intro hv
    obtain ⟨c, hc, ht, hs⟩ := exists_of_verdict? hv
    exact ⟨c, hc, ht, decide_eq_true hs⟩

@[simp] theorem report_phase (s : Status) (a : Aspect) (ready : Bool) (message : String)
    (now : Timestamp) : (s.report a ready message now).phase = s.phase := rfl

end Status

end DistributionOperator
