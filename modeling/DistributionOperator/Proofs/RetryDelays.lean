import DistributionOperator.Proofs.LastSpec
import DistributionOperator.Proofs.PassMemory
import Mathlib.Data.Nat.Fib.Basic

/-! How long a failed pass waits before it is tried again, over all that happens to the memory of an
operator. The delay of a key is a Fibonacci number of steps, up to the longest delay, and the step
is the number of delays that were asked for since the count last began anew. -/

namespace DistributionOperator

namespace Backoff

theorem delayFrom_fib (n k : Nat) :
    delayFrom n (min longestDelay (firstDelay * Nat.fib k))
        (min longestDelay (firstDelay * Nat.fib (k + 1))) =
      min longestDelay (firstDelay * Nat.fib (k + 1 + n)) := by
  induction n generalizing k with
  | zero => rfl
  | succ n ih =>
    have hnext : Nat.fib (k + 2) = Nat.fib k + Nat.fib (k + 1) := Nat.fib_add_two
    have hmono : Nat.fib k ≤ Nat.fib (k + 1) := Nat.fib_mono (Nat.le_succ k)
    have hlast : Nat.fib (k + 1) ≤ Nat.fib (k + 1 + (n + 1)) := Nat.fib_mono (by omega)
    unfold delayFrom
    -- the walk stops at the longest delay, and from there on the right side stays there too
    by_cases hcap : longestDelay ≤ min longestDelay (firstDelay * Nat.fib (k + 1))
    · rw [if_pos hcap]
      simp only [longestDelay, firstDelay] at hcap ⊢
      omega
    · have hsum : min (min longestDelay (firstDelay * Nat.fib k) +
          min longestDelay (firstDelay * Nat.fib (k + 1))) longestDelay =
            min longestDelay (firstDelay * Nat.fib (k + 2)) := by
        simp only [longestDelay, firstDelay] at hcap ⊢
        omega
      rw [if_neg hcap, hsum, ih (k + 1)]
      congr 3
      omega

/-- The count of a failure is never zero, and a delay for none is as long as for the first. -/
theorem delay_eq (n : UInt32) :
    delay n = min longestDelay (firstDelay * Nat.fib (1 + (n.toNat - 1))) := by
  have h := delayFrom_fib (n.toNat - 1) 0
  simpa [delay, longestDelay, firstDelay] using h

theorem delay_mono {i j : UInt32} (h : i ≤ j) : delay i ≤ delay j := by
  have hle : i.toNat ≤ j.toNat := UInt32.le_iff_toNat_le.mp h
  have hfib : Nat.fib (1 + (i.toNat - 1)) ≤ Nat.fib (1 + (j.toNat - 1)) :=
    Nat.fib_mono (by omega)
  rw [delay_eq, delay_eq]
  simp only [longestDelay, firstDelay]
  omega

theorem more_toNat (n : UInt32) : (more n).toNat = min (n.toNat + 1) 4294967295 := by
  have hlt := n.toNat_lt
  unfold more
  by_cases h : n.toNat < 4294967295
  · rw [if_pos h, UInt32.toNat_add]
    simp only [UInt32.reduceToNat]
    omega
  · rw [if_neg h]
    omega

/-- The sums that are formed on the way along the sequence. -/
def sums : Nat → Nat → Nat → List Nat
  | 0, _, _ => []
  | n + 1, previous, current =>
    if longestDelay ≤ current then []
    else (previous + current) :: sums n current (min (previous + current) longestDelay)

theorem delayFrom_eq_sums (n previous current : Nat) :
    delayFrom n previous current =
      ((sums n previous current).map (min · longestDelay)).getLast?.getD current := by
  induction n generalizing previous current with
  | zero => rfl
  | succ n ih =>
    unfold delayFrom sums
    by_cases h : longestDelay ≤ current
    · simp [h]
    · rw [if_neg h, if_neg h, ih, List.map_cons, List.getLast?_cons]
      rfl

theorem sums_lt {n previous current : Nat} (hp : previous ≤ longestDelay) :
    ∀ total ∈ sums n previous current, total < 2 * longestDelay := by
  induction n generalizing previous current with
  | zero => simp [sums]
  | succ n ih =>
    unfold sums
    by_cases h : longestDelay ≤ current
    · simp [h]
    · rw [if_neg h]
      exact List.forall_mem_cons.mpr ⟨by omega, ih (by omega)⟩

/-- What is answered to the `n`th delay in a row that is asked for. The sums that are formed on the
way do not grow beyond twice the longest delay. -/
structure IsNth (n : Nat) (answer : Nat × UInt32) : Prop where
  count : answer.2.toNat = n
  delay : answer.1 = min 300 (5 * Nat.fib n)
  lastSum : answer.1 =
    ((sums (n - 1) 0 firstDelay).map (min · longestDelay)).getLast?.getD firstDelay
  bounded : ∀ total ∈ sums (n - 1) 0 firstDelay, total < 2 * longestDelay

end Backoff

namespace Memory

variable {m : Memory} {j : String}

def failureCount (m : Memory) (j : String) : UInt32 := (m.failures j).getD 0

theorem resetFailures_specs (m : Memory) (k : String) : (m.resetFailures k).specs = m.specs := by
  unfold resetFailures
  split <;> rfl

theorem resetFailures_count (m : Memory) (k : String) :
    (m.resetFailures k).failureCount j = if j = k then 0 else m.failureCount j := by
  by_cases hj : j = k
  · subst hj
    cases hm : m.failures j with
    | none => simp [resetFailures, failureCount, hm]
    | some n => simp [resetFailures, failureCount, hm, set]
  · cases hm : m.failures k with
    | none => simp [resetFailures, failureCount, hm, hj]
    | some n => simp [resetFailures, failureCount, hm, set, hj]

theorem forget_count (m : Memory) (k : Key) :
    (m.forget k).failureCount j = if j = k.text then 0 else m.failureCount j := by
  by_cases hj : j = k.text
  · simp [forget, failureCount, set, hj]
  · simp [forget, failureCount, set, hj]

theorem nextDelay_count (m : Memory) (k : String) :
    (m.nextDelay k).2.failureCount j =
      if j = k then Backoff.more (m.failureCount k) else m.failureCount j := by
  by_cases hj : j = k
  · simp [nextDelay, failureCount, set, hj]
  · simp [nextDelay, failureCount, set, hj]

theorem nextDelay_nth (m : Memory) (k : String) :
    Backoff.IsNth (min ((m.failureCount k).toNat + 1) 4294967295) (m.nextDelay k).1 := by
  have hcount : (Backoff.more (m.failureCount k)).toNat =
      min ((m.failureCount k).toNat + 1) 4294967295 := Backoff.more_toNat _
  have hdelay : (m.nextDelay k).1.1 = Backoff.delay (Backoff.more (m.failureCount k)) := rfl
  have hn : 1 + (min ((m.failureCount k).toNat + 1) 4294967295 - 1) =
      min ((m.failureCount k).toNat + 1) 4294967295 := by omega
  refine ⟨hcount, ?_, ?_, Backoff.sums_lt (Nat.zero_le _)⟩
  · rw [hdelay, Backoff.delay_eq, hcount, hn]
    rfl
  · rw [hdelay, ← hcount]
    exact Backoff.delayFrom_eq_sums _ _ _

theorem bookkept_specs (m : Memory) (k : Key) (r : Except OperatorError Outcome) :
    (m.bookkept k r).specs = m.specs := by
  cases r with
  | error e => rfl
  | ok outcome => exact resetFailures_specs _ _

theorem bookkept_count (m : Memory) (k : Key) (r : Except OperatorError Outcome) :
    (m.bookkept k r).failureCount j =
      if j = k.text ∧ r.isOk = true then 0 else m.failureCount j := by
  cases r with
  | error e => simp [bookkept, failureCount, Except.isOk, Except.toBool]
  | ok outcome =>
    let shown := outcome.phase.elim m.metrics.countSuccess (m.metrics.countSuccess.showPhase k)
    have hreset := resetFailures_count (j := j) { m with metrics := shown } k.text
    simp only [Except.isOk, Except.toBool, and_true]
    exact hreset

end Memory

/-- What happens to the count of a key: a pass that heard of its distribution and went well or not,
a delay that is asked for, and that the key is forgotten. -/
inductive RetryEvent where
  | passed (key : String) (heard : Option (Option Spec)) (well : Bool)
  | delayed (key : String)
  | forgotten (key : String)
deriving DecidableEq

namespace RetryEvent

def key : RetryEvent → String
  | passed key _ _ | delayed key | forgotten key => key

/-- The spec that is on record for a key after an event. -/
def recorded (key : String) (last : Option Spec) : RetryEvent → Option Spec
  | passed k heard _ => if key = k then heard.getD last else last
  | delayed _ => last
  | forgotten k => if key = k then none else last

/-- Whether the count of a key begins anew with an event: with a pass that went well, found the
distribution gone or read another spec than the last one, or with the key being forgotten. -/
def restarts (key : String) (last : Option Spec) : RetryEvent → Bool
  | passed k heard well => key = k && (well || heard.any fun found =>
      found.all fun new => last.any fun old => old ≠ new)
  | delayed _ => false
  | forgotten k => key = k

end RetryEvent

def PassRecord.retryEvent (p : PassRecord) : RetryEvent :=
  .passed p.key.text (p.exchanges.head?.bind (·.specRead?)) p.result.isOk

/-- The events that led to a memory, the latest first. What else goes on between the passes does not
reach the memory. -/
inductive Chronicle : List RetryEvent → Memory → Prop where
  | start : Chronicle [] .initial
  | passed {es : List RetryEvent} {p : PassRecord} (h : Chronicle es p.before.memory)
      (hp : p.Made) : Chronicle (p.retryEvent :: es) p.after.memory
  | delayed {es : List RetryEvent} {m : Memory} (h : Chronicle es m) (key : String) :
      Chronicle (.delayed key :: es) (m.nextDelay key).2
  | forgotten {es : List RetryEvent} {m : Memory} (h : Chronicle es m) (k : Key) :
      Chronicle (.forgotten k.text :: es) (m.forget k)

/-- The spec that was last read for a key, unless the key was forgotten since. -/
def lastSpec (key : String) : List RetryEvent → Option Spec
  | [] => none
  | e :: es => e.recorded key (lastSpec key es)

/-- A history parted where the count of a key last began anew, given which spec was the last one
before each event. -/
inductive SinceRestart (last : List RetryEvent → Option Spec) (key : String) :
    List RetryEvent → List RetryEvent → Prop where
  | never : SinceRestart last key [] []
  | restart {e : RetryEvent} {earlier : List RetryEvent}
      (h : e.restarts key (last earlier) = true) : SinceRestart last key [] (e :: earlier)
  | goesOn {e : RetryEvent} {recent earlier : List RetryEvent}
      (h : e.restarts key (last (recent ++ earlier)) = false)
      (hr : SinceRestart last key recent earlier) : SinceRestart last key (e :: recent) earlier

def delaysInRow (key : String) : List RetryEvent → Nat
  | [] => 0
  | e :: es =>
    if e.restarts key (lastSpec key es) then 0
    else delaysInRow key es + if e = .delayed key then 1 else 0

section Chronicles

variable {key : String} {es es' recent earlier : List RetryEvent} {m m' : Memory} {p : PassRecord}

theorem exists_sinceRestart (last : List RetryEvent → Option Spec) (key : String)
    (es : List RetryEvent) :
    ∃ recent earlier, es = recent ++ earlier ∧ SinceRestart last key recent earlier := by
  induction es with
  | nil => exact ⟨[], [], rfl, .never⟩
  | cons e es ih =>
    by_cases he : e.restarts key (last es) = true
    · exact ⟨[], e :: es, rfl, .restart he⟩
    · obtain ⟨recent, earlier, rfl, hr⟩ := ih
      exact ⟨e :: recent, earlier, rfl, .goesOn (by simpa using he) hr⟩

theorem SinceRestart.delaysInRow (h : SinceRestart (lastSpec key) key recent earlier) :
    delaysInRow key (recent ++ earlier) = recent.count (.delayed key) := by
  induction h with
  | never => rfl
  | restart he => simp [DistributionOperator.delaysInRow, he]
  | @goesOn e recent earlier he _ ih =>
    simp only [List.cons_append, DistributionOperator.delaysInRow, he, List.count_cons, beq_iff_eq]
    rw [if_neg (by simp), ih]

theorem between_changed (old new : Spec) :
    (SpecChange.between old new).changed = decide (old ≠ new) := by
  by_cases h : old = new
  · simp [SpecChange.between, SpecChange.none, h]
  · simp [SpecChange.between, h]

theorem observe_changed (m : Memory) (k : String) (new : Spec) :
    (m.observe k new).1.changed = (m.specs k).any fun old => old ≠ new := by
  cases hm : m.specs k with
  | none => simp [Memory.observe, hm, SpecChange.none]
  | some old => simp [Memory.observe, hm, between_changed]

theorem heard_specs (m : Memory) (k : Key) (heard : Option (Option Spec)) (well : Bool) :
    (m.heard k heard).specs key =
      (RetryEvent.passed k.text heard well).recorded key (m.specs key) := by
  rcases heard with _ | _ | new
  · exact (ite_self _).symm
  · rfl
  · simp only [Memory.heard]
    split
    · rw [Memory.resetFailures_specs]
      rfl
    · rfl

theorem heard_count (m : Memory) (k : Key) (heard : Option (Option Spec)) :
    (m.heard k heard).failureCount key =
      if (RetryEvent.passed k.text heard false).restarts key (m.specs key) = true then 0
      else m.failureCount key := by
  rcases heard with _ | _ | new
  · simp [Memory.heard, RetryEvent.restarts]
  · simp [Memory.heard, RetryEvent.restarts, Memory.forget_count]
  · have hnoted : (m.observe k.text new).2.failureCount key = m.failureCount key := rfl
    have hrestarts : (RetryEvent.passed k.text (some (some new)) false).restarts key (m.specs key) =
        (key = k.text && (m.observe k.text new).1.changed) := by
      by_cases hk : key = k.text
      · subst hk
        rw [observe_changed]
        rfl
      · simp [RetryEvent.restarts, hk]
    rw [hrestarts]
    by_cases hc : (m.observe k.text new).1.changed = true
    · simp [Memory.heard, hc, Memory.resetFailures_count, hnoted]
    · simp [Memory.heard, hc, hnoted]

theorem restarts_passed (k : String) (heard : Option (Option Spec)) (well : Bool)
    (last : Option Spec) :
    (RetryEvent.passed k heard well).restarts key last =
      ((key = k && well) || (RetryEvent.passed k heard false).restarts key last) := by
  simp only [RetryEvent.restarts, Bool.false_or, Bool.and_or_distrib_left]

theorem pass_specs (hp : p.Made) :
    p.after.memory.specs key = p.retryEvent.recorded key (p.before.memory.specs key) := by
  rw [pass_memory hp, Memory.bookkept_specs]
  exact heard_specs _ _ _ _

theorem pass_count (hp : p.Made) :
    p.after.memory.failureCount key =
      if p.retryEvent.restarts key (p.before.memory.specs key) = true then 0
      else p.before.memory.failureCount key := by
  rw [pass_memory hp, Memory.bookkept_count, heard_count, PassRecord.retryEvent,
    restarts_passed _ _ p.result.isOk]
  by_cases hwell : key = p.key.text ∧ p.result.isOk = true
  · rw [if_pos hwell, if_pos (by simp [hwell])]
  · have hfalse : (key = p.key.text && p.result.isOk) = false := by simpa using hwell
    rw [if_neg hwell, hfalse, Bool.false_or]

theorem Chronicle.specs (h : Chronicle es m) (key : String) :
    m.specs key = lastSpec key es := by
  induction h with
  | start => rfl
  | passed _ hp ih => rw [pass_specs hp, ih, lastSpec]
  | delayed _ _ ih => exact ih
  | forgotten _ k ih =>
    rw [lastSpec, ← ih]
    rfl

theorem Chronicle.count (h : Chronicle es m) (key : String) :
    (m.failureCount key).toNat = min (delaysInRow key es) 4294967295 := by
  induction h with
  | start => rfl
  | @passed es p h hp ih =>
    rw [pass_count hp, h.specs, delaysInRow]
    split
    · rfl
    · have hne : p.retryEvent ≠ .delayed key := by simp [PassRecord.retryEvent]
      rw [ih, if_neg hne, Nat.add_zero]
  | @delayed es m h k ih =>
    have hgoesOn : (RetryEvent.delayed k).restarts key (lastSpec key es) = false := rfl
    rw [Memory.nextDelay_count, delaysInRow, hgoesOn]
    by_cases hk : key = k
    · -- the one event that makes the row longer; both sides stop at the same number
      subst hk
      rw [if_pos rfl, Backoff.more_toNat, ih]
      simp only [Bool.false_eq_true, if_false, if_true]
      omega
    · have hne : k ≠ key := fun he => hk he.symm
      simp [hk, hne, ih]
  | @forgotten es m h k ih =>
    rw [Memory.forget_count, delaysInRow]
    by_cases hk : key = k.text
    · simp [RetryEvent.restarts, hk]
    · simp [RetryEvent.restarts, hk, ih]

/-! Events of other keys do not count. -/

theorem recorded_other {e : RetryEvent} (h : e.key ≠ key) (last : Option Spec) :
    e.recorded key last = last := by
  cases e with
  | delayed k => rfl
  | passed k heard well => exact if_neg fun hk => h hk.symm
  | forgotten k => exact if_neg fun hk => h hk.symm

theorem restarts_other {e : RetryEvent} (h : e.key ≠ key) (last : Option Spec) :
    e.restarts key last = false := by
  cases e with
  | delayed k => rfl
  | passed k heard well =>
    have hk : key ≠ k := fun hk => h hk.symm
    simp [RetryEvent.restarts, hk]
  | forgotten k => exact decide_eq_false fun hk => h hk.symm

theorem lastSpec_filter (key : String) (es : List RetryEvent) :
    lastSpec key (es.filter (·.key = key)) = lastSpec key es := by
  induction es with
  | nil => rfl
  | cons e es ih =>
    by_cases he : e.key = key
    · rw [List.filter_cons_of_pos (by simpa using he), lastSpec, lastSpec, ih]
    · rw [List.filter_cons_of_neg (by simpa using he), lastSpec, recorded_other he, ih]

theorem delaysInRow_filter (key : String) (es : List RetryEvent) :
    delaysInRow key (es.filter (·.key = key)) = delaysInRow key es := by
  induction es with
  | nil => rfl
  | cons e es ih =>
    by_cases he : e.key = key
    · rw [List.filter_cons_of_pos (by simpa using he), delaysInRow, delaysInRow, ih,
        lastSpec_filter]
    · have hne : e ≠ .delayed key := fun hd => he (by rw [hd]; rfl)
      rw [List.filter_cons_of_neg (by simpa using he), delaysInRow, restarts_other he,
        if_neg (by simp), if_neg hne, ih, Nat.add_zero]

theorem Chronicle.count_eq (h : Chronicle es m) (h' : Chronicle es' m')
    (he : es'.filter (·.key = key) = es.filter (·.key = key)) :
    m'.failureCount key = m.failureCount key := by
  rw [← UInt32.toNat_inj, h.count, h'.count, ← delaysInRow_filter key es, ← he,
    delaysInRow_filter]

/-- However passes, delays and forgetting follow each other, a delay that is asked for is the next
one of those in a row since the latest pass that went well or read another spec than the last one,
or since the key was forgotten. A longer row never has a shorter delay, and what happens to other
keys has no part in it. -/
theorem retry_delays (h : Chronicle es m) (key : String) :
    (∃ recent earlier, es = recent ++ earlier ∧
        SinceRestart (lastSpec key) key recent earlier) ∧
      (∀ recent earlier, es = recent ++ earlier →
        SinceRestart (lastSpec key) key recent earlier →
        Backoff.IsNth (min (recent.count (.delayed key) + 1) 4294967295) (m.nextDelay key).1) ∧
      (∀ es' m' key', Chronicle es' m' → (m.nextDelay key).1.2 ≤ (m'.nextDelay key').1.2 →
        (m.nextDelay key).1.1 ≤ (m'.nextDelay key').1.1) ∧
      ∀ es' m', Chronicle es' m' → es'.filter (·.key = key) = es.filter (·.key = key) →
        (m'.nextDelay key).1 = (m.nextDelay key).1 := by
  refine ⟨exists_sinceRestart _ _ _, ?_, fun _ m' key' _ hle => Backoff.delay_mono hle, ?_⟩
  · rintro recent earlier rfl hr
    have hcount := h.count key
    rw [hr.delaysInRow] at hcount
    have hnth := m.nextDelay_nth key
    have hn : min ((m.failureCount key).toNat + 1) 4294967295 =
        min (recent.count (.delayed key) + 1) 4294967295 := by omega
    rwa [hn] at hnth
  · intro es' m' h' he
    have hcount : m'.failureCount key = m.failureCount key := h.count_eq h' he
    show (Backoff.delay (Backoff.more (m'.failureCount key)), Backoff.more (m'.failureCount key)) =
      (Backoff.delay (Backoff.more (m.failureCount key)), Backoff.more (m.failureCount key))
    rw [hcount]

end Chronicles

/-! A pass that fails, and two delays after it. -/

def Rehearsal.misnamed : Rehearsal :=
  (Rehearsal.start .epoch).edited { Distribution.sample with spec := ⟨1, Server.blank⟩ }

theorem retry_delays_third :
    let m := (((PassRecord.sample .misnamed).after.memory.nextDelay "ai/demo").2.nextDelay
      "ai/demo").2
    Chronicle [.delayed "ai/demo", .delayed "ai/demo", (PassRecord.sample .misnamed).retryEvent] m ∧
      (m.nextDelay "ai/demo").1 = (10, 3) := by
  intro m
  have h : Chronicle [.delayed "ai/demo", .delayed "ai/demo",
      (PassRecord.sample .misnamed).retryEvent] m :=
    .delayed (.delayed (.passed .start (sample_made .misnamed)) _) _
  have hfirst : (PassRecord.sample .misnamed).retryEvent.restarts "ai/demo" none = false := by
    decide +kernel
  have hnth := (retry_delays h "ai/demo").2.1 _ [] (List.append_nil _).symm
    (.goesOn rfl (.goesOn rfl (.goesOn hfirst .never)))
  have hcount : [RetryEvent.delayed "ai/demo", .delayed "ai/demo",
      (PassRecord.sample .misnamed).retryEvent].count (.delayed "ai/demo") = 2 := rfl
  rw [hcount] at hnth
  exact ⟨h, Prod.ext hnth.delay (UInt32.toNat_inj.mp hnth.count)⟩

/-- The spec that was last read for a key, whether or not the key was forgotten since. -/
def lastRead (key : String) : List RetryEvent → Option Spec
  | .passed k (some (some new)) _ :: es => if key = k then some new else lastRead key es
  | _ :: es => lastRead key es
  | [] => none

/-- A distribution that was forgotten after a pass, and for which a delay was asked, comes back with
another spec. -/
def Rehearsal.returned : Rehearsal :=
  { misnamed.passed.edited { Distribution.sample with spec := ⟨2, Server.blank⟩ } with
    memory := ((misnamed.passed.memory.forget ⟨"ai", "demo"⟩).nextDelay "ai/demo").2 }

/-- The first spec that is read after a key was forgotten is no change, also if it is not the one
that was read before. -/
theorem forgotten_spec_unchanged : ¬∀ es m key, Chronicle es m →
    ∀ recent earlier, es = recent ++ earlier → SinceRestart (lastRead key) key recent earlier →
      Backoff.IsNth (min (recent.count (.delayed key) + 1) 4294967295) (m.nextDelay key).1 := by
  intro h
  have hleft : Chronicle [.delayed "ai/demo", .forgotten "ai/demo",
      (PassRecord.sample .misnamed).retryEvent] Rehearsal.returned.memory :=
    .delayed (.forgotten (.passed .start (sample_made .misnamed)) ⟨"ai", "demo"⟩) "ai/demo"
  have hback := hleft.passed (p := .sample .returned) (sample_made .returned)
  have hother : (PassRecord.sample .returned).retryEvent.restarts "ai/demo"
      (lastRead "ai/demo" [.delayed "ai/demo", .forgotten "ai/demo",
        (PassRecord.sample .misnamed).retryEvent]) = true := by decide +kernel
  have hfirst := (h _ _ "ai/demo" hback [] _ rfl (.restart hother)).count
  have hsecond :
      ((PassRecord.sample .returned).after.memory.nextDelay "ai/demo").1.2.toNat = 2 := by
    decide +kernel
  exact absurd (hfirst.symm.trans hsecond) (by decide)

end DistributionOperator
