import DistributionOperator.Proofs.MemoryEntries
import DistributionOperator.Watch.Basic

/-! What is remembered of an object once it is gone. Passes and delays go under the space that stands
for a missing one, while an object that is pruned is forgotten under no space at all, so what was
remembered of an object without a space stays. -/

namespace DistributionOperator

open Program

namespace Reference

/-- The key under which passes and delays go for an object: a missing space has a name there. -/
def home (r : Reference) : Key := ⟨r.space.getD "default", r.name⟩

theorem key_eq_home_iff (r : Reference) : r.key = r.home ↔ r.space ≠ none := by
  obtain ⟨space, name⟩ := r
  cases space <;> simp [key, home]

theorem plain_home {r : Reference} (h : r.key.Plain) : r.home.Plain := by
  obtain ⟨space, name⟩ := r
  cases space with
  | none => exact ⟨(by decide : '/' ∉ "default".toList), h.2⟩
  | some space => exact h

end Reference

/-- What is done on behalf of an object: a pass, the delay that follows upon a failure, and the end
of what is remembered of it. -/
inductive Deed where
  | passed (p : PassRecord)
  | delayed (r : Reference) (answer : Nat × UInt32) (before after : Scene)
  | pruned (r : Reference) (before after : Scene)

namespace Deed

/-- The key under which a deed goes. -/
def key : Deed → Key
  | passed p => p.key
  | delayed r _ _ _ => r.home
  | pruned r _ _ => r.key

def before : Deed → Scene
  | passed p => p.before
  | delayed _ _ before _ | pruned _ before _ => before

def after : Deed → Scene
  | passed p => p.after
  | delayed _ _ _ after | pruned _ _ after => after

def Done : Deed → Prop
  | passed p => p.Made
  | delayed r answer before after =>
    (retryDelay r.home).Performs before [⟨.memory (.nextDelay r.home), answer⟩] answer.1 after
  | pruned r before after => ∃ o t, (Watch.visit o r none).Performs before t none after

/-- The deeds after which an object is gone: it is pruned, or a pass found that there is none. -/
def Ends : Deed → Reference → Prop
  | passed p, r => p.key = r.home ∧ p.exchanges.head?.bind (·.specRead?) = some none
  | delayed _ _ _ _, _ => False
  | pruned r' _ _, r => r' = r

def DelaysAt (k : Key) : Deed → Prop
  | delayed r _ _ _ => r.home = k
  | _ => False

/-- Passes that read the spec of an object. -/
def ReadsAt (k : Key) : Deed → Prop
  | passed p => p.key = k ∧ ∃ spec, p.exchanges.head?.bind (·.specRead?) = some (some spec)
  | _ => False

end Deed

/-- What is done for objects, one after the other, while others act in between. -/
inductive Deeds (others : Scene → Scene → Prop) : Scene → List Deed → Scene → Prop where
  | nil (s : Scene) : Deeds others s [] s
  | deed {d : Deed} {ds : List Deed} {s' : Scene} (hd : d.Done) (h : Deeds others d.after ds s') :
      Deeds others d.before (d :: ds) s'
  | between {s u s' : Scene} {ds : List Deed} (ho : others s u) (h : Deeds others u ds s') :
      Deeds others s ds s'

variable {others : Scene → Scene → Prop} {s s' : Scene} {d e : Deed} {ds ds₁ ds₂ : List Deed}
  {k : Key} {r : Reference} {o : Operator}

theorem retryDelay_performs {t : List Exchange} {seconds : Nat}
    (h : (retryDelay k).Performs s t seconds s') :
    ∃ answer, t = [⟨.memory (.nextDelay k), answer⟩] ∧ seconds = answer.1 ∧
      answer = (s.memory.nextDelay k.text).1 ∧ s'.memory = (s.memory.nextDelay k.text).2 := by
  obtain ⟨answer, t₁, t₂, u, rfl, hask, hrest⟩ := performs_bind.mp h
  obtain ⟨rfl, rfl, rfl⟩ := performs_done.mp hrest
  obtain ⟨rfl, _⟩ := performs_memory hask
  obtain ⟨ha, hu⟩ := performs_recall hask
  exact ⟨answer, List.append_nil _, rfl, ha, hu⟩

theorem pruned_memory {before after : Scene} (h : (Deed.pruned r before after).Done) :
    after.memory = before.memory.forget r.key := by
  obtain ⟨o, t, h⟩ := h
  obtain ⟨_, t₁, t₂, u, rfl, hforget, hrest⟩ := performs_bind.mp h
  obtain ⟨_, _, rfl⟩ := performs_done.mp hrest
  exact (performs_recall hforget).2

theorem delayed_memory {answer : Nat × UInt32} {before after : Scene}
    (h : (Deed.delayed r answer before after).Done) :
    answer = (before.memory.nextDelay r.home.text).1 ∧
      after.memory = (before.memory.nextDelay r.home.text).2 := by
  obtain ⟨answer', ht, _, ha, hafter⟩ := retryDelay_performs h
  obtain rfl : answer = answer' := by simpa using ht
  exact ⟨ha, hafter⟩

/-! What a deed does to the memory: it leaves all keys but its own alone, and one after which an
object is gone leaves nothing under its own. -/

theorem Deed.Done.other (h : d.Done) (hd : d.key.Plain) (hk : k.Plain) (hne : k ≠ d.key) :
    d.after.memory.entry k = d.before.memory.entry k := by
  cases d with
  | passed p =>
    show p.after.memory.entry k = p.before.memory.entry k
    rw [pass_memory h]
    exact (Memory.bookkept_other hk hd hne _).trans (Memory.heard_other hk hd hne _)
  | delayed r answer before after =>
    show after.memory.entry k = before.memory.entry k
    rw [(delayed_memory h).2]
    exact Memory.nextDelay_other hk hd hne
  | pruned r before after =>
    show after.memory.entry k = before.memory.entry k
    rw [pruned_memory h]
    exact Memory.forget_other hk hd hne

theorem Deed.Done.ends (h : d.Done) (he : d.Ends r) : d.after.memory.entry d.key = .none := by
  cases d with
  | passed p =>
    show p.after.memory.entry p.key = .none
    rw [pass_memory h, he.2]
    exact Memory.bookkept_none (Memory.forget_entry _ _) (pass_gone h he.2)
  | delayed r answer before after => exact he.elim
  | pruned r before after =>
    show after.memory.entry r.key = .none
    rw [pruned_memory h, Memory.forget_entry]

/-- Deeds, parted at one of them. -/
theorem Deeds.split (h : Deeds others s (ds₁ ++ e :: ds₂) s') :
    Deeds others s ds₁ e.before ∧ e.Done ∧ Deeds others e.after ds₂ s' := by
  generalize hds : ds₁ ++ e :: ds₂ = ds at h
  induction h generalizing ds₁ with
  | nil => simp at hds
  | deed hd hrest ih =>
    cases ds₁ with
    | nil =>
      obtain ⟨rfl, rfl⟩ := List.cons_eq_cons.mp hds
      exact ⟨.nil _, hd, hrest⟩
    | cons d ds₁ =>
      obtain ⟨rfl, rfl⟩ := List.cons_eq_cons.mp hds
      obtain ⟨hbefore, he, hafter⟩ := ih rfl
      exact ⟨.deed hd hbefore, he, hafter⟩
  | between ho _ ih =>
    obtain ⟨hbefore, he, hafter⟩ := ih hds
    exact ⟨.between ho hbefore, he, hafter⟩

/-- What each of the deeds keeps, all of them keep. -/
theorem Deeds.keeps {P : Memory → Prop} (h : Deeds others s ds s')
    (ho : ∀ u v, others u v → v.memory = u.memory)
    (hstep : ∀ d ∈ ds, d.Done → P d.before.memory → P d.after.memory) (hs : P s.memory) :
    P s'.memory := by
  induction h with
  | nil => exact hs
  | deed hd _ ih =>
    obtain ⟨hfirst, hrest⟩ := List.forall_mem_cons.mp hstep
    exact ih hrest (hfirst hd hs)
  | between hbetween _ ih =>
    rw [← ho _ _ hbetween] at hs
    exact ih hstep hs

/-! What later deeds keep of an entry that is empty. -/

section Later

variable (h : d.Done) (hd : d.key.Plain) (hk : k.Plain)

include h hd hk

theorem Deed.Done.unfailed (hnot : ¬d.DelaysAt k) (hzero : d.before.memory.failureCount k.text = 0) :
    d.after.memory.failureCount k.text = 0 := by
  cases d with
  | passed p =>
    refine (pass_count h).trans ?_
    split
    · rfl
    · exact hzero
  | delayed r answer before after =>
    have hne : k.text ≠ r.home.text := Memory.text_ne hk hd fun he => hnot he.symm
    show after.memory.failureCount k.text = 0
    rw [(delayed_memory h).2, Memory.nextDelay_count, if_neg hne]
    exact hzero
  | pruned r before after =>
    show after.memory.failureCount k.text = 0
    rw [pruned_memory h, Memory.forget_count]
    split
    · rfl
    · exact hzero

theorem Deed.Done.unread (hnot : ¬d.ReadsAt k) (hnone : d.before.memory.specs k.text = none) :
    d.after.memory.specs k.text = none := by
  cases d with
  | passed p =>
    let found := p.exchanges.head?.bind (·.specRead?)
    have hspecs : p.after.memory.specs k.text =
        if k.text = p.key.text then found.getD (p.before.memory.specs k.text)
        else p.before.memory.specs k.text := pass_specs h
    refine hspecs.trans ?_
    by_cases hkey : k.text = p.key.text
    · rw [if_pos hkey]
      obtain rfl : k = p.key := Key.text_inj hk hd hkey
      cases hheard : found with
      | none => exact hnone
      | some read =>
        cases read with
        | none => rfl
        | some spec => exact absurd ⟨rfl, spec, hheard⟩ hnot
    · rw [if_neg hkey]
      exact hnone
  | delayed r answer before after =>
    show after.memory.specs k.text = none
    rw [(delayed_memory h).2]
    exact hnone
  | pruned r before after =>
    show after.memory.specs k.text = none
    rw [pruned_memory h]
    by_cases hkey : k.text = r.key.text
    · exact if_pos hkey
    · exact (if_neg hkey).trans hnone

end Later

theorem Deed.Ends.key_eq_home_iff (he : e.Ends r) :
    e.key = r.home ↔ (∃ p, e = .passed p) ∨ r.space ≠ none := by
  cases e with
  | passed p => exact iff_of_true he.1 (.inl ⟨p, rfl⟩)
  | delayed => exact he.elim
  | pruned r' before after =>
    obtain rfl : r' = r := he
    simpa [Deed.key] using r'.key_eq_home_iff

theorem Deed.Ends.plain_home (he : e.Ends r) (hplain : e.key.Plain) : r.home.Plain := by
  cases e with
  | passed p => exact he.1 ▸ hplain
  | delayed => exact he.elim
  | pruned r' before after =>
    obtain rfl : r' = r := he
    exact Reference.plain_home hplain

/-- Once an object is gone, nothing is remembered of it exactly if a pass found it gone, or its space
is known, or there was nothing. Nothing else changes by that. If nothing is remembered, it stays so
until something is done for the object, the first delay that is asked for it is that of a first
failure, and the first spec that is read is no change. -/
theorem deeds_forgotten (h : Deeds others s (ds₁ ++ e :: ds₂) s')
    (ho : ∀ u v, others u v → v.memory = u.memory)
    (hplain : ∀ d ∈ ds₁ ++ e :: ds₂, d.key.Plain) (he : e.Ends r) :
    (e.after.memory.entry r.home = .none ↔
      (∃ p, e = .passed p) ∨ r.space ≠ none ∨ e.before.memory.entry r.home = .none) ∧
    (∀ k : Key, k.Plain → k ≠ e.key → e.after.memory.entry k = e.before.memory.entry k) ∧
    (e.after.memory.entry r.home = .none →
      ((∀ d ∈ ds₂, d.key ≠ r.home) → s'.memory.entry r.home = .none) ∧
      (∀ ds₃ r' answer u v ds₄, ds₂ = ds₃ ++ .delayed r' answer u v :: ds₄ → r'.home = r.home →
        (∀ d ∈ ds₃, ¬d.DelaysAt r.home) → answer = (5, 1)) ∧
      ∀ ds₃ p ds₄ spec change, ds₂ = ds₃ ++ .passed p :: ds₄ → p.key = r.home →
        (∀ d ∈ ds₃, ¬d.ReadsAt r.home) →
        ⟨.memory (.observe r.home spec), change⟩ ∈ p.exchanges → change = SpecChange.none) := by
  obtain ⟨_, hdone, hlater⟩ := h.split
  have hlast : ∀ d ∈ ds₂, d.key.Plain := fun d hd => hplain d (by simp [hd])
  have hkey : e.key.Plain := hplain e (by simp)
  have hhome : r.home.Plain := he.plain_home hkey
  refine ⟨?_, fun k hk hne => hdone.other hkey hk hne, fun hnone => ⟨fun hothers => ?_, ?_, ?_⟩⟩
  · rw [← or_assoc, ← he.key_eq_home_iff]
    by_cases heq : e.key = r.home
    · rw [← heq]
      simp [hdone.ends he]
    · rw [hdone.other hkey hhome (Ne.symm heq)]
      simp [heq]
  · exact hlater.keeps (P := fun m => m.entry r.home = .none) ho
      (fun d hd hdd hn => (hdd.other (hlast d hd) hhome (hothers d hd).symm).trans hn) hnone
  · rintro ds₃ r' answer u v ds₄ rfl hr' hnot
    obtain ⟨hbefore, hdelay, _⟩ := hlater.split
    have hstart : e.after.memory.failureCount r.home.text = 0 := by
      rw [Memory.failureCount, Memory.failures_none hnone]
      rfl
    have hzero := hbefore.keeps (P := fun m => m.failureCount r.home.text = 0) ho
      (fun d hd hdd hz => hdd.unfailed (hlast d (by simp [hd])) hhome (hnot d hd) hz) hstart
    have hanswer := (delayed_memory hdelay).1
    have hcount : u.memory.failureCount r'.home.text = 0 := hr' ▸ hzero
    have hnext : (u.memory.nextDelay r'.home.text).1 =
        (Backoff.delay (Backoff.more (u.memory.failureCount r'.home.text)),
          Backoff.more (u.memory.failureCount r'.home.text)) := rfl
    rw [hanswer, hnext, hcount]
    decide
  · rintro ds₃ p ds₄ spec change rfl hp hnot hx
    obtain ⟨hbefore, hpass, _⟩ := hlater.split
    have hspecs := hbefore.keeps (P := fun m => m.specs r.home.text = none) ho
      (fun d hd hdd hn => hdd.unread (hlast d (by simp [hd])) hhome (hnot d hd) hn)
      (Memory.specs_none hnone)
    have hnone : p.before.memory.specs p.key.text = none := hp ▸ hspecs
    obtain ⟨_, rfl⟩ := pass_observes hpass hx
    rw [Memory.observe, hnone]

/-! A pass over the sample distribution, with a space or without one, and what is done after it. -/

namespace Deed

def delayOf (r : Reference) (s : Scene) : Deed :=
  let answered := s.memory.nextDelay r.home.text
  .delayed r answered.1 s { s with memory := answered.2 }

def pruneOf (r : Reference) (s : Scene) : Deed :=
  .pruned r s { s with memory := s.memory.forget r.key }

theorem delayOf_done (r : Reference) (s : Scene) : (delayOf r s).Done :=
  ⟨.ask (.done _), .cons (.recalled s (.nextDelay r.home)) (.nil _)⟩

theorem pruneOf_done (r : Reference) (s : Scene) : (pruneOf r s).Done :=
  ⟨.sample, _, .ask (.done _), .cons (.recalled s (.forget r.key)) (.nil _)⟩

end Deed

theorem deeds_forgotten_demo :
    let p := PassRecord.sample ((Rehearsal.start .epoch).edited .sample)
    let delay := Deed.delayOf ⟨some "ai", "demo"⟩ p.after
    let prune := Deed.pruneOf ⟨some "ai", "demo"⟩ delay.after
    prune.before.memory.entry ⟨"ai", "demo"⟩ ≠ .none ∧
      prune.after.memory.entry ⟨"ai", "demo"⟩ = .none ∧
      (prune.after.memory.nextDelay (Key.text ⟨"ai", "demo"⟩)).1 = (5, 1) := by
  intro p delay prune
  let again := Deed.delayOf ⟨some "ai", "demo"⟩ prune.after
  have hdeeds : Deeds (fun _ _ => False) p.before
      ([.passed p, delay] ++ prune :: [again]) again.after :=
    .deed (d := .passed p) (sample_made _) <| .deed (d := delay) (Deed.delayOf_done _ _) <|
      .deed (d := prune) (Deed.pruneOf_done _ _) <| .deed (d := again) (Deed.delayOf_done _ _) (.nil _)
  have hplain : ∀ d ∈ [.passed p, delay] ++ prune :: [again], d.key.Plain := by
    have hkey : ∀ d ∈ [.passed p, delay] ++ prune :: [again], d.key = ⟨"ai", "demo"⟩ := by
      simp [again, prune, delay, p, Deed.delayOf, Deed.pruneOf, Deed.key, Reference.home,
        Reference.key, PassRecord.sample]
    intro d hd
    rw [hkey d hd]
    exact ⟨by decide, by decide⟩
  obtain ⟨hnone, _, hlater⟩ := deeds_forgotten (r := ⟨some "ai", "demo"⟩) hdeeds
    (fun _ _ h => h.elim) hplain rfl
  have hgone := hnone.mpr (.inr (.inl (by simp)))
  have hagain : [again] = [] ++ .delayed ⟨some "ai", "demo"⟩
      (prune.after.memory.nextDelay (Key.text ⟨"ai", "demo"⟩)).1 prune.after again.after :: [] := rfl
  refine ⟨fun hempty => ?_, hgone, (hlater hgone).2.1 [] _ _ _ _ [] hagain rfl (by simp)⟩
  have hcount : (prune.before.memory.failures (Key.text ⟨"ai", "demo"⟩)).isSome = true := by
    decide +kernel
  rw [Memory.failures_none hempty] at hcount
  cases hcount

namespace Rehearsal

/-- The sample distribution without its space. -/
def spaceless : Rehearsal :=
  (Rehearsal.start .epoch).edited
    { Distribution.sample with metadata := { Distribution.sample.metadata with space := none } }

end Rehearsal

/-- A pass of the sample operator for a key. -/
def PassRecord.rehearsed (k : Key) (r : Rehearsal) : PassRecord where
  operator := .sample
  key := k
  before := r.scene
  exchanges := (pass .sample k).transcript Rehearsal.answer r
  result := ((pass .sample k).run Rehearsal.answer r).1
  after := ((pass .sample k).run Rehearsal.answer r).2.2.scene

theorem rehearsed_made (k : Key) (r : Rehearsal) : (PassRecord.rehearsed k r).Made := r.performs _

/-- What passes remember of an object without a space stays when it is pruned. -/
theorem spaceless_remembered : ¬∀ s ds₁ e ds₂ s' r,
    Deeds (fun _ _ => False) s (ds₁ ++ e :: ds₂) s' →
      (∀ d ∈ ds₁ ++ e :: ds₂, d.key.Plain) → e.Ends r → e.after.memory.entry r.home = .none := by
  intro h
  let p := PassRecord.rehearsed ⟨"default", "demo"⟩ .spaceless
  let prune := Deed.pruneOf ⟨none, "demo"⟩ p.after
  have hdeeds : Deeds (fun _ _ => False) p.before ([.passed p] ++ prune :: []) prune.after :=
    .deed (d := .passed p) (rehearsed_made _ _) <|
      .deed (d := prune) (Deed.pruneOf_done _ _) (.nil _)
  have hpassed : (⟨"default", "demo"⟩ : Key).Plain := ⟨by decide, by decide⟩
  have hpruned : (⟨"", "demo"⟩ : Key).Plain := ⟨by decide, by decide⟩
  have hplain : ∀ d ∈ [.passed p] ++ prune :: [], d.key.Plain :=
    List.forall_mem_cons.mpr ⟨hpassed, List.forall_mem_singleton.mpr hpruned⟩
  have hempty : prune.after.memory.entry ⟨"default", "demo"⟩ = .none :=
    h _ _ prune [] _ ⟨none, "demo"⟩ hdeeds hplain rfl
  have hspec : (prune.after.memory.specs (Key.text ⟨"default", "demo"⟩)).isSome = true := by
    decide +kernel
  rw [Memory.specs_none hempty] at hspec
  cases hspec

end DistributionOperator
