import DistributionOperator.Proofs.Scene
import Mathlib.Data.List.Induction
import Mathlib.Logic.Function.Basic

/-! Histories: several programs at work in one scene, in whichever order their calls come, while
others act in between. A program hears of the rest of a history only through its own answers, and
these are those of one of its dialogues. -/

namespace DistributionOperator

open Program

namespace Program

variable {α : Type}

/-- What remains of a program after so many exchanges. -/
inductive Leads : Program α → List Exchange → Program α → Prop where
  | nil (p : Program α) : Leads p [] p
  | snoc {p : Program α} {t : List Exchange} {c : Call} {next : c.Answer → Program α}
      (h : Leads p t (.ask c next)) (a : c.Answer) : Leads p (t ++ [⟨c, a⟩]) (next a)

theorem Leads.dialogue {p q : Program α} {t t' : List Exchange} {a : α} (h : p.Leads t q)
    (hq : q.Dialogue t' a) : p.Dialogue (t ++ t') a := by
  induction h generalizing t' with
  | nil => exact hq
  | snoc _ x ih =>
    rw [List.append_assoc]
    exact ih (.ask hq)

theorem Leads.dialogue_of_done {p : Program α} {t : List Exchange} {a : α}
    (h : p.Leads t (.done a)) : p.Dialogue t a := by
  simpa using h.dialogue (.done a)

/-- Whatever was said so far, a program can come to an end. -/
theorem Leads.exists_dialogue {p q : Program α} {t : List Exchange} (h : p.Leads t q) :
    ∃ t' a, p.Dialogue (t ++ t') a :=
  ⟨_, _, h.dialogue (q.dialogue_transcript Rehearsal.answer (.start .epoch))⟩

end Program

/-- Something that happens in a scene: one of the programs makes a call, or somebody else acts. -/
structure Moment (ι : Type) where
  before : Scene
  deed : Option (ι × Exchange)
  after : Scene

/-- What several programs can go through together, from their beginning on. -/
inductive History {ι α : Type} [DecidableEq ι] (serve : Scene → Exchange → Scene → Prop)
    (others : Scene → Scene → Prop) (s : Scene) (p : ι → Program α) :
    List (Moment ι) → Scene → (ι → Program α) → Prop where
  | start : History serve others s p [] s p
  | call {l : List (Moment ι)} {u v : Scene} {q : ι → Program α} {i : ι} {c : Call}
      {next : c.Answer → Program α} {a : c.Answer} (h : History serve others s p l u q)
      (hq : q i = .ask c next) (hs : serve u ⟨c, a⟩ v) :
      History serve others s p (l ++ [⟨u, some (i, ⟨c, a⟩), v⟩]) v (Function.update q i (next a))
  | between {l : List (Moment ι)} {u v : Scene} {q : ι → Program α}
      (h : History serve others s p l u q) (ho : others u v) :
      History serve others s p (l ++ [⟨u, none, v⟩]) v q

variable {ι α : Type} [DecidableEq ι] {serve : Scene → Exchange → Scene → Prop}
  {others : Scene → Scene → Prop} {s u : Scene} {p q : ι → Program α} {l l₁ l₂ : List (Moment ι)}
  {i : ι} {x : Exchange} {t t₁ t₂ : List Exchange}

namespace Moment

/-- What a program says and hears at a moment, if it does. -/
def exchange? (i : ι) (m : Moment ι) : Option Exchange :=
  m.deed.bind fun e => if e.1 = i then some e.2 else none

theorem exchange?_eq_some {m : Moment ι} : m.exchange? i = some x ↔ m.deed = some (i, x) := by
  unfold exchange?
  cases m.deed with
  | none => simp
  | some e =>
    obtain ⟨j, y⟩ := e
    by_cases hj : j = i
    · simp [hj]
    · simp [hj]

def Happens (serve : Scene → Exchange → Scene → Prop) (others : Scene → Scene → Prop)
    (m : Moment ι) : Prop :=
  match m.deed with
  | some (_, x) => serve m.before x m.after
  | none => others m.before m.after

end Moment

/-- The part of a program in a history. -/
def exchangesOf (i : ι) (l : List (Moment ι)) : List Exchange := l.filterMap (Moment.exchange? i)

theorem exchangesOf_append : exchangesOf i (l₁ ++ l₂) = exchangesOf i l₁ ++ exchangesOf i l₂ :=
  List.filterMap_append

theorem exchangesOf_cons {m : Moment ι} (h : m.deed = some (i, x)) :
    exchangesOf i (m :: l) = x :: exchangesOf i l :=
  List.filterMap_cons_some (Moment.exchange?_eq_some.mpr h)

theorem mem_exchangesOf : x ∈ exchangesOf i l ↔ ∃ m ∈ l, m.deed = some (i, x) := by
  simp only [exchangesOf, List.mem_filterMap, Moment.exchange?_eq_some]

/-- Each exchange of a program has its moment. -/
theorem exists_moment (h : exchangesOf i l = t₁ ++ x :: t₂) :
    ∃ l₁ m l₂, l = l₁ ++ m :: l₂ ∧ m.deed = some (i, x) ∧ exchangesOf i l₁ = t₁ ∧
      exchangesOf i l₂ = t₂ := by
  obtain ⟨l₁, l', rfl, h₁, h'⟩ := List.filterMap_eq_append_iff.mp h
  obtain ⟨l₃, m, l₂, rfl, hnone, hm, h₂⟩ := List.filterMap_eq_cons_iff.mp h'
  refine ⟨l₁ ++ l₃, m, l₂, by simp, Moment.exchange?_eq_some.mp hm, ?_, h₂⟩
  have hthree : exchangesOf i l₃ = [] := List.filterMap_eq_nil_iff.mpr hnone
  rw [exchangesOf_append, hthree, List.append_nil]
  exact h₁

namespace History

/-- A program takes part in a history with one of its dialogues, or with the beginning of one. -/
theorem leads (h : History serve others s p l u q) (i : ι) :
    (p i).Leads (exchangesOf i l) (q i) := by
  induction h with
  | start => exact .nil _
  | @call l u v q j c next a _ hq hs ih =>
    rw [exchangesOf_append]
    by_cases hj : j = i
    · subst hj
      rw [hq] at ih
      rw [Function.update_self, exchangesOf_cons rfl]
      exact ih.snoc a
    · have hnone : exchangesOf i [⟨u, some (j, ⟨c, a⟩), v⟩] = [] := by
        simp [exchangesOf, Moment.exchange?, hj]
      rw [hnone, List.append_nil, Function.update_of_ne fun he => hj he.symm]
      exact ih
  | @between l u v q _ _ ih =>
    have hnone : exchangesOf i [(⟨u, none, v⟩ : Moment ι)] = [] := rfl
    rw [exchangesOf_append, hnone, List.append_nil]
    exact ih

theorem happens (h : History serve others s p l u q) : ∀ m ∈ l, m.Happens serve others := by
  induction h with
  | start => simp
  | call _ _ hs ih => exact List.forall_mem_append.mpr ⟨ih, List.forall_mem_singleton.mpr hs⟩
  | between _ ho ih => exact List.forall_mem_append.mpr ⟨ih, List.forall_mem_singleton.mpr ho⟩

theorem served {m : Moment ι} (h : History serve others s p l u q) (hm : m ∈ l)
    (hd : m.deed = some (i, x)) : serve m.before x m.after := by
  have hhappens := h.happens m hm
  unfold Moment.Happens at hhappens
  rw [hd] at hhappens
  exact hhappens

/-- What every moment of a history preserves holds before and after each of them. -/
theorem preserves {P : Scene → Prop} (h : History serve others s p l u q)
    (hstep : ∀ m ∈ l, P m.before → P m.after) (hs : P s) :
    P u ∧ ∀ m ∈ l, P m.before ∧ P m.after := by
  induction h with
  | start => exact ⟨hs, by simp⟩
  | call _ _ _ ih =>
    obtain ⟨hbefore, hlast⟩ := List.forall_mem_append.mp hstep
    obtain ⟨hu, hall⟩ := ih hbefore
    have hv := List.forall_mem_singleton.mp hlast hu
    exact ⟨hv, List.forall_mem_append.mpr ⟨hall, List.forall_mem_singleton.mpr ⟨hu, hv⟩⟩⟩
  | between _ _ ih =>
    obtain ⟨hbefore, hlast⟩ := List.forall_mem_append.mp hstep
    obtain ⟨hu, hall⟩ := ih hbefore
    have hv := List.forall_mem_singleton.mp hlast hu
    exact ⟨hv, List.forall_mem_append.mpr ⟨hall, List.forall_mem_singleton.mpr ⟨hu, hv⟩⟩⟩

/-- A history can be cut in two. -/
theorem split {l₁ l₂ : List (Moment ι)} (h : History serve others s p (l₁ ++ l₂) u q) :
    ∃ v r, History serve others s p l₁ v r ∧ History serve others v r l₂ u q := by
  induction l₂ using List.reverseRecOn generalizing u q with
  | nil =>
    rw [List.append_nil] at h
    exact ⟨u, q, h, .start⟩
  | append_singleton l₂ m ih =>
    rw [← List.append_assoc] at h
    generalize hl : (l₁ ++ l₂) ++ [m] = l at h
    cases h with
    | start => simp at hl
    | call h hq hs =>
      obtain ⟨rfl, hm⟩ := List.append_inj' hl rfl
      obtain ⟨v, r, h₁, h₂⟩ := ih h
      obtain rfl := List.singleton_inj.mp hm
      exact ⟨v, r, h₁, .call h₂ hq hs⟩
    | between h ho =>
      obtain ⟨rfl, hm⟩ := List.append_inj' hl rfl
      obtain ⟨v, r, h₁, h₂⟩ := ih h
      obtain rfl := List.singleton_inj.mp hm
      exact ⟨v, r, h₁, .between h₂ ho⟩

theorem of_nil (h : History serve others s p [] u q) : u = s := by
  generalize hl : ([] : List (Moment ι)) = l at h
  cases h with
  | start => rfl
  | call => simp at hl
  | between => simp at hl

/-- A history that begins with a moment begins where that does, and goes on after it. -/
theorem of_cons {m : Moment ι} (h : History serve others s p (m :: l) u q) :
    m.before = s ∧ ∃ r, History serve others m.after r l u q := by
  rw [← List.singleton_append] at h
  obtain ⟨v, r, h₁, h₂⟩ := h.split
  generalize hl : [m] = l' at h₁
  have hone : ∀ {l' : List (Moment ι)} {m' : Moment ι}, [m] = l' ++ [m'] → l' = [] ∧ m = m' := by
    intro l' m' hl
    rw [← List.nil_append [m]] at hl
    obtain ⟨hnil, hm⟩ := List.append_inj' hl rfl
    exact ⟨hnil.symm, List.singleton_inj.mp hm⟩
  cases h₁ with
  | start => cases hl
  | call h₀ hq hs =>
    obtain ⟨rfl, rfl⟩ := hone hl
    exact ⟨of_nil h₀, _, h₂⟩
  | between h₀ ho =>
    obtain ⟨rfl, rfl⟩ := hone hl
    exact ⟨of_nil h₀, _, h₂⟩

/-- What led up to a moment of a history, and what came after it. -/
theorem around {l₁ l₂ : List (Moment ι)} {m : Moment ι}
    (h : History serve others s p (l₁ ++ m :: l₂) u q) :
    (∃ r, History serve others s p l₁ m.before r) ∧
      ∃ r, History serve others m.after r l₂ u q := by
  obtain ⟨v, r, hbefore, hrest⟩ := h.split
  obtain ⟨rfl, hafter⟩ := hrest.of_cons
  exact ⟨⟨r, hbefore⟩, hafter⟩

end History

/-! Histories that are played in a rehearsal: programs are told whose turn it is to make a call. -/

namespace Program

def result? : Program α → Option α
  | done a => some a
  | ask _ _ => none

theorem result?_eq_some {p : Program α} {a : α} : p.result? = some a ↔ p = .done a := by
  cases p with
  | done b => simp [result?]
  | ask c next => simp [result?]

end Program

namespace Rehearsal

/-- What is left of the programs, and of the rehearsal, after their turns. -/
structure Played (ι α : Type) where
  moments : List (Moment ι)
  rehearsal : Rehearsal
  programs : ι → Program α

def play (r : Rehearsal) (q : ι → Program α) : List ι → Played ι α
  | [] => ⟨[], r, q⟩
  | i :: turns =>
    match q i with
    | .done _ => play r q turns
    | .ask c next =>
      let answered := answer c r
      let moment := ⟨r.scene, some (i, ⟨c, answered.1⟩), answered.2.scene⟩
      let rest := play answered.2 (Function.update q i (next answered.1)) turns
      { rest with moments := moment :: rest.moments }

/-- What is played goes on with the history before it. -/
theorem play_history {P : Rehearsal → Prop}
    (hserve : ∀ r c, P r →
      serve r.scene ⟨c, (answer c r).1⟩ (answer c r).2.scene ∧ P (answer c r).2)
    {r : Rehearsal} (hr : P r) (h : History serve others s p l r.scene q) (turns : List ι) :
    History serve others s p (l ++ (r.play q turns).moments) (r.play q turns).rehearsal.scene
      (r.play q turns).programs := by
  induction turns generalizing r q l with
  | nil => simpa [play] using h
  | cons i turns ih =>
    unfold play
    split
    · exact ih hr h
    · rename_i c next hq
      obtain ⟨hs, hr'⟩ := hserve r c hr
      rw [List.append_cons]
      exact ih hr' (.call h hq hs)

end Rehearsal

end DistributionOperator
