import DistributionOperator.Program

/-! What a program and its surroundings can say to each other. A dialogue takes any answer that a
call can have, so what holds of all dialogues holds whatever the store, the servers, the clock and
the memory do. -/

namespace DistributionOperator

structure Exchange where
  call : Call
  answer : call.Answer

def AsksNoServer (t : List Exchange) : Prop := ∀ x ∈ t, ∀ c, x.call ≠ .probe c

theorem AsksNoServer.nil : AsksNoServer [] := by simp [AsksNoServer]

theorem asksNoServer_cons {x : Exchange} {t : List Exchange} :
    AsksNoServer (x :: t) ↔ (∀ c, x.call ≠ .probe c) ∧ AsksNoServer t := by
  simp [AsksNoServer]

theorem AsksNoServer.append {t₁ t₂ : List Exchange} (h₁ : AsksNoServer t₁)
    (h₂ : AsksNoServer t₂) : AsksNoServer (t₁ ++ t₂) := by
  intro x hx
  exact (List.mem_append.mp hx).elim (h₁ x) (h₂ x)

namespace Program

variable {α β ε σ : Type}

inductive Dialogue : Program α → List Exchange → α → Prop where
  | done (a : α) : Dialogue (.done a) [] a
  | ask {c : Call} {next : c.Answer → Program α} {a : c.Answer} {t : List Exchange} {b : α}
      (h : Dialogue (next a) t b) : Dialogue (.ask c next) (⟨c, a⟩ :: t) b

@[simp] theorem dialogue_done {a b : α} {t : List Exchange} :
    (done a).Dialogue t b ↔ t = [] ∧ b = a := by
  constructor
  · rintro ⟨⟩
    exact ⟨rfl, rfl⟩
  · rintro ⟨rfl, rfl⟩
    exact .done b

@[simp] theorem dialogue_ask {c : Call} {next : c.Answer → Program α} {t : List Exchange} {b : α} :
    (ask c next).Dialogue t b ↔ ∃ a r, t = ⟨c, a⟩ :: r ∧ (next a).Dialogue r b := by
  constructor
  · intro h
    cases h with
    | ask h => exact ⟨_, _, rfl, h⟩
  · rintro ⟨a, r, rfl, h⟩
    exact .ask h

theorem dialogue_bind {p : Program α} {f : α → Program β} {t : List Exchange} {b : β} :
    (p.bind f).Dialogue t b ↔
      ∃ a t₁ t₂, t = t₁ ++ t₂ ∧ p.Dialogue t₁ a ∧ (f a).Dialogue t₂ b := by
  induction p generalizing t with
  | done a =>
    constructor
    · intro h
      exact ⟨a, [], t, rfl, .done a, h⟩
    · rintro ⟨a', t₁, t₂, rfl, ha, h⟩
      obtain ⟨rfl, rfl⟩ := dialogue_done.mp ha
      exact h
  | ask c next ih =>
    simp only [bind, dialogue_ask, ih]
    constructor
    · rintro ⟨x, _, rfl, a, t₁, t₂, rfl, ha, hb⟩
      exact ⟨a, ⟨c, x⟩ :: t₁, t₂, rfl, ⟨x, t₁, rfl, ha⟩, hb⟩
    · rintro ⟨a, _, t₂, rfl, ⟨x, t₁, rfl, ha⟩, hb⟩
      exact ⟨x, t₁ ++ t₂, rfl, a, t₁, t₂, rfl, ha, hb⟩

theorem dialogue_store_bind {c : StoreCall} {f : c.Answer → Program α} {t : List Exchange} {b : α} :
    ((store c).bind f).Dialogue t b ↔
      ∃ (a : c.Answer) (r : List Exchange), t = ⟨.store c, a⟩ :: r ∧ (f a).Dialogue r b :=
  dialogue_ask

theorem dialogue_probe_bind {c : ProbeCall} {f : c.Answer → Program α} {t : List Exchange} {b : α} :
    ((probe c).bind f).Dialogue t b ↔
      ∃ (a : c.Answer) (r : List Exchange), t = ⟨.probe c, a⟩ :: r ∧ (f a).Dialogue r b :=
  dialogue_ask

theorem dialogue_now_bind {f : Timestamp → Program α} {t : List Exchange} {b : α} :
    (now.bind f).Dialogue t b ↔
      ∃ (a : Timestamp) (r : List Exchange), t = ⟨.now, a⟩ :: r ∧ (f a).Dialogue r b :=
  dialogue_ask

theorem dialogue_andThen {p : Program (Except ε α)} {f : α → Program (Except ε β)}
    {t : List Exchange} {b : Except ε β} :
    (p.andThen f).Dialogue t b ↔
      (∃ e, p.Dialogue t (.error e) ∧ b = .error e) ∨
        ∃ a t₁ t₂, t = t₁ ++ t₂ ∧ p.Dialogue t₁ (.ok a) ∧ (f a).Dialogue t₂ b := by
  simp only [andThen, dialogue_bind]
  constructor
  · rintro ⟨a | a, t₁, t₂, rfl, ha, hb⟩
    · obtain ⟨rfl, rfl⟩ := dialogue_done.mp hb
      exact .inl ⟨a, by simpa using ha, rfl⟩
    · exact .inr ⟨a, t₁, t₂, rfl, ha, hb⟩
  · rintro (⟨e, he, rfl⟩ | ⟨a, t₁, t₂, rfl, ha, hb⟩)
    · exact ⟨.error e, t, [], by simp, he, .done _⟩
    · exact ⟨.ok a, t₁, t₂, rfl, ha, hb⟩

theorem dialogue_attempt {operation resource : String} {c : StoreCall} {t : List Exchange}
    {b : Except OperatorError c.Result} :
    (attempt operation resource c).Dialogue t b ↔
      ∃ a : c.Answer, t = [⟨.store c, a⟩] ∧ b = a.mapError (.store operation resource) := by
  refine dialogue_store_bind.trans ?_
  simp only [dialogue_done]
  constructor
  · rintro ⟨a, _, rfl, rfl, rfl⟩
    exact ⟨a, rfl, rfl⟩
  · rintro ⟨a, rfl, rfl⟩
    exact ⟨a, [], rfl, rfl, rfl⟩

theorem mapError_eq_ok {f : ε → σ} {x : Except ε α} {a : α} :
    x.mapError f = .ok a ↔ x = .ok a := by
  constructor
  · intro h
    cases x with
    | error e => cases h
    | ok b =>
      cases h
      rfl
  · rintro rfl
    rfl

theorem dialogue_attempt_ok {operation resource : String} {c : StoreCall} {t : List Exchange}
    {b : c.Result} :
    (attempt operation resource c).Dialogue t (.ok b) ↔ t = [⟨.store c, .ok b⟩] := by
  rw [dialogue_attempt]
  constructor
  · rintro ⟨a, rfl, ha⟩
    rw [mapError_eq_ok.mp ha.symm]
  · rintro rfl
    exact ⟨.ok b, rfl, rfl⟩

/-- All calls that a program can come to make, whatever it is answered, are such calls. -/
def Within (ok : Call → Prop) : Program α → Prop
  | done _ => True
  | ask c next => ok c ∧ ∀ a, Within ok (next a)

section Within

variable {ok : Call → Prop}

theorem Within.of_dialogue {p : Program α} {t : List Exchange} {a : α} (hp : p.Within ok)
    (h : p.Dialogue t a) : ∀ x ∈ t, ok x.call := by
  induction h with
  | done => simp
  | ask _ ih =>
    intro x hx
    rcases List.mem_cons.mp hx with rfl | hx
    · exact hp.1
    · exact ih (hp.2 _) x hx

theorem Within.bind {p : Program α} {f : α → Program β} (hp : p.Within ok)
    (hf : ∀ a, (f a).Within ok) : (p.bind f).Within ok := by
  induction p with
  | done a => exact hf a
  | ask c next ih => exact ⟨hp.1, fun a => ih a (hp.2 a)⟩

theorem Within.andThen {p : Program (Except ε α)} {f : α → Program (Except ε β)}
    (hp : p.Within ok) (hf : ∀ a, (f a).Within ok) : (p.andThen f).Within ok := by
  refine hp.bind fun r => ?_
  cases r with
  | error e => exact trivial
  | ok a => exact hf a

theorem Within.mono {ok' : Call → Prop} {p : Program α} (hp : p.Within ok)
    (h : ∀ c, ok c → ok' c) : p.Within ok' := by
  induction p with
  | done a => exact trivial
  | ask c next ih => exact ⟨h c hp.1, fun a => ih a (hp.2 a)⟩

theorem Within.call {c : Call} (h : ok c) : (call c).Within ok := ⟨h, fun _ => trivial⟩

theorem Within.attempt {c : StoreCall} (h : ok (.store c)) (operation resource : String) :
    (attempt operation resource c).Within ok :=
  (Within.call h).bind fun _ => trivial

end Within

/-- The calls of a run with the answers that the handler gives them. -/
def transcript (h : Handler σ) : Program α → σ → List Exchange
  | done _, _ => []
  | ask c next, s => ⟨c, (h c s).1⟩ :: transcript h (next (h c s).1) (h c s).2

theorem dialogue_transcript (h : Handler σ) (p : Program α) (s : σ) :
    p.Dialogue (p.transcript h s) (p.run h s).1 := by
  induction p generalizing s with
  | done a => exact .done a
  | ask c next ih => exact .ask (ih _ _)

end Program

end DistributionOperator
