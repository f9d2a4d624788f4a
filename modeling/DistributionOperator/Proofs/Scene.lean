import DistributionOperator.Proofs.Dialogue
import DistributionOperator.Reconcile.Pass
import DistributionOperator.Rehearsal

/-! Programs at work on a store and on the memory of an operator. A call to the store may fail
without effect, a read may find nothing, and servers and clock answer as they like. -/

namespace DistributionOperator

structure Scene where
  store : Store
  memory : Memory

/-- An answer that does not come from the store: a failure, or a read that finds nothing. -/
def StoreCall.Refused (c : StoreCall) (a : c.Answer) : Prop :=
  (∃ e, a = .error e) ∨ c.missed? = some a

theorem StoreCall.Refused.error {c : StoreCall} {a : c.Answer} (h : c.Refused a)
    (hm : c.missed? = none) : ∃ e, a = .error e := by
  rcases h with he | he
  · exact he
  · rw [hm] at he
    cases he

namespace Scene

inductive Step : Scene → Exchange → Scene → Prop where
  | reached (s : Scene) (c : StoreCall) :
      Step s ⟨.store c, (s.store.answer c).1⟩ { s with store := (s.store.answer c).2 }
  | refused (s : Scene) {c : StoreCall} {a : c.Answer} (h : c.Refused a) : Step s ⟨.store c, a⟩ s
  | probed (s : Scene) (c : ProbeCall) (a : c.Answer) : Step s ⟨.probe c, a⟩ s
  | recalled (s : Scene) (c : MemoryCall) :
      Step s ⟨.memory c, (s.memory.answer c).1⟩ { s with memory := (s.memory.answer c).2 }
  | told (s : Scene) (t : Timestamp) : Step s ⟨.now, t⟩ s

inductive Through : Scene → List Exchange → Scene → Prop where
  | nil (s : Scene) : Through s [] s
  | cons {s u s' : Scene} {x : Exchange} {t : List Exchange} (h : Step s x u)
      (ht : Through u t s') : Through s (x :: t) s'

theorem step_store {s s' : Scene} {c : StoreCall} {a : c.Answer} (h : Step s ⟨.store c, a⟩ s') :
    (s.store.answer c = (a, s'.store) ∧ s'.memory = s.memory) ∨ (c.Refused a ∧ s' = s) := by
  cases h with
  | reached => exact .inl ⟨rfl, rfl⟩
  | refused h => exact .inr ⟨h, rfl⟩

theorem step_getDistribution {s s' : Scene} {k : Key} {a : Except StoreError (Option Distribution)}
    (h : Step s ⟨.store (.getDistribution k), a⟩ s') :
    s'.store = s.store ∧ ∀ d, a = .ok (some d) → s.store.distributions k = some d := by
  rcases step_store h with ⟨ha, _⟩ | ⟨hr, rfl⟩
  · obtain ⟨ha, hs⟩ := Prod.mk.inj ha
    exact ⟨hs.symm, fun d hd => Except.ok.inj (ha.trans hd)⟩
  · refine ⟨rfl, fun d hd => ?_⟩
    subst hd
    rcases hr with ⟨e, he⟩ | he
    · cases he
    · cases he

/-- A child that is read is the one that is stored; that none is read need not be true. -/
theorem step_get {s s' : Scene} {kind : ChildKind} {k : Key} {a : Except StoreError (Option Child)}
    (h : Step s ⟨.store (.get kind k), a⟩ s') :
    s'.store = s.store ∧ ∀ c, a = .ok (some c) → s.store.children kind k = some c := by
  rcases step_store h with ⟨ha, _⟩ | ⟨hr, rfl⟩
  · obtain ⟨ha, hs⟩ := Prod.mk.inj ha
    refine ⟨hs.symm, fun c hc => ?_⟩
    subst hc
    unfold Store.get at ha
    split at ha
    · cases ha
    · exact Except.ok.inj ha
  · refine ⟨rfl, fun c hc => ?_⟩
    subst hc
    rcases hr with ⟨e, he⟩ | he
    · cases he
    · cases he

theorem step_other {s s' : Scene} {x : Exchange} (h : Step s x s')
    (hx : ∀ c, x.call ≠ .store c) : s'.store = s.store := by
  cases h with
  | reached c => exact absurd rfl (hx c)
  | _ => rfl

@[simp] theorem through_nil {s s' : Scene} : Through s [] s' ↔ s' = s := by
  constructor
  · rintro ⟨⟩
    rfl
  · rintro rfl
    exact .nil _

@[simp] theorem through_cons {s s' : Scene} {x : Exchange} {t : List Exchange} :
    Through s (x :: t) s' ↔ ∃ u, Step s x u ∧ Through u t s' := by
  constructor
  · intro h
    cases h with
    | cons h ht => exact ⟨_, h, ht⟩
  · rintro ⟨u, h, ht⟩
    exact .cons h ht

theorem through_append {s s' : Scene} {t₁ t₂ : List Exchange} :
    Through s (t₁ ++ t₂) s' ↔ ∃ u, Through s t₁ u ∧ Through u t₂ s' := by
  induction t₁ generalizing s with
  | nil => simp
  | cons x t ih =>
    simp only [List.cons_append, through_cons, ih]
    constructor
    · rintro ⟨v, hx, u, ht, hu⟩
      exact ⟨u, ⟨v, hx, ht⟩, hu⟩
    · rintro ⟨u, ⟨v, hx, ht⟩, hu⟩
      exact ⟨v, hx, u, ht, hu⟩

theorem through_preserves {P : Scene → Prop} {s s' : Scene} {t : List Exchange}
    (h : Through s t s') (hstep : ∀ u x u', x ∈ t → Step u x u' → P u → P u') (hs : P s) :
    P s' := by
  induction h with
  | nil => exact hs
  | cons hx _ ih =>
    exact ih (fun u y u' hy => hstep u y u' (List.mem_cons_of_mem _ hy))
      (hstep _ _ _ List.mem_cons_self hx hs)

end Scene

namespace Program

variable {α β ε : Type}

/-- A dialogue that the store and the memory of a scene can hold, and the scene after it. -/
structure Performs (p : Program α) (s : Scene) (t : List Exchange) (a : α) (s' : Scene) : Prop where
  dialogue : p.Dialogue t a
  through : s.Through t s'

theorem performs_done {a b : α} {s s' : Scene} {t : List Exchange} :
    (done a).Performs s t b s' ↔ t = [] ∧ b = a ∧ s' = s := by
  constructor
  · rintro ⟨hd, ht⟩
    obtain ⟨rfl, rfl⟩ := dialogue_done.mp hd
    exact ⟨rfl, rfl, Scene.through_nil.mp ht⟩
  · rintro ⟨rfl, rfl, rfl⟩
    exact ⟨.done b, .nil s'⟩

theorem performs_bind {p : Program α} {f : α → Program β} {s s' : Scene} {t : List Exchange}
    {b : β} :
    (p.bind f).Performs s t b s' ↔
      ∃ a t₁ t₂ u, t = t₁ ++ t₂ ∧ p.Performs s t₁ a u ∧ (f a).Performs u t₂ b s' := by
  constructor
  · rintro ⟨hd, ht⟩
    obtain ⟨a, t₁, t₂, rfl, ha, hb⟩ := dialogue_bind.mp hd
    obtain ⟨u, hu, hs⟩ := Scene.through_append.mp ht
    exact ⟨a, t₁, t₂, u, rfl, ⟨ha, hu⟩, ⟨hb, hs⟩⟩
  · rintro ⟨a, t₁, t₂, u, rfl, ha, hb⟩
    exact ⟨dialogue_bind.mpr ⟨a, t₁, t₂, rfl, ha.dialogue, hb.dialogue⟩,
      Scene.through_append.mpr ⟨u, ha.through, hb.through⟩⟩

theorem performs_andThen {p : Program (Except ε α)} {f : α → Program (Except ε β)} {s s' : Scene}
    {t : List Exchange} {b : Except ε β} :
    (p.andThen f).Performs s t b s' ↔
      (∃ e, p.Performs s t (.error e) s' ∧ b = .error e) ∨
        ∃ a t₁ t₂ u, t = t₁ ++ t₂ ∧ p.Performs s t₁ (.ok a) u ∧ (f a).Performs u t₂ b s' := by
  constructor
  · rintro ⟨hd, ht⟩
    rcases dialogue_andThen.mp hd with ⟨e, he, rfl⟩ | ⟨a, t₁, t₂, rfl, ha, hb⟩
    · exact .inl ⟨e, ⟨he, ht⟩, rfl⟩
    · obtain ⟨u, hu, hs⟩ := Scene.through_append.mp ht
      exact .inr ⟨a, t₁, t₂, u, rfl, ⟨ha, hu⟩, ⟨hb, hs⟩⟩
  · rintro (⟨e, he, rfl⟩ | ⟨a, t₁, t₂, u, rfl, ha, hb⟩)
    · exact ⟨dialogue_andThen.mpr (.inl ⟨e, he.dialogue, rfl⟩), he.through⟩
    · exact ⟨dialogue_andThen.mpr (.inr ⟨a, t₁, t₂, rfl, ha.dialogue, hb.dialogue⟩),
        Scene.through_append.mpr ⟨u, ha.through, hb.through⟩⟩

theorem performs_attempt {operation resource : String} {c : StoreCall} {s s' : Scene}
    {t : List Exchange} {b : Except OperatorError c.Result} :
    (attempt operation resource c).Performs s t b s' ↔
      ∃ a : c.Answer, t = [⟨.store c, a⟩] ∧ b = a.mapError (.store operation resource) ∧
        s.Step ⟨.store c, a⟩ s' := by
  constructor
  · rintro ⟨hd, ht⟩
    obtain ⟨a, rfl, rfl⟩ := dialogue_attempt.mp hd
    obtain ⟨u, hu, hs⟩ := Scene.through_cons.mp ht
    exact ⟨a, rfl, rfl, Scene.through_nil.mp hs ▸ hu⟩
  · rintro ⟨a, rfl, rfl, h⟩
    exact ⟨dialogue_attempt.mpr ⟨a, rfl, rfl⟩, .cons h (.nil s')⟩

theorem performs_attempt_ok {operation resource : String} {c : StoreCall} {s s' : Scene}
    {t : List Exchange} {b : c.Result} :
    (attempt operation resource c).Performs s t (.ok b) s' ↔
      t = [⟨.store c, .ok b⟩] ∧ s.Step ⟨.store c, .ok b⟩ s' := by
  constructor
  · rintro ⟨hd, ht⟩
    obtain rfl := dialogue_attempt_ok.mp hd
    obtain ⟨u, hu, hs⟩ := Scene.through_cons.mp ht
    exact ⟨rfl, Scene.through_nil.mp hs ▸ hu⟩
  · rintro ⟨rfl, h⟩
    exact ⟨dialogue_attempt_ok.mpr rfl, .cons h (.nil s')⟩

end Program

namespace Rehearsal

def scene (r : Rehearsal) : Scene := ⟨r.store, r.memory⟩

theorem step (r : Rehearsal) (c : Call) :
    r.scene.Step ⟨c, (answer c r).1⟩ (answer c r).2.scene := by
  cases c with
  | store c =>
    simp only [answer, askStore]
    split
    · exact .reached r.scene c
    · exact .refused _ (.inl ⟨_, rfl⟩)
    · split
      · rename_i h
        exact .refused _ (.inr h)
      · exact .reached r.scene c
  | probe c => exact .probed _ c _
  | memory c => exact .recalled r.scene c
  | now => exact .told _ _

/-- The rehearsal after somebody wrote a distribution. -/
def edited (r : Rehearsal) (d : Distribution) : Rehearsal :=
  { r with store := r.store.addDistribution d }

theorem performs {α : Type} (p : Program α) (r : Rehearsal) :
    p.Performs r.scene (p.transcript answer r) (p.run answer r).1 (p.run answer r).2.2.scene := by
  refine ⟨p.dialogue_transcript answer r, ?_⟩
  induction p generalizing r with
  | done a => exact .nil _
  | ask c next ih => exact .cons (step r c) (ih _ _)

end Rehearsal

/-! Data for runs on fixed inputs: an operator with one known image, and distributions that ask for
one server with it. -/

def Timestamp.epoch : Timestamp := ⟨⟨1970, 1, 1, by decide, by decide⟩, 0, 0, 0, 0, by decide⟩

def Operator.sample : Operator where
  config := ⟨⟨"operators", .ofList [Config.imageFor "starter"]⟩, none, none, none,
    .v4 ⟨127, 0, 0, 1⟩ 8080⟩
  flags := .initial

def Distribution.sample : Distribution where
  metadata := { ObjectMeta.blank with
    name := some "demo"
    space := some "ai"
    uid := some "uid-demo" }
  spec := ⟨1, { Server.blank with choice := ⟨some "starter", none⟩ }⟩
  status := none

def OwnerReference.sample : OwnerReference :=
  ⟨Distribution.apiVersion, Distribution.kind, "demo", "uid-demo", some true, none⟩

/-- A distribution that asks for storage and declares a port. -/
def Distribution.full : Distribution :=
  { Distribution.sample with
    spec := ⟨1, { Server.blank with
      choice := ⟨some "starter", none⟩
      container := { ContainerSettings.blank with ports := [8321] }
      storage := some ⟨none, none⟩ }⟩ }

end DistributionOperator
