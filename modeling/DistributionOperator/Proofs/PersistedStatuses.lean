import DistributionOperator.Proofs.Passes
import DistributionOperator.Proofs.StatusWrites
import DistributionOperator.Proofs.Synchronization

/-! What a pass does to distributions. It writes one status at most, the one that it evaluated for the
distribution that it found. -/

namespace DistributionOperator

open Program

def Persists (t : List Exchange) (j : Key) (status : Status) : Prop :=
  ∃ v, (⟨.store (.updateStatus j v status), .ok ()⟩ : Exchange) ∈ t

variable {o : Operator} {d : Distribution} {k j : Key} {s s' : Scene} {t t₁ t₂ : List Exchange}
  {status : Status}

theorem persists_append :
    Persists (t₁ ++ t₂) j status ↔ Persists t₁ j status ∨ Persists t₂ j status := by
  simp only [Persists, List.mem_append, exists_or]

theorem not_persists (h : ∀ x ∈ t, ∀ k v new, x.call ≠ .store (.updateStatus k v new)) :
    ¬Persists t j status := by
  rintro ⟨v, hm⟩
  exact h _ hm j v status rfl

theorem step_distributions {x : Exchange} (h : s.Step x s')
    (hx : ∀ k v new, x.call ≠ .store (.updateStatus k v new)) :
    s'.store.distributions = s.store.distributions := by
  cases h with
  | reached c => exact s.store.answer_distributions fun k v new hc => hx k v new (congrArg _ hc)
  | _ => rfl

theorem through_distributions (h : s.Through t s')
    (ht : ∀ x ∈ t, ∀ k v new, x.call ≠ .store (.updateStatus k v new)) :
    s'.store.distributions = s.store.distributions :=
  Scene.through_preserves (P := fun u => u.store.distributions = s.store.distributions) h
    (fun _ _ _ hm hx hu => (step_distributions hx (ht _ hm)).trans hu) rfl

theorem syncCall_not_status {c : Call} (h : o.SyncCall d c) (k : Key) (v : Option String)
    (new : Status) : c ≠ .store (.updateStatus k v new) := by
  rintro rfl
  exact h

theorem observes_not_status {c : Call} (h : c.Observes) (k : Key) (v : Option String)
    (new : Status) : c ≠ .store (.updateStatus k v new) := by
  rintro rfl
  exact h

theorem recalls_not_status {c : Call} (h : c.Recalls) (k : Key) (v : Option String)
    (new : Status) : c ≠ .store (.updateStatus k v new) := by
  rintro rfl
  exact h

/-- Distributions before and after a status was written over the one under a key. -/
def WritesOver (before after : Table Distribution) (k : Key) (new : Status) : Prop :=
  ∃ d version, before k = some d ∧
    after = before.set k (some { d with
      status := some (new.over d.status)
      metadata := { d.metadata with resourceVersion := some version } })

theorem step_updateStatus {v : Option String} {new : Status} {a : Except StoreError Unit}
    (h : s.Step ⟨.store (.updateStatus k v new), a⟩ s') :
    (a = .ok () ∧ WritesOver s.store.distributions s'.store.distributions k new) ∨
      (a ≠ .ok () ∧ s'.store = s.store) := by
  rcases Scene.step_store h with ⟨ha, _⟩ | ⟨hr, rfl⟩
  · cases a with
    | ok u =>
      obtain ⟨d, hd, _, hs⟩ := updateStatus_ok ha
      exact .inl ⟨rfl, d, _, hd, hs⟩
    | error e => exact .inr ⟨by simp, Store.updateStatus_error ha⟩
  · obtain ⟨e, rfl⟩ := hr.error rfl
    exact .inr ⟨by simp, rfl⟩

theorem persists_singleton {v : Option String} {new : Status} {a : Except StoreError Unit} :
    Persists [⟨.store (.updateStatus k v new), a⟩] j status ↔
      a = .ok () ∧ j = k ∧ status = new := by
  constructor
  · rintro ⟨w, hm⟩
    cases List.mem_singleton.mp hm
    exact ⟨rfl, rfl, rfl⟩
  · rintro ⟨rfl, rfl, rfl⟩
    exact ⟨v, List.mem_singleton_self _⟩

theorem workOn_writes {r : Except OperatorError Outcome} (h : (workOn o d).Performs s t r s') :
    (s'.store.distributions = s.store.distributions ∧ ∀ j status, ¬Persists t j status) ∨
      ∃ failure new t₁, (evaluate o d failure).Dialogue t₁ (.ok new) ∧ (∀ x ∈ t₁, x ∈ t) ∧
        WritesOver s.store.distributions s'.store.distributions d.key new ∧
        ∀ j status, Persists t j status ↔ j = d.key ∧ status = new := by
  obtain ⟨synced, written, t₁, t₂, u, rfl, hsync, hwrite, _⟩ := workOn_performs h
  have hcalls := (synchronize_within o d).of_dialogue hsync.dialogue
  have ht₁ := fun x hx => syncCall_not_status (hcalls x hx)
  have hu := through_distributions hsync.through ht₁
  have hn₁ : ∀ j status, ¬Persists t₁ j status := fun j status => not_persists ht₁
  rcases updateStatus_performs hwrite with
    ⟨hs, ht₂⟩ | ⟨new, a, t₃, v, rfl, ht₃, heval, hv, hx⟩
  · left
    refine ⟨by rw [hs, hu], fun j status => ?_⟩
    rw [persists_append, not_or]
    exact ⟨hn₁ j status, not_persists fun x hx => observes_not_status (ht₂ x hx)⟩
  · have hn₃ : ∀ j status, ¬Persists t₃ j status := fun j status =>
      not_persists fun x hx => observes_not_status (ht₃ x hx)
    have hpersists : ∀ j status, Persists (t₁ ++ (t₃ ++
        [⟨.store (.updateStatus d.key d.metadata.resourceVersion new), a⟩])) j status ↔
          a = .ok () ∧ j = d.key ∧ status = new := by
      intro j status
      simp only [persists_append, hn₁, hn₃, false_or, persists_singleton]
    rcases step_updateStatus hx with ⟨rfl, hw⟩ | ⟨hne, hs⟩
    · right
      rw [hv, hu] at hw
      refine ⟨_, new, t₃, heval, fun x hm => by simp [hm], hw, fun j status => ?_⟩
      rw [hpersists]
      simp
    · left
      refine ⟨by rw [hs, hv, hu], fun j status hp => ?_⟩
      exact hne ((hpersists j status).mp hp).1

theorem pass_writes {r : Except OperatorError Outcome} (h : (pass o k).Performs s t r s') :
    (s'.store.distributions = s.store.distributions ∧ ∀ j status, ¬Persists t j status) ∨
      ∃ d failure new t₁, s.store.distributions k = some d ∧
        (evaluate o d failure).Dialogue t₁ (.ok new) ∧ (∀ x ∈ t₁, x ∈ t) ∧
        WritesOver s.store.distributions s'.store.distributions d.key new ∧
        ∀ j status, Persists t j status ↔ j = d.key ∧ status = new := by
  have hread : ∀ a j status, ¬Persists [⟨.store (.getDistribution k), a⟩] j status :=
    fun a j status => not_persists (by simp)
  rcases pass_performs h with ⟨hs, a, t₁, rfl, ht₁⟩ | ⟨d, t₁, t₂, t₃, u, v, rfl, ht, hd, hu, hw, hs⟩
  · refine .inl ⟨by rw [hs], fun j status => ?_⟩
    rw [← List.singleton_append, persists_append, not_or]
    exact ⟨hread a j status, not_persists fun x hx => recalls_not_status (ht₁ x hx)⟩
  · have hn₁ : ∀ j status, ¬Persists t₁ j status := fun j status =>
      not_persists fun x hx => recalls_not_status (ht x (by simp [hx]))
    have hn₃ : ∀ j status, ¬Persists t₃ j status := fun j status =>
      not_persists fun x hx => recalls_not_status (ht x (by simp [hx]))
    have hpersists : ∀ j status, Persists (⟨.store (.getDistribution k), .ok (some d)⟩ ::
        (t₁ ++ (t₂ ++ t₃))) j status ↔ Persists t₂ j status := by
      intro j status
      rw [← List.singleton_append]
      simp only [persists_append, hread, hn₁, hn₃, false_or, or_false]
    rw [← hu] at hd
    rw [hs, ← hu]
    rcases workOn_writes hw with ⟨hsame, hn⟩ | ⟨failure, new, t₄, heval, ht₄, hw, hp⟩
    · exact .inl ⟨hsame, fun j status hp => hn j status ((hpersists j status).mp hp)⟩
    · refine .inr ⟨d, failure, new, t₄, hd, heval, fun x hx => by simp [ht₄ x hx], hw, ?_⟩
      intro j status
      rw [hpersists, hp]

end DistributionOperator
