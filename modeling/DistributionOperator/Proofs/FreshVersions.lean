import DistributionOperator.Proofs.JsonTexts
import DistributionOperator.Proofs.PersistedStatuses

/-! Versions of distributions. They come from a counter that never goes back, so that a version that
was overwritten never comes again. -/

namespace DistributionOperator

namespace Store

/-- Every distribution has a version that was counted, and no two have the same. -/
structure Versioned (s : Store) : Prop where
  numbered : ∀ {k d}, s.distributions k = some d →
    ∃ n ≤ s.version, d.metadata.resourceVersion = some (toString n)
  distinct : ∀ {j k d e}, s.distributions j = some d → s.distributions k = some e →
    d.metadata.resourceVersion = e.metadata.resourceVersion → j = k

/-- At most one distribution is written or removed, and what is written has a version that nothing
had before. -/
inductive Evolves (s s' : Store) : Prop where
  | kept (hd : s'.distributions = s.distributions) (hv : s.version ≤ s'.version)
  | written {k : Key} {d : Distribution} {n : Nat}
      (hd : s'.distributions = s.distributions.set k (some d))
      (hn : d.metadata.resourceVersion = some (toString n)) (hlt : s.version < n)
      (hle : n ≤ s'.version)
  | removed {k : Key} (hd : s'.distributions = s.distributions.set k none)
      (hv : s.version ≤ s'.version)

/-- A version that was counted and that the distribution under a key does not have. -/
structure Past (s : Store) (k : Key) (v : Option String) : Prop where
  counted : ∃ n ≤ s.version, v = some (toString n)
  gone : ∀ {d}, s.distributions k = some d → d.metadata.resourceVersion ≠ v

variable {s s' : Store} {j k : Key} {d : Distribution} {v : Option String} {n m : Nat}

theorem version_inj (h : some (toString n) = some (toString m)) : n = m :=
  Json.digits_inj (congrArg String.toList (Option.some.inj h))

theorem Versioned.of_none (h : ∀ k, s.distributions k = none) : s.Versioned where
  numbered hd := by simp [h] at hd
  distinct hd := by simp [h] at hd

theorem Evolves.version_le (h : s.Evolves s') : s.version ≤ s'.version := by
  cases h with
  | kept _ hv => exact hv
  | written _ _ hlt hle => omega
  | removed _ hv => exact hv

/-- What becomes of a single distribution. -/
theorem Evolves.slot (h : s.Evolves s') (k : Key) :
    s'.distributions k = s.distributions k ∨ s'.distributions k = none ∨
      ∃ d n, s'.distributions k = some d ∧ d.metadata.resourceVersion = some (toString n) ∧
        s.version < n ∧ n ≤ s'.version := by
  cases h with
  | kept hd _ => exact .inl (congrFun hd k)
  | @written j d n hd hn hlt hle =>
    by_cases hk : k = j
    · subst hk
      exact .inr (.inr ⟨d, n, by rw [hd, Table.set_same], hn, hlt, hle⟩)
    · exact .inl (by rw [hd, Table.set_other _ _ hk])
  | @removed j hd _ =>
    by_cases hk : k = j
    · subst hk
      exact .inr (.inl (by rw [hd, Table.set_same]))
    · exact .inl (by rw [hd, Table.set_other _ _ hk])

theorem Versioned.evolves (h : s.Versioned) (he : s.Evolves s') : s'.Versioned where
  numbered := by
    intro k d hd
    rcases he.slot k with hsame | hnone | ⟨e, n, he', hn, _, hle⟩
    · obtain ⟨n, hle, hn⟩ := h.numbered (hsame ▸ hd)
      exact ⟨n, Nat.le_trans hle he.version_le, hn⟩
    · rw [hnone] at hd
      cases hd
    · rw [he'] at hd
      cases hd
      exact ⟨n, hle, hn⟩
  distinct := by
    intro j k d e hj hk hv
    cases he with
    | kept hd _ =>
      rw [hd] at hj hk
      exact h.distinct hj hk hv
    | @written i new n hd hn hlt hle =>
      -- what was there before is older than what is written
      have holder : ∀ {l f}, l ≠ i → s'.distributions l = some f →
          s.distributions l = some f ∧ f.metadata.resourceVersion ≠ some (toString n) := by
        intro l f hl hf
        rw [hd, Table.set_other _ _ hl] at hf
        obtain ⟨m, hm, hfm⟩ := h.numbered hf
        refine ⟨hf, fun he => ?_⟩
        have hmn := version_inj (hfm.symm.trans he)
        omega
      have hnew : ∀ {f}, s'.distributions i = some f →
          f.metadata.resourceVersion = some (toString n) := by
        intro f hf
        rw [hd, Table.set_same] at hf
        cases hf
        exact hn
      by_cases hji : j = i
      · by_cases hki : k = i
        · rw [hji, hki]
        · rw [hji] at hj
          exact absurd (hv.symm.trans (hnew hj)) (holder hki hk).2
      · by_cases hki : k = i
        · rw [hki] at hk
          exact absurd (hv.trans (hnew hk)) (holder hji hj).2
        · exact h.distinct (holder hji hj).1 (holder hki hk).1 hv
    | @removed i hd _ =>
      have hother : ∀ {l f}, s'.distributions l = some f → s.distributions l = some f := by
        intro l f hf
        by_cases hl : l = i
        · rw [hd, hl, Table.set_same] at hf
          cases hf
        · rwa [hd, Table.set_other _ _ hl] at hf
      exact h.distinct (hother hj) (hother hk) hv

/-- A version that is past does not come again. -/
theorem Past.evolves (h : s.Past k v) (he : s.Evolves s') : s'.Past k v := by
  obtain ⟨n, hn, rfl⟩ := h.counted
  refine ⟨⟨n, Nat.le_trans hn he.version_le, rfl⟩, fun {d} hd hv => ?_⟩
  rcases he.slot k with hsame | hnone | ⟨e, m, he', hm, hlt, _⟩
  · exact h.gone (hsame ▸ hd) hv
  · rw [hnone] at hd
    cases hd
  · rw [he'] at hd
    cases hd
    have hnm := version_inj (hv.symm.trans hm)
    omega

/-- A distribution is as it was, or its version is past. -/
theorem Versioned.kept_or_past (h : s.Versioned) (hd : s.distributions k = some d)
    (he : s.Evolves s') :
    s'.distributions k = some d ∨ s'.Past k d.metadata.resourceVersion := by
  obtain ⟨n, hn, hv⟩ := h.numbered hd
  rcases he.slot k with hsame | hnone | ⟨e, m, he', hm, hlt, _⟩
  · exact .inl (hsame.trans hd)
  · exact .inr ⟨⟨n, Nat.le_trans hn he.version_le, hv⟩, by simp [hnone]⟩
  · refine .inr ⟨⟨n, Nat.le_trans hn he.version_le, hv⟩, fun {f} hf hfv => ?_⟩
    rw [he'] at hf
    cases hf
    have hnm := version_inj (hv.symm.trans (hfv.symm.trans hm))
    omega

theorem Versioned.past_elsewhere (h : s.Versioned) (hd : s.distributions k = some d)
    (hj : j ≠ k) : s.Past j d.metadata.resourceVersion :=
  ⟨h.numbered hd, fun he hv => hj (h.distinct he hd hv)⟩

theorem addDistribution_evolves (s : Store) (d : Distribution) : s.Evolves (s.addDistribution d) :=
  .written (s.addDistribution_distributions d) rfl (Nat.lt_succ_self _) (Nat.le_refl _)

end Store

namespace Scene

variable {s s' : Scene} {x : Exchange} {k : Key} {v : Option String} {new : Status}

theorem step_version_le (h : s.Step x s') : s.store.version ≤ s'.store.version := by
  cases h with
  | reached c => exact s.store.answer_version c
  | _ => exact Nat.le_refl _

/-- Whatever a program asks of the store, its distributions evolve. -/
theorem step_evolves (h : s.Step x s') : s.store.Evolves s'.store := by
  by_cases hx : ∃ k v new, x.call = .store (.updateStatus k v new)
  · obtain ⟨c, a⟩ := x
    obtain ⟨k, v, new, rfl⟩ := hx
    rcases step_store h with ⟨ha, _⟩ | ⟨_, rfl⟩
    · cases a with
      | ok u =>
        obtain ⟨d, _, _, hd⟩ := updateStatus_ok ha
        have hversion := (Store.updateStatus_version ha).1
        exact .written hd rfl (Nat.lt_succ_self _) (Nat.le_of_eq hversion.symm)
      | error e => exact .kept (congrArg _ (Store.updateStatus_error ha)) (step_version_le h)
    · exact .kept rfl (Nat.le_refl _)
  · refine .kept (step_distributions h fun k v new hc => hx ⟨k, v, new, hc⟩) (step_version_le h)

/-- A status that is written for a version is written over a distribution that has that version,
which is past then. -/
theorem step_persists {n : Nat}
    (h : s.Step ⟨.store (.updateStatus k (some (toString n)) new), .ok ()⟩ s')
    (hn : n ≤ s.store.version) :
    (∃ d, s.store.distributions k = some d ∧
      d.metadata.resourceVersion = some (toString n)) ∧ s'.store.Past k (some (toString n)) := by
  rcases step_store h with ⟨ha, _⟩ | ⟨hr, _⟩
  · obtain ⟨hversion, d, hd, hv⟩ := Store.updateStatus_version ha
    obtain ⟨_, _, _, hs'⟩ := updateStatus_ok ha
    refine ⟨⟨d, hd, (hv.resolve_left (by simp)).symm⟩, ⟨n, by omega, rfl⟩, fun {f} hf hfv => ?_⟩
    rw [hs', Table.set_same] at hf
    cases hf
    have hnv := Store.version_inj hfv
    omega
  · obtain ⟨e, he⟩ := hr.error rfl
    cases he

end Scene

end DistributionOperator
