import DistributionOperator.Proofs.PassDialogues
import DistributionOperator.Proofs.Stages

/-! What passes do to the children of the distribution that they find. Only the synchronization in
them does anything. -/

namespace DistributionOperator

open Program

def Call.KeepsChildren : Call → Prop
  | .store c => c.KeepsChildren
  | _ => True

theorem Call.Recalls.keepsChildren {c : Call} (h : c.Recalls) : c.KeepsChildren := by
  cases c with
  | store c => exact h.elim
  | _ => exact trivial

theorem Call.Observes.keepsChildren {c : Call} (h : c.Observes) : c.KeepsChildren := by
  cases c with
  | store c =>
    cases c with
    | get kind k => exact trivial
    | _ => exact h.elim
  | _ => exact trivial

namespace Scene

variable {s s' : Scene} {t : List Exchange}

theorem step_keepsChildren {x : Exchange} (h : Step s x s') (hx : x.call.KeepsChildren) :
    s'.store.children = s.store.children := by
  cases h with
  | reached c => exact s.store.answer_children hx
  | _ => rfl

theorem through_keepsChildren (h : Through s t s') (ht : ∀ x ∈ t, x.call.KeepsChildren) :
    s'.store.children = s.store.children :=
  through_preserves (P := fun u => u.store.children = s.store.children) h
    (fun _ _ _ hm hx hu => (step_keepsChildren hx (ht _ hm)).trans hu) rfl

end Scene

variable {o : Operator} {d : Distribution} {t : List Exchange} {p : PassRecord}

theorem updateStatus_keepsChildren {failure : Option OperatorError}
    {r : Except OperatorError Phase} (h : (updateStatus o d failure).Dialogue t r) :
    ∀ x ∈ t, x.call.KeepsChildren := by
  have hobs := fun {t r} => (evaluate_within o d failure).of_dialogue (t := t) (a := r)
  rcases updateStatus_dialogue h with ⟨e, _, he⟩ | ⟨new, a, t₁, rfl, hn, _⟩
  · exact fun x hx => (hobs he x hx).keepsChildren
  · intro x hx
    rcases List.mem_append.mp hx with hx | hx
    · exact (hobs hn x hx).keepsChildren
    · rw [List.mem_singleton.mp hx]
      exact trivial

/-- A pass that synchronizes the children of the distribution that it finds, from one scene to
another. -/
structure PassRecord.Synchronizes (p : PassRecord) (d : Distribution)
    (r : Except OperatorError Unit) (t : List Exchange) (u v : Scene) : Prop where
  finds : p.Finds d
  before : u.store = p.before.store
  performs : (synchronize p.operator d).Performs u t r v
  after : p.after.store.children = v.store.children
  within : ∃ t₁ t₂, p.exchanges = t₁ ++ (t ++ t₂) ∧ ∀ x ∈ t₁ ++ t₂, x.call.KeepsChildren

theorem synchronizes_of_parts {r : Except OperatorError Unit} {t₁ t₂ t₃ : List Exchange}
    {failure : Option OperatorError} {written : Except OperatorError Phase} (h : p.Made)
    (ht : p.exchanges =
      ⟨.store (.getDistribution p.key), .ok (some d)⟩ :: (t₁ ++ ((t ++ t₂) ++ t₃)))
    (hr : ∀ x ∈ t₁ ++ t₃, x.call.Recalls) (hs : (synchronize p.operator d).Dialogue t r)
    (hw : (updateStatus p.operator d failure).Dialogue t₂ written) :
    ∃ u v, p.Synchronizes d r t u v := by
  have hthrough := h.through
  rw [ht] at hthrough
  obtain ⟨a, hread, hthrough⟩ := Scene.through_cons.mp hthrough
  obtain ⟨u, hu, hthrough⟩ := Scene.through_append.mp hthrough
  obtain ⟨w, hw', hend⟩ := Scene.through_append.mp hthrough
  obtain ⟨v, hv, hwrite⟩ := Scene.through_append.mp hw'
  obtain ⟨ha, hfound⟩ := Scene.step_getDistribution hread
  have hrecalls₁ : ∀ x ∈ t₁, x.call.Recalls := fun x hx => hr x (List.mem_append_left _ hx)
  have hrecalls₃ : ∀ x ∈ t₃, x.call.Recalls := fun x hx => hr x (List.mem_append_right _ hx)
  refine ⟨u, v, hfound d rfl, ?_, ⟨hs, hv⟩, ?_, ?_⟩
  · rw [Scene.through_recalls hu hrecalls₁, ha]
  · rw [Scene.through_recalls hend hrecalls₃,
      Scene.through_keepsChildren hwrite (updateStatus_keepsChildren hw)]
  · refine ⟨⟨.store (.getDistribution p.key), .ok (some d)⟩ :: t₁, t₂ ++ t₃, ?_, ?_⟩
    · rw [ht]
      simp
    · intro x hx
      simp only [List.cons_append, List.mem_cons, List.mem_append] at hx
      rcases hx with rfl | hx | hx | hx
      · exact trivial
      · exact (hrecalls₁ x hx).keepsChildren
      · exact updateStatus_keepsChildren hw x hx
      · exact (hrecalls₃ x hx).keepsChildren

/-- A pass either synchronizes the children of a distribution or keeps away from all children. -/
theorem pass_synchronizes (h : p.Made) :
    (p.after.store.children = p.before.store.children ∧
        ∀ x ∈ p.exchanges, x.call.KeepsChildren) ∨
      ∃ d r t u v, p.Synchronizes d r t u v := by
  rcases pass_dialogue h.dialogue with ⟨a, t₁, ht, hr, _⟩ | ⟨d, t₁, t₂, t₃, ht, hr, hw⟩
  · have hkeeps : ∀ x ∈ p.exchanges, x.call.KeepsChildren := by
      intro x hx
      rw [ht] at hx
      rcases List.mem_cons.mp hx with rfl | hx
      · exact trivial
      · exact (hr x hx).keepsChildren
    exact .inl ⟨Scene.through_keepsChildren h.through hkeeps, hkeeps⟩
  · obtain ⟨synced, written, ts, tw, rfl, hs, hw, _⟩ := workOn_dialogue hw
    obtain ⟨u, v, hsync⟩ := synchronizes_of_parts h ht hr hs hw
    exact .inr ⟨d, synced, ts, u, v, hsync⟩

def Exchange.isMemory (x : Exchange) : Bool :=
  match x.call with
  | .memory _ => true
  | _ => false

/-- Whether a pass found the distribution and, apart from what it recalled, went on with a
synchronization that ended so. -/
def PassRecord.Synchronized (p : PassRecord) (d : Distribution) (r : Except OperatorError Unit) :
    Prop :=
  ∃ t t', p.exchanges.filter (!·.isMemory) =
      ⟨.store (.getDistribution p.key), .ok (some d)⟩ :: (t ++ t') ∧
    (synchronize p.operator d).Dialogue t r

theorem filter_recalls {t : List Exchange} (h : ∀ x ∈ t, x.call.Recalls) :
    t.filter (!·.isMemory) = [] := by
  refine List.filter_eq_nil_iff.mpr fun x hx => ?_
  obtain ⟨c, a⟩ := x
  have hc : c.Recalls := h _ hx
  cases c with
  | memory c => simp [Exchange.isMemory]
  | _ => exact hc.elim

theorem filter_synchronize {r : Except OperatorError Unit}
    (h : (synchronize o d).Dialogue t r) : t.filter (!·.isMemory) = t := by
  refine List.filter_eq_self.mpr fun x hx => ?_
  obtain ⟨c, a⟩ := x
  have hc : o.SyncCall d c := (synchronize_within o d).of_dialogue h _ hx
  cases c with
  | store c => rfl
  | _ => exact hc.elim

/-- Apart from what it recalls, a pass reads its distribution and goes on with synchronizing it. -/
theorem filter_parts {r : Except OperatorError Unit} {x : Exchange} {t₁ t₂ t₃ : List Exchange}
    (hx : x.isMemory = false) (hr : ∀ y ∈ t₁ ++ t₃, y.call.Recalls)
    (hs : (synchronize o d).Dialogue t r) :
    (x :: (t₁ ++ ((t ++ t₂) ++ t₃))).filter (!·.isMemory) =
      x :: (t ++ t₂.filter (!·.isMemory)) := by
  have hrecalls₁ : ∀ y ∈ t₁, y.call.Recalls := fun y hy => hr y (List.mem_append_left _ hy)
  have hrecalls₃ : ∀ y ∈ t₃, y.call.Recalls := fun y hy => hr y (List.mem_append_right _ hy)
  rw [List.filter_cons_of_pos (by simp [hx])]
  simp only [List.filter_append, filter_recalls hrecalls₁, filter_recalls hrecalls₃,
    filter_synchronize hs, List.nil_append, List.append_nil]

theorem synchronizes_of_synchronized {r : Except OperatorError Unit} (h : p.Made)
    (hs : p.Synchronized d r) : ∃ t u v, p.Synchronizes d r t u v := by
  obtain ⟨t, t', hfilter, hdialogue⟩ := hs
  rcases pass_dialogue h.dialogue with ⟨a, t₁, ht, hr, ha, _⟩ | ⟨d', t₁, t₂, t₃, ht, hr, hw⟩
  · rw [ht, List.filter_cons_of_pos rfl, filter_recalls hr] at hfilter
    simp only [List.cons.injEq, Exchange.mk.injEq, heq_eq_eq, true_and] at hfilter
    exact absurd hfilter.1 (ha d)
  · obtain ⟨synced, written, ts, tw, rfl, hs', hw, _⟩ := workOn_dialogue hw
    rw [ht, filter_parts rfl hr hs'] at hfilter
    simp only [List.cons.injEq, Exchange.mk.injEq, heq_eq_eq, true_and, Except.ok.injEq,
      Option.some.injEq] at hfilter
    obtain ⟨rfl, hparts⟩ := hfilter
    obtain ⟨rfl, rfl⟩ := hs'.unique hdialogue hparts
    obtain ⟨u, v, hsync⟩ := synchronizes_of_parts h ht hr hs' hw
    exact ⟨ts, u, v, hsync⟩

/-- A pass that ends well, and not for want of a distribution, has synchronized its children. -/
theorem synchronized_of_ok (h : p.Made) {outcome : Outcome} (hr : p.result = .ok outcome)
    (hphase : outcome.phase ≠ none) : ∃ d, p.Finds d ∧ p.Synchronized d (.ok ()) := by
  rcases pass_dialogue h.dialogue with ⟨a, t₁, _, _, _, hnone⟩ | ⟨d, t₁, t₂, t₃, ht, hrec, hw⟩
  · exact absurd (hnone outcome hr) hphase
  · obtain ⟨synced, written, ts, tw, rfl, hs, hw, hres⟩ := workOn_dialogue hw
    obtain ⟨u, v, hsync⟩ := synchronizes_of_parts h ht hrec hs hw
    have hok : synced = .ok () := by
      rw [hr] at hres
      cases synced with
      | error e => cases hres
      | ok x => rfl
    subst hok
    refine ⟨d, hsync.finds, ts, tw.filter (!·.isMemory), ?_, hs⟩
    rw [ht, filter_parts rfl hrec hs]

end DistributionOperator
