import DistributionOperator.Proofs.Stages

/-! Synchronizations that nothing disturbs. A stage that finds all in order only reads, and one that
finds nothing succeeds. -/

namespace DistributionOperator

open Program Store Operator

namespace Program

variable {α β ε σ : Type}

theorem run_andThen_ok {h : Handler σ} {p : Program (Except ε α)}
    {f : α → Program (Except ε β)} {s s' : σ} {a : α} {t : List Call}
    (hp : p.run h s = (.ok a, t, s')) :
    (p.andThen f).run h s =
      (((f a).run h s').1, t ++ ((f a).run h s').2.1, ((f a).run h s').2.2) := by
  simp [andThen, hp]

end Program

namespace Store

variable (s : Store)

theorem create_readable (kind : ChildKind) (space : String) (c : Child) :
    (s.create kind space c).2.deploymentReadFault = s.deploymentReadFault := by
  unfold create
  dsimp only
  split <;> rfl

theorem create_ok {s : Store} {kind : ChildKind} {space : String} {c : Child}
    (h : s.children kind (keyIn space c.metadata) = none) :
    (s.create kind space c).1 = .ok (c.storedAs space s.nextVersion) := by
  simp only [create, h]
  rfl

theorem get_ok {s : Store} (h : s.deploymentReadFault = none) (kind : ChildKind) (k : Key) :
    s.get kind k = .ok (s.children kind k) := by
  unfold get
  rw [h]
  split
  · rename_i hm
    cases hm
  · rfl

theorem deletePolicy_none {s : Store} {k : Key} (h : s.children .policy k = none) :
    s.deletePolicy k = (.ok false, s) := by
  simp only [deletePolicy, h]

end Store

namespace Rehearsal

/-- Whether all calls reach the store, and all reads of it succeed. -/
structure Undisturbed (r : Rehearsal) : Prop where
  reached : ∀ op, r.disturbed op = none
  readable : r.store.deploymentReadFault = none

variable {r : Rehearsal} {kind : ChildKind} {k : Key}

theorem Undisturbed.run_attempt (h : r.Undisturbed) (operation resource : String) (c : StoreCall) :
    (attempt operation resource c).run answer r =
      ((r.store.answer c).1.mapError (.store operation resource), [.store c],
        { r with store := (r.store.answer c).2 }) := by
  simp [attempt, Program.store, Program.call, Program.bind, run, answer, askStore, h.reached,
    reachStore]

theorem Undisturbed.run_get (h : r.Undisturbed) (operation resource : String) (kind : ChildKind)
    (k : Key) :
    (attempt operation resource (.get kind k)).run answer r =
      (.ok (r.store.children kind k), [.store (.get kind k)], r) := by
  rw [h.run_attempt]
  simp only [Store.answer, Store.get_ok h.readable]
  rfl

theorem Undisturbed.run_delete (h : r.Undisturbed) (hnone : r.store.children .policy k = none)
    (operation resource : String) :
    (attempt operation resource (.deletePolicy k)).run answer r =
      (.ok false, [.store (.deletePolicy k)], r) := by
  rw [h.run_attempt]
  simp only [Store.answer, Store.deletePolicy_none hnone]
  rfl

end Rehearsal

/-- Whether a stage has nothing to do: its child is there and let be, or nothing is wanted and
there is no policy in the way. -/
def Operator.Settled (o : Operator) (d : Distribution) (image : String) (owner : OwnerReference)
    (kind : ChildKind) (c : Option Child) : Prop :=
  match o.wanted d image owner kind with
  | some w => ∃ live, c = some live ∧ kind.Accepts owner w live
  | none => kind = .policy → c = none

/-- The calls by which a synchronization looks at its children; deleting nothing is one of them. -/
def Call.LooksAt (d : Distribution) (s : Store) (c : Call) : Prop :=
  (∃ kind, c = .store (.get kind (d.childKey kind))) ∨
    c = .store (.deletePolicy (d.childKey .policy)) ∧
      s.children .policy (d.childKey .policy) = none

variable {o : Operator} {d : Distribution} {image : String} {owner : OwnerReference}
  {kind : ChildKind} {kinds : List ChildKind} {r : Rehearsal}

theorem Rehearsal.Undisturbed.run_settled_stage (hr : r.Undisturbed)
    (h : o.Settled d image owner kind (r.store.children kind (d.childKey kind))) :
    ∃ calls, (o.stage d image owner kind).run Rehearsal.answer r = (.ok .unchanged, calls, r) ∧
      ∀ c ∈ calls, c.LooksAt d r.store := by
  unfold Operator.Settled at h
  cases hw : o.wanted d image owner kind with
  | none =>
    rw [hw] at h
    by_cases hk : kind = .policy
    · subst hk
      have hnone := h rfl
      refine ⟨[.store (.deletePolicy (d.childKey .policy))], ?_, ?_⟩
      · rw [stage_policy_unwanted hw, run_andThen_ok (hr.run_delete hnone _ _)]
        rfl
      · intro c hc
        have hc' : c = .store (.deletePolicy (d.childKey .policy)) := by simpa using hc
        exact .inr ⟨hc', hnone⟩
    · rw [stage_unwanted hw hk]
      exact ⟨[], rfl, by simp⟩
  | some w =>
    rw [hw] at h
    obtain ⟨live, hlive, haccepts⟩ := h
    refine ⟨[.store (.get kind (d.childKey kind))], ?_, ?_⟩
    · rw [stage_wanted hw, approach, wanted_key hw, run_andThen_ok (hr.run_get _ _ _ _)]
      simp only [hlive, attend_accepted haccepts]
      rfl
    · intro c hc
      have hc' : c = .store (.get kind (d.childKey kind)) := by simpa using hc
      exact .inl ⟨kind, hc'⟩

theorem Rehearsal.Undisturbed.run_settled (hr : r.Undisturbed)
    (h : ∀ kind ∈ kinds, o.Settled d image owner kind (r.store.children kind (d.childKey kind))) :
    ∃ calls, (o.stages d image owner kinds).run Rehearsal.answer r = (.ok (), calls, r) ∧
      ∀ c ∈ calls, c.LooksAt d r.store := by
  induction kinds with
  | nil => exact ⟨[], rfl, by simp⟩
  | cons kind rest ih =>
    obtain ⟨calls, hrun, hcalls⟩ := hr.run_settled_stage (h kind List.mem_cons_self)
    obtain ⟨calls', hrun', hcalls'⟩ := ih fun k hk => h k (List.mem_cons_of_mem _ hk)
    refine ⟨calls ++ calls', ?_, ?_⟩
    · have hstages : (o.stages d image owner (kind :: rest)) =
          (o.stage d image owner kind).andThen fun _ => o.stages d image owner rest := rfl
      rw [hstages, run_andThen_ok hrun, hrun']
    · intro c hc
      exact (List.mem_append.mp hc).elim (hcalls c) (hcalls' c)

/-- A stage that finds nothing in its place makes the child, or has none to make. -/
theorem Rehearsal.Undisturbed.run_fresh_stage (hr : r.Undisturbed) (o : Operator)
    (image : String) (owner : OwnerReference)
    (h : r.store.children kind (d.childKey kind) = none) :
    ∃ a calls r', (o.stage d image owner kind).run Rehearsal.answer r = (.ok a, calls, r') ∧
      r'.Undisturbed := by
  cases hw : o.wanted d image owner kind with
  | none =>
    have hsettled : o.Settled d image owner kind (r.store.children kind (d.childKey kind)) := by
      simp only [Operator.Settled, hw]
      exact fun _ => h
    obtain ⟨calls, hrun, _⟩ := hr.run_settled_stage hsettled
    exact ⟨_, calls, r, hrun, hr⟩
  | some w =>
    have hkey := wanted_key hw
    have hcreate : (attempt "create" kind.kind (.create kind d.space w)).run Rehearsal.answer r =
        (.ok (w.storedAs d.space r.store.nextVersion), [.store (.create kind d.space w)],
          { r with store := (r.store.create kind d.space w).2 }) := by
      rw [hr.run_attempt]
      simp only [Store.answer, create_ok (hkey.symm ▸ h)]
      rfl
    refine ⟨.created, [.store (.get kind (d.childKey kind)), .store (.create kind d.space w)],
      { r with store := (r.store.create kind d.space w).2 }, ?_, ?_⟩
    · rw [stage_wanted hw, approach, hkey, run_andThen_ok (hr.run_get _ _ _ _)]
      simp only [h, run_andThen_ok hcreate]
      rfl
    · exact ⟨hr.reached, (create_readable _ _ _ _).trans hr.readable⟩

theorem Rehearsal.Undisturbed.run_fresh (hr : r.Undisturbed) (hn : kinds.Nodup)
    (h : ∀ kind ∈ kinds, r.store.children kind (d.childKey kind) = none) :
    ((o.stages d image owner kinds).run Rehearsal.answer r).1 = .ok () := by
  induction kinds generalizing r with
  | nil => rfl
  | cons first rest ih =>
    have hnd := List.nodup_cons.mp hn
    obtain ⟨a, calls, r', hrun, hr'⟩ :=
      hr.run_fresh_stage o image owner (h first List.mem_cons_self)
    have hrest : ∀ kind ∈ rest, r'.store.children kind (d.childKey kind) = none := by
      intro kind hk
      have hne : kind ≠ first := fun he => hnd.1 (he ▸ hk)
      have hsame := stage_other (d.childKey kind)
        (Rehearsal.performs (o.stage d image owner first) r) hne
      rw [hrun] at hsame
      exact hsame.trans (h kind (List.mem_cons_of_mem _ hk))
    have hstages : o.stages d image owner (first :: rest) =
        (o.stage d image owner first).andThen fun _ => o.stages d image owner rest := rfl
    rw [hstages, run_andThen_ok hrun]
    exact ih hr' hnd.2 hrest

end DistributionOperator
