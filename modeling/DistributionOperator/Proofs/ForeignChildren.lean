import DistributionOperator.Proofs.Passes
import DistributionOperator.Proofs.Synchronization

/-! Children that somebody else controls. Passes never write over them, whatever the store holds
and whichever calls fail. What is not asked about is the deletion of a policy: it takes whatever has
the name of the policy. -/

namespace DistributionOperator

open Program Store

/-- Whether a child is controlled by something else than the distribution. -/
def Child.ForeignTo (c : Child) (d : Distribution) : Prop :=
  ∃ r ∈ c.metadata.owners, r.controller = some true ∧ d.metadata.uid ≠ some r.uid

def Deletes (kind : ChildKind) (j : Key) (t : List Exchange) : Prop :=
  kind = .policy ∧ (⟨.store (.deletePolicy j), .ok true⟩ : Exchange) ∈ t

theorem deletes_append {kind : ChildKind} {j : Key} {t₁ t₂ : List Exchange} :
    Deletes kind j (t₁ ++ t₂) ↔ Deletes kind j t₁ ∨ Deletes kind j t₂ := by
  simp only [Deletes, List.mem_append, and_or_left]

variable {o : Operator} {d : Distribution} {owner : OwnerReference} {kind : ChildKind} {j : Key}
  {c : Child}

theorem foreignTo_iff (h : d.metadata.uid = some owner.uid) :
    c.ForeignTo d ↔ c.metadata.controlledByOther owner.uid = true := by
  simp only [Child.ForeignTo, ObjectMeta.controlledByOther, List.any_eq_true, Bool.and_eq_true,
    decide_eq_true_eq, h, ne_eq, Option.some.injEq]
  constructor
  · rintro ⟨r, hr, hc, hne⟩
    exact ⟨r, hr, hc, fun e => hne e.symm⟩
  · rintro ⟨r, hr, hc, hne⟩
    exact ⟨r, hr, hc, fun e => hne e.symm⟩

theorem not_foreignTo_of_owner (h : d.metadata.uid = some owner.uid)
    (hc : c.metadata.ownerReferences = some [owner]) : ¬c.ForeignTo d := by
  simp [Child.ForeignTo, ObjectMeta.owners, hc, h]

namespace Program

variable {α β ε : Type}

/-- A program that neither puts the child in its place nor takes it away, but for a deletion that it
asks for. -/
def Spares (kind : ChildKind) (j : Key) (c : Child) (p : Program α) : Prop :=
  ∀ s t a s', p.Performs s t a s' →
    (s'.store.children kind j = some c ↔
      s.store.children kind j = some c ∧ ¬Deletes kind j t)

theorem Spares.done (a : α) : (done a).Spares kind j c := by
  intro s t b s' h
  obtain ⟨rfl, _, rfl⟩ := performs_done.mp h
  simp [Deletes]

theorem Spares.bind {p : Program α} {f : α → Program β} (hp : p.Spares kind j c)
    (hf : ∀ a, (f a).Spares kind j c) : (p.bind f).Spares kind j c := by
  intro s t b s' h
  obtain ⟨a, t₁, t₂, u, rfl, ha, hb⟩ := performs_bind.mp h
  rw [hf a u t₂ b s' hb, hp s t₁ a u ha, deletes_append, not_or, and_assoc]

theorem Spares.andThen {p : Program (Except ε α)} {f : α → Program (Except ε β)}
    (hp : p.Spares kind j c) (hf : ∀ a, (f a).Spares kind j c) :
    (p.andThen f).Spares kind j c := by
  refine hp.bind fun r => ?_
  cases r with
  | error e => exact .done _
  | ok a => exact hf a

/-- An attempt that does not delete, at a store after which the child is there exactly if it was
there before. -/
theorem attempt_spares {call : StoreCall} {operation resource : String} {s s' : Scene}
    {t : List Exchange} {b : Except OperatorError call.Result} (hd : ∀ k, call ≠ .deletePolicy k)
    (h : (s.store.answer call).2.children kind j = some c ↔ s.store.children kind j = some c)
    (hp : (attempt operation resource call).Performs s t b s') :
    s'.store.children kind j = some c ↔
      s.store.children kind j = some c ∧ ¬Deletes kind j t := by
  obtain ⟨a, rfl, _, hx⟩ := performs_attempt.mp hp
  have hn : ¬Deletes kind j [⟨.store call, a⟩] := by
    rintro ⟨_, hm⟩
    exact hd j (Call.store.inj (congrArg Exchange.call (List.mem_singleton.mp hm))).symm
  have hc : s'.store.children kind j = some c ↔ s.store.children kind j = some c := by
    rcases Scene.step_store hx with ⟨ha, _⟩ | ⟨_, rfl⟩
    · rw [← h, ha]
    · rfl
  simp [hc, hn]

theorem Spares.get (kind' : ChildKind) (k : Key) (operation resource : String) :
    (Program.attempt operation resource (.get kind' k)).Spares kind j c :=
  fun _ _ _ _ => attempt_spares (by simp) Iff.rfl

theorem Spares.create {wanted : Child} (hf : c.ForeignTo d)
    (howner : d.metadata.uid = some owner.uid)
    (hw : wanted.metadata.ownerReferences = some [owner]) (kind' : ChildKind) (space : String)
    (operation resource : String) :
    (Program.attempt operation resource (.create kind' space wanted)).Spares kind j c := by
  intro s t b s'
  refine attempt_spares (by simp) ?_
  rcases s.store.create_children kind' kind space wanted j with h | ⟨_, hnone, h⟩
  · exact h ▸ Iff.rfl
  · have hne : wanted.writtenTo s.store space ≠ c := by
      rintro rfl
      exact not_foreignTo_of_owner howner hw hf
    simp only [answer, h, hnone, Option.some.injEq, hne, reduceCtorEq]

theorem Spares.removePolicy (k : Key) : (removePolicy k).Spares kind j c := by
  intro s t b s' hp
  obtain ⟨a, rfl, _, hx⟩ := performs_attempt.mp hp
  have hdel : Deletes kind j [⟨.store (.deletePolicy k), a⟩] ↔
      (kind = .policy ∧ j = k) ∧ a = .ok true := by
    simp only [Deletes, List.mem_singleton, and_assoc]
    refine and_congr_right fun _ => ?_
    constructor
    · intro h
      cases h
      exact ⟨rfl, rfl⟩
    · rintro ⟨rfl, rfl⟩
      rfl
  rw [hdel]
  rcases Scene.step_store hx with ⟨ha, _⟩ | ⟨hr, rfl⟩
  · have hdone : s.store.deletePolicy k = (a, s'.store) := ha
    have hchild := s.store.deletePolicy_children k kind j
    have hanswer := s.store.deletePolicy_answer k
    rw [hdone] at hchild hanswer
    dsimp only at hchild hanswer
    rw [hchild, hanswer]
    by_cases hk : kind = .policy ∧ j = k
    · obtain ⟨rfl, rfl⟩ := hk
      cases hc : s.store.children .policy j <;> simp
    · simp [hk]
  · obtain ⟨e, rfl⟩ := hr.error rfl
    simp

end Program

theorem applyClaim_spares {wanted : Child} (hf : c.ForeignTo d)
    (howner : d.metadata.uid = some owner.uid) (space : String) :
    (applyClaim space owner wanted).Spares kind j c := by
  refine .andThen (.get _ _ _ _) fun live => ?_
  cases live with
  | none => exact .andThen (.create hf howner rfl _ _ _ _) fun _ => .done _
  | some live => exact .done _

theorem replace_spares {m : Managed} {space : String} {wanted live : Child} (hf : c.ForeignTo d)
    (howner : d.metadata.uid = some owner.uid)
    (hw : wanted.metadata.ownerReferences = some [owner]) {s : Store}
    (hlive : s.children (.managed m) (keyIn space wanted.metadata) = some live)
    (hl : ¬live.ForeignTo d) :
    (s.answer (.replace m space wanted)).2.children kind j = some c ↔
      s.children kind j = some c := by
  rcases s.replace_children m kind space wanted j with h | ⟨⟨rfl, rfl⟩, _, h⟩
  · exact h ▸ Iff.rfl
  · have hne : wanted.writtenTo s space ≠ c := by
      rintro rfl
      exact not_foreignTo_of_owner howner hw hf
    have hne' : live ≠ c := by
      rintro rfl
      exact hl hf
    simp only [answer, h, hlive, Option.some.injEq, hne, hne']

theorem applyChild_spares {m : Managed} {wanted : Child} (hf : c.ForeignTo d)
    (howner : d.metadata.uid = some owner.uid) (space : String) :
    (applyChild m space owner wanted).Spares kind j c := by
  intro s t b s' h
  rcases performs_andThen.mp h with ⟨e, he, _⟩ | ⟨found, t₁, t₂, u, rfl, hg, hr⟩
  · exact Spares.get _ _ _ _ s t _ s' he
  · have hget : u.store.children kind j = some c ↔
        s.store.children kind j = some c ∧ ¬Deletes kind j t₁ :=
      Spares.get _ _ _ _ s t₁ _ u hg
    obtain ⟨rfl, hx⟩ := performs_attempt_ok.mp hg
    obtain ⟨hu, hfound⟩ := Scene.step_get hx
    rw [deletes_append, not_or, ← and_assoc, ← hget]
    cases found with
    | none =>
      exact (Spares.create hf howner rfl _ _ _ _).andThen (fun _ => .done _) u t₂ b s' hr
    | some live =>
      dsimp only at hr
      split at hr
      · exact Spares.done _ u t₂ b s' hr
      · rename_i hown
        split at hr
        · exact Spares.done _ u t₂ b s' hr
        · have hl : ¬live.ForeignTo d := fun h => hown ((foreignTo_iff howner).mp h)
          -- the child that was read is still in its place when it is written over
          have hlive : u.store.children (.managed m) (keyIn space
              (Child.replacing m live (wanted.prepare owner)).metadata) = some live := by
            rw [hu]
            simpa [keyIn] using hfound live rfl
          have hrep : (u.store.answer (.replace m space
              (Child.replacing m live (wanted.prepare owner)))).2.children kind j = some c ↔
                u.store.children kind j = some c :=
            replace_spares hf howner (by simp) hlive hl
          rcases performs_andThen.mp hr with ⟨e, he, _⟩ | ⟨_, t₃, _, v, rfl, hw, hd⟩
          · exact attempt_spares (by simp) hrep he
          · obtain ⟨rfl, _, rfl⟩ := performs_done.mp hd
            rw [List.append_nil]
            exact attempt_spares (by simp) hrep hw

theorem synchronize_spares (hf : c.ForeignTo d) : (synchronize o d).Spares kind j c := by
  unfold synchronize
  split
  · exact .done _
  · rename_i image owner hpre
    have howner : d.metadata.uid = some owner.uid := uid_of_owner (prerequisites_owner hpre)
    refine .andThen ?_ fun _ => .andThen ?_ fun _ => .andThen ?_ fun _ => .andThen ?_ fun _ =>
      .done _
    · unfold synchronizeClaim
      split
      · exact applyClaim_spares hf howner _
      · exact .done _
    · unfold synchronizePolicy
      split
      · exact applyChild_spares hf howner _
      · exact .andThen (.removePolicy _) fun _ => .done _
    · exact applyChild_spares hf howner _
    · unfold synchronizeService
      split
      · exact applyChild_spares hf howner _
      · exact .done _

theorem not_deletes {t : List Exchange} (h : ∀ x ∈ t, ∀ k, x.call ≠ .store (.deletePolicy k)) :
    ¬Deletes kind j t := by
  rintro ⟨_, hm⟩
  exact h _ hm j rfl

theorem not_deletes_of_observes {t : List Exchange} (h : ∀ x ∈ t, x.call.Observes) :
    ¬Deletes kind j t := by
  refine not_deletes fun x hx k hk => ?_
  have ho := h x hx
  rw [hk] at ho
  exact ho

theorem not_deletes_of_recalls {t : List Exchange} (h : ∀ x ∈ t, x.call.Recalls) :
    ¬Deletes kind j t := by
  refine not_deletes fun x hx k hk => ?_
  have hr := h x hx
  rw [hk] at hr
  exact hr

theorem updateStatus_not_deletes {failure : Option OperatorError} {s s' : Scene}
    {t : List Exchange} {r : Except OperatorError Phase}
    (h : (updateStatus o d failure).Performs s t r s') : ¬Deletes kind j t := by
  rcases updateStatus_performs h with ⟨_, ht⟩ | ⟨new, a, t₁, u, rfl, ht₁, _⟩
  · exact not_deletes_of_observes ht
  · rw [deletes_append, not_or]
    exact ⟨not_deletes_of_observes ht₁, not_deletes (by simp)⟩

theorem updateStatus_spares {failure : Option OperatorError} :
    (updateStatus o d failure).Spares kind j c := by
  intro s t r s' h
  have hn : ¬Deletes kind j t := updateStatus_not_deletes h
  rcases updateStatus_performs h with ⟨hs, ht⟩ | ⟨new, a, t₁, u, rfl, ht₁, _, hu, hx⟩
  · simp [hs, hn]
  · have hs' : s'.store.children = u.store.children := by
      rcases Scene.step_store hx with ⟨ha, _⟩ | ⟨_, rfl⟩
      · have hk := u.store.answer_children
          (c := .updateStatus d.key d.metadata.resourceVersion new) trivial
        rwa [ha] at hk
      · rfl
    simp [hs', hu, hn]

theorem workOn_spares (hf : c.ForeignTo d) : (workOn o d).Spares kind j c :=
  (synchronize_spares hf).bind fun _ => updateStatus_spares.bind fun _ => .done _

/-- A pass neither writes over a child that is foreign to the distribution that it finds, nor makes
one; a policy it may delete. -/
theorem pass_spares {k : Key} {s s' : Scene} {t : List Exchange}
    {r : Except OperatorError Outcome} (h : (pass o k).Performs s t r s')
    (hf : ∀ d, s.store.distributions k = some d → c.ForeignTo d) :
    s'.store.children kind j = some c ↔
      s.store.children kind j = some c ∧ ¬Deletes kind j t := by
  have hread : ∀ a, ¬Deletes kind j [⟨.store (.getDistribution k), a⟩] := fun a =>
    not_deletes (by simp)
  rcases pass_performs h with
    ⟨hs, a, t₁, rfl, ht₁⟩ | ⟨d, t₁, t₂, t₃, u, v, rfl, ht, hfound, hu, hw, hs⟩
  · rw [hs, ← List.singleton_append, deletes_append]
    simp [hread a, not_deletes_of_recalls ht₁]
  · have hd : c.ForeignTo d := hf d hfound
    have ht₁ : ¬Deletes kind j t₁ := not_deletes_of_recalls fun x hx => ht x (by simp [hx])
    have ht₃ : ¬Deletes kind j t₃ := not_deletes_of_recalls fun x hx => ht x (by simp [hx])
    rw [hs, workOn_spares hd u t₂ r v hw, hu, ← List.singleton_append]
    simp only [deletes_append, hread, ht₁, ht₃, false_or, or_false]

/-- A pass deletes only policies, only where they are not asked for, and only under the name that
goes with the distribution. -/
theorem pass_deletes {k : Key} {s s' : Scene} {t : List Exchange}
    {r : Except OperatorError Outcome} (h : (pass o k).Performs s t r s') (hdel : Deletes kind j t) :
    o.flags.networkPolicy = false ∧
      ∃ d, s.store.distributions k = some d ∧ j = d.childKey .policy := by
  have hread : ∀ a, ¬Deletes kind j [⟨.store (.getDistribution k), a⟩] := fun a =>
    not_deletes (by simp)
  rcases pass_performs h with ⟨_, a, t₁, rfl, ht₁⟩ | ⟨d, t₁, t₂, t₃, u, v, rfl, ht, hfound, _, hw, _⟩
  · rw [← List.singleton_append, deletes_append] at hdel
    exact (hdel.elim (hread a) (not_deletes_of_recalls ht₁)).elim
  · have ht₁ : ¬Deletes kind j t₁ := not_deletes_of_recalls fun x hx => ht x (by simp [hx])
    have ht₃ : ¬Deletes kind j t₃ := not_deletes_of_recalls fun x hx => ht x (by simp [hx])
    obtain ⟨synced, written, t₄, t₅, w, rfl, hsync, hwrite, _⟩ := workOn_performs hw
    have ht₅ : ¬Deletes kind j t₅ := updateStatus_not_deletes hwrite
    rw [← List.singleton_append] at hdel
    simp only [deletes_append, hread, ht₁, ht₃, ht₅, false_or, or_false] at hdel
    obtain ⟨hflag, hj⟩ := (synchronize_within o d).of_dialogue hsync.dialogue _ hdel.2
    exact ⟨hflag, d, hfound, hj⟩

/-- Whether a pass took away the policy of its distribution, with policies not asked for. -/
def PassRecord.RemovesPolicy (p : PassRecord) (kind : ChildKind) (j : Key) : Prop :=
  kind = .policy ∧ p.operator.flags.networkPolicy = false ∧
    (∃ d, p.Finds d ∧ j = d.childKey .policy) ∧
    (⟨.store (.deletePolicy j), .ok true⟩ : Exchange) ∈ p.exchanges

theorem removesPolicy_iff {p : PassRecord} (h : p.Made) :
    p.RemovesPolicy kind j ↔ Deletes kind j p.exchanges := by
  constructor
  · rintro ⟨hk, _, _, hm⟩
    exact ⟨hk, hm⟩
  · intro hd
    obtain ⟨hflag, d, hfound, hj⟩ := pass_deletes h hd
    exact ⟨hd.1, hflag, ⟨d, hfound, hj⟩, hd.2⟩

/-- In any run of passes, on whichever distributions and with whichever flags, a child that is
foreign to all distributions that the passes find stays as it is, unless it is a policy that has the
name of one of them and is deleted by a pass without policies. -/
theorem run_spares_foreign {others : Scene → Scene → Prop} {s s' : Scene} {ps : List PassRecord}
    (h : Scene.Run others s ps s')
    (hothers : ∀ u u', others u u' → u'.store.children kind j = u.store.children kind j)
    (hf : ∀ p ∈ ps, ∀ d, p.Finds d → c.ForeignTo d) (hc : s.store.children kind j = some c) :
    s'.store.children kind j = some c ↔ ¬∃ p ∈ ps, p.RemovesPolicy kind j := by
  induction h with
  | start => simpa using hc
  | @pass ps p _ hp ih =>
    have hu := ih fun q hq => hf q (List.mem_append_left _ hq)
    have hlast : ∀ d, p.Finds d → c.ForeignTo d := hf p (by simp)
    rw [pass_spares hp hlast, hu, ← removesPolicy_iff hp]
    constructor
    · rintro ⟨hno, hlast⟩ ⟨q, hq, hr⟩
      rcases List.mem_append.mp hq with hq | hq
      · exact hno ⟨q, hq, hr⟩
      · exact hlast (List.mem_singleton.mp hq ▸ hr)
    · intro hno
      exact ⟨fun ⟨q, hq, hr⟩ => hno ⟨q, List.mem_append_left _ hq, hr⟩,
        fun hr => hno ⟨p, by simp, hr⟩⟩
  | between _ ho ih => rw [hothers _ _ ho, ih hf]

def Rehearsal.beside (kind : ChildKind) (c : Child) : Rehearsal :=
  { Rehearsal.start .epoch with
    store := (Store.empty.addDistribution .sample).addChild kind "ai" c }

def Child.foreignSample (name : String) : Child :=
  { Child.blank with
    metadata := { ObjectMeta.blank with
      name := some name
      space := some "ai"
      ownerReferences := some [⟨"v1", "ConfigMap", "other", "uid-other", some true, none⟩] } }

theorem foreignSample_foreign {name : String} {d : Distribution}
    (h : d.metadata.uid = some "uid-demo") : (Child.foreignSample name).ForeignTo d := by
  refine ⟨_, List.mem_singleton_self _, rfl, ?_⟩
  rw [h]
  decide

theorem sample_foreign {kind : ChildKind} {c : Child} {d : Distribution} {name : String}
    (h : (PassRecord.sample (.beside kind c)).Finds d) : (Child.foreignSample name).ForeignTo d := by
  refine foreignSample_foreign ?_
  cases h
  rfl

theorem run_spares_foreign_deployment :
    (PassRecord.sample (.beside .deployment (.foreignSample "demo"))).after.store.children
      .deployment ⟨"ai", "demo"⟩ = some (.foreignSample "demo") := by
  refine (run_spares_foreign (sample_run (fun _ _ => False) _) (fun _ _ h => h.elim)
    (fun p hp d hd => ?_) rfl).mpr ?_
  · rw [List.mem_singleton.mp hp] at hd
    exact sample_foreign hd
  · rintro ⟨_, _, hk, _⟩
    cases hk

theorem pass_takes_foreign_policy : ¬∀ o k s t r s' d kind j c,
    (pass o k).Performs s t r s' → s.store.distributions k = some d → c.ForeignTo d →
      s.store.children kind j = some c → s'.store.children kind j = some c := by
  intro h
  have hp := (Rehearsal.beside .policy (.foreignSample "demo-network-policy")).performs
    (pass .sample ⟨"ai", "demo"⟩)
  have hkept := h _ _ _ _ _ _ _ .policy ⟨"ai", "demo-network-policy"⟩ _ hp rfl
    (foreignSample_foreign rfl) rfl
  exact absurd hkept (by decide +kernel)

end DistributionOperator
