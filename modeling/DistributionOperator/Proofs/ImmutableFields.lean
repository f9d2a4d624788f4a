import DistributionOperator.Proofs.LabelSelectors
import DistributionOperator.Proofs.LastSpec

/-! Fields that the cluster lets nobody change. Passes keep them, whatever is asked for by then:
a claim is let be, a deployment goes on selecting its pods by all their labels, and a service has
the addresses that it was given. -/

namespace DistributionOperator

open Program Store Operator

/-- Whether two distributions have one name in one space, whatever they ask for and whether or not
the one came after the other. -/
structure Distribution.Namesake (d e : Distribution) : Prop where
  name : e.metadata.name = d.metadata.name
  space : e.metadata.space = d.metadata.space

namespace Distribution.Namesake

variable {d e : Distribution} {name : String}

theorem sameAs (h : d.Namesake e) :
    SameAs { d with metadata := { d.metadata with uid := e.metadata.uid } } e :=
  ⟨h.name, h.space, rfl⟩

theorem childKey_eq (h : d.Namesake e) (hn : e.metadata.name = some name) (kind : ChildKind) :
    e.childKey kind = d.childKey kind :=
  h.sameAs.childKey_eq (h.name ▸ hn) kind

theorem selectorLabels_eq (h : d.Namesake e) (hn : e.metadata.name = some name) :
    e.selectorLabels = d.selectorLabels := by
  have hname : e.name = d.name := h.sameAs.name_eq (h.name ▸ hn)
  simp only [selectorLabels, hname]

end Distribution.Namesake

/-- What becomes of a child in a pass. -/
def ChildKind.Keeps : ChildKind → Child → Child → Prop
  | .claim, c, c' => c' = c
  | .managed .deployment, c, c' => c'.selector = c.selector ∧ c'.podLabels = c.podLabels
  | .managed .service, c, c' => ∀ l, c.spec = some l → ∃ l', c'.spec = some l' ∧
      ∀ k ∈ Child.addressMembers, l'.member? k = l.member? k
  | .managed .policy, _, _ => True

/-- What may become of a child by the hands of others. They may give an address to a service that
has none. -/
def ChildKind.Allows : ChildKind → Child → Child → Prop
  | .claim, c, c' => c'.spec = c.spec
  | .managed .deployment, c, c' => c'.selector = c.selector ∧ c'.podLabels = c.podLabels
  | .managed .service, c, c' => ∀ l, c.spec = some l → ∃ l', c'.spec = some l' ∧
      ∀ k ∈ Child.addressMembers, ∀ a, l.member? k = some a → l'.member? k = some a
  | .managed .policy, _, _ => True

namespace ChildKind

variable {kind : ChildKind} {c c' c'' : Child}

theorem Keeps.refl (kind : ChildKind) (c : Child) : kind.Keeps c c := by
  rcases kind with _ | m
  · rfl
  · cases m with
    | deployment => exact ⟨rfl, rfl⟩
    | service => exact fun l hl => ⟨l, hl, fun _ _ => rfl⟩
    | policy => trivial

theorem Keeps.allows (h : kind.Keeps c c') : kind.Allows c c' := by
  rcases kind with _ | m
  · exact congrArg Child.spec h
  · cases m with
    | deployment => exact h
    | service =>
      intro l hl
      obtain ⟨l', hl', hkept⟩ := h l hl
      exact ⟨l', hl', fun k hk a ha => (hkept k hk).trans ha⟩
    | policy => trivial

theorem Allows.refl (kind : ChildKind) (c : Child) : kind.Allows c c := (Keeps.refl kind c).allows

theorem Allows.trans (h : kind.Allows c c') (h' : kind.Allows c' c'') : kind.Allows c c'' := by
  rcases kind with _ | m
  · exact Eq.trans h' h
  · cases m with
    | deployment => exact ⟨h'.1.trans h.1, h'.2.trans h.2⟩
    | service =>
      intro l hl
      obtain ⟨l', hl', hkept⟩ := h l hl
      obtain ⟨l'', hl'', hkept'⟩ := h' l' hl'
      exact ⟨l'', hl'', fun k hk a ha => hkept' k hk a (hkept k hk a ha)⟩
    | policy => trivial

end ChildKind

/-- Whether the children of a distribution that must not go are there later on, and are then so
related to what they were. Policies come and go. -/
def Distribution.Carries (d : Distribution) (R : ChildKind → Child → Child → Prop)
    (s s' : Store) : Prop :=
  ∀ kind, kind ≠ .policy → ∀ c ∈ s.children kind (d.childKey kind),
    ∃ c' ∈ s'.children kind (d.childKey kind), R kind c c'

namespace Distribution.Carries

variable {d : Distribution} {R R' : ChildKind → Child → Child → Prop} {s s' s'' : Store}

theorem of_children_eq (h : s'.children = s.children) (hr : ∀ kind c, R kind c c) :
    d.Carries R s s' := by
  intro kind _ c hc
  exact ⟨c, h ▸ hc, hr kind c⟩

theorem mono (h : d.Carries R s s') (hr : ∀ kind c c', R kind c c' → R' kind c c') :
    d.Carries R' s s' := by
  intro kind hk c hc
  obtain ⟨c', hc', hrel⟩ := h kind hk c hc
  exact ⟨c', hc', hr kind c c' hrel⟩

theorem trans (h : d.Carries R s s') (h' : d.Carries R s' s'')
    (hr : ∀ kind c c' c'', R kind c c' → R kind c' c'' → R kind c c'') : d.Carries R s s'' := by
  intro kind hk c hc
  obtain ⟨c', hc', hrel⟩ := h kind hk c hc
  obtain ⟨c'', hc'', hrel'⟩ := h' kind hk c' hc'
  exact ⟨c'', hc'', hr kind c c' c'' hrel hrel'⟩

end Distribution.Carries

/-- Whether the deployment, if there is one, selects the pods of the distribution. -/
def Distribution.Selecting (d : Distribution) (s : Store) : Prop :=
  ∀ c ∈ s.children .deployment (d.childKey .deployment), c.SelectsPods d.selectorLabels

variable {o : Operator} {d e : Distribution} {image : String} {owner : OwnerReference}
  {kind : ChildKind} {c c' : Option Child} {w : Child} {r : Except OperatorError Applied}

theorem wanted_selectsPods (h : o.wanted d image owner .deployment = some w) :
    w.SelectsPods d.selectorLabels := by
  obtain ⟨_, rfl⟩ := wanted_managed h
  have hbuilt := d.deployment_selectsPods image
  exact ⟨hbuilt.selector, hbuilt.podLabels⟩

theorem Operator.Settles.keeps (h : o.Settles d image owner kind c r c') (hk : kind ≠ .policy)
    (hsel : kind = .deployment → ∀ x ∈ c, x.SelectsPods d.selectorLabels) :
    ∀ x ∈ c, ∃ x' ∈ c', kind.Keeps x x' := by
  intro x hx
  cases h with
  | failed | idle | kept => exact ⟨x, hx, .refl kind x⟩
  | removed _ _ hp => exact absurd hp hk
  | created => cases hx
  | updated m live w version hm hw =>
    subst hm
    cases hx
    refine ⟨_, rfl, ?_⟩
    cases m with
    | deployment =>
      have hnew := wanted_selectsPods hw
      have hold := hsel rfl x rfl
      exact ⟨hnew.selector.trans hold.selector.symm, hnew.podLabels.trans hold.podLabels.symm⟩
    | service =>
      intro l hl
      obtain ⟨members, hmembers⟩ := o.specFor_object d image .service
      have hspec : w.spec = some (.object members) := by rw [wanted_spec hw, hmembers]
      obtain ⟨members', hspec', hmember⟩ := Child.keepAddresses_members hspec hl
      refine ⟨_, hspec', fun k hk => ?_⟩
      rw [hmember, if_pos hk]
    | policy => exact absurd rfl hk

theorem Operator.Settles.selecting (h : o.Settles d image owner .deployment c r c')
    (hsel : ∀ x ∈ c, x.SelectsPods d.selectorLabels) :
    ∀ x ∈ c', x.SelectsPods d.selectorLabels := by
  cases h with
  | failed | idle | kept => exact hsel
  | removed _ _ hp => cases hp
  | created w version hw =>
    intro x hx
    cases hx
    have hnew := wanted_selectsPods hw
    exact ⟨hnew.selector, hnew.podLabels⟩
  | updated m live w version hm hw =>
    intro x hx
    cases hx
    obtain rfl := ChildKind.managed.inj hm
    have hnew := wanted_selectsPods hw
    exact ⟨hnew.selector, hnew.podLabels⟩

section Runs

variable {p : PassRecord} {ps qs : List PassRecord} {others : Scene → Scene → Prop}
  {s u s' : Scene}

/-- What a pass does to a child is done by the stage of its kind. -/
theorem pass_settles (h : p.Made) (hsame : ∀ e, p.Finds e → d.Namesake e) :
    p.after.store.children = p.before.store.children ∨
      ∃ e image owner, e.selectorLabels = d.selectorLabels ∧ ∀ kind,
        p.after.store.children kind (d.childKey kind) =
            p.before.store.children kind (d.childKey kind) ∨
          ∃ a, p.operator.Settles e image owner kind
            (p.before.store.children kind (d.childKey kind)) (.ok a)
            (p.after.store.children kind (d.childKey kind)) := by
  rcases pass_synchronizes h with ⟨hs, _⟩ | ⟨e, r, t, u, v, hsync⟩
  · exact .inl hs
  · cases hpre : p.operator.prerequisites e with
    | error err =>
      have hperforms := hsync.performs
      simp only [synchronize, hpre] at hperforms
      obtain ⟨_, _, rfl⟩ := performs_done.mp hperforms
      exact .inl (by rw [hsync.after, hsync.before])
    | ok found =>
      obtain ⟨image, owner⟩ := found
      have he : d.Namesake e := hsame e hsync.finds
      obtain ⟨name, hn⟩ := name_of_owner (prerequisites_owner hpre)
      refine .inr ⟨e, image, owner, he.selectorLabels_eq hn, fun kind => ?_⟩
      rw [← he.childKey_eq hn kind]
      rcases hsync.settles hpre kind with ⟨hs, _⟩ | ⟨a, ha, _⟩
      · exact .inl hs
      · exact .inr ⟨a, ha⟩

theorem pass_keeps (h : p.Made) (hsame : ∀ e, p.Finds e → d.Namesake e)
    (hsel : d.Selecting p.before.store) :
    d.Carries ChildKind.Keeps p.before.store p.after.store ∧ d.Selecting p.after.store := by
  rcases pass_settles h hsame with hs | ⟨e, image, owner, hlabels, hkinds⟩
  · refine ⟨.of_children_eq hs ChildKind.Keeps.refl, ?_⟩
    rwa [Distribution.Selecting, hs]
  · constructor
    · intro kind hk c hc
      rcases hkinds kind with hs | ⟨a, ha⟩
      · exact ⟨c, hs ▸ hc, .refl kind c⟩
      · refine ha.keeps hk (fun hd => ?_) c hc
        subst hd
        exact hlabels ▸ hsel
    · rcases hkinds .deployment with hs | ⟨a, ha⟩
      · rwa [Distribution.Selecting, hs]
      · rw [Distribution.Selecting, ← hlabels] at hsel ⊢
        exact ha.selecting hsel

/-- Others make no deployment of their own, and leave to the one that is there what it selects. -/
def Distribution.SparesSelection (d : Distribution) (s s' : Store) : Prop :=
  ∀ c' ∈ s'.children .deployment (d.childKey .deployment),
    ∃ c ∈ s.children .deployment (d.childKey .deployment), ChildKind.Allows .deployment c c'

theorem Distribution.SparesSelection.selecting {s s' : Store} (h : d.SparesSelection s s')
    (hs : d.Selecting s) : d.Selecting s' := by
  intro c' hc'
  obtain ⟨c, hc, hselector, hpods⟩ := h c' hc'
  have hsel := hs c hc
  exact ⟨hselector.trans hsel.selector, hpods.trans hsel.podLabels⟩

theorem run_keeps (h : Scene.Run others s ps s')
    (ho : ∀ v v', others v v' → d.SparesSelection v.store v'.store)
    (hsame : ∀ q ∈ ps, ∀ e, q.Finds e → d.Namesake e) (hstart : d.Selecting s.store) :
    d.Selecting s'.store ∧
      ∀ q ∈ ps, d.Carries ChildKind.Keeps q.before.store q.after.store := by
  induction h with
  | start => exact ⟨hstart, by simp⟩
  | pass _ hp ih =>
    obtain ⟨hsel, hall⟩ := ih fun q hq => hsame q (List.mem_append_left _ hq)
    obtain ⟨hkeeps, hafter⟩ := pass_keeps hp (hsame _ (by simp)) hsel
    refine ⟨hafter, fun q hq => ?_⟩
    rcases List.mem_append.mp hq with hq | hq
    · exact hall q hq
    · rwa [List.mem_singleton.mp hq]
  | between _ hu ih =>
    obtain ⟨hsel, hall⟩ := ih hsame
    exact ⟨(ho _ _ hu).selecting hsel, hall⟩

theorem run_carries (h : Scene.Run others s ps s')
    (hkeeps : ∀ q ∈ ps, d.Carries ChildKind.Keeps q.before.store q.after.store)
    (ho : ∀ v v', others v v' → d.Carries ChildKind.Allows v.store v'.store) :
    d.Carries ChildKind.Allows s.store s'.store := by
  induction h with
  | start => exact .of_children_eq rfl ChildKind.Allows.refl
  | pass _ _ ih =>
    have hbefore := ih fun q hq => hkeeps q (List.mem_append_left _ hq)
    have hpass := (hkeeps _ (List.mem_append_right _ List.mem_cons_self)).mono
      fun _ _ _ hk => ChildKind.Keeps.allows hk
    exact hbefore.trans hpass fun _ _ _ _ => ChildKind.Allows.trans
  | between _ hu ih => exact (ih hkeeps).trans (ho _ _ hu) fun _ _ _ _ => ChildKind.Allows.trans

/-- However often spec and flags change and whatever fails, no pass changes a claim, the addresses
of a service or the selector of a deployment, and a deployment that passes made selects its pods by
all their labels. What others do not change either stays so over any stretch of a run. -/
theorem run_keeps_immutable (h : Scene.Run others s ps u) (h' : Scene.Run others u qs s')
    (ho : ∀ v v', others v v' → d.SparesSelection v.store v'.store)
    (hsame : ∀ q ∈ ps ++ qs, ∀ e, q.Finds e → d.Namesake e)
    (hstart : s.store.children .deployment (d.childKey .deployment) = none) :
    (∀ q ∈ ps ++ qs, d.Carries ChildKind.Keeps q.before.store q.after.store) ∧
      (∀ c ∈ s'.store.children .deployment (d.childKey .deployment), ∃ labels,
        c.SelectsPods labels) ∧
      ((∀ v v', others v v' → d.Carries ChildKind.Allows v.store v'.store) →
        d.Carries ChildKind.Allows u.store s'.store) := by
  have hnone : d.Selecting s.store := by
    intro c hc
    rw [hstart] at hc
    cases hc
  obtain ⟨hmiddle, hfirst⟩ :=
    run_keeps h ho (fun q hq => hsame q (List.mem_append_left _ hq)) hnone
  obtain ⟨hend, hsecond⟩ :=
    run_keeps h' ho (fun q hq => hsame q (List.mem_append_right _ hq)) hmiddle
  refine ⟨fun q hq => ?_, fun c hc => ⟨_, hend c hc⟩, run_carries h' hsecond⟩
  rcases List.mem_append.mp hq with hq | hq
  · exact hfirst q hq
  · exact hsecond q hq

/-! A distribution with storage and a port, and what it asks for later on: more storage, and no
port. -/

def Distribution.resized : Distribution :=
  { Distribution.full with
    spec := ⟨2, { Server.blank with
      choice := ⟨some "starter", none⟩
      storage := some ⟨some "20Gi", none⟩ }⟩ }

def Rehearsal.filled : Rehearsal := (Rehearsal.start .epoch).edited .full

def Rehearsal.refilled : Rehearsal := filled.passed.edited .resized

theorem filled_finds (h : (PassRecord.sample .filled).Finds e) : Distribution.full.Namesake e := by
  obtain ⟨⟨hname, hspace, _⟩, _⟩ := edited_finds h rfl
  exact ⟨hname, hspace⟩

theorem refilled_finds (h : (PassRecord.sample .refilled).Finds e) :
    Distribution.full.Namesake e := by
  obtain ⟨⟨hname, hspace, _⟩, _⟩ := edited_finds h rfl
  exact ⟨hname, hspace⟩

theorem edited_run_after (r : Rehearsal) (d : Distribution) :
    Scene.Run (fun v v' => v'.store.children = v.store.children) (PassRecord.sample r).after
      [PassRecord.sample (r.passed.edited d)] (PassRecord.sample (r.passed.edited d)).after := by
  have hedited : Scene.Run (fun v v' => v'.store.children = v.store.children)
      (PassRecord.sample r).after [] (PassRecord.sample (r.passed.edited d)).before :=
    .between (.start _) rfl
  exact hedited.pass (sample_made _)

theorem refilled_run : Scene.Run (fun v v' => v'.store.children = v.store.children)
    (PassRecord.sample .filled).after [PassRecord.sample .refilled]
    (PassRecord.sample .refilled).after := by
  rw [Rehearsal.refilled]
  exact edited_run_after .filled .resized

theorem run_keeps_immutable_resized :
    (∀ kind, kind ≠ .policy → ((PassRecord.sample .filled).after.store.children kind
        (Distribution.full.childKey kind)).isSome = true) ∧
      Distribution.full.Carries ChildKind.Allows (PassRecord.sample .filled).after.store
        (PassRecord.sample .refilled).after.store ∧
      ∀ c ∈ (PassRecord.sample .refilled).after.store.children .deployment
        (Distribution.full.childKey .deployment), ∃ labels, c.SelectsPods labels := by
  have hmade : ∀ kind, kind ≠ .policy → ((PassRecord.sample .filled).after.store.children kind
      (Distribution.full.childKey kind)).isSome = true := by
    intro kind hk
    rcases kind with _ | m
    · decide +kernel
    · cases m with
      | deployment => decide +kernel
      | service => decide +kernel
      | policy => exact absurd rfl hk
  have hsame : ∀ q ∈ [PassRecord.sample .filled] ++ [PassRecord.sample .refilled], ∀ e,
      q.Finds e → Distribution.full.Namesake e := by
    intro q hq e he
    rcases List.mem_append.mp hq with hq | hq
    · rw [List.mem_singleton.mp hq] at he
      exact filled_finds he
    · rw [List.mem_singleton.mp hq] at he
      exact refilled_finds he
  have hspares : ∀ v v' : Scene, v'.store.children = v.store.children →
      Distribution.full.SparesSelection v.store v'.store := by
    intro v v' hv c hc
    exact ⟨c, hv ▸ hc, .refl .deployment c⟩
  obtain ⟨_, hselects, hcarries⟩ :=
    run_keeps_immutable (sample_run _ .filled) refilled_run hspares hsame rfl
  exact ⟨hmade, hcarries fun v v' hv => .of_children_eq hv ChildKind.Allows.refl, hselects⟩

end Runs

end DistributionOperator
