import DistributionOperator.Proofs.AppliedDigests
import DistributionOperator.Proofs.ChildPasses
import DistributionOperator.Proofs.UndisturbedRuns

/-! Children follow the last spec. However many passes there were, over whichever specs and with
whichever failures, once one has synchronized the children they are what it would have made from
nothing. The digest carries the argument: a child that is let be has the digest of what is wanted,
and a digest tells the labels and the spec that it was taken of. -/

namespace DistributionOperator

open Program Store Operator

/-- Whether two distributions are the same one, whatever they ask for. -/
structure Distribution.SameAs (d e : Distribution) : Prop where
  name : e.metadata.name = d.metadata.name
  space : e.metadata.space = d.metadata.space
  uid : e.metadata.uid = d.metadata.uid

namespace Distribution.SameAs

variable {d e : Distribution} {name : String}

theorem name_eq (h : d.SameAs e) (hn : d.metadata.name = some name) : e.name = d.name := by
  simp only [Distribution.name, ObjectMeta.anyName, h.name, hn, Option.some_or]

theorem space_eq (h : d.SameAs e) : e.space = d.space := by
  simp only [Distribution.space, ObjectMeta.spaceOrDefault, h.space]

theorem childKey_eq (h : d.SameAs e) (hn : d.metadata.name = some name) (kind : ChildKind) :
    e.childKey kind = d.childKey kind := by
  have hname := h.name_eq hn
  have hspace := h.space_eq
  rcases kind with _ | m
  · simp only [childKey, claimName, hname, hspace]
  · cases m <;> simp only [childKey, serviceName, policyName, h.name, hname, hspace]

theorem owner_eq (h : d.SameAs e) : e.owner = d.owner := by
  simp only [owner, ownerReference?, h.name, h.uid]

end Distribution.SameAs

theorem name_of_owner {d : Distribution} {owner : OwnerReference} (h : d.owner = .ok owner) :
    ∃ name, d.metadata.name = some name := by
  cases hn : d.metadata.name with
  | none =>
    unfold Distribution.owner Distribution.ownerReference? at h
    simp [hn] at h
  | some name => exact ⟨name, rfl⟩

variable {o : Operator} {d e : Distribution} {image : String} {owner : OwnerReference}
  {m : Managed} {w w' live : Child}

theorem prerequisites_image (h : o.prerequisites d = .ok (image, owner)) :
    o.config.catalog.resolve d.spec.server.choice = .ok image := by
  have howner := prerequisites_owner h
  unfold Operator.prerequisites at h
  cases hi : o.config.catalog.resolve d.spec.server.choice with
  | error e =>
    rw [hi] at h
    cases h
  | ok image' =>
    rw [hi, howner] at h
    cases h
    rfl

/-! The content of wanted children. -/

/-- The text that the digest of a wanted child is taken of. -/
def Child.hashed (c : Child) : String := wantedText c.metadata.labels c.spec

namespace Operator

theorem wanted_spec (h : o.wanted d image owner (.managed m) = some w) :
    w.spec = some (o.specFor d image m) := by
  rw [(wanted_managed h).2]
  rfl

theorem wanted_annotations (h : o.wanted d image owner (.managed m) = some w) :
    w.metadata.annotations = some (StringMap.empty.insert Child.hashAnnotation
      (Child.appliedHash w.metadata.labels w.spec)) := by
  rw [(wanted_managed h).2]
  rfl

theorem wanted_digest (h : o.wanted d image owner (.managed m) = some w) :
    w.metadata.annotation? Child.hashAnnotation =
      some (Sha256.hex w.hashed) := by
  simp only [ObjectMeta.annotation?, wanted_annotations h, Option.bind_some, StringMap.get?_insert,
    if_true]
  rfl

end Operator

/-- Wanted children with the same digest are the same but for their place. -/
theorem content_eq_of_digest {o' : Operator} {image' : String}
    (h : o.wanted d image owner (.managed m) = some w)
    (h' : o'.wanted e image' owner (.managed m) = some w')
    (hhash : Sha256.hex w.hashed = Sha256.hex w'.hashed → w.hashed = w'.hashed)
    (heq : w.metadata.annotation? Child.hashAnnotation =
      w'.metadata.annotation? Child.hashAnnotation) : w.content = w'.content := by
  rw [wanted_digest h, wanted_digest h'] at heq
  have htext := hhash (Option.some.inj heq)
  have hparts : w.metadata.labels = w'.metadata.labels ∧ w.spec = w'.spec := by
    rw [Child.hashed, Child.hashed, wanted_spec h, wanted_spec h'] at htext
    rw [wanted_spec h, wanted_spec h']
    obtain ⟨hlabels, hspec⟩ := Child.wantedText_inj (o.specFor_tidy d image m).whole
      (o'.specFor_tidy e image' m).whole htext
    exact ⟨hlabels, congrArg some hspec⟩
  obtain ⟨hlabels, hspec⟩ := hparts
  simp only [Child.content, wanted_annotations h, wanted_annotations h', wanted_ownerReferences h,
    wanted_ownerReferences h', hlabels, hspec]

/-- There are no addresses to keep where a spec has none. -/
theorem keepAddresses_of_unaddressed {j l : Json} (hw : w.spec = some j) (hl : live.spec = some l)
    (hj : j.Unaddressed) (hlive : l.Unaddressed) : Child.keepAddresses live w = w := by
  have hip : Child.takeMember l "clusterIP" j = j := Json.takeMember_of_absent hlive.1 hj.1
  have hips : Child.takeMember l "clusterIPs" j = j := Json.takeMember_of_absent hlive.2 hj.2
  simp only [Child.keepAddresses, hw, hl, hip, hips]
  cases w
  cases hw
  rfl

theorem content_replacing {o' : Operator} {image' : String} {version : String}
    (h : o.wanted d image owner (.managed m) = some w)
    (h' : o'.wanted e image' owner (.managed m) = some w') (hlive : live.content = w'.content) :
    ((Child.replacing m live w).storedAs d.space version).content = w.content := by
  cases m with
  | deployment => rfl
  | policy => rfl
  | service =>
    have hspec : live.spec = some (o'.specFor e image' .service) := by
      rw [← wanted_spec h']
      exact congrArg Child.Content.spec hlive
    have hkeep : Child.keepAddresses live w = w :=
      keepAddresses_of_unaddressed (wanted_spec h) hspec (o.specFor_unaddressed d image .service)
        (o'.specFor_unaddressed e image' .service)
    simp only [Child.replacing, hkeep]
    rfl

/-- Whether a child is as some spec wants it, of whichever distribution. -/
def Child.IsMade (owner : OwnerReference) (m : Managed) (c : Child) : Prop :=
  ∃ (o : Operator) (d : Distribution) (image : String) (w : Child),
    o.wanted d image owner (.managed m) = some w ∧ c.content = w.content

/-- A stage that ends well makes its child as it is wanted, or finds one with the digest of what is
wanted. -/
theorem Operator.Settles.made {c c' : Option Child} {a : Applied}
    (h : o.Settles d image owner (.managed m) c (.ok a) c')
    (hw : o.wanted d image owner (.managed m) = some w) (hc : ∀ x ∈ c, x.IsMade owner m) :
    ∃ x, c' = some x ∧ (x.content = w.content ∨ c = some x ∧
        w.metadata.annotation? Child.hashAnnotation =
          x.metadata.annotation? Child.hashAnnotation) := by
  cases h.meets hw with
  | kept live hl =>
    exact ⟨live, rfl, .inr ⟨rfl, (Child.inLine_iff.mp (hl (by simp)).2).2.2.2⟩⟩
  | created version => exact ⟨_, rfl, .inl rfl⟩
  | updated m' live version hk _ =>
    cases hk
    obtain ⟨o', e, image', w', hw', hcontent⟩ := hc live rfl
    exact ⟨_, rfl, .inl (content_replacing hw hw' hcontent)⟩

theorem Operator.Settles.unwanted {c c' : Option Child} {a : Applied} {kind : ChildKind}
    (h : o.Settles d image owner kind c (.ok a) c') (hw : o.wanted d image owner kind = none) :
    (∀ x ∈ c', x ∈ c) ∧ (kind = .policy → c' = none) := by
  cases h with
  | idle _ _ hc => exact ⟨fun _ hx => hx, hc⟩
  | removed _ _ _ => exact ⟨by simp, fun _ => rfl⟩
  | kept live v hv _ =>
    rw [hw] at hv
    cases hv
  | created v version hv =>
    rw [hw] at hv
    cases hv
  | updated m live v version _ hv _ =>
    rw [hw] at hv
    cases hv

theorem Operator.Settles.of_none {c : Option Child} {a : Applied} {kind : ChildKind}
    (h : o.Settles d image owner kind none (.ok a) c)
    (hw : o.wanted d image owner kind = some w) :
    ∃ version, c = some (w.storedAs d.space version) := by
  cases h.meets hw with
  | created version => exact ⟨version, rfl⟩

/-! Claims: one is made once. -/

def Exchange.madeClaim? : Exchange → Option Child
  | ⟨.store (.create .claim _ _), .ok c⟩ => some c
  | _ => none

theorem madeClaim?_keepsChildren {x : Exchange} (h : x.call.KeepsChildren) :
    x.madeClaim? = none := by
  obtain ⟨c, a⟩ := x
  cases c with
  | store c =>
    cases c with
    | create kind space c => exact h.elim
    | _ => rfl
  | _ => rfl

theorem step_claim {s s' : Scene} {x : Exchange} (h : s.Step x s')
    (hx : o.SyncCall d x.call ∨ x.call.KeepsChildren) :
    s'.store.children .claim (d.childKey .claim) =
      (s.store.children .claim (d.childKey .claim)).or x.madeClaim? := by
  have hkeeps : x.call.KeepsChildren → s'.store.children .claim (d.childKey .claim) =
      (s.store.children .claim (d.childKey .claim)).or x.madeClaim? := by
    intro hk
    rw [madeClaim?_keepsChildren hk, Option.or_none, Scene.step_keepsChildren h hk]
  rcases hx with hx | hx
  · obtain ⟨c, a⟩ := x
    cases c with
    | store c =>
      cases c with
      | create kind space c =>
        obtain ⟨rfl, hkey⟩ := hx
        rcases Scene.step_create h with ⟨⟨e, rfl⟩, hs⟩ | ⟨version, rfl, hnone, hs⟩
        · have hno : Exchange.madeClaim? ⟨.store (.create kind d.space c), .error e⟩ = none := by
            cases kind <;> rfl
          rw [hno, Option.or_none, hs]
        · rw [hkey] at hnone hs
          rw [hs]
          cases kind with
          | claim =>
            rw [setChild_same, hnone]
            rfl
          | managed m =>
            rw [setChild_other _ _ (by simp)]
            exact Option.or_none.symm
      | replace m space c =>
        have hno : (⟨.store (.replace m space c), a⟩ : Exchange).madeClaim? = none := rfl
        rw [hno, Option.or_none]
        rcases Scene.step_replace h with ⟨_, hs⟩ | ⟨version, _, hs⟩
        · rw [hs]
        · rw [hs, setChild_other _ _ (by simp)]
      | deletePolicy k =>
        have hno : (⟨.store (.deletePolicy k), a⟩ : Exchange).madeClaim? = none := rfl
        rw [hno, Option.or_none]
        rcases Scene.step_deletePolicy h with ⟨_, hs⟩ | ⟨_, hs⟩
        · rw [hs]
        · rw [hs, setChild_other _ _ (by simp)]
      | _ => exact hkeeps trivial
    | _ => exact hx.elim
  · exact hkeeps hx

theorem through_claim {s s' : Scene} {t : List Exchange} (h : s.Through t s')
    (ht : ∀ x ∈ t, o.SyncCall d x.call ∨ x.call.KeepsChildren) :
    s'.store.children .claim (d.childKey .claim) =
      (s.store.children .claim (d.childKey .claim)).or (t.findSome? Exchange.madeClaim?) := by
  induction h with
  | nil => simp
  | cons hx _ ih =>
    rw [ih fun y hy => ht y (List.mem_cons_of_mem _ hy), step_claim hx (ht _ List.mem_cons_self),
      Option.or_assoc, List.findSome?_cons]
    cases Exchange.madeClaim? _ <;> rfl

/-! Runs of passes over one distribution. -/

/-- Whether a pass held the child in its place against what the spec that it found wants. -/
def PassRecord.Asks (p : PassRecord) (owner : OwnerReference) (m : Managed) (w : Child) : Prop :=
  ∃ d image, p.Finds d ∧ p.operator.prerequisites d = .ok (image, owner) ∧
    p.operator.wanted d image owner (.managed m) = some w ∧ d.ReadIn (.managed m) p.exchanges

/-- The texts that a pass takes digests of. -/
def PassRecord.Hashes (p : PassRecord) (text : String) : Prop :=
  ∃ owner m w, p.Asks owner m w ∧ text = w.hashed

/-- Whether a child, if there is one, is as one of the passes wanted it. -/
def MadeIn (ps : List PassRecord) (owner : OwnerReference) (m : Managed) (c : Option Child) :
    Prop :=
  ∀ x ∈ c, ∃ p ∈ ps, ∃ w, p.Asks owner m w ∧ x.content = w.content

theorem MadeIn.isMade {ps : List PassRecord} {c : Option Child} (h : MadeIn ps owner m c) :
    ∀ x ∈ c, x.IsMade owner m := by
  intro x hx
  obtain ⟨p, _, w, ⟨d, image, _, _, hw, _⟩, hcontent⟩ := h x hx
  exact ⟨p.operator, d, image, w, hw, hcontent⟩

theorem MadeIn.append {ps qs : List PassRecord} {c c' : Option Child} (h : MadeIn ps owner m c)
    (hc : ∀ x ∈ c', x ∈ c) : MadeIn (ps ++ qs) owner m c' := by
  intro x hx
  obtain ⟨p, hp, hmade⟩ := h x (hc x hx)
  exact ⟨p, List.mem_append_left _ hp, hmade⟩

theorem PassRecord.Synchronizes.settles {p : PassRecord} {r : Except OperatorError Unit}
    {t : List Exchange} {u v : Scene} (h : p.Synchronizes d r t u v)
    (hpre : p.operator.prerequisites d = .ok (image, owner)) (kind : ChildKind) :
    (p.after.store.children kind (d.childKey kind) =
          p.before.store.children kind (d.childKey kind) ∧ r ≠ .ok ()) ∨
      ∃ a, p.operator.Settles d image owner kind (p.before.store.children kind (d.childKey kind))
          (.ok a) (p.after.store.children kind (d.childKey kind)) ∧
        ∀ w, p.operator.wanted d image owner kind = some w → d.ReadIn kind p.exchanges := by
  have hperforms := h.performs
  rw [synchronize_eq hpre] at hperforms
  rw [h.after, ← h.before]
  rcases stages_performs ChildKind.nodup_inOrder hperforms kind with ⟨hs, hr⟩ | ⟨a, ha, hread⟩
  · exact .inl ⟨hs, fun hok => hr hok kind.mem_inOrder⟩
  · refine .inr ⟨a, ha, fun w hw => ?_⟩
    obtain ⟨x, hx⟩ := hread w hw
    obtain ⟨t₁, t₂, ht, _⟩ := h.within
    exact ⟨x, ht ▸ List.mem_append_right _ (List.mem_append_left _ hx)⟩

section Runs

variable {p : PassRecord} {ps : List PassRecord} {others : Scene → Scene → Prop} {s s' : Scene}

/-- What a pass makes of a child that earlier passes made. -/
theorem pass_made (h : p.Made) (hsame : ∀ e, p.Finds e → d.SameAs e) (howner : d.owner = .ok owner)
    (hc : MadeIn ps owner m (p.before.store.children (.managed m) (d.childKey (.managed m)))) :
    MadeIn (ps ++ [p]) owner m
      (p.after.store.children (.managed m) (d.childKey (.managed m))) := by
  rcases pass_synchronizes h with ⟨hs, _⟩ | ⟨e, r, t, u, v, hsync⟩
  · rw [hs]
    exact hc.append fun _ hx => hx
  · have he : d.SameAs e := hsame e hsync.finds
    obtain ⟨name, hn⟩ := name_of_owner howner
    rw [← he.childKey_eq hn] at hc ⊢
    cases hpre : p.operator.prerequisites e with
    | error err =>
      have hperforms := hsync.performs
      simp only [synchronize, hpre] at hperforms
      obtain ⟨_, _, rfl⟩ := performs_done.mp hperforms
      rw [hsync.after, hsync.before]
      exact hc.append fun _ hx => hx
    | ok found =>
      obtain ⟨image, owner'⟩ := found
      have hown : owner' = owner := by
        have heq := prerequisites_owner hpre
        rw [he.owner_eq, howner] at heq
        exact (Except.ok.inj heq).symm
      subst hown
      rcases hsync.settles hpre (.managed m) with ⟨hs, _⟩ | ⟨a, ha, hread⟩
      · rw [hs]
        exact hc.append fun _ hx => hx
      · cases hw : p.operator.wanted e image owner' (.managed m) with
        | none => exact hc.append (ha.unwanted hw).1
        | some w =>
          obtain ⟨x, hx, hmade⟩ := ha.made hw hc.isMade
          rcases hmade with hcontent | ⟨hlive, _⟩
          · intro y hy
            rw [hx] at hy
            cases hy
            exact ⟨p, by simp, w, ⟨e, image, hsync.finds, hpre, hw, hread w hw⟩, hcontent⟩
          · rw [hx, ← hlive]
            exact hc.append fun _ hx => hx

theorem pass_claim (h : p.Made) (hsame : ∀ e, p.Finds e → d.SameAs e)
    (howner : d.owner = .ok owner) :
    p.after.store.children .claim (d.childKey .claim) =
      (p.before.store.children .claim (d.childKey .claim)).or
        (p.exchanges.findSome? Exchange.madeClaim?) := by
  rcases pass_synchronizes h with ⟨_, hkeeps⟩ | ⟨e, r, t, u, v, hsync⟩
  · exact through_claim (o := p.operator) h.through fun x hx => .inr (hkeeps x hx)
  · obtain ⟨name, hn⟩ := name_of_owner howner
    rw [← (hsame e hsync.finds).childKey_eq hn]
    refine through_claim (o := p.operator) h.through fun x hx => ?_
    obtain ⟨t₁, t₂, ht, hkeeps⟩ := hsync.within
    rw [ht] at hx
    rcases List.mem_append.mp hx with hx | hx
    · exact .inr (hkeeps x (List.mem_append_left _ hx))
    · rcases List.mem_append.mp hx with hx | hx
      · exact .inl ((synchronize_within _ _).of_dialogue hsync.performs.dialogue x hx)
      · exact .inr (hkeeps x (List.mem_append_right _ hx))

/-- Where digests do not collide, a child that earlier passes made is as it is wanted after a pass
that synchronizes it. -/
theorem pass_content {t : List Exchange} {u v : Scene} (h : p.Synchronizes d (.ok ()) t u v)
    (hpre : p.operator.prerequisites d = .ok (image, owner))
    (hw : p.operator.wanted d image owner (.managed m) = some w)
    (hc : MadeIn ps owner m (p.before.store.children (.managed m) (d.childKey (.managed m))))
    (hhash : Set.InjOn Sha256.hex {text | ∃ q ∈ ps ++ [p], q.Hashes text}) :
    ∃ c, p.after.store.children (.managed m) (d.childKey (.managed m)) = some c ∧
      c.content = w.content := by
  rcases h.settles hpre (.managed m) with ⟨_, hno⟩ | ⟨a, ha, hread⟩
  · exact absurd rfl hno
  · obtain ⟨c, hc', hcontent⟩ := ha.made hw hc.isMade
    refine ⟨c, hc', ?_⟩
    rcases hcontent with hcontent | ⟨hlive, hdigest⟩
    · exact hcontent
    · -- the child was let be, so it has the digest of what is wanted now
      obtain ⟨q, hq, w', hasks, hcontent⟩ := hc c hlive
      have hold : ∃ q ∈ ps ++ [p], q.Hashes w'.hashed :=
        ⟨q, List.mem_append_left _ hq, owner, m, w', hasks, rfl⟩
      have hnew : ∃ q ∈ ps ++ [p], q.Hashes w.hashed :=
        ⟨p, by simp, owner, m, w, ⟨d, image, h.finds, hpre, hw, hread w hw⟩, rfl⟩
      obtain ⟨e, image', _, _, hw', _⟩ := hasks
      have hnotes : c.metadata.annotations = w'.metadata.annotations :=
        congrArg Child.Content.annotations hcontent
      rw [hcontent]
      refine content_eq_of_digest hw' hw (fun he => hhash hold hnew he) ?_
      rw [hdigest, ObjectMeta.annotation?, ObjectMeta.annotation?, hnotes]

/-- Nobody but the passes writes the children of the distribution. -/
def LeavesChildren (d : Distribution) (others : Scene → Scene → Prop) : Prop :=
  ∀ u u', others u u' → ∀ kind,
    u'.store.children kind (d.childKey kind) = u.store.children kind (d.childKey kind)

theorem run_made (h : Scene.Run others s ps s') (ho : LeavesChildren d others)
    (hsame : ∀ q ∈ ps, ∀ e, q.Finds e → d.SameAs e) (howner : d.owner = .ok owner)
    (hstart : s.store.children (.managed m) (d.childKey (.managed m)) = none) :
    MadeIn ps owner m (s'.store.children (.managed m) (d.childKey (.managed m))) := by
  induction h with
  | start =>
    rw [hstart]
    exact fun x hx => nomatch hx
  | pass _ hp ih =>
    exact pass_made hp (hsame _ (by simp)) howner
      (ih fun q hq => hsame q (List.mem_append_left _ hq))
  | between _ hu ih =>
    rw [ho _ _ hu]
    exact ih hsame

theorem run_claim (h : Scene.Run others s ps s') (ho : LeavesChildren d others)
    (hsame : ∀ q ∈ ps, ∀ e, q.Finds e → d.SameAs e) (howner : d.owner = .ok owner)
    (hstart : s.store.children .claim (d.childKey .claim) = none) :
    s'.store.children .claim (d.childKey .claim) =
      (ps.flatMap (·.exchanges)).findSome? Exchange.madeClaim? := by
  induction h with
  | start => exact hstart
  | pass _ hp ih =>
    rw [pass_claim hp (hsame _ (by simp)) howner,
      ih fun q hq => hsame q (List.mem_append_left _ hq), List.flatMap_append,
      List.findSome?_append]
    simp
  | between _ hu ih =>
    rw [ho _ _ hu]
    exact ih hsame

theorem run_last (h : Scene.Run others s (ps ++ [p]) s') (ho : LeavesChildren d others) :
    Scene.Run others s ps p.before ∧ p.Made ∧ ∀ kind,
      s'.store.children kind (d.childKey kind) = p.after.store.children kind (d.childKey kind) := by
  generalize hl : ps ++ [p] = l at h
  induction h with
  | start => simp at hl
  | pass h hp _ =>
    obtain ⟨rfl, hlast⟩ := List.append_inj' hl rfl
    obtain rfl := List.singleton_inj.mp hlast
    exact ⟨h, hp, fun _ => rfl⟩
  | between _ hu ih =>
    obtain ⟨hrun, hp, hs⟩ := ih hl
    exact ⟨hrun, hp, fun kind => (ho _ _ hu kind).trans (hs kind)⟩

end Runs

/-- The store that a synchronization makes of an empty one. -/
def Operator.alone (o : Operator) (d : Distribution) : Store :=
  ((synchronize o d).run Rehearsal.answer (.start .epoch)).2.2.store

theorem alone_children {kind : ChildKind} (hpre : o.prerequisites d = .ok (image, owner))
    (hw : o.wanted d image owner kind = some w) :
    ∃ version, (o.alone d).children kind (d.childKey kind) = some (w.storedAs d.space version) := by
  have hr : (Rehearsal.start .epoch).Undisturbed := ⟨fun _ => rfl, rfl⟩
  have hok : ((synchronize o d).run Rehearsal.answer (.start .epoch)).1 = .ok () := by
    rw [synchronize_eq hpre]
    exact hr.run_fresh ChildKind.nodup_inOrder fun _ _ => rfl
  have hperforms := Rehearsal.performs (synchronize o d) (.start .epoch)
  rw [hok, synchronize_eq hpre] at hperforms
  rcases stages_performs ChildKind.nodup_inOrder hperforms kind with ⟨_, hno⟩ | ⟨a, ha, _⟩
  · exact absurd kind.mem_inOrder (hno rfl)
  · rw [← synchronize_eq hpre] at ha
    exact ha.of_none hw

/-- A run of passes over one distribution, with whatever specs, operators and failures. Once the
last of them has synchronized the children, those that its spec asks for have the labels, the
annotations, the owners and the spec that it would have made in an empty store; there is no policy
if none is asked for, and the claim is the first that was made. -/
theorem run_follows_last_spec {p : PassRecord} {ps : List PassRecord}
    {others : Scene → Scene → Prop} {s s' : Scene} (h : Scene.Run others s (ps ++ [p]) s')
    (ho : LeavesChildren d others) (hsame : ∀ q ∈ ps ++ [p], ∀ e, q.Finds e → d.SameAs e)
    (hstart : ∀ kind, s.store.children kind (d.childKey kind) = none)
    (hhash : Set.InjOn Sha256.hex {text | ∃ q ∈ ps ++ [p], q.Hashes text})
    (hlast : p.Synchronized d (.ok ())) :
    (∀ m, p.operator.asksFor d m = true → ∃ c c₀,
      s'.store.children (.managed m) (d.childKey (.managed m)) = some c ∧
        (p.operator.alone d).children (.managed m) (d.childKey (.managed m)) = some c₀ ∧
          c.content = c₀.content) ∧
      (p.operator.flags.networkPolicy = false →
        s'.store.children .policy (d.childKey .policy) = none) ∧
      s'.store.children .claim (d.childKey .claim) =
        ((ps ++ [p]).flatMap (·.exchanges)).findSome? Exchange.madeClaim? := by
  obtain ⟨hrun, hp, hs'⟩ := run_last h ho
  obtain ⟨t, u, v, hsync⟩ := synchronizes_of_synchronized hp hlast
  obtain ⟨image, owner, hpre⟩ := prerequisites_of_ok hsync.performs.dialogue
  have howner : d.owner = .ok owner := prerequisites_owner hpre
  refine ⟨fun m hm => ?_, fun hflag => ?_, run_claim h ho hsame howner (hstart .claim)⟩
  · have hw : p.operator.wanted d image owner (.managed m) =
        some ((p.operator.outline d image m).prepare owner) := by
      simp only [wanted, hm, if_true]
    have hmade := run_made hrun ho (fun q hq => hsame q (List.mem_append_left _ hq)) howner
      (hstart (.managed m))
    obtain ⟨c, hc, hcontent⟩ := pass_content hsync hpre hw hmade hhash
    obtain ⟨version, halone⟩ := alone_children hpre hw
    exact ⟨c, _, (hs' _).trans hc, halone, hcontent⟩
  · have hw : p.operator.wanted d image owner .policy = none := wanted_managed_none.mpr hflag
    rw [hs']
    rcases hsync.settles hpre .policy with ⟨_, hno⟩ | ⟨a, ha, _⟩
    · exact absurd rfl hno
    · exact (ha.unwanted hw).2 rfl

/-! A sample pass over a distribution with a command and two replicas, and one after it asks for
neither any more. Both write the Deployment. -/

theorem sample_made (r : Rehearsal) : (PassRecord.sample r).Made := r.performs _

/-- The rehearsal after a sample pass. -/
def Rehearsal.passed (r : Rehearsal) : Rehearsal :=
  ((pass .sample ⟨"ai", "demo"⟩).run answer r).2.2

theorem edited_run (r : Rehearsal) (d : Distribution) :
    Scene.Run (fun u u' => u'.store.children = u.store.children) r.scene
      ([PassRecord.sample r] ++ [PassRecord.sample (r.passed.edited d)])
      (PassRecord.sample (r.passed.edited d)).after :=
  .pass (.between (.pass (.start _) (sample_made r)) rfl) (sample_made _)

def Distribution.commanded : Distribution :=
  { Distribution.sample with
    spec := ⟨2, { Server.blank with
      choice := ⟨some "starter", none⟩
      container := { ContainerSettings.blank with command := ["serve"] } }⟩ }

def Rehearsal.commanded : Rehearsal := (Rehearsal.start .epoch).edited .commanded

def Rehearsal.restored : Rehearsal := commanded.passed.edited .sample

/-- The Deployment that an operator wants for a distribution. -/
def Operator.deployment? (o : Operator) (d : Distribution) : Option Child :=
  match o.prerequisites d with
  | .ok (image, owner) => o.wanted d image owner (.managed .deployment)
  | .error _ => none

theorem edited_finds {r : Rehearsal} (h : (PassRecord.sample (r.edited d)).Finds e)
    (hk : keyIn d.space d.metadata = ⟨"ai", "demo"⟩) :
    d.SameAs e ∧ e.spec = d.spec ∧
      Operator.sample.deployment? e = Operator.sample.deployment? d := by
  have hfound : (r.store.addDistribution d).distributions ⟨"ai", "demo"⟩ = some e := h
  rw [addDistribution_distributions, hk, Table.set_same] at hfound
  cases hfound
  exact ⟨⟨rfl, rfl, rfl⟩, rfl, rfl⟩

theorem edited_hashes {r : Rehearsal} {text : String}
    (h : (PassRecord.sample (r.edited d)).Hashes text)
    (hk : keyIn d.space d.metadata = ⟨"ai", "demo"⟩) (hports : d.hasPorts = false) :
    ∃ w, Operator.sample.deployment? d = some w ∧ text = w.hashed := by
  obtain ⟨owner, m, w, ⟨e, image, he, hpre, hw, _⟩, rfl⟩ := h
  obtain ⟨_, hspec, hdeployment⟩ := edited_finds he hk
  have hasks := (wanted_managed hw).1
  cases m with
  | deployment =>
    have hpre' : Operator.sample.prerequisites e = .ok (image, owner) := hpre
    refine ⟨w, ?_, rfl⟩
    rw [← hdeployment, Operator.deployment?, hpre']
    exact hw
  | service =>
    have hports' : e.hasPorts = true := hasks
    rw [Distribution.hasPorts, Distribution.ports, hspec] at hports'
    exact absurd hports' (by simpa [Distribution.hasPorts, Distribution.ports] using hports)
  | policy => cases hasks

/-- The bytes that are digested of a child. -/
def Child.hashedBytes (c : Child) : List UInt8 :=
  (Json.array [c.labelsJson, c.specJson]).write.flatMap String.utf8EncodeChar

theorem hashed_toUTF8 (c : Child) : c.hashed.toUTF8.toList = c.hashedBytes := by
  rw [Sha256.toUTF8_toList]
  exact congrArg (·.flatMap String.utf8EncodeChar) String.toList_ofList

theorem commanded_digest {w w' : Child} (h : Operator.sample.deployment? .commanded = some w)
    (h' : Operator.sample.deployment? .sample = some w') :
    Sha256.hex w.hashed ≠ Sha256.hex w'.hashed := by
  intro heq
  have hdigests : Sha256.digest w.hashedBytes = Sha256.digest w'.hashedBytes := by
    rw [← hashed_toUTF8, ← hashed_toUTF8]
    exact Sha256.digest_eq_of_hex heq
  have hne : (Operator.sample.deployment? .commanded).map (Sha256.digest ·.hashedBytes) ≠
      (Operator.sample.deployment? .sample).map (Sha256.digest ·.hashedBytes) := by
    decide +kernel
  rw [h, h'] at hne
  exact hne (congrArg some hdigests)

def restoring : List PassRecord := [.sample .commanded] ++ [.sample .restored]

variable {q : PassRecord}

theorem mem_restoring (h : q ∈ restoring) : q = .sample .commanded ∨ q = .sample .restored := by
  simpa [restoring] using h

theorem restoring_finds (hq : q ∈ restoring) (he : q.Finds e) : Distribution.sample.SameAs e := by
  rcases mem_restoring hq with rfl | rfl
  · obtain ⟨⟨hname, hspace, huid⟩, _⟩ := edited_finds he rfl
    exact ⟨hname, hspace, huid⟩
  · exact (edited_finds he rfl).1

theorem restoring_hashes {text : String} (hq : q ∈ restoring) (h : q.Hashes text) :
    (∃ w, Operator.sample.deployment? .commanded = some w ∧ text = w.hashed) ∨
      ∃ w, Operator.sample.deployment? .sample = some w ∧ text = w.hashed := by
  rcases mem_restoring hq with rfl | rfl
  · exact .inl (edited_hashes h rfl rfl)
  · exact .inr (edited_hashes h rfl rfl)

theorem restoring_injOn : Set.InjOn Sha256.hex {text | ∃ q ∈ restoring, q.Hashes text} := by
  rintro text ⟨q, hq, h⟩ text' ⟨q', hq', h'⟩ heq
  rcases restoring_hashes hq h with ⟨w, hw, rfl⟩ | ⟨w, hw, rfl⟩ <;>
    rcases restoring_hashes hq' h' with ⟨w', hw', rfl⟩ | ⟨w', hw', rfl⟩
  · rw [Option.some.inj (hw.symm.trans hw')]
  · exact absurd heq (commanded_digest hw hw')
  · exact absurd heq.symm (commanded_digest hw' hw)
  · rw [Option.some.inj (hw.symm.trans hw')]

theorem run_follows_last_spec_restored : ∃ d c₁ c c₀,
    let k := d.childKey (.managed .deployment)
    (PassRecord.sample .restored).Finds d ∧
      (PassRecord.sample .restored).before.store.children (.managed .deployment) k = some c₁ ∧
        (PassRecord.sample .restored).after.store.children (.managed .deployment) k = some c ∧
          ((PassRecord.sample .restored).operator.alone d).children (.managed .deployment) k =
            some c₀ ∧ c₁.spec ≠ c.spec ∧ c.content = c₀.content := by
  have hok : (PassRecord.sample .restored).result = .ok ⟨some .initializing, some 10⟩ := by
    decide +kernel
  obtain ⟨d, hd, hsync⟩ := synchronized_of_ok (sample_made .restored) hok (by simp)
  have hsample : Distribution.sample.SameAs d := restoring_finds (by simp [restoring]) hd
  have hsame : ∀ q ∈ restoring, ∀ e, q.Finds e → d.SameAs e := by
    intro q hq e he
    have hcommon := restoring_finds hq he
    exact ⟨hcommon.name.trans hsample.name.symm, hcommon.space.trans hsample.space.symm,
      hcommon.uid.trans hsample.uid.symm⟩
  have hrun : Scene.Run (fun u u' => u'.store.children = u.store.children)
      Rehearsal.commanded.scene restoring (PassRecord.sample .restored).after :=
    edited_run .commanded .sample
  have hothers : LeavesChildren d fun u u' => u'.store.children = u.store.children := by
    intro u u' h kind
    rw [h]
  obtain ⟨hmade, _⟩ :=
    run_follows_last_spec hrun hothers hsame (fun _ => rfl) restoring_injOn hsync
  obtain ⟨c, c₀, hc, h₀, hcontent⟩ := hmade .deployment rfl
  have hspecs : ((PassRecord.sample .restored).before.store.children (.managed .deployment)
      ⟨"ai", "demo"⟩).map (·.spec) ≠ ((PassRecord.sample .restored).after.store.children
        (.managed .deployment) ⟨"ai", "demo"⟩).map (·.spec) := by
    decide +kernel
  have hsome : ((PassRecord.sample .restored).before.store.children (.managed .deployment)
      ⟨"ai", "demo"⟩).isSome = true := by
    decide +kernel
  obtain ⟨c₁, hc₁⟩ := Option.isSome_iff_exists.mp hsome
  have hkey : d.childKey (.managed .deployment) = ⟨"ai", "demo"⟩ := hsample.childKey_eq rfl _
  rw [← hkey] at hspecs hc₁
  rw [hc₁, hc] at hspecs
  exact ⟨d, c₁, c, c₀, hd, hc₁, hc, h₀, fun h => hspecs (congrArg some h), hcontent⟩

end DistributionOperator
