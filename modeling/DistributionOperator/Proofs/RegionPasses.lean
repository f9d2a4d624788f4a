import DistributionOperator.Proofs.RegionSteps
import DistributionOperator.Proofs.TwinEvaluations

/-! Passes on the region of their key. What is there in the beginning settles what becomes of it, up
to versions and moments: every child is written by one stage only, from what that stage has just
read, and the status is written for the version that the pass began with. -/

namespace DistributionOperator

open Program Store Operator

/-- A distribution without its version and its moments. -/
def Distribution.plain (d : Distribution) : Distribution :=
  { d with
    metadata := d.metadata.unversioned
    status := d.status.map (Status.retimed fun _ => .epoch) }

namespace Region

/-- Regions that are the same but for versions and moments. -/
structure Alike (r u : Region) : Prop where
  distribution : u.distribution.map Distribution.plain = r.distribution.map Distribution.plain
  children : ∀ kind,
    (u.children kind).map Child.unversioned = (r.children kind).map Child.unversioned
  statusFault : u.statusFault = r.statusFault
  deploymentReadFault : u.deploymentReadFault = r.deploymentReadFault

/-- Regions that are the same but for the versions of children. -/
structure Near (r u : Region) : Prop extends Alike r u where
  same : u.distribution = r.distribution

variable {r u : Region} {kind : ChildKind} {c c' : Option Child}

theorem Near.refl (r : Region) : r.Near r := ⟨⟨rfl, fun _ => rfl, rfl, rfl⟩, rfl⟩

theorem Near.put (h : r.Near u)
    (hc : c'.map Child.unversioned = c.map Child.unversioned) (kind : ChildKind) :
    (r.put kind c).Near (u.put kind c') where
  distribution := h.distribution
  children kind' := by
    by_cases hk : kind' = kind
    · subst hk
      rw [put_children, put_children, hc]
    · rw [put_children_of_ne _ hk, put_children_of_ne _ hk, h.children]
  statusFault := h.statusFault
  deploymentReadFault := h.deploymentReadFault
  same := h.same

theorem get_congr (hc : u.children kind = r.children kind)
    (hf : u.deploymentReadFault = r.deploymentReadFault) : u.get kind = r.get kind := by
  unfold Region.get
  rw [hc, hf]

theorem Near.get (h : r.Near u) :
    (u.get kind).map (Option.map Child.unversioned) =
      (r.get kind).map (Option.map Child.unversioned) := by
  unfold Region.get
  rw [h.deploymentReadFault]
  split
  · rfl
  · exact congrArg Except.ok (h.children _)

end Region

/-- How a stage ends and what child it leaves, where nobody else comes in between. What is found in
the place of its child says it all. -/
def Operator.fate (o : Operator) (d : Distribution) (image : String) (owner : OwnerReference)
    (kind : ChildKind) (found : Except StoreError (Option Child)) (c : Option Child)
    (version : String) : Except OperatorError Applied × Option Child :=
  match o.wanted d image owner kind, found, kind with
  | none, _, .managed .policy => (.ok (if c.isSome then .updated else .unchanged), none)
  | none, _, _ => (.ok .unchanged, c)
  | some _, .error e, _ => (.error (.store "get" kind.kind e), c)
  | some w, .ok none, _ => (.ok .created, some (w.storedAs d.space version))
  | some _, .ok (some live), .claim => (.ok .unchanged, some live)
  | some w, .ok (some live), .managed m =>
    if live.metadata.controlledByOther owner.uid then
      (.error (.ownershipConflict kind.kind (live.metadata.name.getD "")), some live)
    else if w.inLine live owner then (.ok .unchanged, some live)
    else (.ok .updated, some ((Child.replacing m live w).storedAs d.space version))

variable {o : Operator} {d : Distribution} {image : String} {owner : OwnerReference}
  {kind : ChildKind} {kinds : List ChildKind} {k : Key} {t t' : List Exchange}
  {answers : (c : ProbeCall) → c.Answer} {r r' u u' : Region}

/-- Versions apart, the fate of a stage does not depend on the version of what it writes. -/
theorem fate_version (found : Except StoreError (Option Child)) (c : Option Child)
    (v v' : String) :
    (o.fate d image owner kind found c v').1 = (o.fate d image owner kind found c v).1 ∧
      (o.fate d image owner kind found c v').2.map Child.unversioned =
        (o.fate d image owner kind found c v).2.map Child.unversioned := by
  unfold Operator.fate
  split
  · exact ⟨rfl, rfl⟩
  · exact ⟨rfl, rfl⟩
  · exact ⟨rfl, rfl⟩
  · exact ⟨rfl, rfl⟩
  · exact ⟨rfl, rfl⟩
  · split
    · exact ⟨rfl, rfl⟩
    · split
      · exact ⟨rfl, rfl⟩
      · exact ⟨rfl, rfl⟩

theorem attempt_answered {operation resource : String} {c : StoreCall}
    {b : Except OperatorError c.Result}
    (h : (attempt operation resource c).Dialogue t b)
    (ht : Chained (Region.Serves answers k) r t r') :
    ∃ a : c.Answer, b = a.mapError (.store operation resource) ∧
      Region.Serves answers k r ⟨.store c, a⟩ r' := by
  obtain ⟨a, rfl, rfl⟩ := dialogue_attempt.mp h
  obtain ⟨v, hx, hv⟩ := chained_cons.mp ht
  obtain rfl := chained_nil.mp hv
  exact ⟨a, rfl, hx⟩

/-- A call of a stage that the store cannot but grant. -/
theorem attempt_granted {operation resource : String} {c : StoreCall}
    {f : c.Result → Applied} {res : Except OperatorError Applied}
    (h : ((attempt operation resource c).andThen fun b => done (.ok (f b))).Dialogue t res)
    (ht : Chained (Region.Serves answers k) r t r')
    (hgranted : ∀ a, Region.Serves answers k r ⟨.store c, a⟩ r' → ∃ b, a = .ok b) :
    ∃ b, res = .ok (f b) ∧ Region.Serves answers k r ⟨.store c, .ok b⟩ r' := by
  rcases dialogue_andThen.mp h with ⟨e, he, rfl⟩ | ⟨b, t₁, t₂, rfl, hb, hd⟩
  · obtain ⟨a, hae, hx⟩ := attempt_answered he ht
    obtain ⟨b, rfl⟩ := hgranted a hx
    cases hae
  · obtain ⟨rfl, rfl⟩ := dialogue_done.mp hd
    rw [List.append_nil] at ht
    obtain ⟨a, hae, hx⟩ := attempt_answered hb ht
    rw [mapError_eq_ok.mp hae.symm] at hx
    exact ⟨b, rfl, hx⟩

theorem attend_fate {m : Managed} {w live : Child} {res : Except OperatorError Applied}
    (hw : o.wanted d image owner (.managed m) = some w)
    (hkey : d.childKey (.managed m) = k.child (.managed m))
    (hfound : r.get (.managed m) = .ok (some live))
    (h : (attend (.managed m) d.space owner w live).Dialogue t res)
    (ht : Chained (Region.Serves answers k) r t r') :
    ∃ version, (o.fate d image owner (.managed m) (r.get (.managed m)) (r.children (.managed m))
        version) = (res, r'.children (.managed m)) ∧
      r' = r.put (.managed m) (r'.children (.managed m)) := by
  have hlive : r.children (.managed m) = some live := Region.get_eq_ok hfound
  have hstill : r = r.put (.managed m) (r.children (.managed m)) := (r.put_self _).symm
  unfold attend at h
  simp only [Operator.fate, hw, hfound]
  dsimp only at h
  split at h
  · rename_i hown
    obtain ⟨rfl, rfl⟩ := dialogue_done.mp h
    obtain rfl := chained_nil.mp ht
    exact ⟨"", by simp [hown, hlive], hstill⟩
  · rename_i hown
    split at h
    · rename_i hline
      obtain ⟨rfl, rfl⟩ := dialogue_done.mp h
      obtain rfl := chained_nil.mp ht
      exact ⟨"", by simp [hown, hline, hlive], hstill⟩
    · rename_i hline
      have hrep : keyIn d.space (Child.replacing m live w).metadata = k.child (.managed m) := by
        rw [← hkey, ← wanted_key hw]
        simp [keyIn]
      have hversion : (Child.replacing m live w).metadata.resourceVersion =
          live.metadata.resourceVersion := rfl
      obtain ⟨_, rfl, hx⟩ := attempt_granted h ht fun a ha => by
        obtain ⟨version, hok, _⟩ := ha.replace hrep hlive hversion
        exact ⟨_, hok⟩
      obtain ⟨version, _, rfl⟩ := hx.replace hrep hlive hversion
      exact ⟨version, by simp [hown, hline], by simp⟩

theorem unwanted_fate {res : Except OperatorError Applied}
    (hw : o.wanted d image owner kind = none) (hkey : d.childKey kind = k.child kind)
    (h : (o.stage d image owner kind).Dialogue t res)
    (ht : Chained (Region.Serves answers k) r t r') :
    ∃ version, (o.fate d image owner kind (r.get kind) (r.children kind) version) =
        (res, r'.children kind) ∧ r' = r.put kind (r'.children kind) := by
  by_cases hk : kind = .policy
  · subst hk
    rw [stage_policy_unwanted hw, hkey] at h
    obtain ⟨_, rfl, hx⟩ := attempt_granted h ht fun a ha => ⟨_, ha.deletePolicy.1⟩
    obtain ⟨hdeleted, rfl⟩ := hx.deletePolicy
    cases hdeleted
    exact ⟨"", by simp [Operator.fate, hw], by simp⟩
  · rw [stage_unwanted hw hk] at h
    obtain ⟨rfl, rfl⟩ := dialogue_done.mp h
    obtain rfl := chained_nil.mp ht
    exact ⟨"", by simp [Operator.fate, hw], (Region.put_self _ kind).symm⟩

theorem stage_fate {res : Except OperatorError Applied}
    (hkey : d.childKey kind = k.child kind)
    (h : (o.stage d image owner kind).Dialogue t res)
    (ht : Chained (Region.Serves answers k) r t r') :
    ∃ version, (o.fate d image owner kind (r.get kind) (r.children kind) version) =
        (res, r'.children kind) ∧ r' = r.put kind (r'.children kind) := by
  have hstill : r = r.put kind (r.children kind) := (r.put_self kind).symm
  cases hw : o.wanted d image owner kind with
  | none => exact unwanted_fate hw hkey h ht
  | some w =>
    have hwkey : keyIn d.space w.metadata = k.child kind := (wanted_key hw).trans hkey
    rw [stage_wanted hw, approach, hwkey] at h
    rcases dialogue_andThen.mp h with ⟨e, he, rfl⟩ | ⟨found, t₁, t₂, rfl, hg, hrest⟩
    · obtain ⟨a, hae, hx⟩ := attempt_answered he ht
      obtain ⟨rfl, hsame⟩ := hx.get
      rw [hsame]
      cases hget : r.get kind with
      | ok c =>
        rw [hget] at hae
        cases hae
      | error x =>
        rw [hget] at hae
        cases hae
        exact ⟨"", by simp [Operator.fate, hw], hstill⟩
    · obtain ⟨v, hv, ht₂⟩ := chained_append.mp ht
      obtain ⟨a, hae, hx⟩ := attempt_answered hg hv
      obtain ⟨ha, hsame⟩ := hx.get
      rw [hsame] at ht₂
      have hfound : r.get kind = .ok found := by rw [← ha, mapError_eq_ok.mp hae.symm]
      cases found with
      | none =>
        have hnone : r.children kind = none := Region.get_eq_ok hfound
        obtain ⟨_, rfl, hx⟩ := attempt_granted hrest ht₂ fun a ha => by
          obtain ⟨version, hok, _⟩ := ha.create hwkey hnone
          exact ⟨_, hok⟩
        obtain ⟨version, _, rfl⟩ := hx.create hwkey hnone
        exact ⟨version, by simp [Operator.fate, hw, hfound], by simp⟩
      | some live =>
        have hlive : r.children kind = some live := Region.get_eq_ok hfound
        cases kind with
        | claim =>
          obtain ⟨rfl, rfl⟩ := dialogue_done.mp hrest
          obtain rfl := chained_nil.mp ht₂
          exact ⟨"", by simp [Operator.fate, hw, hfound, hlive], hstill⟩
        | managed m => exact attend_fate hw hkey hfound hrest ht₂

/-- A stage that begins with the same child, in two runs, meets the same fate in both. -/
theorem stage_alike {res res' : Except OperatorError Applied}
    (hkey : d.childKey kind = k.child kind)
    (h : (o.stage d image owner kind).Dialogue t res)
    (ht : Chained (Region.Serves answers k) r t r')
    (h' : (o.stage d image owner kind).Dialogue t' res')
    (ht' : Chained (Region.Serves answers k) u t' u') (hr : r.Near u)
    (hchild : u.children kind = r.children kind) :
    res' = res ∧ r'.Near u' ∧ ∀ kind', kind' ≠ kind → u.children kind' = r.children kind' →
      u'.children kind' = r'.children kind' := by
  obtain ⟨version, hfate, hput⟩ := stage_fate hkey h ht
  obtain ⟨version', hfate', hput'⟩ := stage_fate hkey h' ht'
  have hget := Region.get_congr hchild hr.deploymentReadFault
  have hversions := @fate_version o d image owner kind (r.get kind) (r.children kind)
    version version'
  rw [hget, hchild] at hfate'
  rw [hfate, hfate'] at hversions
  refine ⟨hversions.1, ?_, fun kind' hne hsame => ?_⟩
  · have hnear := hr.put hversions.2 kind
    rwa [← hput, ← hput'] at hnear
  · rw [hput, hput', Region.put_children_of_ne _ hne, Region.put_children_of_ne _ hne]
    exact hsame

/-- Stages that begin with the same children, in two runs, end alike. -/
theorem stages_alike {res res' : Except OperatorError Unit}
    (hkeys : ∀ kind, d.childKey kind = k.child kind) (hn : kinds.Nodup)
    (h : (o.stages d image owner kinds).Dialogue t res)
    (ht : Chained (Region.Serves answers k) r t r')
    (h' : (o.stages d image owner kinds).Dialogue t' res')
    (ht' : Chained (Region.Serves answers k) u t' u') (hr : r.Near u)
    (hsame : ∀ kind ∈ kinds, u.children kind = r.children kind) : res' = res ∧ r'.Near u' := by
  induction kinds generalizing t t' r u with
  | nil =>
    obtain ⟨rfl, rfl⟩ := dialogue_done.mp h
    obtain ⟨rfl, rfl⟩ := dialogue_done.mp h'
    obtain rfl := chained_nil.mp ht
    obtain rfl := chained_nil.mp ht'
    exact ⟨rfl, hr⟩
  | cons kind rest ih =>
    have hnd := List.nodup_cons.mp hn
    have hchild := hsame kind List.mem_cons_self
    rcases dialogue_andThen.mp h with ⟨e, he, rfl⟩ | ⟨a, t₁, t₂, rfl, hf, hrest⟩
    · rcases dialogue_andThen.mp h' with ⟨e', he', rfl⟩ | ⟨a', t₁', t₂', rfl, hf', hrest'⟩
      · obtain ⟨heq, hnear, _⟩ := stage_alike (hkeys kind) he ht he' ht' hr hchild
        exact ⟨congrArg _ (Except.error.inj heq), hnear⟩
      · obtain ⟨v', hv', _⟩ := chained_append.mp ht'
        cases (stage_alike (hkeys kind) he ht hf' hv' hr hchild).1
    · obtain ⟨v, hv, ht₂⟩ := chained_append.mp ht
      rcases dialogue_andThen.mp h' with ⟨e', he', rfl⟩ | ⟨a', t₁', t₂', rfl, hf', hrest'⟩
      · cases (stage_alike (hkeys kind) hf hv he' ht' hr hchild).1
      · obtain ⟨v', hv', ht₂'⟩ := chained_append.mp ht'
        obtain ⟨_, hnear, hkept⟩ := stage_alike (hkeys kind) hf hv hf' hv' hr hchild
        -- the stages that follow make other children, which the first one has let be
        have hsame' : ∀ kind' ∈ rest, v'.children kind' = v.children kind' := fun kind' hk' =>
          hkept kind' (fun he => hnd.1 (he ▸ hk')) (hsame kind' (List.mem_cons_of_mem _ hk'))
        exact ih hnd.2 hrest ht₂ hrest' ht₂' hnear hsame'

theorem synchronize_alike {res res' : Except OperatorError Unit} (hd : d.key = k)
    (h : (synchronize o d).Dialogue t res) (ht : Chained (Region.Serves answers k) r t r')
    (h' : (synchronize o d).Dialogue t' res') (ht' : Chained (Region.Serves answers k) r t' u') :
    res' = res ∧ r'.Near u' := by
  cases hpre : o.prerequisites d with
  | error e =>
    rw [synchronize, hpre] at h h'
    obtain ⟨rfl, rfl⟩ := dialogue_done.mp h
    obtain ⟨rfl, rfl⟩ := dialogue_done.mp h'
    obtain rfl := chained_nil.mp ht
    obtain rfl := chained_nil.mp ht'
    exact ⟨rfl, .refl _⟩
  | ok made =>
    obtain ⟨image, owner⟩ := made
    obtain ⟨name, hname⟩ := name_of_owner (prerequisites_owner hpre)
    rw [synchronize_eq hpre] at h h'
    exact stages_alike (fun kind => (d.childKey_eq hname kind).trans (by rw [hd]))
      ChildKind.nodup_inOrder h ht h' ht' (.refl r) fun _ _ => rfl

/-- An evaluation leaves its region as it is, and hears of nothing else but servers and clock. -/
theorem evaluate_alike {failure : Option OperatorError} {e e' : Except OperatorError Status}
    (hd : d.key = k) (h : (evaluate o d failure).Dialogue t e)
    (ht : Chained (Region.Serves answers k) r t r')
    (h' : (evaluate o d failure).Dialogue t' e')
    (ht' : Chained (Region.Serves answers k) u t' u') (hr : r.Near u) :
    r' = r ∧ u' = u ∧ ResultsAgree Status.Twin e e' := by
  have hstill : ∀ {t v v' e}, (evaluate o d failure).Dialogue t e →
      Chained (Region.Serves answers k) v t v' →
        v' = v ∧ ∀ x ∈ t, Region.Serves answers k v x v := fun he hv =>
    hv.still fun _ _ _ hx hs => hs.observes ((evaluate_within o d failure).of_dialogue he _ hx)
  obtain ⟨hr', hall⟩ := hstill h ht
  obtain ⟨hu', hall'⟩ := hstill h' ht'
  refine ⟨hr', hu', (evaluate_twins o d failure).agree h h' fun c x x' hx hx' => ?_⟩
  have hserved := hall _ hx
  have hserved' := hall' _ hx'
  have hminds : c.Minds k := hd ▸ (evaluate_minds o d failure).of_dialogue h _ hx
  have hobserves : c.Observes := (evaluate_within o d failure).of_dialogue h _ hx
  cases c with
  | store c =>
    cases c with
    | get kind j =>
      obtain rfl : j = k.child kind := hminds
      rw [hserved.get.1, hserved'.get.1]
      exact hr.get.symm
    | _ => exact hobserves.elim
  | probe c => exact hserved.probed.trans hserved'.probed.symm
  | memory c => exact hobserves.elim
  | now =>
    show Timestamp.blurred x = Timestamp.blurred x'
    rw [Timestamp.blurred_of_inRange hserved.timed, Timestamp.blurred_of_inRange hserved'.timed]

theorem updateStatus_alike {failure : Option OperatorError} {p p' : Except OperatorError Phase}
    (hd : d.key = k) (hstored : r.distribution = some d)
    (h : (updateStatus o d failure).Dialogue t p)
    (ht : Chained (Region.Serves answers k) r t r')
    (h' : (updateStatus o d failure).Dialogue t' p')
    (ht' : Chained (Region.Serves answers k) u t' u') (hr : r.Near u) : r'.Alike u' := by
  subst hd
  have hstored' : u.distribution = some d := hr.same.trans hstored
  rcases updateStatus_dialogue h with ⟨e, _, he⟩ | ⟨new, a, t₁, rfl, hn, _⟩
  · rcases updateStatus_dialogue h' with ⟨e', _, he'⟩ | ⟨new', a', t₁', rfl, hn', _⟩
    · obtain ⟨rfl, rfl, _⟩ := evaluate_alike rfl he ht he' ht' hr
      exact hr.toAlike
    · obtain ⟨v', hv', _⟩ := chained_append.mp ht'
      exact (evaluate_alike rfl he ht hn' hv' hr).2.2.elim
  · -- both write, or neither does: what is written can be read in both or in none
    obtain ⟨v, hv, hwrite⟩ := chained_append.mp ht
    rcases updateStatus_dialogue h' with ⟨e', _, he'⟩ | ⟨new', a', t₁', rfl, hn', _⟩
    · exact (evaluate_alike rfl hn hv he' ht' hr).2.2.elim
    · obtain ⟨v', hv', hwrite'⟩ := chained_append.mp ht'
      obtain ⟨rfl, rfl, htwin⟩ := evaluate_alike rfl hn hv hn' hv' hr
      have htwin : new.Twin new' := htwin
      obtain ⟨w, hx, hw⟩ := chained_cons.mp hwrite
      obtain ⟨w', hx', hw'⟩ := chained_cons.mp hwrite'
      obtain rfl := chained_nil.mp hw
      obtain rfl := chained_nil.mp hw'
      rcases hx.updateStatus hstored with ⟨hf, hl, version, rfl⟩ | ⟨hnot, rfl⟩
      · rcases hx'.updateStatus hstored' with ⟨_, _, version', rfl⟩ | ⟨hnot', _⟩
        · refine ⟨?_, hr.children, hr.statusFault, hr.deploymentReadFault⟩
          simp only [Option.map_some, Distribution.plain, (htwin.over d.status).untimed]
          rfl
        · exact absurd ⟨hr.statusFault.trans hf, htwin.legible_iff.mp hl⟩ hnot'
      · rcases hx'.updateStatus hstored' with ⟨hf', hl', _, _⟩ | ⟨_, rfl⟩
        · exact absurd ⟨hr.statusFault.symm.trans hf', htwin.legible_iff.mpr hl'⟩ hnot
        · exact hr.toAlike

theorem workOn_alike {a a' : Except OperatorError Outcome} (hd : d.key = k)
    (hstored : r.distribution = some d) (h : (workOn o d).Dialogue t a)
    (ht : Chained (Region.Serves answers k) r t r') (h' : (workOn o d).Dialogue t' a')
    (ht' : Chained (Region.Serves answers k) r t' u') : r'.Alike u' := by
  obtain ⟨synced, written, t₁, t₂, rfl, hs, hw, _⟩ := workOn_dialogue h
  obtain ⟨synced', written', t₁', t₂', rfl, hs', hw', _⟩ := workOn_dialogue h'
  obtain ⟨v, hv, hwrite⟩ := chained_append.mp ht
  obtain ⟨v', hv', hwrite'⟩ := chained_append.mp ht'
  obtain ⟨rfl, hnear⟩ := synchronize_alike hd hs hv hs' hv'
  have hkept : v.distribution = some d := by
    have hsame := hv.preserves (P := fun v => v.distribution = r.distribution)
      (fun _ x _ hx hserved hu => (hserved.distribution
        (syncCall_not_status ((synchronize_within o d).of_dialogue hs x hx))).trans hu) rfl
    exact hsame.trans hstored
  exact updateStatus_alike hd hkept hw hwrite hw' hwrite' hnear

/-- A pass that finds nothing leaves its region as it is, and any other works on what is there. -/
theorem pass_region {a : Except OperatorError Outcome} (h : (pass o k).Dialogue t a)
    (ht : Chained (Region.Serves answers k) r t r') :
    (r.distribution = none ∧ r' = r) ∨
      ∃ d t₂ res, r.distribution = some d ∧ (workOn o d).Dialogue t₂ res ∧
        Chained (Region.Serves answers k) r t₂ r' := by
  have hrecalls : ∀ {t v v'}, Chained (Region.Serves answers k) v t v' →
      (∀ x ∈ t, x.call.Recalls) → v' = v := fun hv hall =>
    (hv.still fun _ x _ hx hs => hs.recalls (hall x hx)).1
  rcases pass_dialogue h with ⟨found, t₁, rfl, ht₁, hnone, _⟩ | ⟨d, t₁, t₂, t₃, rfl, hall, hw⟩
  · obtain ⟨v, hx, hv⟩ := chained_cons.mp ht
    obtain ⟨rfl, rfl⟩ := hx.getDistribution
    refine .inl ⟨?_, hrecalls hv ht₁⟩
    cases hd : v.distribution with
    | none => rfl
    | some d => exact absurd (congrArg Except.ok hd) (hnone d)
  · obtain ⟨v, hx, hv⟩ := chained_cons.mp ht
    obtain ⟨hd, rfl⟩ := hx.getDistribution
    obtain ⟨w, hw₁, hrest⟩ := chained_append.mp hv
    obtain ⟨w', hw₂, hw₃⟩ := chained_append.mp hrest
    obtain rfl := hrecalls hw₁ fun x hm => hall x (List.mem_append_left _ hm)
    obtain rfl := hrecalls hw₃ fun x hm => hall x (List.mem_append_right _ hm)
    exact .inr ⟨d, t₂, a, (Except.ok.inj hd).symm, hw, hw₂⟩

/-- Versions and moments apart, what a pass makes of its region depends on nothing else. -/
theorem pass_alike {a a' : Except OperatorError Outcome}
    (hd : ∀ d, r.distribution = some d → d.key = k) (h : (pass o k).Dialogue t a)
    (ht : Chained (Region.Serves answers k) r t r') (h' : (pass o k).Dialogue t' a')
    (ht' : Chained (Region.Serves answers k) r t' u') : r'.Alike u' := by
  rcases pass_region h ht with ⟨hnone, rfl⟩ | ⟨d, t₁, res, hstored, hw, hv⟩
  · rcases pass_region h' ht' with ⟨_, rfl⟩ | ⟨d', _, _, hstored', _, _⟩
    · exact (Region.Near.refl _).toAlike
    · rw [hnone] at hstored'
      cases hstored'
  · rcases pass_region h' ht' with ⟨hnone, _⟩ | ⟨d', t₁', res', hstored', hw', hv'⟩
    · rw [hnone] at hstored
      cases hstored
    · obtain rfl := Option.some.inj (hstored.symm.trans hstored')
      exact workOn_alike (hd d hstored) hstored hw hv hw' hv'

end DistributionOperator
