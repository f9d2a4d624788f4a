import DistributionOperator.Proofs.PassMemory
import DistributionOperator.Proofs.UndisturbedRuns

/-! Synchronizing again. What a synchronization that went well leaves behind is settled, and stays
so while others only add to it; the next one then writes nothing. -/

namespace DistributionOperator

open Program Store Operator

/-- What others may do to a child: they keep its owners and the digest, and keep its labels and its
spec or add to them. Its status and its other annotations they may change at will. -/
structure Child.Grows (old new : Child) : Prop where
  ownerReferences : new.metadata.ownerReferences = old.metadata.ownerReferences
  digest : new.metadata.annotation? hashAnnotation = old.metadata.annotation? hashAnnotation
  labels : new.labelsJson = old.labelsJson ∨ old.labelsJson.containedIn new.labelsJson = true
  spec : new.specJson = old.specJson ∨ old.specJson.containedIn new.specJson = true

variable {o : Operator} {d : Distribution} {image : String} {owner : OwnerReference}
  {kind : ChildKind} {w : Child}

namespace Child.Grows

variable {old new : Child}

theorem refl (c : Child) : c.Grows c := ⟨rfl, rfl, .inl rfl, .inl rfl⟩

theorem owners (h : old.Grows new) : new.metadata.owners = old.metadata.owners := by
  simp only [ObjectMeta.owners, h.ownerReferences]

theorem containedIn_of_grown {j a b : Json} (hj : j.containedIn a = true)
    (h : b = a ∨ a.containedIn b = true) : j.containedIn b = true := by
  rcases h with rfl | h
  · exact hj
  · exact Json.containedIn_trans j a b hj h

theorem inLine (h : old.Grows new) (hold : w.inLine old owner = true) :
    w.inLine new owner = true := by
  obtain ⟨hown, hlabels, hspec, hnotes⟩ := inLine_iff.mp hold
  refine inLine_iff.mpr ⟨?_, ?_, ?_, ?_⟩
  · simpa only [ObjectMeta.ownedBy, h.owners] using hown
  · exact containedIn_of_grown hlabels h.labels
  · exact containedIn_of_grown hspec h.spec
  · rw [h.digest, hnotes]

theorem accepts (h : old.Grows new) (hold : kind.Accepts owner w old) :
    kind.Accepts owner w new := by
  intro hk
  obtain ⟨hown, hline⟩ := hold hk
  refine ⟨?_, h.inLine hline⟩
  simpa only [ObjectMeta.controlledByOther, h.owners] using hown

end Child.Grows

/-- A child that was just written is accepted by what it was made for. -/
theorem accepts_storedAs {version : String} (hw : o.wanted d image owner kind = some w) :
    kind.Accepts owner w (w.storedAs d.space version) := by
  intro hk
  cases kind with
  | claim => exact absurd rfl hk
  | managed m =>
    have howner : (w.storedAs d.space version).metadata.ownerReferences = some [owner] := by
      rw [Child.storedAs_ownerReferences, wanted_ownerReferences hw]
    exact ⟨Child.not_controlledByOther howner, wanted_inLine_storedAs hw⟩

theorem accepts_replacing {m : Managed} {live : Child} {version : String}
    (hw : o.wanted d image owner (.managed m) = some w) :
    (ChildKind.managed m).Accepts owner w
      ((Child.replacing m live w).storedAs d.space version) := by
  intro _
  have howner : ((Child.replacing m live w).storedAs d.space version).metadata.ownerReferences =
      some [owner] := by
    rw [Child.storedAs_ownerReferences, Child.replacing_ownerReferences, wanted_ownerReferences hw]
  exact ⟨Child.not_controlledByOther howner, wanted_inLine_replacing hw⟩

theorem settled_of_wanted {live : Child} (hw : o.wanted d image owner kind = some w)
    (h : kind.Accepts owner w live) : o.Settled d image owner kind (some live) := by
  simp only [Settled, hw]
  exact ⟨live, rfl, h⟩

theorem settled_of_unwanted {c : Option Child} (hw : o.wanted d image owner kind = none)
    (h : kind = .policy → c = none) : o.Settled d image owner kind c := by
  simp only [Settled, hw]
  exact h

/-- After a stage that ended well there is nothing more to do for it. -/
theorem Operator.Settles.settled {c c' : Option Child} {a : Applied}
    (h : o.Settles d image owner kind c (.ok a) c') : o.Settled d image owner kind c' := by
  cases h with
  | idle _ hw hc => exact settled_of_unwanted hw hc
  | removed _ hw _ => exact settled_of_unwanted hw fun _ => rfl
  | kept live w hw hl => exact settled_of_wanted hw hl
  | created w version hw => exact settled_of_wanted hw (accepts_storedAs hw)
  | updated m live w version hk hw _ =>
    subst hk
    exact settled_of_wanted hw (accepts_replacing hw)

theorem Operator.Settled.grows {c c' : Option Child} (h : o.Settled d image owner kind c)
    (hg : Option.Rel Child.Grows c c') : o.Settled d image owner kind c' := by
  cases hg with
  | none => exact h
  | some hg =>
    cases hw : o.wanted d image owner kind with
    | none =>
      simp only [Settled, hw] at h
      exact settled_of_unwanted hw fun hk => absurd (h hk) (by simp)
    | some w =>
      simp only [Settled, hw] at h
      obtain ⟨live, hlive, haccepts⟩ := h
      cases hlive
      exact settled_of_wanted hw (hg.accepts haccepts)

/-- After a synchronization that went well, whatever it had to do and whatever went wrong before,
the next one for the same distribution goes well too and only looks at the children, also if others
have added to them in between. -/
theorem synchronize_again {s s' : Scene} {t : List Exchange} {r : Rehearsal}
    (h : (synchronize o d).Performs s t (.ok ()) s') (hr : r.Undisturbed)
    (hg : ∀ kind, Option.Rel Child.Grows (s'.store.children kind (d.childKey kind))
      (r.store.children kind (d.childKey kind))) :
    ∃ calls, (synchronize o d).run Rehearsal.answer r = (.ok (), calls, r) ∧
      ∀ c ∈ calls, c.LooksAt d r.store := by
  obtain ⟨image, owner, hpre⟩ := prerequisites_of_ok h.dialogue
  rw [synchronize_eq hpre] at h ⊢
  refine hr.run_settled fun kind hk => ?_
  rcases stages_performs ChildKind.nodup_inOrder h kind with ⟨_, hno⟩ | ⟨a, ha, _⟩
  · exact absurd hk (hno rfl)
  · exact ha.settled.grows (hg kind)

/-! An operator that makes all kinds of children. Once they are made, the service is given an
address. -/

def Operator.guarded : Operator := { Operator.sample with flags := ⟨true⟩ }

def Rehearsal.equipped : Rehearsal :=
  ((synchronize .guarded .full).run answer (.start .epoch)).2.2

def Child.addressed (c : Child) : Child :=
  { c with spec := c.spec.map (·.setMember "clusterIP" (.string "10.0.0.1")) }

def Rehearsal.addressed : Rehearsal :=
  let k := Distribution.full.childKey .service
  { equipped with
    store := equipped.store.setChild .service k
      ((equipped.store.children .service k).map Child.addressed) }

theorem Child.rel_map_grows {f : Child → Child} {c : Option Child} (h : ∀ x ∈ c, x.Grows (f x)) :
    Option.Rel Grows c (c.map f) := by
  cases c with
  | none => exact .none
  | some x => exact .some (h x rfl)

theorem Child.rel_grows_refl (c : Option Child) : Option.Rel Grows c c := by
  simpa using Child.rel_map_grows (f := id) fun x (_ : x ∈ c) => Child.Grows.refl x

theorem synchronize_again_addressed :
    ∃ calls, (synchronize .guarded .full).run Rehearsal.answer .addressed =
        (.ok (), calls, .addressed) ∧
      ∀ c ∈ calls, c.LooksAt .full Rehearsal.addressed.store := by
  have hfirst := Rehearsal.performs (synchronize .guarded .full) (.start .epoch)
  have hok : ((synchronize .guarded .full).run Rehearsal.answer (.start .epoch)).1 = .ok () := by
    decide +kernel
  rw [hok] at hfirst
  refine synchronize_again hfirst ⟨fun _ => rfl, rfl⟩ fun kind => ?_
  by_cases hk : kind = .service
  · subst hk
    have hspec : (Rehearsal.equipped.store.children .service
        (Distribution.full.childKey .service)).all
          (fun c => c.specJson.containedIn c.addressed.specJson) = true := by
      decide +kernel
    have hmap : Rehearsal.addressed.store.children .service
        (Distribution.full.childKey .service) = (Rehearsal.equipped.store.children .service
          (Distribution.full.childKey .service)).map Child.addressed :=
      Rehearsal.equipped.store.setChild_same _ _ _
    rw [hmap]
    refine Child.rel_map_grows fun c hc => ?_
    exact ⟨rfl, rfl, .inl rfl, .inr ((Option.all_eq_true _ _).mp hspec c hc)⟩
  · have hsame : Rehearsal.addressed.store.children kind (Distribution.full.childKey kind) =
        Rehearsal.equipped.store.children kind (Distribution.full.childKey kind) :=
      Rehearsal.equipped.store.setChild_other _ fun h => hk h.1
    rw [hsame]
    exact Child.rel_grows_refl _

/-! A whole pass over children that are settled. -/

/-- The rehearsal once a spec was read for a key. -/
def Rehearsal.hearing (r : Rehearsal) (k : Key) (spec : Spec) : Rehearsal :=
  { r with memory := r.memory.heard k (some (some spec)) }

section Passes

variable {r : Rehearsal} {k : Key}

theorem Rehearsal.Undisturbed.run_visit (hr : r.Undisturbed)
    (hd : r.store.distributions k = some d) :
    ((visit o k).run Rehearsal.answer r).1 =
        ((workOn o d).run Rehearsal.answer (r.hearing k d.spec)).1 ∧
      ((visit o k).run Rehearsal.answer r).2.2 =
        ((workOn o d).run Rehearsal.answer (r.hearing k d.spec)).2.2 := by
  have hget : (attempt "get" Distribution.kind (.getDistribution k)).run Rehearsal.answer r =
      (.ok (some d), [.store (.getDistribution k)], r) := by
    rw [hr.run_attempt]
    simp only [Store.answer, hd]
    rfl
  rw [visit, run_andThen_ok hget]
  simp only [run_bind, Program.memory, Program.call, run, Rehearsal.answer, Memory.answer]
  by_cases hchange : (r.memory.observe k.text d.spec).1.changed = true
  · simp [hchange, Rehearsal.hearing, Memory.heard, run, Rehearsal.answer, Memory.answer]
  · simp [hchange, Rehearsal.hearing, Memory.heard]

theorem run_bookkeep_store (k : Key) (result : Except OperatorError Outcome) (r : Rehearsal) :
    ((bookkeep k result).run Rehearsal.answer r).2.2.store = r.store := by
  cases result with
  | error e => rfl
  | ok outcome =>
    obtain ⟨phase, _⟩ := outcome
    cases phase <;> rfl

/-- A pass that finds all children settled writes nothing but the status. -/
theorem Rehearsal.Undisturbed.run_settled_pass (hr : r.Undisturbed)
    (hd : r.store.distributions k = some d) (hpre : o.prerequisites d = .ok (image, owner))
    (h : ∀ kind, o.Settled d image owner kind (r.store.children kind (d.childKey kind))) :
    let told := (updateStatus o d none).run Rehearsal.answer (r.hearing k d.spec)
    ((pass o k).run Rehearsal.answer r).1 = passResult (.ok ()) told.1 ∧
      ((pass o k).run Rehearsal.answer r).2.2.store = told.2.2.store := by
  have hheard : (r.hearing k d.spec).Undisturbed := ⟨hr.reached, hr.readable⟩
  obtain ⟨calls, hsync, _⟩ := hheard.run_settled fun kind (_ : kind ∈ ChildKind.inOrder) => h kind
  rw [← synchronize_eq hpre] at hsync
  obtain ⟨hresult, hafter⟩ := hr.run_visit (o := o) hd
  constructor
  · simp [pass, hresult, workOn, hsync, failureOf]
  · simp [pass, run_bookkeep_store, hafter, workOn, hsync, failureOf]

end Passes

end DistributionOperator
