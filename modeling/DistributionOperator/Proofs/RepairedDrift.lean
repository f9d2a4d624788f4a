import DistributionOperator.Proofs.JsonPaths
import DistributionOperator.Proofs.Resynchronization

/-! Drift is repaired. Whatever became of a live child, once the wanted one was applied the child
has the owner, the digest, the labels and all that the spec sets; and one that was written has no
more than that. -/

namespace DistributionOperator

open Program Store

namespace Json

theorem alike_refl (v : Json) : v.Alike v := by
  cases v <;> simp [Alike, same, Number.same_refl]

end Json

/-! What is written in the course of a program. -/

def StoreCall.write? : StoreCall → Option WriteOp
  | .create _ _ _ | .createConfigMap _ _ => some .create
  | .replace _ _ _ => some .replace
  | .deletePolicy _ => some .delete
  | .updateStatus _ _ _ => some .status
  | .getDistribution _ | .get _ _ | .getConfigMap _ => none

def Exchange.write? (x : Exchange) : Option WriteOp :=
  match x.call with
  | .store c => c.write?
  | _ => none

/-- The writes that are reported. -/
def Applied.writes : Applied → List WriteOp
  | .created => [.create]
  | .updated => [.replace]
  | .unchanged => []

theorem Applied.writes_inj {a b : Applied} : a.writes = b.writes ↔ a = b := by
  cases a <;> cases b <;> decide

variable {m : Managed} {space : String} {owner : OwnerReference} {wanted live : Child}
  {a : Applied}

theorem attend_writes {kind : ChildKind} {t : List Exchange}
    (h : (attend kind space owner wanted live).Dialogue t (.ok a)) :
    t.filterMap Exchange.write? = a.writes := by
  cases kind with
  | claim =>
    obtain ⟨rfl, ha⟩ := dialogue_done.mp h
    obtain rfl := Except.ok.inj ha
    rfl
  | managed m =>
    dsimp only [attend] at h
    split at h
    · obtain ⟨_, ha⟩ := dialogue_done.mp h
      cases ha
    · split at h
      · obtain ⟨rfl, ha⟩ := dialogue_done.mp h
        obtain rfl := Except.ok.inj ha
        rfl
      · rcases dialogue_andThen.mp h with ⟨e, _, he⟩ | ⟨c, t₁, t₂, rfl, hc, hd⟩
        · cases he
        · obtain rfl := dialogue_attempt_ok.mp hc
          obtain ⟨rfl, ha⟩ := dialogue_done.mp hd
          obtain rfl := Except.ok.inj ha
          rfl

theorem approach_writes {kind : ChildKind} {t : List Exchange}
    (h : (approach kind space owner wanted).Dialogue t (.ok a)) :
    t.filterMap Exchange.write? = a.writes := by
  rcases dialogue_andThen.mp h with ⟨e, _, he⟩ | ⟨found, t₁, t₂, rfl, hg, hr⟩
  · cases he
  · obtain rfl := dialogue_attempt_ok.mp hg
    cases found with
    | none =>
      rcases dialogue_andThen.mp hr with ⟨e, _, he⟩ | ⟨c, t₁, t₃, rfl, hc, hd⟩
      · cases he
      · obtain rfl := dialogue_attempt_ok.mp hc
        obtain ⟨rfl, ha⟩ := dialogue_done.mp hd
        obtain rfl := Except.ok.inj ha
        rfl
    | some live => exact attend_writes (t := t₂) hr

namespace Child

/-- Whether a path leads to what the cluster gives. The operator's own services have nothing at the
end of such a path. -/
def GivenAt (m : Managed) (p : List Json.Place) : Prop :=
  m = .service ∧ ∃ k ∈ addressMembers, p.head? = some (.member k)

/-- Whether a stored child has all that makes up the wanted one. -/
structure Mends (m : Managed) (owner : OwnerReference) (wanted stored : Child) : Prop where
  owned : ∃ r ∈ stored.metadata.owners, r.uid = owner.uid
  digest : stored.metadata.annotation? hashAnnotation =
    some (appliedHash wanted.metadata.labels wanted.spec)
  labels : ∀ k v, wanted.metadata.labels.bind (·.get? k) = some v →
    stored.metadata.labels.bind (·.get? k) = some v
  spec : ∀ p v, ¬GivenAt m p → wanted.specJson.at? p = some v → v ≠ .null →
    ∃ w, stored.specJson.at? p = some w ∧ v.Alike w

/-- The spec that is stored by a write: the wanted one, for a service with the addresses of the live
one. -/
def SpecWritten (m : Managed) (live wanted stored : Option Json) : Prop :=
  match m, live, wanted with
  | .service, some l, some (.object members) => ∃ members', stored = some (.object members') ∧
      ∀ k, (Json.object members').member? k =
        if k ∈ addressMembers then l.member? k else (Json.object members).member? k
  | _, _, wanted => stored = wanted

/-- Whether a stored child is the wanted one and no more, written over what was there before. -/
structure Rewrites (m : Managed) (owner : OwnerReference) (before : Option Child)
    (wanted stored : Child) : Prop where
  labels : stored.metadata.labels = wanted.metadata.labels
  annotations : stored.metadata.annotations = some ((wanted.metadata.annotations.getD .empty).insert
    hashAnnotation (appliedHash wanted.metadata.labels wanted.spec))
  owners : stored.metadata.ownerReferences = some [owner]
  spec : SpecWritten m (before.bind (·.spec)) wanted.spec stored.spec

variable {stored c : Child} {before : Option Child}

theorem specWritten_fresh (m : Managed) (w : Option Json) : SpecWritten m none w w := by
  cases m <;> rfl

theorem specWritten_replacing (m : Managed) (live w : Child) :
    SpecWritten m live.spec w.spec (replacing m live w).spec := by
  cases m with
  | deployment => rfl
  | policy => rfl
  | service =>
    cases hl : live.spec with
    | none => simp [SpecWritten, replacing, keepAddresses, hl]
    | some l =>
      cases hw : w.spec with
      | none => simp [SpecWritten, replacing, keepAddresses, hw]
      | some j =>
        cases j with
        | object members => exact keepAddresses_members hw hl
        | _ => simp [SpecWritten, replacing, keepAddresses, hl, hw,
            Json.takeMember_of_not_object l]

/-- Off the paths of addresses a spec that was written has all of the wanted one. -/
theorem SpecWritten.at?_eq {live w s : Option Json} (h : SpecWritten m live w s)
    {p : List Json.Place} (hp : ¬GivenAt m p) {v : Json} (hv : (w.getD .null).at? p = some v) :
    ∃ x, (s.getD .null).at? p = some x ∧ v.Alike x := by
  unfold SpecWritten at h
  split at h
  · obtain ⟨members', rfl, hmember⟩ := h
    cases p with
    | nil =>
      obtain rfl := Option.some.inj hv
      exact ⟨_, rfl, trivial⟩
    | cons q r =>
      cases q with
      | member k =>
        have hk : k ∉ addressMembers := fun hk => hp ⟨rfl, k, hk, rfl⟩
        have hsame := hmember k
        rw [if_neg hk] at hsame
        refine ⟨v, ?_, Json.alike_refl v⟩
        simpa [hsame] using hv
      | item i => simp [Json.items] at hv
  · subst h
    exact ⟨v, hv, Json.alike_refl v⟩

theorem Rewrites.mends (h : Rewrites m owner before wanted stored) :
    Mends m owner wanted stored where
  owned := ⟨owner, by simp [ObjectMeta.owners, h.owners], rfl⟩
  digest := by simp [ObjectMeta.annotation?, h.annotations]
  labels k v hv := by rwa [h.labels]
  spec p v hp hv _ := h.spec.at?_eq hp hv

theorem rewrites_created (version : String) :
    Rewrites m owner none wanted ((wanted.prepare owner).storedAs space version) :=
  ⟨rfl, rfl, rfl, specWritten_fresh m wanted.spec⟩

theorem rewrites_updated (version : String) :
    Rewrites m owner (some live) wanted
      ((replacing m live (wanted.prepare owner)).storedAs space version) where
  labels := replacing_labels
  annotations := replacing_annotations
  owners := by simp [prepare, withOwner]
  spec := specWritten_replacing m live (wanted.prepare owner)

/-- A label that a value asks for is there with that value in all that it is contained in. -/
theorem label_of_containedIn {c live : Child} (h : c.labelsJson.containedIn live.labelsJson = true)
    {k v : String} (hv : c.metadata.labels.bind (·.get? k) = some v) :
    live.metadata.labels.bind (·.get? k) = some v := by
  obtain ⟨l, hl, hk⟩ := Option.bind_eq_some_iff.mp hv
  have hasked : c.labelsJson.at? [.member k] = some (.string v) := by
    simp [labelsJson, hl, Json.member?_ofStrings, hk]
  obtain ⟨w, hw, hsame⟩ := Json.setIn_of_containedIn h _ _ hasked (by simp)
  obtain rfl : w = .string v := by
    cases w <;> simp_all [Json.Alike, Json.same]
  cases hlive : live.metadata.labels with
  | none => simp [labelsJson, hlive, Json.member?] at hw
  | some l' => simpa [labelsJson, hlive, Json.member?_ofStrings] using hw

theorem mends_of_inLine (h : (wanted.prepare owner).inLine stored owner = true) :
    Mends m owner wanted stored := by
  obtain ⟨howned, hlabels, hspec, hdigest⟩ := inLine_iff.mp h
  have hprepared : (wanted.prepare owner).metadata.annotation? hashAnnotation =
      some (appliedHash wanted.metadata.labels wanted.spec) := by
    simp [prepare, withHash, withOwner, ObjectMeta.annotation?]
  refine ⟨?_, hdigest.symm.trans hprepared, fun k v hv => ?_, fun p v _ hv hn => ?_⟩
  · simpa [ObjectMeta.ownedBy, List.any_eq_true] using howned
  · exact label_of_containedIn hlabels hv
  · exact Json.setIn_of_containedIn hspec p v hv hn

end Child

/-- After a child was applied with success it is all that was wanted, and the only one that may have
changed. What is reported is what was written. -/
theorem applyChild_repairs {s s' : Scene} {t : List Exchange}
    (h : (applyChild m space owner wanted).Performs s t (.ok a) s') :
    ∃ stored,
      s'.store.children = (s.store.setChild (.managed m) (keyIn space wanted.metadata)
        (some stored)).children ∧
      Child.Mends m owner wanted stored ∧
      (a = .unchanged → s.store.children (.managed m) (keyIn space wanted.metadata) = some stored) ∧
      (a ≠ .unchanged → Child.Rewrites m owner
        (s.store.children (.managed m) (keyIn space wanted.metadata)) wanted stored) ∧
      ∀ b, a = b ↔ t.filterMap Exchange.write? = b.writes := by
  rw [applyChild_eq] at h
  have hwrites : ∀ b : Applied, a = b ↔ t.filterMap Exchange.write? = b.writes := by
    intro b
    rw [approach_writes h.dialogue, Applied.writes_inj]
  obtain ⟨c, hmeets, hchildren⟩ := approach_performs h
  have hkey : keyIn space (wanted.prepare owner).metadata = keyIn space wanted.metadata := rfl
  rw [hkey] at hmeets hchildren
  generalize s.store.children (.managed m) (keyIn space wanted.metadata) = before at hmeets ⊢
  cases hmeets with
  | kept live hl =>
    have hmends : Child.Mends m owner wanted live := Child.mends_of_inLine (hl (by simp)).2
    exact ⟨live, hchildren, hmends, fun _ => rfl, fun hne => absurd rfl hne, hwrites⟩
  | created version =>
    have hrewrites : Child.Rewrites m owner none wanted
        ((wanted.prepare owner).storedAs space version) := Child.rewrites_created version
    exact ⟨_, hchildren, hrewrites.mends, nofun, fun _ => hrewrites, hwrites⟩
  | updated m' live version hk hl =>
    obtain rfl := ChildKind.managed.inj hk
    have hrewrites : Child.Rewrites m owner (some live) wanted
        ((Child.replacing m live (wanted.prepare owner)).storedAs space version) :=
      Child.rewrites_updated version
    exact ⟨_, hchildren, hrewrites.mends, nofun, fun _ => hrewrites, hwrites⟩

/-! A service that somebody took the labels and the owner from, and gave another type and an
address. -/

def Child.tampered (c : Child) : Child :=
  { c with
    metadata := { c.metadata with labels := none, ownerReferences := none }
    spec := c.addressed.spec.map (·.setMember "type" (.string "NodePort")) }

def Rehearsal.tampered : Rehearsal :=
  let k := Distribution.full.childKey .service
  { equipped with
    store := equipped.store.setChild .service k
      ((equipped.store.children .service k).map Child.tampered) }

theorem applyChild_repairs_tampered :
    let r := (applyChild .service "ai" .sample Distribution.full.service).run Rehearsal.answer
      .tampered
    let k : Key := ⟨"ai", "demo-service"⟩
    r.1 = .ok .updated ∧
      ∃ stored, r.2.2.store.children .service k = some stored ∧
        Child.Mends .service .sample Distribution.full.service stored ∧
        Child.Rewrites .service .sample (Rehearsal.tampered.store.children .service k)
          Distribution.full.service stored := by
  intro r k
  have hok : r.1 = .ok .updated := by decide +kernel
  have hperforms := Rehearsal.performs
    (applyChild .service "ai" .sample Distribution.full.service) .tampered
  have hrepairs := applyChild_repairs (hok ▸ hperforms)
  obtain ⟨stored, hchildren, hmends, _, hrewrites, _⟩ := hrepairs
  have hkey : keyIn "ai" Distribution.full.service.metadata = k := by decide +kernel
  rw [hkey] at hchildren hrewrites
  refine ⟨hok, stored, ?_, hmends, hrewrites (by simp)⟩
  have hstored := congrFun (congrFun hchildren .service) k
  rwa [setChild_same] at hstored

/-! Nothing but a foreign controller, or a call that goes wrong, is in the way of a repair. -/

theorem Store.replace_ok {s : Store} {c : Child}
    (h : s.children (.managed m) (keyIn space c.metadata) = some live)
    (hv : c.metadata.resourceVersion = live.metadata.resourceVersion) :
    (s.replace m space c).1 = .ok (c.storedAs space s.nextVersion) := by
  have hcurrent : current c.metadata.resourceVersion live.metadata.resourceVersion = true := by
    simp [current, hv]
  simp only [Store.replace, h, hcurrent]
  rfl

theorem Rehearsal.Undisturbed.run_attend {r : Rehearsal} (hr : r.Undisturbed)
    (hlive : r.store.children (.managed m) (keyIn space wanted.metadata) = some live)
    (hfree : live.metadata.controlledByOther owner.uid = false) :
    ∃ a, ((attend (.managed m) space owner wanted live).run answer r).1 = .ok a := by
  by_cases hline : wanted.inLine live owner = true
  · exact ⟨.unchanged, by simp [attend, hfree, hline]⟩
  · have hkey : keyIn space (Child.replacing m live wanted).metadata =
        keyIn space wanted.metadata := by
      simp [keyIn]
    have hversion : (Child.replacing m live wanted).metadata.resourceVersion =
        live.metadata.resourceVersion := rfl
    have hattempt := hr.run_attempt "update" (ChildKind.managed m).kind
      (.replace m space (Child.replacing m live wanted))
    simp only [Store.answer, Store.replace_ok (hkey.symm ▸ hlive) hversion] at hattempt
    refine ⟨.updated, ?_⟩
    simp only [attend, hfree, hline]
    rw [if_neg Bool.false_ne_true, if_neg Bool.false_ne_true, run_andThen_ok hattempt]
    rfl

theorem Rehearsal.Undisturbed.run_applyChild {r : Rehearsal} (hr : r.Undisturbed)
    (h : ∀ live ∈ r.store.children (.managed m) (keyIn space wanted.metadata),
      live.metadata.controlledByOther owner.uid = false) :
    ∃ a, ((applyChild m space owner wanted).run answer r).1 = .ok a := by
  have hkey : keyIn space (wanted.prepare owner).metadata = keyIn space wanted.metadata := rfl
  rw [applyChild_eq, approach, hkey, run_andThen_ok (hr.run_get _ _ _ _)]
  cases hc : r.store.children (.managed m) (keyIn space wanted.metadata) with
  | none =>
    have hattempt := hr.run_attempt "create" (ChildKind.managed m).kind
      (.create (.managed m) space (wanted.prepare owner))
    simp only [Store.answer, create_ok (hkey.symm ▸ hc)] at hattempt
    exact ⟨.created, congrArg Prod.fst (run_andThen_ok hattempt)⟩
  | some live => exact hr.run_attend hc (h live hc)

end DistributionOperator
