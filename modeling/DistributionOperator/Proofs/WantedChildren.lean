import DistributionOperator.Proofs.Containment
import DistributionOperator.Proofs.JsonShapes
import DistributionOperator.Proofs.Synchronization

/-! The children that an operator wants for a distribution, as they are sent to the store. Their
specs are tidy, and set none of the addresses that the cluster gives. -/

namespace DistributionOperator

open Json

theorem someList_tidy {α : Type} {f : α → Json} (h : ∀ a, (f a).Tidy) (l : List α) :
    ∀ j ∈ someList f l, j.Tidy := by
  unfold someList
  split
  · simp
  · exact tidy_of_some (tidy_array_map h l)

theorem someStrings_tidy (m : StringMap String) : ∀ j ∈ someStrings m, j.Tidy := by
  unfold someStrings
  split
  · simp
  · exact tidy_of_some (tidy_ofStrings m)

theorem Amounts.toJson_tidy (a : Amounts) : a.toJson.Tidy :=
  tidy_ofPresent ⟨someStrings_tidy _, someStrings_tidy _⟩

theorem EnvSetting.toJson_tidy (e : EnvSetting) : e.toJson.Tidy :=
  tidy_mkObject ⟨tidy_string _, tidy_string _⟩

theorem VolumeMount.toJson_tidy (m : VolumeMount) : m.toJson.Tidy :=
  tidy_mkObject ⟨tidy_string _, tidy_string _⟩

theorem Container.toJson_tidy (c : Container) : c.toJson.Tidy := by
  have hport : ∀ p : Int32, (mkObject [("containerPort", .int p.toInt)]).Tidy :=
    fun p => tidy_mkObject (tidy_int p.toInt)
  exact tidy_ofPresent ⟨someList_tidy tidy_string _, someList_tidy tidy_string _,
    someList_tidy EnvSetting.toJson_tidy _, tidy_of_some (tidy_string _),
    tidy_of_some (tidy_string _), tidy_of_some (tidy_array_map hport _),
    tidy_of_map Amounts.toJson_tidy _, tidy_of_some (tidy_array_map VolumeMount.toJson_tidy _)⟩

theorem Volume.toJson_tidy (v : Volume) : v.toJson.Tidy := by
  unfold Volume.toJson
  split
  · exact tidy_mkObject ⟨tidy_string _, tidy_mkObject (tidy_string _)⟩
  · exact tidy_mkObject ⟨tidy_string _, tidy_object .nil (by simp)⟩

theorem PodTemplate.toJson_tidy (t : PodTemplate) : t.toJson.Tidy :=
  tidy_mkObject ⟨tidy_mkObject (tidy_ofStrings _),
    tidy_ofPresent ⟨tidy_of_some (tidy_array_map Container.toJson_tidy _),
      tidy_of_map tidy_string _, tidy_of_some (tidy_array_map Volume.toJson_tidy _)⟩⟩

theorem Selector.toJson_tidy (s : Selector) : s.toJson.Tidy := tidy_ofPresent (someStrings_tidy _)

theorem DeploymentSpec.toJson_tidy (s : DeploymentSpec) : s.toJson.Tidy :=
  tidy_mkObject ⟨tidy_int _, s.selector.toJson_tidy, s.template.toJson_tidy⟩

theorem ServicePort.toJson_tidy (p : ServicePort) : p.toJson.Tidy :=
  tidy_mkObject ⟨tidy_string _, tidy_int _, tidy_int _⟩

theorem ServiceSpec.toJson_tidy (s : ServiceSpec) : s.toJson.Tidy :=
  tidy_mkObject ⟨tidy_array_map ServicePort.toJson_tidy _, tidy_ofStrings _, tidy_string _⟩

theorem Peer.toJson_tidy (p : Peer) : p.toJson.Tidy :=
  tidy_mkObject ⟨p.spaces.toJson_tidy, p.pods.toJson_tidy⟩

theorem PolicyPort.toJson_tidy (p : PolicyPort) : p.toJson.Tidy :=
  tidy_mkObject ⟨tidy_int _, tidy_string _⟩

theorem IngressRule.toJson_tidy (r : IngressRule) : r.toJson.Tidy :=
  tidy_mkObject ⟨tidy_array_map Peer.toJson_tidy _, tidy_array_map PolicyPort.toJson_tidy _⟩

theorem PolicySpec.toJson_tidy (s : PolicySpec) : s.toJson.Tidy :=
  tidy_mkObject ⟨tidy_array_map IngressRule.toJson_tidy _, s.pods.toJson_tidy,
    tidy_array_map tidy_string _⟩

namespace Json

theorem mkObject_lacks {l : List (String × Json)} {k : String} (h : k ∉ l.map (·.1)) :
    (mkObject l).member? k = none := by
  refine StringMap.find_eq_none_iff.mpr fun hk => ?_
  obtain ⟨e, he, rfl⟩ := List.mem_map.mp hk
  exact h (List.mem_map_of_mem (StringMap.mem_of_mem_ofList he))

/-- Whether the addresses that the cluster gives are left open. -/
def Unaddressed (j : Json) : Prop := j.member? "clusterIP" = none ∧ j.member? "clusterIPs" = none

variable {l j : Json} {k : String}

theorem member?_takeMember (l : Json) (k k' : String) (members : List (String × Json)) :
    (Child.takeMember l k (object members)).member? k' =
      if k = k' then l.member? k else (object members).member? k' := by
  unfold Child.takeMember
  split
  · rename_i v hv
    simp only [setMember, member?, StringMap.find_place]
    split
    · exact hv.symm
    · rfl
  · rename_i hnone
    simp only [eraseMember, member?, StringMap.find_filter_ne]
    split
    · exact hnone.symm
    · rfl

theorem takeMember_object (l : Json) (k : String) (members : List (String × Json)) :
    ∃ members', Child.takeMember l k (object members) = object members' := by
  unfold Child.takeMember
  split
  · exact ⟨_, rfl⟩
  · exact ⟨_, rfl⟩

theorem takeMember_of_not_object (l : Json) (k : String) (hj : ∀ members, j ≠ object members) :
    Child.takeMember l k j = j := by
  unfold Child.takeMember
  cases j with
  | object members => exact absurd rfl (hj members)
  | _ => cases l.member? k <;> rfl

theorem takeMember_of_absent (hl : l.member? k = none) (hj : j.member? k = none) :
    Child.takeMember l k j = j := by
  unfold Child.takeMember
  rw [hl]
  cases j with
  | object members =>
    have hk : k ∉ members.map (·.1) := StringMap.find_eq_none_iff.mp hj
    simp only [eraseMember, object.injEq, List.filter_eq_self]
    intro m hm
    have hne : m.1 ≠ k := fun heq => hk (List.mem_map.mpr ⟨m, hm, heq⟩)
    simpa using hne
  | _ => rfl

end Json

namespace Operator

variable (o : Operator) (d : Distribution) (image : String) (owner : OwnerReference)

def specFor : Managed → Json
  | .deployment => (d.deploymentSpec image).toJson
  | .service => d.serviceSpec.toJson
  | .policy => (d.policySpec o.config.catalog.operatorSpace).toJson

/-- A managed child before it is given its owner and its digest. -/
def outline (m : Managed) : Child :=
  d.childOf (d.childKey (.managed m)).name (o.specFor d image m)

def asksFor : Managed → Bool
  | .deployment => true
  | .service => d.hasPorts
  | .policy => o.flags.networkPolicy

/-- What is sent to the store to make a child of the kind, if one is asked for. -/
def wanted : ChildKind → Option Child
  | .claim => d.spec.server.storage.map fun s => (d.claim s).withOwner owner
  | .managed m => if o.asksFor d m then some ((o.outline d image m).prepare owner) else none

theorem specFor_tidy (m : Managed) : (o.specFor d image m).Tidy := by
  cases m
  · exact DeploymentSpec.toJson_tidy _
  · exact ServiceSpec.toJson_tidy _
  · exact PolicySpec.toJson_tidy _

theorem specFor_unaddressed (m : Managed) : (o.specFor d image m).Unaddressed := by
  constructor
  · cases m <;> exact mkObject_lacks (by simp)
  · cases m <;> exact mkObject_lacks (by simp)

theorem specFor_object (m : Managed) : ∃ members, o.specFor d image m = object members := by
  cases m <;> exact ⟨_, rfl⟩

end Operator

/-- A child as the store keeps it after a write of it. -/
def Child.storedAs (c : Child) (space version : String) : Child :=
  { c with metadata := { c.metadata with space := some space, resourceVersion := some version } }

/-- What of a child is the operator's: all but its name, and what the store and the cluster add. -/
structure Child.Content where
  labels : Option (StringMap String)
  annotations : Option (StringMap String)
  ownerReferences : Option (List OwnerReference)
  spec : Option Json

namespace Child

def content (c : Child) : Content :=
  ⟨c.metadata.labels, c.metadata.annotations, c.metadata.ownerReferences, c.spec⟩

variable {w c live : Child} {space version : String} {owner : OwnerReference} {m : Managed}

@[simp] theorem content_storedAs : (w.storedAs space version).content = w.content := rfl

@[simp] theorem storedAs_ownerReferences :
    (w.storedAs space version).metadata.ownerReferences = w.metadata.ownerReferences := rfl

@[simp] theorem replacing_labels : (replacing m live w).metadata.labels = w.metadata.labels := by
  cases m <;> simp [replacing]

@[simp] theorem replacing_annotations :
    (replacing m live w).metadata.annotations = w.metadata.annotations := by
  cases m <;> simp [replacing]

theorem not_controlledByOther (h : c.metadata.ownerReferences = some [owner]) :
    c.metadata.controlledByOther owner.uid = false := by
  simp [ObjectMeta.controlledByOther, ObjectMeta.owners, h]

theorem inLine_iff : w.inLine live owner = true ↔
    live.metadata.ownedBy owner.uid = true ∧ w.labelsJson.containedIn live.labelsJson = true ∧
      w.specJson.containedIn live.specJson = true ∧
      w.metadata.annotation? hashAnnotation = live.metadata.annotation? hashAnnotation := by
  simp [inLine, and_assoc]

/-- The members of a service's spec to which the cluster gives values. -/
def addressMembers : List String := ["clusterIP", "clusterIPs"]

/-- Written over a live service, a spec has the addresses of that one and is else as it was. -/
theorem keepAddresses_members {l : Json} {members : List (String × Json)}
    (hw : w.spec = some (.object members)) (hl : live.spec = some l) :
    ∃ members', (keepAddresses live w).spec = some (.object members') ∧
      ∀ k, (Json.object members').member? k =
        if k ∈ addressMembers then l.member? k else (Json.object members).member? k := by
  obtain ⟨members₁, h₁⟩ := Json.takeMember_object l "clusterIP" members
  obtain ⟨members₂, h₂⟩ := Json.takeMember_object l "clusterIPs" members₁
  refine ⟨members₂, by simp [keepAddresses, hw, hl, h₁, h₂], fun k => ?_⟩
  have hm₁ := Json.member?_takeMember l "clusterIP" k members
  have hm₂ := Json.member?_takeMember l "clusterIPs" k members₁
  rw [h₁] at hm₁
  rw [h₂, hm₁] at hm₂
  by_cases hips : "clusterIPs" = k
  · simpa [addressMembers, hips] using hm₂
  · by_cases hip : "clusterIP" = k
    · subst hip
      simpa [addressMembers] using hm₂
    · simpa [addressMembers, hips, hip, Ne.symm hips, Ne.symm hip] using hm₂

/-- A spec without addresses is still to be found in what is made of it with those of a live
child. -/
theorem containedIn_replacing {j : Json} (hw : w.spec = some j) (ht : j.Tidy) (hj : j.Unaddressed)
    (ho : ∃ members, j = .object members) :
    w.specJson.containedIn (replacing m live w).specJson = true := by
  have hself : j.containedIn j = true := Json.containedIn_refl j ht.canonical
  have hplain : w.specJson.containedIn w.specJson = true := by simpa [specJson, hw] using hself
  cases m with
  | deployment => exact hplain
  | policy => exact hplain
  | service =>
    cases hl : live.spec with
    | none => simpa [replacing, keepAddresses, hl, specJson] using hplain
    | some l =>
      obtain ⟨members, rfl⟩ := ho
      obtain ⟨members', hspec, hmember⟩ := keepAddresses_members hw hl
      have hjson : (replacing .service live w).specJson = .object members' := by
        simp [replacing, specJson, hspec]
      rw [hjson]
      simp only [specJson, hw, Option.getD_some, Json.containedIn]
      refine Json.membersIn_of_find members members' ht.canonical.2 fun e he => ?_
      have hfind : StringMap.find e.1 members = some e.2 :=
        StringMap.find_of_mem (StringMap.nodup_of_sorted ht.canonical.1) he
      -- no address is among the members that are asked for
      have hasked : e.1 ∉ addressMembers := by
        intro hmem
        have hnone : (Json.object members).member? e.1 = none := by
          rcases List.mem_cons.mp hmem with h | h
          · exact h ▸ hj.1
          · exact List.mem_singleton.mp h ▸ hj.2
        rw [Json.member?, hfind] at hnone
        cases hnone
      have hkept := hmember e.1
      rw [if_neg hasked] at hkept
      exact hkept.trans hfind

end Child

namespace Operator

variable {o : Operator} {d : Distribution} {image : String} {owner : OwnerReference}
  {kind : ChildKind} {m : Managed} {w live : Child} {space version : String}

theorem wanted_managed (h : o.wanted d image owner (.managed m) = some w) :
    o.asksFor d m = true ∧ w = (o.outline d image m).prepare owner := by
  simp only [wanted] at h
  split at h
  · rename_i hasks
    exact ⟨hasks, (Option.some.inj h).symm⟩
  · cases h

theorem wanted_managed_none :
    o.wanted d image owner (.managed m) = none ↔ o.asksFor d m = false := by
  simp only [wanted]
  split <;> simp_all

theorem wanted_key (h : o.wanted d image owner kind = some w) :
    Store.keyIn d.space w.metadata = d.childKey kind := by
  cases kind with
  | claim =>
    obtain ⟨s, _, rfl⟩ := Option.map_eq_some_iff.mp h
    rfl
  | managed m =>
    rw [(wanted_managed h).2]
    cases m <;> rfl

theorem wanted_ownerReferences (h : o.wanted d image owner kind = some w) :
    w.metadata.ownerReferences = some [owner] := by
  cases kind with
  | claim =>
    obtain ⟨s, _, rfl⟩ := Option.map_eq_some_iff.mp h
    rfl
  | managed m =>
    rw [(wanted_managed h).2]
    rfl

/-- Whatever has the metadata of a wanted child and holds its spec is in line with it. -/
theorem wanted_inLine (h : o.wanted d image owner (.managed m) = some w) {c : Child}
    (hown : c.metadata.ownerReferences = w.metadata.ownerReferences)
    (hlabels : c.metadata.labels = w.metadata.labels)
    (hnotes : c.metadata.annotations = w.metadata.annotations)
    (hspec : w.specJson.containedIn c.specJson = true) : w.inLine c owner = true := by
  refine Child.inLine_iff.mpr ⟨?_, ?_, hspec, ?_⟩
  · simp [ObjectMeta.ownedBy, ObjectMeta.owners, hown, wanted_ownerReferences h]
  · have hjson : c.labelsJson = w.labelsJson := by simp [Child.labelsJson, hlabels]
    obtain ⟨_, rfl⟩ := wanted_managed h
    rw [hjson]
    exact Json.containedIn_refl _ (Json.tidy_ofStrings d.selectorLabels).canonical
  · simp [ObjectMeta.annotation?, hnotes]

theorem wanted_inLine_storedAs (h : o.wanted d image owner (.managed m) = some w) :
    w.inLine (w.storedAs space version) owner = true := by
  refine wanted_inLine h rfl rfl rfl ?_
  obtain ⟨_, rfl⟩ := wanted_managed h
  exact Json.containedIn_refl _ (o.specFor_tidy d image m).canonical

theorem wanted_inLine_replacing (h : o.wanted d image owner (.managed m) = some w) :
    w.inLine ((Child.replacing m live w).storedAs space version) owner = true := by
  refine wanted_inLine h (by simp [Child.storedAs]) (by simp [Child.storedAs])
    (by simp [Child.storedAs]) ?_
  obtain ⟨_, rfl⟩ := wanted_managed h
  exact Child.containedIn_replacing rfl (o.specFor_tidy d image m)
    (o.specFor_unaddressed d image m) (o.specFor_object d image m)

end Operator

end DistributionOperator
