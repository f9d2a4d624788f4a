import DistributionOperator.Proofs.LabelSelectors

/-! The traffic that policies admit, by what the cluster makes of them as they are sent. In a policy
as it is built no list is empty and both selectors of a peer are there, so it admits what its rules
say and no more. -/

namespace DistributionOperator

/-- A connection from a pod, with what else a policy may go by: the space of the pod, whether its
address is in a block, and whether a port of the receiver has a name. -/
structure Traffic extends Connection where
  space : String
  inBlock : Json → Prop
  isNamed : String → Prop

namespace Json

/-- An empty list asks for nothing, and another one for one of its items. -/
def OneOf (l : List Json) (P : Json → Prop) : Prop := l = [] ∨ ∃ j ∈ l, P j

/-- Without a selector for spaces a peer is of the policy's own space, and without one for pods any
pod will do. -/
def PeerIncludes (space : Option String) (t : Traffic) (peer : Json) : Prop :=
  match peer.member? "ipBlock", peer.member? "podSelector", peer.member? "namespaceSelector" with
  | some block, _, _ => t.inBlock block
  | none, some pods, some spaces => pods.Selects t.podLabels ∧ spaces.Selects t.spaceLabels
  | none, some pods, none => pods.Selects t.podLabels ∧ space = some t.space
  | none, none, some spaces => spaces.Selects t.spaceLabels
  | none, none, none => False

def PortIncludes (t : Traffic) (port : Json) : Prop :=
  ((port.member? "protocol").bind string?).getD "TCP" = t.protocol ∧
    match port.member? "port", (port.member? "endPort").bind int? with
    | none, _ => True
    | some (.number (.int n)), none => n = t.port.toInt
    | some (.number (.int n)), some last => n ≤ t.port.toInt ∧ t.port.toInt ≤ last
    | some (.string name), _ => t.isNamed name
    | some _, _ => False

def RuleAdmits (space : Option String) (t : Traffic) (rule : Json) : Prop :=
  OneOf (rule.listed "from") (PeerIncludes space t) ∧ OneOf (rule.listed "ports") (PortIncludes t)

end Json

/-! A policy as a child. -/

namespace Child

/-- Whether a policy is about the pods with these labels in this space. -/
def Governs (policy : Child) (space : String) (labels : StringMap String) : Prop :=
  policy.metadata.space = some space ∧ policy.SelectsBy "podSelector" labels

def policyTypes (policy : Child) : List Json := policy.specJson.listed "policyTypes"

def RestrictsIngress (policy : Child) : Prop :=
  policy.policyTypes = [] ∨ .string "Ingress" ∈ policy.policyTypes

def RestrictsEgress (policy : Child) : Prop :=
  (policy.policyTypes = [] ∧ policy.specJson.listed "egress" ≠ []) ∨
    .string "Egress" ∈ policy.policyTypes

/-- Whether a policy that restricts what comes in lets this in. -/
def Admits (policy : Child) (t : Traffic) : Prop :=
  ∃ rule ∈ policy.specJson.listed "ingress", rule.RuleAdmits policy.metadata.space t

end Child

/-! What is sent means what it was made of. -/

section Meaning

variable {t : Traffic} {space : Option String}

theorem Peer.includes_toJson (p : Peer) :
    p.toJson.PeerIncludes space t ↔ p.includes t.podLabels t.spaceLabels = true := by
  have hmember : ∀ k, p.toJson.member? k = StringMap.find k
      [("namespaceSelector", p.spaces.toJson), ("podSelector", p.pods.toJson)] :=
    Json.member?_mkObject (by simp)
  simp [Json.PeerIncludes, hmember, StringMap.find, Peer.includes, Selector.selects_toJson]

theorem PolicyPort.includes_toJson (p : PolicyPort) :
    p.toJson.PortIncludes t ↔
      (decide (p.protocol = t.protocol) && decide (p.port = t.port)) = true := by
  have hmember : ∀ k, p.toJson.member? k = StringMap.find k
      [("port", .int p.port.toInt), ("protocol", .string p.protocol)] :=
    Json.member?_mkObject (by simp)
  simp [Json.PortIncludes, hmember, StringMap.find, Json.int, Json.string?, Int32.toInt_inj]

theorem oneOf_map {α : Type} {f : α → Json} {l : List α} {P : Json → Prop} {b : α → Bool}
    (hl : l ≠ []) (h : ∀ a, P (f a) ↔ b a = true) : Json.OneOf (l.map f) P ↔ l.any b = true := by
  simp [Json.OneOf, hl, h]

theorem IngressRule.admits_toJson {r : IngressRule} (hpeers : r.peers ≠ [])
    (hports : r.ports ≠ []) :
    r.toJson.RuleAdmits space t ↔ r.admits t.toConnection = true := by
  have hmember : ∀ k, r.toJson.member? k = StringMap.find k
      [("from", .array (r.peers.map Peer.toJson)),
        ("ports", .array (r.ports.map PolicyPort.toJson))] :=
    Json.member?_mkObject (by simp)
  have hfrom : r.toJson.listed "from" = r.peers.map Peer.toJson := by
    simp [Json.listed, hmember, StringMap.find, Json.items]
  have hto : r.toJson.listed "ports" = r.ports.map PolicyPort.toJson := by
    simp [Json.listed, hmember, StringMap.find, Json.items]
  rw [Json.RuleAdmits, hfrom, hto, oneOf_map hpeers Peer.includes_toJson,
    oneOf_map hports PolicyPort.includes_toJson, admits, Bool.and_eq_true]

theorem PolicySpec.member?_toJson (s : PolicySpec) : ∀ k, s.toJson.member? k = StringMap.find k
    [("ingress", .array (s.ingress.map IngressRule.toJson)), ("podSelector", s.pods.toJson),
      ("policyTypes", .array (s.policyTypes.map Json.string))] :=
  Json.member?_mkObject (by simp)

theorem PolicySpec.admits_toJson {s : PolicySpec} {policy : Child}
    (hspec : policy.specJson = s.toJson) (hrules : ∀ r ∈ s.ingress, r.peers ≠ [] ∧ r.ports ≠ []) :
    policy.Admits t ↔ s.admits t.toConnection = true := by
  have hlisted : policy.specJson.listed "ingress" = s.ingress.map IngressRule.toJson := by
    simp [Json.listed, hspec, s.member?_toJson, StringMap.find, Json.items]
  have hrule : ∀ r ∈ s.ingress, (r.toJson.RuleAdmits policy.metadata.space t ↔
      r.admits t.toConnection = true) := fun r hr =>
    IngressRule.admits_toJson (hrules r hr).1 (hrules r hr).2
  simp only [Child.Admits, hlisted, List.mem_map, exists_exists_and_eq_and, PolicySpec.admits,
    List.any_eq_true]
  exact exists_congr fun r => and_congr_right fun hr => hrule r hr

theorem PolicySpec.governs_toJson {s : PolicySpec} {policy : Child}
    (hspec : policy.specJson = s.toJson) {labels : StringMap String} {name : String} :
    policy.Governs name labels ↔ policy.metadata.space = some name ∧ s.selects labels = true := by
  have hpods : policy.specJson.member? "podSelector" = some s.pods.toJson := by
    simp [hspec, s.member?_toJson, StringMap.find]
  rw [Child.Governs, Child.selectsBy_iff hpods, selects]

theorem PolicySpec.policyTypes_toJson {s : PolicySpec} {policy : Child}
    (hspec : policy.specJson = s.toJson) : policy.policyTypes = s.policyTypes.map Json.string := by
  simp [Child.policyTypes, Json.listed, hspec, s.member?_toJson, StringMap.find, Json.items]

end Meaning

namespace Distribution

variable {d : Distribution} {operatorSpace : String}

theorem policySpec_selects_iff {labels : StringMap String} :
    (d.policySpec operatorSpace).selects labels = true ↔
      labels.get? "app" = some stackName ∧
        labels.get? "app.kubernetes.io/instance" = some d.name :=
  Selector.selects_iff.trans selectorLabels_within_iff

theorem policySpec_admits_iff {c : Connection} :
    (d.policySpec operatorSpace).admits c = true ↔
      c.protocol = "TCP" ∧ c.port = d.servicePort ∧
        (c.podLabels.get? "app.kubernetes.io/part-of" = some stackName ∨
          c.spaceLabels.get? "kubernetes.io/metadata.name" = some operatorSpace) := by
  have hstack : stackPeer.includes c.podLabels c.spaceLabels = true ↔
      c.podLabels.get? "app.kubernetes.io/part-of" = some stackName := by
    simp [Peer.includes, stackPeer, Selector.selects_single, Selector.selects_empty]
  have hspace : (spacePeer operatorSpace).includes c.podLabels c.spaceLabels = true ↔
      c.spaceLabels.get? "kubernetes.io/metadata.name" = some operatorSpace := by
    simp [Peer.includes, spacePeer, Selector.selects_single, Selector.selects_empty]
  have hrule : ∀ p : Peer,
      (IngressRule.mk [p] [⟨"TCP", d.servicePort⟩]).admits c = true ↔
        p.includes c.podLabels c.spaceLabels = true ∧ c.protocol = "TCP" ∧
          c.port = d.servicePort := by
    intro p
    rw [@eq_comm _ c.protocol, @eq_comm _ c.port]
    simp [IngressRule.admits]
  have hrules : (d.policySpec operatorSpace).admits c = true ↔
      (IngressRule.mk [stackPeer] [⟨"TCP", d.servicePort⟩]).admits c = true ∨
        (IngressRule.mk [spacePeer operatorSpace] [⟨"TCP", d.servicePort⟩]).admits c = true := by
    simp [PolicySpec.admits, policySpec]
  rw [hrules, hrule, hrule, hstack, hspace]
  tauto

/-- A policy is about the pods of its distribution, also if these have other labels besides. It
leaves alone what goes out of them, and lets in what comes to the port of the service from a pod of
the stack or from the space of the operator. -/
theorem policy_admits_iff (d : Distribution) (operatorSpace : String) :
    (∀ space labels, (d.policy operatorSpace).Governs space labels ↔
      space = d.space ∧ labels.get? "app" = some "llama-stack" ∧
        labels.get? "app.kubernetes.io/instance" = some d.name) ∧
    (∀ image labels, (∀ k v, (d.deployment image).podLabels.bind (·.member? k) = some (.string v) →
      labels.get? k = some v) → (d.policy operatorSpace).Governs d.space labels) ∧
    (d.policy operatorSpace).RestrictsIngress ∧ ¬(d.policy operatorSpace).RestrictsEgress ∧
    ∀ t, (d.policy operatorSpace).Admits t ↔
      t.protocol = "TCP" ∧ t.port = d.servicePort ∧
        (t.podLabels.get? "app.kubernetes.io/part-of" = some "llama-stack" ∨
          t.spaceLabels.get? "kubernetes.io/metadata.name" = some operatorSpace) := by
  have hspec : (d.policy operatorSpace).specJson = (d.policySpec operatorSpace).toJson := rfl
  have hgoverns : ∀ space labels, (d.policy operatorSpace).Governs space labels ↔
      space = d.space ∧ labels.get? "app" = some "llama-stack" ∧
        labels.get? "app.kubernetes.io/instance" = some d.name := by
    intro space labels
    rw [PolicySpec.governs_toJson hspec, policySpec_selects_iff]
    refine and_congr_left fun _ => ?_
    exact ⟨fun h => (Option.some.inj h).symm, fun h => congrArg some h.symm⟩
  have htypes : (d.policy operatorSpace).policyTypes = [.string "Ingress"] :=
    PolicySpec.policyTypes_toJson hspec
  refine ⟨hgoverns, fun image labels h => ?_, ?_, ?_, fun t => ?_⟩
  · refine (hgoverns _ _).mpr ⟨rfl, selectorLabels_within_iff.mp fun k v hk => h k v ?_⟩
    rw [(d.deployment_selectsPods image).podLabels]
    simp [Json.member?_ofStrings, hk]
  · exact .inr (by simp [htypes])
  · simp [Child.RestrictsEgress, htypes]
  · rw [PolicySpec.admits_toJson hspec (by simp [policySpec]), policySpec_admits_iff]
    rfl

end Distribution

end DistributionOperator
