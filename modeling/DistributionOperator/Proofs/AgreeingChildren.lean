import DistributionOperator.Proofs.AdmittedTraffic
import DistributionOperator.Proofs.Evaluation
import DistributionOperator.Proofs.JsonTexts
import DistributionOperator.Proofs.StageCourses

/-! Children that fit together, and fit what is evaluated. Each is built from the distribution on
its own, and yet they find the same pods, speak of one port and one claim, and are looked for where
they are written. -/

namespace DistributionOperator

open Program Store Operator

/-- Whether a service sends to pods with these labels; without a selector it sends to none. -/
structure Child.RoutesTo (c : Child) (labels : StringMap String) : Prop where
  selects : ∃ k v, c.specJson.at? [.member "selector", .member k] = some (.string v)
  within : ∀ k v, c.specJson.at? [.member "selector", .member k] = some (.string v) →
    labels.get? k = some v

def Child.podSpec (c : Child) : Json :=
  (c.specJson.at? [.member "template", .member "spec"]).getD .null

namespace Distribution

variable {a b d : Distribution} {x : String} {labels : StringMap String}

theorem name_of_some (h : d.metadata.name = some x) : d.name = x := by
  simp [name, ObjectMeta.anyName, h]

/-! Pods: those of one distribution are not found for another. -/

theorem selectorLabels_match_iff :
    (∀ k v, b.selectorLabels.get? k = some v → a.selectorLabels.get? k = some v) ↔
      a.name = b.name := by
  have hget : ∀ k, a.selectorLabels.get? k = StringMap.find k
      [("app", stackName), ("app.kubernetes.io/instance", a.name)] :=
    StringMap.get?_ofList (by simp)
  rw [selectorLabels_within_iff]
  simp [hget, StringMap.find]

theorem selectorLabels_selects_iff :
    (Selector.mk b.selectorLabels).selects a.selectorLabels = true ↔ a.name = b.name :=
  Selector.selects_iff.trans selectorLabels_match_iff

theorem deployment_selectsBy_iff (image : String) :
    (d.deployment image).SelectsBy "selector" labels ↔
      (Selector.mk d.selectorLabels).selects labels = true := by
  have hspec : (d.deployment image).specJson = (d.deploymentSpec image).toJson := rfl
  refine Child.selectsBy_iff ?_
  simp [hspec, DeploymentSpec.toJson, Json.member?_mkObject, StringMap.find, deploymentSpec]

theorem policy_selectsBy_iff (operatorSpace : String) :
    (d.policy operatorSpace).SelectsBy "podSelector" labels ↔
      (Selector.mk d.selectorLabels).selects labels = true := by
  have hspec : (d.policy operatorSpace).specJson = (d.policySpec operatorSpace).toJson := rfl
  refine Child.selectsBy_iff ?_
  simp [hspec, PolicySpec.member?_toJson, StringMap.find, policySpec]

theorem serviceSpec_member? (k : String) : d.service.specJson.member? k = StringMap.find k
    [("ports", .array [ServicePort.toJson ⟨"http", d.servicePort, d.servicePort⟩]),
      ("selector", .ofStrings d.selectorLabels), ("type", .string "ClusterIP")] :=
  Json.member?_mkObject (by simp) k

theorem service_routesTo_iff : d.service.RoutesTo labels ↔
    (Selector.mk d.selectorLabels).selects labels = true := by
  have hat : ∀ k, d.service.specJson.at? [.member "selector", .member k] =
      (d.selectorLabels.get? k).map .string := by
    intro k
    simp [serviceSpec_member?, StringMap.find, Json.member?_ofStrings]
  have hsome : ∀ k v, d.service.specJson.at? [.member "selector", .member k] = some (.string v) ↔
      d.selectorLabels.get? k = some v := by
    intro k v
    rw [hat]
    simp
  rw [Selector.selects_iff]
  constructor
  · exact fun h k v hv => h.within k v ((hsome k v).mpr hv)
  · intro h
    have happ : d.selectorLabels.get? "app" = some stackName := StringMap.get?_ofList (by simp) _
    exact ⟨⟨_, _, (hsome _ _).mpr happ⟩, fun k v hv => h k v ((hsome k v).mp hv)⟩

/-- Whether all that looks for pods finds for one distribution the pods of another, if they are as
stated, and else none of it does. -/
def FindsPodsIff (b a : Distribution) (P : Prop) : Prop :=
  ∀ image image' operatorSpace, ∃ labels,
    (a.deployment image).podLabels = some (.ofStrings labels) ∧
    ((b.deployment image').SelectsBy "selector" labels ↔ P) ∧
    (b.service.RoutesTo labels ↔ P) ∧
    ((b.policy operatorSpace).SelectsBy "podSelector" labels ↔ P)

theorem findsPodsIff (a b : Distribution) : b.FindsPodsIff a (a.name = b.name) := by
  intro image image' operatorSpace
  refine ⟨a.selectorLabels, (a.deployment_selectsPods image).podLabels, ?_, ?_, ?_⟩
  · rw [deployment_selectsBy_iff, selectorLabels_selects_iff]
  · rw [service_routesTo_iff, selectorLabels_selects_iff]
  · rw [policy_selectsBy_iff, selectorLabels_selects_iff]

end Distribution

/-! Ports. -/

/-- The text of the port in an address: what follows its last colon. -/
def Endpoint.portText (e : Endpoint) : String :=
  String.ofList (e.baseUrl.toList.reverse.takeWhile (· ≠ ':')).reverse

theorem Endpoint.portText_inCluster (service space : String) (port : Int32) :
    (Endpoint.inCluster service space port).portText = toString port.toInt := by
  let start := (("http://" ++ service ++ "." ++ space ++ ".svc.cluster.local").toList).reverse
  have hurl : (("http://" ++ service ++ "." ++ space ++ ".svc.cluster.local:" ++
      toString port.toInt).toList).reverse =
        (toString port.toInt).toList.reverse ++ ':' :: start := by
    simp [start]
  have hdigits : ∀ c ∈ (toString port.toInt).toList.reverse, c ≠ ':' ∧ c ≠ '/' := by
    intro c hc
    have hnumeral := Json.isNumeral_of_mem_toString (List.mem_reverse.mp hc)
    constructor
    · rintro rfl
      cases hnumeral
    · rintro rfl
      cases hnumeral
  -- there is no slash at the end to be taken away
  have hkept : ((toString port.toInt).toList.reverse ++ ':' :: start).dropWhile (· = '/') =
      (toString port.toInt).toList.reverse ++ ':' :: start := by
    cases hd : (toString port.toInt).toList.reverse with
    | nil => simp
    | cons c r =>
      have hc := (hdigits c (hd ▸ List.mem_cons_self)).2
      simp [hc]
  have htaken : ((toString port.toInt).toList.reverse ++ ':' :: start).takeWhile (· ≠ ':') =
      (toString port.toInt).toList.reverse := by
    rw [List.takeWhile_append_of_pos fun c hc => by simpa using (hdigits c hc).1]
    simp
  simp only [portText, inCluster, ofUrl, hurl, hkept, List.reverse_reverse, String.toList_ofList]
  rw [htaken, List.reverse_reverse, String.ofList_toList]

def ProbeCall.endpoint : ProbeCall → Endpoint
  | .health e => e
  | .providers e => e

theorem observedStatus_probes {o : Operator} {d : Distribution} {s s' : Status}
    {t : List Exchange} (h : (observedStatus o d s).Dialogue t (.ok s')) {x : Exchange}
    (hx : x ∈ t) {c : ProbeCall} (hc : x.call = .probe c) : c.endpoint = d.endpoint := by
  obtain ⟨ready, u, t₁, t₂, rfl, hnone, _, hend⟩ := observedStatus_judged h
  rcases List.mem_append.mp hx with hx | hx
  · exact absurd hc (hnone x hx c)
  · cases ready with
    | true =>
      obtain ⟨a, now, ps, rfl, _⟩ := checkHealth_dialogue hend
      simp only [List.mem_cons, List.not_mem_nil, or_false] at hx
      rcases hx with rfl | rfl | rfl
      · cases hc
        rfl
      · cases hc
      · cases hc
        rfl
    | false =>
      obtain ⟨now, rfl, _⟩ := skipHealth_dialogue hend
      obtain rfl := List.mem_singleton.mp hx
      cases hc

/-- An evaluation asks no server but the distribution's own. -/
theorem evaluate_probes {o : Operator} {d : Distribution} {failure : Option OperatorError}
    {t : List Exchange} {r : Except OperatorError Status} (h : (evaluate o d failure).Dialogue t r)
    {x : Exchange} (hx : x ∈ t) {c : ProbeCall} (hc : x.call = .probe c) :
    c.endpoint = d.endpoint := by
  cases failure with
  | some e =>
    obtain ⟨t₁, t₂, rfl, _⟩ := evaluate_failed_dialogue h
    simp only [List.mem_cons, List.not_mem_nil, or_false] at hx
    rcases hx with rfl | rfl
    · cases hc
    · cases hc
  | none =>
    rcases evaluate_observed_dialogue h with ⟨e, he, rfl⟩ | ⟨s, t₁, now, rfl, hs, _⟩
    · rcases observedStatus_dialogue he with ⟨_, rfl, _⟩ |
        ⟨_, _, _, _, _, _, _, _, _, _, _, _, _, _, hr⟩
      · obtain rfl := List.mem_singleton.mp hx
        cases hc
      · cases hr
    · rcases List.mem_append.mp hx with hx | hx
      · exact observedStatus_probes hs hx hc
      · obtain rfl := List.mem_singleton.mp hx
        cases hc

namespace Distribution

variable {d : Distribution} {x : String}

theorem podSpec_member? (d : Distribution) (image k : String) :
    (d.deployment image).podSpec.member? k = (StringMap.find k
      [("containers", some (.array [(d.container image).toJson])),
        ("serviceAccountName", (d.podTemplate image).serviceAccountName.map Json.string),
        ("volumes", some (.array [d.volume.toJson]))]).join := by
  have htemplate : (d.deployment image).specJson.member? "template" =
      some (d.podTemplate image).toJson := Json.member?_mkObject (by simp) _
  have hspec : (d.podTemplate image).toJson.member? "spec" = some (.ofPresent
      [("containers", some (.array [(d.container image).toJson])),
        ("serviceAccountName", (d.podTemplate image).serviceAccountName.map Json.string),
        ("volumes", some (.array [d.volume.toJson]))]) := Json.member?_mkObject (by simp) _
  simp only [Child.podSpec, Json.at?_member, htemplate, Option.bind_some, hspec, Json.at?_nil,
    Option.getD_some]
  exact Json.member?_ofPresent (by simp) k

theorem podSpec_containers (d : Distribution) (image : String) :
    (d.deployment image).podSpec.listed "containers" = [(d.container image).toJson] := by
  simp [Json.listed, podSpec_member?, StringMap.find, Json.items]

theorem podSpec_volumes (d : Distribution) (image : String) :
    (d.deployment image).podSpec.listed "volumes" = [d.volume.toJson] := by
  simp [Json.listed, podSpec_member?, StringMap.find, Json.items]

theorem container_member? (c : Container) (k : String) :
    c.toJson.member? k = (StringMap.find k [
      ("args", someList .string c.args),
      ("command", someList .string c.command),
      ("env", someList EnvSetting.toJson c.env),
      ("image", some (.string c.image)),
      ("name", some (.string c.name)),
      ("ports", some (.array (c.ports.map fun p => .mkObject [("containerPort", .int p.toInt)]))),
      ("resources", c.resources.map Amounts.toJson),
      ("volumeMounts", some (.array (c.mounts.map VolumeMount.toJson)))]).join :=
  Json.member?_ofPresent (by simp) k

theorem container_listed (d : Distribution) (image : String) :
    (d.container image).toJson.listed "ports" =
        (d.container image).ports.map (fun p => .mkObject [("containerPort", .int p.toInt)]) ∧
      (d.container image).toJson.listed "volumeMounts" =
        [VolumeMount.toJson ⟨volumeName, d.mountPath⟩] := by
  constructor
  · simp [Json.listed, container_member?, StringMap.find, Json.items]
  · simp [Json.listed, container_member?, StringMap.find, Json.items, container]

theorem servicePort_mem (d : Distribution) (image : String) :
    d.servicePort ∈ (d.container image).ports := by
  cases hp : d.ports with
  | nil => simp [container, hasPorts, servicePort, hp]
  | cons p r => simp [container, hasPorts, servicePort, hp]

/-- Whether the service, the policy and the probes of a distribution are all about one port, which
is one of its container's. -/
structure ServesOn (d : Distribution) (image operatorSpace : String) (port : Int) : Prop where
  service : ∃ p, d.service.specJson.listed "ports" = [p] ∧ p.member? "port" = some (.int port) ∧
    p.member? "targetPort" = some (.int port)
  policy : (d.policy operatorSpace).specJson.listed "ingress" ≠ [] ∧
    ∀ rule ∈ (d.policy operatorSpace).specJson.listed "ingress", ∃ p, rule.listed "ports" = [p] ∧
      p.member? "port" = some (.int port)
  probed : ∀ {o : Operator} {failure : Option OperatorError} {t : List Exchange}
    {r : Except OperatorError Status}, (evaluate o d failure).Dialogue t r →
      ∀ x ∈ t, ∀ c, x.call = .probe c → c.endpoint.portText = toString port
  container : ∃ c, (d.deployment image).podSpec.listed "containers" = [c] ∧
    ∃ p ∈ c.listed "ports", p.member? "containerPort" = some (.int port)

theorem servesOn (d : Distribution) (image operatorSpace : String) :
    d.ServesOn image operatorSpace d.servicePort.toInt where
  service := by
    refine ⟨ServicePort.toJson ⟨"http", d.servicePort, d.servicePort⟩, ?_, ?_, ?_⟩
    · simp [Json.listed, serviceSpec_member?, StringMap.find, Json.items]
    · simp [ServicePort.toJson, Json.member?_mkObject, StringMap.find]
    · simp [ServicePort.toJson, Json.member?_mkObject, StringMap.find]
  policy := by
    have hspec : (d.policy operatorSpace).specJson = (d.policySpec operatorSpace).toJson := rfl
    have hlisted : (d.policy operatorSpace).specJson.listed "ingress" =
        (d.policySpec operatorSpace).ingress.map IngressRule.toJson := by
      simp [Json.listed, hspec, PolicySpec.member?_toJson, StringMap.find, Json.items]
    rw [hlisted]
    refine ⟨by simp [policySpec], fun rule hrule => ?_⟩
    obtain ⟨r, hr, rfl⟩ := List.mem_map.mp hrule
    obtain ⟨peer, _, rfl⟩ := List.mem_map.mp hr
    refine ⟨PolicyPort.toJson ⟨"TCP", d.servicePort⟩, ?_, ?_⟩
    · simp [Json.listed, IngressRule.toJson, Json.member?_mkObject, StringMap.find, Json.items]
    · simp [PolicyPort.toJson, Json.member?_mkObject, StringMap.find]
  probed h x hx c hc := by
    rw [evaluate_probes h hx hc]
    exact Endpoint.portText_inCluster _ _ _
  container := by
    refine ⟨_, d.podSpec_containers image, .mkObject [("containerPort", .int d.servicePort.toInt)],
      ?_, ?_⟩
    · rw [(d.container_listed image).1]
      exact List.mem_map_of_mem (d.servicePort_mem image)
    · simp [Json.member?_mkObject, StringMap.find]

/-! Volumes. -/

/-- Whether the container mounts the volume of the pod, and this is kept in the claim that is made,
if one is. -/
def MountsVolume (d : Distribution) (image : String) : Prop :=
  ∃ c m v name,
    (d.deployment image).podSpec.listed "containers" = [c] ∧ c.listed "volumeMounts" = [m] ∧
    (d.deployment image).podSpec.listed "volumes" = [v] ∧
    m.member? "name" = some (.string name) ∧ v.member? "name" = some (.string name) ∧
    ∀ n, v.at? [.member "persistentVolumeClaim", .member "claimName"] = some (.string n) ↔
      ∃ s, d.spec.server.storage = some s ∧ (d.claim s).metadata.name = some n

theorem volume_claimName (d : Distribution) :
    d.volume.toJson.member? "name" = some (.string volumeName) ∧
      ∀ n, d.volume.toJson.at? [.member "persistentVolumeClaim", .member "claimName"] =
          some (.string n) ↔
        ∃ s, d.spec.server.storage = some s ∧ (d.claim s).metadata.name = some n := by
  cases hs : d.spec.server.storage with
  | none =>
    have hv : d.volume.toJson =
        .mkObject [("name", .string volumeName), ("emptyDir", .object [])] := by
      simp [volume, Volume.toJson, hs]
    simp [hv, Json.member?_mkObject, StringMap.find]
  | some s =>
    have hv : d.volume.toJson = .mkObject [("name", .string volumeName),
        ("persistentVolumeClaim", .mkObject [("claimName", .string d.claimName)])] := by
      simp [volume, Volume.toJson, hs]
    have hname : (d.claim s).metadata.name = some d.claimName := rfl
    simp [hv, hname, Json.member?_mkObject, StringMap.find]

theorem mountsVolume (d : Distribution) (image : String) : d.MountsVolume image := by
  obtain ⟨hname, hclaim⟩ := d.volume_claimName
  refine ⟨_, _, _, volumeName, d.podSpec_containers image, (d.container_listed image).2,
    d.podSpec_volumes image, ?_, hname, hclaim⟩
  simp [VolumeMount.toJson, Json.member?_mkObject, StringMap.find]

/-! Keys. -/

theorem key_eq_childKey (hn : d.metadata.name = some x) : d.key = d.childKey .deployment := by
  rw [key, childKey, name_of_some hn, hn, Option.getD_some]

theorem key_of_syncCall {o : Operator} {c : Call} {kind : ChildKind} {k : Key}
    (h : o.SyncCall d c) (hc : c.child? = some (kind, k)) : k = d.childKey kind := by
  cases c with
  | store c =>
    cases c with
    | get kind' k' =>
      cases hc
      exact h
    | create kind' space c =>
      cases hc
      exact h.1 ▸ h.2
    | replace m space c =>
      cases hc
      exact h.1 ▸ h.2
    | deletePolicy k' =>
      cases hc
      exact h.2
    | _ => cases hc
  | _ => cases hc

theorem key_of_asks {c : Call} {kind : ChildKind} {k : Key} (hn : d.metadata.name = some x)
    (h : d.Asks c) (hc : c.child? = some (kind, k)) : k = d.childKey kind := by
  cases c with
  | store c =>
    cases c with
    | get kind' k' =>
      cases hc
      rcases kind with _ | m
      · exact h
      · cases m with
        | deployment => exact Eq.trans h (key_eq_childKey hn)
        | service => exact h
        | policy => exact h.elim
    | _ => exact h.elim
  | _ => cases hc

/-- Whether an evaluation looks for the children where a synchronization reads and writes them. It
looks at each that is asked for, and after a synchronization that went well each of these is there.
-/
structure LooksWhereWritten (d : Distribution) : Prop where
  same : ∀ {o o' : Operator} {failure : Option OperatorError} {t t' : List Exchange}
    {r : Except OperatorError Unit} {r' : Except OperatorError Status},
    (synchronize o d).Dialogue t r → (evaluate o' d failure).Dialogue t' r' →
      ∀ x ∈ t, ∀ y ∈ t', ∀ kind k k', x.call.child? = some (kind, k) →
        y.call.child? = some (kind, k') → k = k'
  looks : ∀ {o o' : Operator} {t : List Exchange} {s : Status} {image : String}
    {owner : OwnerReference} {w : Child} (kind : ChildKind),
    (evaluate o' d none).Dialogue t (.ok s) → kind ≠ .policy →
      o.wanted d image owner kind = some w →
        ∃ y ∈ t, y.call = .store (.get kind (keyIn d.space w.metadata))
  written : ∀ {o : Operator} {s s' : Scene} {t : List Exchange} {image : String}
    {owner : OwnerReference} {w : Child} (kind : ChildKind),
    (synchronize o d).Performs s t (.ok ()) s' → o.wanted d image owner kind = some w →
      s'.store.children kind (keyIn d.space w.metadata) ≠ none

theorem evaluate_looks {o : Operator} {t : List Exchange} {s : Status}
    (hn : d.metadata.name = some x) (h : (evaluate o d none).Dialogue t (.ok s)) :
    (∃ y ∈ t, y.call = .store (.get .deployment (d.childKey .deployment))) ∧
      (d.spec.server.storage ≠ none →
        ∃ y ∈ t, y.call = .store (.get .claim (d.childKey .claim))) ∧
      (d.hasPorts = true → ∃ y ∈ t, y.call = .store (.get .service (d.childKey .service))) := by
  rcases evaluate_observed_dialogue h with ⟨_, _, he⟩ | ⟨s', t', now, rfl, hs, _⟩
  · cases he
  · rcases observedStatus_dialogue hs with ⟨_, _, he⟩ |
      ⟨live, judged, t₁, t₂, t₃, t₄, s₂, s₃, s₄, rfl, _, h₂, h₃, _, _⟩
    · cases he
    · refine ⟨?_, fun hstorage => ?_, fun hports => ?_⟩
      · rw [← key_eq_childKey hn]
        exact ⟨⟨.store (.get .deployment d.key), .ok live⟩, by simp, rfl⟩
      · rcases evaluateStorage_dialogue h₂ with ⟨hnone, _⟩ | ⟨a, now, _, rfl, _⟩
        · exact absurd hnone hstorage
        · exact ⟨⟨.store (.get .claim ⟨d.space, d.claimName⟩), a⟩, by simp, rfl⟩
      · rcases evaluateService_dialogue h₃ with ⟨hnone, _⟩ | ⟨a, now, _, rfl, _⟩
        · rw [hports] at hnone
          cases hnone
        · exact ⟨⟨.store (.get .service ⟨d.space, d.serviceName⟩), a⟩, by simp, rfl⟩

/-- Whether a child is wanted does not depend on the image and the owner. -/
theorem wanted_of_wanted {o : Operator} {image : String} {owner : OwnerReference}
    {kind : ChildKind} {w : Child} (image' : String) (owner' : OwnerReference)
    (h : o.wanted d image owner kind = some w) :
    ∃ w', o.wanted d image' owner' kind = some w' := by
  cases kind with
  | claim =>
    obtain ⟨s, hs, _⟩ := Option.map_eq_some_iff.mp h
    exact ⟨_, Option.map_eq_some_iff.mpr ⟨s, hs, rfl⟩⟩
  | managed m =>
    have hasks := (wanted_managed h).1
    exact ⟨(o.outline d image' m).prepare owner', by simp [Operator.wanted, hasks]⟩

theorem synchronize_leaves {o : Operator} {s s' : Scene} {t : List Exchange} {image : String}
    {owner : OwnerReference} {kind : ChildKind} {w : Child}
    (h : (synchronize o d).Performs s t (.ok ()) s')
    (hw : o.wanted d image owner kind = some w) :
    s'.store.children kind (d.childKey kind) ≠ none := by
  obtain ⟨image', owner', hpre⟩ := prerequisites_of_ok h.dialogue
  obtain ⟨w', hw'⟩ := wanted_of_wanted image' owner' hw
  rw [synchronize_eq hpre] at h
  rcases stages_performs ChildKind.nodup_inOrder h kind with ⟨_, hno⟩ | ⟨a, ha, _⟩
  · exact absurd kind.mem_inOrder (hno rfl)
  · exact (ha.meets hw').ne_none

theorem looksWhereWritten (hn : d.metadata.name = some x) : d.LooksWhereWritten where
  same {o o' failure t t' r r'} h h' x hx y hy kind k k' hk hk' := by
    have hwritten := key_of_syncCall ((synchronize_within o d).of_dialogue h x hx) hk
    have hread := key_of_asks hn ((evaluate_asks o' d failure).of_dialogue h' y hy) hk'
    rw [hwritten, hread]
  looks {o o' t s image owner w} kind h hk hw := by
    obtain ⟨hdeployment, hclaim, hservice⟩ := evaluate_looks hn h
    rw [wanted_key hw]
    rcases kind with _ | m
    · refine hclaim fun hnone => ?_
      simp [Operator.wanted, hnone] at hw
    · cases m with
      | deployment => exact hdeployment
      | service => exact hservice (wanted_managed hw).1
      | policy => exact absurd rfl hk
  written kind h hw := by
    rw [wanted_key hw]
    exact synchronize_leaves h hw

end Distribution

/-- The children of distributions with names fit together: pods are found for their own distribution
only, all speak of one port and one volume, and an evaluation looks where a synchronization
writes. -/
theorem children_agree {a b : Distribution} {x y : String} (ha : a.metadata.name = some x)
    (hb : b.metadata.name = some y) :
    b.FindsPodsIff a (x = y) ∧
      (∃ port, ∀ image operatorSpace, a.ServesOn image operatorSpace port) ∧
      (∀ image, a.MountsVolume image) ∧ a.LooksWhereWritten := by
  have hpods := Distribution.findsPodsIff a b
  rw [Distribution.name_of_some ha, Distribution.name_of_some hb] at hpods
  exact ⟨hpods, ⟨_, a.servesOn⟩, a.mountsVolume, Distribution.looksWhereWritten ha⟩

def Distribution.neighbour : Distribution :=
  { Distribution.full with metadata := { Distribution.full.metadata with name := some "demo-2" } }

theorem children_agree_neighbours :
    Distribution.neighbour.FindsPodsIff .full ("demo" = "demo-2") ∧
      (∃ port, ∀ image operatorSpace, Distribution.full.ServesOn image operatorSpace port) ∧
      (∀ image, Distribution.full.MountsVolume image) ∧ Distribution.full.LooksWhereWritten :=
  children_agree rfl rfl

end DistributionOperator
