import DistributionOperator.Cluster.Child
import DistributionOperator.Desired.Pod

/-! The children that a distribution wants: a claim for its data, a deployment of its server, a
service in front of it, and a policy on who may reach it. -/

namespace DistributionOperator

structure ClaimSpec where
  accessModes : List String
  size : String
deriving DecidableEq

/-- An empty selector selects everything. -/
structure Selector where
  labels : StringMap String
deriving DecidableEq

structure DeploymentSpec where
  replicas : Int32
  selector : Selector
  template : PodTemplate
deriving DecidableEq

structure ServicePort where
  name : String
  port : Int32
  targetPort : Int32
deriving DecidableEq

structure ServiceSpec where
  selector : StringMap String
  ports : List ServicePort
  type : String
deriving DecidableEq

structure Peer where
  pods : Selector
  spaces : Selector
deriving DecidableEq

structure PolicyPort where
  protocol : String
  port : Int32
deriving DecidableEq

structure IngressRule where
  peers : List Peer
  ports : List PolicyPort
deriving DecidableEq

structure PolicySpec where
  pods : Selector
  policyTypes : List String
  ingress : List IngressRule
deriving DecidableEq

def ClaimSpec.toJson (c : ClaimSpec) : Json :=
  .mkObject [
    ("accessModes", .array (c.accessModes.map Json.string)),
    ("resources", .mkObject [("requests", .mkObject [("storage", .string c.size)])])]

def Selector.toJson (s : Selector) : Json := .ofPresent [("matchLabels", someStrings s.labels)]

def DeploymentSpec.toJson (s : DeploymentSpec) : Json :=
  .mkObject [
    ("replicas", .int s.replicas.toInt),
    ("selector", s.selector.toJson),
    ("template", s.template.toJson)]

def ServicePort.toJson (p : ServicePort) : Json :=
  .mkObject [
    ("name", .string p.name),
    ("port", .int p.port.toInt),
    ("targetPort", .int p.targetPort.toInt)]

def ServiceSpec.toJson (s : ServiceSpec) : Json :=
  .mkObject [
    ("ports", .array (s.ports.map ServicePort.toJson)),
    ("selector", .ofStrings s.selector),
    ("type", .string s.type)]

def Peer.toJson (p : Peer) : Json :=
  .mkObject [("namespaceSelector", p.spaces.toJson), ("podSelector", p.pods.toJson)]

def PolicyPort.toJson (p : PolicyPort) : Json :=
  .mkObject [("port", .int p.port.toInt), ("protocol", .string p.protocol)]

def IngressRule.toJson (r : IngressRule) : Json :=
  .mkObject [
    ("from", .array (r.peers.map Peer.toJson)),
    ("ports", .array (r.ports.map PolicyPort.toJson))]

def PolicySpec.toJson (s : PolicySpec) : Json :=
  .mkObject [
    ("ingress", .array (s.ingress.map IngressRule.toJson)),
    ("podSelector", s.pods.toJson),
    ("policyTypes", .array (s.policyTypes.map Json.string))]

namespace Distribution

def claimSpec (s : Storage) : ClaimSpec := ⟨["ReadWriteOnce"], s.sizeOrDefault⟩

def deploymentSpec (d : Distribution) (image : String) : DeploymentSpec :=
  ⟨d.spec.replicas, ⟨d.selectorLabels⟩, d.podTemplate image⟩

def serviceSpec (d : Distribution) : ServiceSpec :=
  ⟨d.selectorLabels, [⟨"http", d.servicePort, d.servicePort⟩], "ClusterIP"⟩

def stackPeer : Peer := ⟨⟨.ofList [("app.kubernetes.io/part-of", stackName)]⟩, ⟨.empty⟩⟩

def spacePeer (space : String) : Peer :=
  ⟨⟨.empty⟩, ⟨.ofList [("kubernetes.io/metadata.name", space)]⟩⟩

/-- Only the stack and the operator may reach the pods, and only the port of the service. -/
def policySpec (d : Distribution) (operatorSpace : String) : PolicySpec where
  pods := ⟨d.selectorLabels⟩
  policyTypes := ["Ingress"]
  ingress := [stackPeer, spacePeer operatorSpace].map fun p => ⟨[p], [⟨"TCP", d.servicePort⟩]⟩

def childOf (d : Distribution) (name : String) (spec : Json) : Child where
  metadata := { ObjectMeta.blank with
    name := some name, space := some d.space, labels := some d.selectorLabels }
  spec := some spec
  status := none

def claim (d : Distribution) (s : Storage) : Child := d.childOf d.claimName (claimSpec s).toJson

/-- The deployment has the name of the distribution, and an empty one if that has none. -/
def deployment (d : Distribution) (image : String) : Child :=
  d.childOf (d.metadata.name.getD "") (d.deploymentSpec image).toJson

def service (d : Distribution) : Child := d.childOf d.serviceName d.serviceSpec.toJson

def policy (d : Distribution) (operatorSpace : String) : Child :=
  d.childOf d.policyName (d.policySpec operatorSpace).toJson

end Distribution

end DistributionOperator
