import DistributionOperator.Desired.Children

/-! What a policy means. A selector asks for all its labels, a peer for both its selectors, and a
connection comes in if one rule has a peer and a port for it. -/

namespace DistributionOperator

def Selector.selects (s : Selector) (labels : StringMap String) : Bool :=
  s.labels.toList.all fun e => labels.get? e.1 = some e.2

def Peer.includes (p : Peer) (podLabels spaceLabels : StringMap String) : Bool :=
  p.pods.selects podLabels && p.spaces.selects spaceLabels

structure Connection where
  podLabels : StringMap String
  spaceLabels : StringMap String
  protocol : String
  port : Int32
deriving DecidableEq

def IngressRule.admits (r : IngressRule) (c : Connection) : Bool :=
  r.peers.any (·.includes c.podLabels c.spaceLabels) &&
    r.ports.any fun p => p.protocol = c.protocol && p.port = c.port

namespace PolicySpec

def selects (s : PolicySpec) (podLabels : StringMap String) : Bool := s.pods.selects podLabels

def admits (s : PolicySpec) (c : Connection) : Bool := s.ingress.any (·.admits c)

def restrictsEgress (s : PolicySpec) : Bool := s.policyTypes.contains "Egress"

end PolicySpec

end DistributionOperator
