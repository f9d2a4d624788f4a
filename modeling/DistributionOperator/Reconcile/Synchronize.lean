import DistributionOperator.Config
import DistributionOperator.Desired.Children
import DistributionOperator.Flags
import DistributionOperator.Reconcile.Apply

/-! Bringing all children of a distribution in line with its spec. The image and the owner are
settled before anything is touched, and the first failure ends the work. -/

namespace DistributionOperator

structure Operator where
  config : Config
  flags : Flags
deriving DecidableEq

open Program

def Distribution.owner (d : Distribution) : Except OperatorError OwnerReference :=
  match d.ownerReference? with
  | some owner => .ok owner
  | none => .error (.build "OwnerReference" "distribution has no name or uid")

/-- What the children are made from, once nothing can be wrong with it. -/
def Operator.prerequisites (o : Operator) (d : Distribution) :
    Except OperatorError (String × OwnerReference) := do
  let image ← o.config.catalog.resolve d.spec.server.choice
  let owner ← d.owner
  return (image, owner)

def synchronizeClaim (d : Distribution) (owner : OwnerReference) :
    Program (Except OperatorError Applied) :=
  match d.spec.server.storage with
  | some s => applyClaim d.space owner (d.claim s)
  | none => done (.ok .unchanged)

/-- The policy is there exactly when policies are asked for. -/
def synchronizePolicy (o : Operator) (d : Distribution) (owner : OwnerReference) :
    Program (Except OperatorError Applied) :=
  if o.flags.networkPolicy then
    applyChild .policy d.space owner (d.policy o.config.catalog.operatorSpace)
  else
    (removePolicy ⟨d.space, d.policyName⟩).andThen fun deleted =>
      done (.ok (if deleted then .updated else .unchanged))

def synchronizeDeployment (d : Distribution) (image : String) (owner : OwnerReference) :
    Program (Except OperatorError Applied) :=
  applyChild .deployment d.space owner (d.deployment image)

def synchronizeService (d : Distribution) (owner : OwnerReference) :
    Program (Except OperatorError Applied) :=
  if d.hasPorts then applyChild .service d.space owner d.service else done (.ok .unchanged)

def synchronize (o : Operator) (d : Distribution) : Program (Except OperatorError Unit) :=
  match o.prerequisites d with
  | .error e => done (.error e)
  | .ok (image, owner) =>
    (synchronizeClaim d owner).andThen fun _ =>
      (synchronizePolicy o d owner).andThen fun _ =>
        (synchronizeDeployment d image owner).andThen fun _ =>
          (synchronizeService d owner).andThen fun _ => done (.ok ())

end DistributionOperator
