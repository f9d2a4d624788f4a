import DistributionOperator.Reconcile.Synchronize

/-! The status of a distribution, evaluated anew from the one before. A failed synchronization
counts most; otherwise the phase follows the replicas of the deployment and, once all are ready, the
health of the server. -/

namespace DistributionOperator

open Program

def Status.reportNow (s : Status) (a : Aspect) (ready : Bool) (message : String) : Program Status :=
  now.bind fun t => done (s.report a ready message t)

def Status.withPhase (s : Status) (p : Phase) : Status := { s with phase := p }

/-- The status to start from; the operator's version is filled in once. -/
def Operator.startingStatus (o : Operator) (d : Distribution) : Status :=
  let s := d.status.getD .blank
  { s with
    versions := { s.versions with
      operatorVersion := s.versions.operatorVersion.or o.config.operatorVersion } }

def replicaText (what : String) (ready wanted : Int32) : String :=
  what ++ ": " ++ toString ready.toInt ++ "/" ++ toString wanted.toInt ++ " replicas ready"

/-- Why the replicas are not as wanted, if they are not. -/
def replicaTrouble (ready wanted : Int32) : Option String :=
  if ready = 0 then some "Deployment is pending"
  else if ready < wanted then some (replicaText "Deployment is scaling" ready wanted)
  else if wanted < ready then some (replicaText "Deployment is scaling down" ready wanted)
  else none

/-- Phase and condition from the deployment, and whether all its replicas are ready. -/
def judgeDeployment (o : Operator) (d : Distribution) (live : Option Child) (s : Status) :
    Program (Bool × Status) :=
  match live with
  | none =>
    (s.withPhase .pending).reportNow .deployment false "Deployment is pending" |>.bind fun s =>
      done (false, { s with availableReplicas := 0 })
  | some live =>
    let s := { s with availableReplicas := live.readyReplicas }
    match replicaTrouble live.readyReplicas d.spec.replicas with
    | some trouble =>
      ((s.withPhase .initializing).reportNow .deployment false trouble).bind fun s =>
        done (false, s)
    | none =>
      ((s.withPhase .ready).reportNow .deployment true "Deployment is ready").bind fun s =>
        done (true, { s with
          versions := { s.versions with
            llamaStackServerVersion :=
              s.versions.llamaStackServerVersion.or o.config.stackVersion } })

def evaluateDeployment (o : Operator) (d : Distribution) (s : Status) :
    Program (Except OperatorError (Bool × Status)) :=
  (attempt "get" ChildKind.deployment.kind (.get .deployment d.key)).andThen fun live =>
    (judgeDeployment o d live s).bind fun judged => done (.ok judged)

def claimReport (name : String) : Except StoreError (Option Child) → Bool × String
  | .ok (some c) =>
    if c.claimPhase = "Bound" then (true, "Storage is ready")
    else (false, "PVC is not bound: " ++ c.claimPhase)
  | .ok none => (false, "Failed to get PVC: " ++ name ++ " not found")
  | .error e => (false, "Failed to get PVC: " ++ e.message)

def evaluateStorage (d : Distribution) (s : Status) : Program Status :=
  if d.spec.server.storage.isNone then done s
  else
    (store (.get .claim ⟨d.space, d.claimName⟩)).bind fun answer =>
      let r := claimReport d.claimName answer
      s.reportNow .storage r.1 r.2

def serviceReport (name : String) : Except StoreError (Option Child) → Bool × String
  | .ok (some _) => (true, "Service is ready")
  | .ok none => (false, "Failed to get Service: " ++ name ++ " not found")
  | .error e => (false, "Failed to get Service: " ++ e.message)

def evaluateService (d : Distribution) (s : Status) : Program Status :=
  if d.hasPorts then
    (store (.get .service ⟨d.space, d.serviceName⟩)).bind fun answer =>
      let r := serviceReport d.serviceName answer
      s.reportNow .service r.1 r.2
  else done s

/-- The distributions that can be had, and the one that is. -/
def Operator.summarize (o : Operator) (d : Distribution) (s : Status) : Status :=
  { s with
    summary := { s.summary with
      availableDistributions := o.config.catalog.images
      activeDistribution := d.active? } }

/-- Phase and condition that follow from the answer to a health check. -/
def healthReport : Except ProbeError Bool → Phase × Bool × String
  | .error e => (.initializing, false, "Health check failed: " ++ e.message)
  | .ok false => (.failed, false, "Health check failed")
  | .ok true => (.ready, true, "Health check passed")

/-- The providers to report: those that a healthy server lists. -/
def reportedProviders (healthy : Bool) : Except ProbeError (List Provider) → List Provider
  | .ok ps => if healthy then ps else []
  | .error _ => []

def Status.withProviders (s : Status) (ps : List Provider) : Status :=
  { s with summary := { s.summary with providers := ps } }

def checkHealth (d : Distribution) (s : Status) : Program Status :=
  (probe (.health d.endpoint)).bind fun answer =>
    let r := healthReport answer
    ((s.withPhase r.1).reportNow .health r.2.1 r.2.2).bind fun s =>
      (probe (.providers d.endpoint)).bind fun listed =>
        done (s.withProviders (reportedProviders r.2.1 listed))

/-- A server whose deployment is not ready is not asked. -/
def skipHealth (s : Status) : Program Status :=
  (s.reportNow .health false "Deployment not ready").bind fun s => done s.clearProviders

def failedStatus (e : OperatorError) (s : Status) : Program Status :=
  ((s.withPhase .failed).reportNow .deployment false
    ("Resource reconciliation failed: " ++ e.message)).bind fun s => done s.clearProviders

def observedStatus (o : Operator) (d : Distribution) (s : Status) :
    Program (Except OperatorError Status) :=
  (evaluateDeployment o d s).andThen fun judged =>
    (evaluateStorage d judged.2).bind fun s =>
      (evaluateService d s).bind fun s =>
        let s := o.summarize d s
        (if judged.1 then checkHealth d s else skipHealth s).bind fun s => done (Except.ok s)

def Status.stamp (s : Status) : Program Status :=
  now.bind fun t => done { s with versions := { s.versions with lastUpdated := some t } }

/-- The new status, not yet written. There is none if the deployment cannot be read. -/
def evaluate (o : Operator) (d : Distribution) (failure : Option OperatorError) :
    Program (Except OperatorError Status) :=
  let s := o.startingStatus d
  (match failure with
    | some e => (failedStatus e s).bind fun s => done (Except.ok s)
    | none => observedStatus o d s).andThen fun s => s.stamp.bind fun s => done (Except.ok s)

/-- Evaluates the status and writes it for the version that was read. -/
def updateStatus (o : Operator) (d : Distribution) (failure : Option OperatorError) :
    Program (Except OperatorError Phase) :=
  (evaluate o d failure).andThen fun s =>
    (attempt "update" (Distribution.kind ++ " status")
      (.updateStatus d.key d.metadata.resourceVersion s)).andThen fun _ => done (.ok s.phase)

end DistributionOperator
