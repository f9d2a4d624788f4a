import DistributionOperator.Reconcile.Synchronize

/-! Starting the operator. The flags are read once, from the config map of the operator; where there
is none, one with the defaults is made, so that there is something to edit. -/

namespace DistributionOperator

open Program

/-- Somebody else may have made the config map in the meantime. -/
def createFlags (space : String) : Program (Except OperatorError Flags) :=
  (store (.createConfigMap space (Flags.defaultConfigMap space))).bind fun
    | .ok _ => done (.ok .initial)
    | .error e =>
      if e.isConflict then done (.ok .initial) else done (.error (.store "create" "ConfigMap" e))

def loadFlags (space : String) : Program (Except OperatorError Flags) :=
  (attempt "get" "ConfigMap" (.getConfigMap (Flags.configMapKey space))).andThen fun
    | some map => done (Flags.ofData map.data)
    | none => createFlags space

/-- An operator with its flags, which shows from then on that it is ready. -/
def startUp (config : Config) : Program (Except OperatorError Operator) :=
  (loadFlags config.catalog.operatorSpace).andThen fun flags =>
    (memory .becomeReady).bind fun _ => done (.ok ⟨config, flags⟩)

end DistributionOperator
