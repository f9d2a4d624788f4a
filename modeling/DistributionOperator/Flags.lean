import DistributionOperator.Cluster.Child
import DistributionOperator.Error
import DistributionOperator.Yaml.Node

/-! The feature flags of the operator, a YAML document in a config map. -/

namespace DistributionOperator

/-- Network policies are made only where they are asked for. -/
structure Flags where
  networkPolicy : Bool
deriving DecidableEq

namespace Flags

def initial : Flags := ⟨false⟩

def policyKey : String := "enableNetworkPolicy"

def enabledKey : String := "enabled"

/-- The value of a field of a mapping: none if it is missing. Fields that are not asked for may be
repeated, the others not, and no key may be a collection. -/
def field? (key : String) : List (Yaml.Node × Yaml.Node) → Option (Option Yaml.Node)
  | [] => some none
  | (.scalar _ _ k, v) :: r => do
    let later ← field? key r
    if k = key then
      if later.isSome then none else return some v
    else return later
  | _ :: _ => none

/-- The entries of a mapping; an empty scalar counts as an empty one. -/
def entries? : Yaml.Node → Option (List (Yaml.Node × Yaml.Node))
  | .mapping es => some es
  | .scalar _ _ "" => some []
  | _ => none

def truthTag : String := "tag:yaml.org,2002:bool"

/-- Truth values are plain, or literal if their tag says what they are, and spelt in one of three
ways. -/
def truth? : Yaml.Node → Option Bool
  | .scalar style tag s =>
    if style = .plain || (style = .literal && tag = some truthTag) then
      if ["true", "True", "TRUE"].contains s then some true
      else if ["false", "False", "FALSE"].contains s then some false
      else none
    else none
  | _ => none

def enabled? (n : Yaml.Node) : Option Bool := do
  match ← field? enabledKey (← entries? n) with
  | some v => truth? v
  | none => return false

def ofNode? (n : Yaml.Node) : Option Flags := do
  match ← field? policyKey (← entries? n) with
  | some v => return ⟨← enabled? v⟩
  | none => return initial

def ofYaml? (text : String) : Option Flags := do
  match ← Yaml.Node.ofText? text with
  | some n => ofNode? n
  | none => return initial

def toYaml (f : Flags) : String :=
  policyKey ++ ":\n  " ++ enabledKey ++ ": " ++
    (if f.networkPolicy then "true" else "false") ++ "\n"

def toJson (f : Flags) : Json :=
  .mkObject [(policyKey, .mkObject [(enabledKey, .bool f.networkPolicy)])]

def dataKey : String := "featureFlags"

def configMapName : String := "llama-stack-operator-config"

def configMapKey (space : String) : Key := ⟨space, configMapName⟩

def defaultConfigMap (space : String) : ConfigMap where
  metadata := { ObjectMeta.blank with name := some configMapName, space := some space }
  data := some (.ofList [(dataKey, initial.toYaml)])
  binaryData := none
  immutable := none

/-- The flags in the data of a config map; without a document they are the defaults. -/
def ofData (data : Option (StringMap String)) : Except OperatorError Flags :=
  match data.bind (·.get? dataKey) with
  | none => .ok initial
  | some text =>
    match ofYaml? text with
    | some f => .ok f
    | none => .error (.featureFlags "the document is not a set of flags")

end Flags

end DistributionOperator
