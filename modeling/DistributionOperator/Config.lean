import DistributionOperator.Error
import DistributionOperator.Json.Codec
import DistributionOperator.SocketAddress
import DistributionOperator.Text.Blank

/-! The settings of the operator, from environment variables and the files that they name. -/

namespace DistributionOperator

structure Catalog where
  operatorSpace : String
  images : StringMap String
deriving DecidableEq

/-- Without a watched space the operator watches them all. -/
structure Config where
  catalog : Catalog
  watchSpace : Option String
  operatorVersion : Option String
  stackVersion : Option String
  metricsAddress : SocketAddress
deriving DecidableEq

/-- The image of a choice: an explicit one as it is, a named one from the catalog. -/
def Catalog.resolve (c : Catalog) (choice : ImageChoice) : Except OperatorError String :=
  match choice.validate with
  | .error e => .error (.invalidDistribution e)
  | .ok (.explicit image) => .ok image
  | .ok (.named name) =>
    match c.images.get? name with
    | some image => .ok image
    | none => .error (.distributionNotFound name)

namespace Config

/-- A map of distributions: an object that gives each name its image. -/
def readImages (text : String) : Except OperatorError (StringMap String) :=
  match (Codec.map Codec.string).decode.ofText text with
  | .ok images => .ok images
  | .error e => .error (.invalidConfig ("invalid distribution map: " ++ e.message))

def imageFor (name : String) : String × String :=
  (name, "docker.io/llamastack/distribution-" ++ name ++ ":latest")

/-- The distributions known when no file names others. -/
def builtinImages : StringMap String :=
  .ofList (["starter", "ollama", "remote-vllm", "meta-reference-gpu", "postgres-demo"].map imageFor)

inductive FileError where
  | notFound
  | isDirectory
  | notUtf8
deriving DecidableEq

def FileError.message : FileError → String
  | .notFound => "No such file or directory (os error 2)"
  | .isDirectory => "Is a directory (os error 21)"
  | .notUtf8 => "stream did not contain valid UTF-8"

structure Surroundings where
  environment : String → Option String
  file : String → Except FileError String
  spaceFile : String

def serviceAccountFile : String := "/var/run/secrets/kubernetes.io/serviceaccount/namespace"

def defaultMetricsAddress : String := "0.0.0.0:8080"

/-- A variable without the blanks around it; an empty one counts as unset. -/
def setting? (s : Surroundings) (name : String) : Option String :=
  nonEmpty ((s.environment name).map trim)

def readSpace (s : Surroundings) : Except OperatorError String :=
  match setting? s "OPERATOR_NAMESPACE" with
  | some space => .ok space
  | none =>
    match s.file s.spaceFile with
    | .error e => .error (.invalidConfig
      ("OPERATOR_NAMESPACE is not set and " ++ s.spaceFile ++ " is unreadable: " ++ e.message))
    | .ok text =>
      if trim text = "" then .error (.invalidConfig (s.spaceFile ++ " is empty"))
      else .ok (trim text)

def readCatalogImages (s : Surroundings) : Except OperatorError (StringMap String) :=
  match setting? s "DISTRIBUTIONS_FILE" with
  | none => .ok builtinImages
  | some path =>
    match s.file path with
    | .error e => .error (.invalidConfig ("failed to read " ++ path ++ ": " ++ e.message))
    | .ok text => readImages text

def readMetricsAddress (s : Surroundings) : Except OperatorError SocketAddress :=
  let text := (setting? s "METRICS_ADDR").getD defaultMetricsAddress
  match SocketAddress.ofText? text with
  | some address => .ok address
  | none => .error (.invalidConfig
    ("invalid METRICS_ADDR " ++ text ++ ": invalid socket address syntax"))

def read (s : Surroundings) : Except OperatorError Config := do
  let space ← readSpace s
  let images ← readCatalogImages s
  let address ← readMetricsAddress s
  return ⟨⟨space, images⟩, setting? s "WATCH_NAMESPACE", setting? s "OPERATOR_VERSION",
    setting? s "LLAMA_STACK_VERSION", address⟩

end Config

end DistributionOperator
