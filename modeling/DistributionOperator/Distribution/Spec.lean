import DistributionOperator.Json.Record

/-! What a distribution asks for: how many replicas of which server image, with which container
settings, pod settings and storage. -/

namespace DistributionOperator

/-- The image of the server, by the name of a known distribution or outright. -/
structure ImageChoice where
  name : Option String
  image : Option String
deriving DecidableEq

structure EnvSetting where
  name : String
  value : String
deriving DecidableEq

structure Amounts where
  requests : StringMap String
  limits : StringMap String
deriving DecidableEq

structure ContainerSettings where
  name : Option String
  ports : List Int32
  env : List EnvSetting
  command : List String
  args : List String
  resources : Option Amounts
deriving DecidableEq

structure PodSettings where
  serviceAccountName : Option String
deriving DecidableEq

structure Storage where
  size : Option String
  mountPath : Option String
deriving DecidableEq

structure Server where
  choice : ImageChoice
  container : ContainerSettings
  pod : Option PodSettings
  storage : Option Storage
deriving DecidableEq

structure Spec where
  replicas : Int32
  server : Server
deriving DecidableEq

def nonEmpty (s : Option String) : Option String := s.filter (· ≠ "")

def ImageChoice.record : Record ImageChoice where
  name := "DistributionType"
  strict := true
  blank := ⟨none, none⟩
  fields := [
    .optional "name" .string (·.name) ({ · with name := · }),
    .optional "image" .string (·.image) ({ · with image := · })]

def EnvSetting.record : Record EnvSetting where
  name := "EnvVarSpec"
  strict := true
  blank := ⟨"", ""⟩
  fields := [
    .needed "name" .string (·.name) ({ · with name := · }),
    .defaulted "value" .string (·.value) ({ · with value := · })]

def Amounts.record : Record Amounts where
  name := "ResourceSpec"
  strict := true
  blank := ⟨.empty, .empty⟩
  fields := [
    .skippedIf "requests" (.map .string) (·.isEmpty) (·.requests) ({ · with requests := · }),
    .skippedIf "limits" (.map .string) (·.isEmpty) (·.limits) ({ · with limits := · })]

def ContainerSettings.blank : ContainerSettings := ⟨none, [], [], [], [], none⟩

def ContainerSettings.record : Record ContainerSettings where
  name := "ContainerSpec"
  strict := true
  blank := .blank
  fields := [
    .optional "name" .string (·.name) ({ · with name := · }),
    .skippedIf "ports" (.list .int32) (·.isEmpty) (·.ports) ({ · with ports := · }),
    .skippedIf "env" (.list EnvSetting.record.codec) (·.isEmpty) (·.env) ({ · with env := · }),
    .skippedIf "command" (.list .string) (·.isEmpty) (·.command) ({ · with command := · }),
    .skippedIf "args" (.list .string) (·.isEmpty) (·.args) ({ · with args := · }),
    .optional "resources" Amounts.record.codec (·.resources) ({ · with resources := · })]

def PodSettings.record : Record PodSettings where
  name := "PodOverrides"
  strict := true
  blank := ⟨none⟩
  fields := [
    .optional "serviceAccountName" .string (·.serviceAccountName)
      ({ · with serviceAccountName := · })]

def Storage.record : Record Storage where
  name := "StorageSpec"
  strict := true
  blank := ⟨none, none⟩
  fields := [
    .optional "size" .string (·.size) ({ · with size := · }),
    .optional "mountPath" .string (·.mountPath) ({ · with mountPath := · })]

def Server.blank : Server := ⟨⟨none, none⟩, .blank, none, none⟩

def Server.record : Record Server where
  name := "ServerSpec"
  strict := true
  blank := .blank
  fields := [
    .needed "distribution" ImageChoice.record.codec (·.choice) ({ · with choice := · }),
    .defaulted "containerSpec" ContainerSettings.record.codec (·.container)
      ({ · with container := · }),
    .optional "podOverrides" PodSettings.record.codec (·.pod) ({ · with pod := · }),
    .optional "storage" Storage.record.codec (·.storage) ({ · with storage := · })]

def Spec.record : Record Spec where
  name := "LlamaStackDistributionSpec"
  strict := true
  blank := ⟨1, .blank⟩
  fields := [
    .defaulted "replicas" .int32 (·.replicas) ({ · with replicas := · }),
    .needed "server" Server.record.codec (·.server) ({ · with server := · })]

inductive ImageRef where
  | named (name : String)
  | explicit (image : String)
deriving DecidableEq

inductive ChoiceError where
  | ambiguous
  | missing
deriving DecidableEq

def ChoiceError.message : ChoiceError → String
  | .ambiguous => "only one of distribution.name or distribution.image can be set"
  | .missing => "either distribution.name or distribution.image must be set"

/-- Exactly one of name and image must be set, and empty texts count as unset. -/
def ImageChoice.validate (c : ImageChoice) : Except ChoiceError ImageRef :=
  match nonEmpty c.name, nonEmpty c.image with
  | some _, some _ => .error .ambiguous
  | some name, none => .ok (.named name)
  | none, some image => .ok (.explicit image)
  | none, none => .error .missing

def Storage.sizeOrDefault (s : Storage) : String := (nonEmpty s.size).getD "10Gi"

def defaultMountPath : String := "/.llama"

def Storage.mountPathOrDefault (s : Storage) : String :=
  (nonEmpty s.mountPath).getD defaultMountPath

end DistributionOperator
