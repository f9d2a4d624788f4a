import DistributionOperator.Distribution.Basic

/-! The pods that a distribution wants: one container, which mounts one volume. -/

namespace DistributionOperator

structure VolumeMount where
  volume : String
  path : String
deriving DecidableEq

structure Container where
  name : String
  image : String
  ports : List Int32
  env : List EnvSetting
  command : List String
  args : List String
  resources : Option Amounts
  mounts : List VolumeMount
deriving DecidableEq

/-- Where the data of a volume is kept: in a claim, or in a directory that goes with the pod. -/
inductive VolumeSource where
  | claim (name : String)
  | emptyDirectory
deriving DecidableEq

structure Volume where
  name : String
  source : VolumeSource
deriving DecidableEq

structure PodTemplate where
  labels : StringMap String
  containers : List Container
  volumes : List Volume
  serviceAccountName : Option String
deriving DecidableEq

def someList {α : Type} (f : α → Json) (l : List α) : Option Json :=
  if l.isEmpty then none else some (.array (l.map f))

def someStrings (m : StringMap String) : Option Json :=
  if m.isEmpty then none else some (.ofStrings m)

def Amounts.toJson (a : Amounts) : Json :=
  .ofPresent [("limits", someStrings a.limits), ("requests", someStrings a.requests)]

def EnvSetting.toJson (e : EnvSetting) : Json :=
  .mkObject [("name", .string e.name), ("value", .string e.value)]

def VolumeMount.toJson (m : VolumeMount) : Json :=
  .mkObject [("mountPath", .string m.path), ("name", .string m.volume)]

def Container.toJson (c : Container) : Json :=
  .ofPresent [
    ("args", someList .string c.args),
    ("command", someList .string c.command),
    ("env", someList EnvSetting.toJson c.env),
    ("image", some (.string c.image)),
    ("name", some (.string c.name)),
    ("ports", some (.array (c.ports.map fun p => .mkObject [("containerPort", .int p.toInt)]))),
    ("resources", c.resources.map Amounts.toJson),
    ("volumeMounts", some (.array (c.mounts.map VolumeMount.toJson)))]

def Volume.toJson (v : Volume) : Json :=
  match v.source with
  | .claim name => .mkObject [("name", .string v.name),
      ("persistentVolumeClaim", .mkObject [("claimName", .string name)])]
  | .emptyDirectory => .mkObject [("name", .string v.name), ("emptyDir", .object [])]

def PodTemplate.toJson (t : PodTemplate) : Json :=
  .mkObject [
    ("metadata", .mkObject [("labels", .ofStrings t.labels)]),
    ("spec", .ofPresent [
      ("containers", some (.array (t.containers.map Container.toJson))),
      ("serviceAccountName", t.serviceAccountName.map Json.string),
      ("volumes", some (.array (t.volumes.map Volume.toJson)))])]

namespace Distribution

def volumeName : String := "lls-storage"

def mountPath (d : Distribution) : String :=
  match d.spec.server.storage with
  | some s => s.mountPathOrDefault
  | none => defaultMountPath

def container (d : Distribution) (image : String) : Container where
  name := d.containerName
  image := image
  ports := if d.hasPorts then d.ports else [defaultPort]
  env := d.spec.server.container.env
  command := d.spec.server.container.command
  args := d.spec.server.container.args
  resources := d.spec.server.container.resources
  mounts := [⟨volumeName, d.mountPath⟩]

def volume (d : Distribution) : Volume where
  name := volumeName
  source := if d.spec.server.storage.isSome then .claim d.claimName else .emptyDirectory

def podTemplate (d : Distribution) (image : String) : PodTemplate where
  labels := d.selectorLabels
  containers := [d.container image]
  volumes := [d.volume]
  serviceAccountName := nonEmpty (d.spec.server.pod.bind (·.serviceAccountName))

end Distribution

end DistributionOperator
