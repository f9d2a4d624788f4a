import DistributionOperator.Desired.Admission
import DistributionOperator.Proofs.JsonPaths
import DistributionOperator.Reconcile.Apply

/-! What label selectors mean as they are sent to the cluster. All labels and all requirements of a
selector must be met, so one that has none of both selects everything; where a selector is absent
nothing is selected. -/

namespace DistributionOperator

theorem StringMap.find_eq_some_iff {α : Type} {k : String} {a : α} {l : List (String × α)}
    (h : (l.map (·.1)).Nodup) : find k l = some a ↔ (k, a) ∈ l := by
  constructor
  · intro hf
    by_contra hm
    induction l with
    | nil => cases hf
    | cons e r ih =>
      by_cases he : e.1 = k
      · have ha : e.2 = a := by simpa [find, he] using hf
        exact hm (List.mem_cons.mpr (.inl (by rw [← he, ← ha])))
      · have hr : find k r = some a := by simpa [find, he] using hf
        exact ih (List.nodup_cons.mp h).2 hr fun hmem => hm (List.mem_cons_of_mem _ hmem)
  · exact fun hm => find_of_mem h hm

namespace Json

/-- The items of a list that may be absent. -/
def listed (j : Json) (k : String) : List Json := ((j.member? k).map items).getD []

/-- What a requirement of a selector asks of labels. -/
def RequirementHolds (r : Json) (labels : StringMap String) : Prop :=
  let value := ((r.member? "key").bind string?).bind labels.get?
  match (r.member? "operator").bind string? with
  | some "In" => ∃ v, value = some v ∧ .string v ∈ r.listed "values"
  | some "NotIn" => ∀ v, value = some v → .string v ∉ r.listed "values"
  | some "Exists" => value ≠ none
  | some "DoesNotExist" => value = none
  | _ => False

structure Selects (selector : Json) (labels : StringMap String) : Prop where
  matchLabels : ∀ k v, selector.at? [.member "matchLabels", .member k] = some (.string v) →
    labels.get? k = some v
  requirements : ∀ r ∈ selector.listed "matchExpressions", r.RequirementHolds labels

end Json

namespace Selector

variable {s : Selector} {labels : StringMap String}

theorem selects_iff : s.selects labels = true ↔
    ∀ k v, s.labels.get? k = some v → labels.get? k = some v := by
  have hnodup : (s.labels.entries.map (·.1)).Nodup := StringMap.nodup_of_sorted s.labels.sorted
  have hmem : ∀ k v, s.labels.get? k = some v ↔ (k, v) ∈ s.labels.entries := fun k v =>
    StringMap.find_eq_some_iff hnodup
  simp only [selects, StringMap.toList, List.all_eq_true, decide_eq_true_eq, hmem]
  exact ⟨fun h k v hm => h (k, v) hm, fun h e he => h e.1 e.2 he⟩

theorem at?_toJson (s : Selector) (k : String) :
    s.toJson.at? [.member "matchLabels", .member k] = (s.labels.get? k).map .string := by
  have hlabels : s.toJson.member? "matchLabels" = someStrings s.labels :=
    (Json.member?_ofPresent (by simp) _).trans (by simp [StringMap.find])
  rw [Json.at?_member, hlabels]
  by_cases he : s.labels.isEmpty = true
  · rw [StringMap.isEmpty_iff.mp he]
    rfl
  · simp [someStrings, he, Json.member?_ofStrings]

theorem listed_toJson (s : Selector) : s.toJson.listed "matchExpressions" = [] := by
  have hnone : s.toJson.member? "matchExpressions" = none :=
    (Json.member?_ofPresent (by simp) _).trans (by simp [StringMap.find])
  simp [Json.listed, hnone]

/-- The cluster selects by what is sent as the selector says. -/
theorem selects_toJson : s.toJson.Selects labels ↔ s.selects labels = true := by
  rw [selects_iff]
  constructor
  · intro h k v hv
    refine h.matchLabels k v ?_
    rw [at?_toJson, hv]
    rfl
  · intro h
    refine ⟨fun k v hv => h k v ?_, by simp [listed_toJson]⟩
    rw [at?_toJson] at hv
    simpa using hv

theorem selects_empty : (Selector.mk .empty).selects labels = true := selects_iff.mpr nofun

theorem selects_single {k v : String} :
    (Selector.mk (.ofList [(k, v)])).selects labels = true ↔ labels.get? k = some v := by
  have hget : ∀ j, (StringMap.ofList [(k, v)]).get? j = StringMap.find j [(k, v)] :=
    StringMap.get?_ofList (by simp)
  rw [selects_iff]
  simp only [hget]
  constructor
  · intro h
    exact h k v (by simp [StringMap.find])
  · intro h j u hu
    by_cases hj : k = j
    · subst hj
      simpa [StringMap.find, h] using hu
    · simp [StringMap.find, hj] at hu

end Selector

/-- The pods of a distribution are those with its two labels. -/
theorem Distribution.selectorLabels_within_iff {d : Distribution} {labels : StringMap String} :
    (∀ k v, d.selectorLabels.get? k = some v → labels.get? k = some v) ↔
      labels.get? "app" = some stackName ∧
        labels.get? "app.kubernetes.io/instance" = some d.name := by
  have hget : ∀ k, d.selectorLabels.get? k = StringMap.find k
      [("app", stackName), ("app.kubernetes.io/instance", d.name)] :=
    StringMap.get?_ofList (by simp)
  constructor
  · intro h
    exact ⟨h _ _ (hget _), h _ _ (hget _)⟩
  · intro h k v hv
    rw [hget] at hv
    by_cases happ : "app" = k
    · subst happ
      exact h.1.trans hv
    · by_cases hinstance : "app.kubernetes.io/instance" = k
      · subst hinstance
        exact h.2.trans hv
      · simp [StringMap.find, happ, hinstance] at hv

/-! The pods of a deployment: which labels they are made with, and which pods are selected. -/

namespace Child

def selector (c : Child) : Option Json := c.specJson.at? [.member "selector"]

def podLabels (c : Child) : Option Json :=
  c.specJson.at? [.member "template", .member "metadata", .member "labels"]

/-- Whether the label selector that a child has under a key selects these labels. -/
def SelectsBy (c : Child) (k : String) (labels : StringMap String) : Prop :=
  ∃ selector, c.specJson.at? [.member k] = some selector ∧ selector.Selects labels

theorem selectsBy_iff {c : Child} {k : String} {s : Selector} {labels : StringMap String}
    (h : c.specJson.member? k = some s.toJson) :
    c.SelectsBy k labels ↔ s.selects labels = true := by
  simp [SelectsBy, h, Selector.selects_toJson]

/-- Whether a deployment makes pods with these labels, and selects those that have them all. -/
structure SelectsPods (c : Child) (labels : StringMap String) : Prop where
  selector : c.selector = some (.object [("matchLabels", .ofStrings labels)])
  podLabels : c.podLabels = some (.ofStrings labels)

end Child

namespace Distribution

variable (d : Distribution)

theorem selectorLabels_not_empty : d.selectorLabels.isEmpty = false := by
  refine Bool.eq_false_iff.mpr fun h => ?_
  have hget : d.selectorLabels.get? "app" = some stackName := StringMap.get?_ofList (by simp) _
  rw [StringMap.isEmpty_iff.mp h] at hget
  cases hget

theorem deployment_selectsPods (image : String) :
    (d.deployment image).SelectsPods d.selectorLabels := by
  have hspec : (d.deployment image).specJson = (d.deploymentSpec image).toJson := rfl
  have hselector : (Selector.mk d.selectorLabels).toJson =
      .object [("matchLabels", .ofStrings d.selectorLabels)] := by
    simp only [Selector.toJson, someStrings, d.selectorLabels_not_empty]
    rfl
  constructor
  · simp [Child.selector, hspec, DeploymentSpec.toJson, Json.member?_mkObject, StringMap.find,
      deploymentSpec, hselector]
  · simp [Child.podLabels, hspec, DeploymentSpec.toJson, PodTemplate.toJson, Json.member?_mkObject,
      StringMap.find, deploymentSpec, podTemplate]

end Distribution

end DistributionOperator
