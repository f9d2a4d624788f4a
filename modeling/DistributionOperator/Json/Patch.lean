import DistributionOperator.Json.Basic

/-! Merge patches. The members of a patch replace those of the target, a null removes the member,
and all else is kept. -/

namespace DistributionOperator.Json

mutual

/-- The target after the patch; a target that is no object counts as an empty one. -/
def mergePatch (target : Json) : Json → Json
  | .object patch =>
    match target with
    | .object members => .object (mergeMembers members patch)
    | _ => .object (mergeMembers [] patch)
  | patch => patch

def mergeMembers (members : List (String × Json)) : List (String × Json) → List (String × Json)
  | [] => members
  | (k, v) :: r =>
    if v.isNull then mergeMembers (members.filter fun m => m.1 ≠ k) r
    else
      mergeMembers
        (StringMap.place k (mergePatch ((StringMap.find k members).getD .null) v) members) r

end

end DistributionOperator.Json
