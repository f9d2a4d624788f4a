import DistributionOperator.Json.Basic

/-! Containment of one value in another. A null asks for nothing, an object asks for its own members
only, and an array asks for the same number of items. -/

namespace DistributionOperator.Json

mutual

/-- Whether everything set in the first value is set alike in the second. -/
def containedIn : Json → Json → Bool
  | .null, _ => true
  | .object d, .object l => membersIn d l
  | .array d, .array l => itemsIn d l
  | d, l => d.same l

def membersIn : List (String × Json) → List (String × Json) → Bool
  | [], _ => true
  | (k, v) :: r, l =>
    (v.isNull ||
      match StringMap.find k l with
      | some w => containedIn v w
      | none => false) && membersIn r l

def itemsIn : List Json → List Json → Bool
  | [], [] => true
  | d :: r, l :: s => containedIn d l && itemsIn r s
  | _, _ => false

end

end DistributionOperator.Json
