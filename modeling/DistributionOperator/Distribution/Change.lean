import DistributionOperator.Distribution.Spec
import DistributionOperator.Json.Difference

/-! Changes of a spec, told as the places of its written form that differ. -/

namespace DistributionOperator

structure SpecChange where
  changed : Bool
  differences : List Difference
deriving DecidableEq

namespace SpecChange

def none : SpecChange := ⟨false, []⟩

/-- One line for each difference; without any there is nothing to tell. -/
def text? (c : SpecChange) : Option String :=
  if c.differences.isEmpty then .none
  else some ("\n".intercalate (c.differences.map (·.line "spec")))

def between (old new : Spec) : SpecChange :=
  if old = new then none
  else ⟨true, Json.differences [] (Spec.record.encode old) (Spec.record.encode new)⟩

end SpecChange

end DistributionOperator
