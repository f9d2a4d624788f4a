import DistributionOperator.Json.Text

/-! The difference of two values, as the places where they part. A member that is missing on one
side counts as null there. -/

namespace DistributionOperator

/-- Two different values at the end of a path of keys. -/
structure Difference where
  path : List String
  old : Json
  new : Json
deriving DecidableEq

/-- The path below a root. -/
def Difference.name (root : String) (d : Difference) : String := ".".intercalate (root :: d.path)

def Difference.line (root : String) (d : Difference) : String :=
  d.name root ++ ": " ++ d.old.text ++ " -> " ++ d.new.text

namespace Json

def unlessSame (path : List String) (old new : Json) : List Difference :=
  if old.same new then [] else [⟨path, old, new⟩]

mutual

def differences (path : List String) : Json → Json → List Difference
  | .object o, .object n => memberDifferences path o n
  | o, n => unlessSame path o n

def memberDifferences (path : List String) :
    List (String × Json) → List (String × Json) → List Difference
  | [], n => n.flatMap fun m => unlessSame (path ++ [m.1]) .null m.2
  | (k, a) :: r, n =>
    let before := n.takeWhile fun m => m.1 < k
    let rest := n.dropWhile fun m => m.1 < k
    before.flatMap (fun m => unlessSame (path ++ [m.1]) .null m.2) ++
      match rest with
      | [] => unlessSame (path ++ [k]) a .null ++ memberDifferences path r []
      | (j, b) :: s =>
        if j = k then differences (path ++ [k]) a b ++ memberDifferences path r s
        else unlessSame (path ++ [k]) a .null ++ memberDifferences path r ((j, b) :: s)

end

end Json

end DistributionOperator
