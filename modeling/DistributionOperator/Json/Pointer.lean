import DistributionOperator.Json.Basic

/-! Pointers into a value: a slash before each key or index, with `~1` for a slash in a key and `~0`
for a tilde. -/

namespace DistributionOperator.Json

def unescapeStep (s : List Char) : List Char :=
  match s with
  | '~' :: '1' :: r => '/' :: unescapeStep r
  | '~' :: '0' :: r => '~' :: unescapeStep r
  | c :: r => c :: unescapeStep r
  | [] => []

/-- An index has no sign and no leading zero. -/
def index? (s : List Char) : Option Nat :=
  if s.isEmpty || !s.all Char.isDigit || (s.head? = some '0' && s.length ≠ 1) then none
  else some (s.foldl (fun n c => n * 10 + (c.toNat - 48)) 0)

def step? (j : Json) (step : List Char) : Option Json :=
  match j with
  | .object members => StringMap.find (String.ofList step) members
  | .array items => (index? step).bind fun i => items[i]?
  | _ => none

def steps (s : List Char) : List (List Char) :=
  match s with
  | [] => [[]]
  | '/' :: r => [] :: steps r
  | c :: r =>
    match steps r with
    | [] => [[c]]
    | w :: ws => (c :: w) :: ws

def pointer? (j : Json) (p : String) : Option Json :=
  match p.toList with
  | [] => some j
  | '/' :: r => (steps r).foldl (fun j w => j.bind fun j => step? j (unescapeStep w)) (some j)
  | _ => none

end DistributionOperator.Json
