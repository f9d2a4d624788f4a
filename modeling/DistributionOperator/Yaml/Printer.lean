import DistributionOperator.Json.Text

/-! JSON values as YAML in block style: a line for each scalar, nested collections indented by two
blanks, and the items of a list under the dashes at the height of their key. -/

namespace DistributionOperator.Yaml

/-- A value as it is laid out after its key: on the same line, or on lines of its own. -/
inductive Layout where
  | inline (text : String)
  | lines (ls : List String)

def indent (ls : List String) : List String := ls.map ("  " ++ ·)

/-- Characters that mean something at the start of a scalar. -/
def indicators : List Char :=
  ['-', '?', ':', ',', '[', ']', Json.opening, Json.closing, '#', '&', '*', '!', '|', '>', '\x27',
    '"', '%', '@', '\x60']

/-- Plain texts that are read as something else than themselves. -/
def reserved : List String :=
  ["", "~", "null", "Null", "NULL", "true", "True", "TRUE", "false", "False", "FALSE"]

def readsAsNumber (s : List Char) : Bool :=
  match s with
  | '+' :: c :: _ => c.isDigit || c = '.'
  | '.' :: c :: _ => c.isDigit || c = 'i' || c = 'I' || c = 'n' || c = 'N'
  | c :: _ => c.isDigit
  | [] => false

/-- A colon before a blank or the end, or a hash after a blank. -/
def hasMark : List Char → Bool
  | [] => false
  | [':'] => true
  | ':' :: ' ' :: _ => true
  | ' ' :: '#' :: _ => true
  | _ :: r => hasMark r

def isPlain (s : String) : Bool :=
  let cs := s.toList
  !reserved.contains s && !cs.head?.any indicators.contains && !cs.head?.any (· = ' ') &&
    !cs.getLast?.any (· = ' ') && !readsAsNumber cs && !hasMark cs

/-- An apostrophe inside quotes is written twice. -/
def doubleApostrophe (c : Char) : List Char := if c = '\x27' then [c, c] else [c]

def writeScalar (s : String) : String :=
  if isPlain s then s
  else "\x27" ++ String.ofList (s.toList.flatMap doubleApostrophe) ++ "\x27"

def dashed : Layout → List String
  | .inline s => ["- " ++ s]
  | .lines [] => []
  | .lines (l :: ls) => ("- " ++ l) :: indent ls

/-- A member; the items of a list are as far to the left as its key. -/
def keyed (k : String) (isList : Bool) : Layout → List String
  | .inline s => [writeScalar k ++ ": " ++ s]
  | .lines ls => (writeScalar k ++ ":") :: if isList then ls else indent ls

def isList : Json → Bool
  | .array _ => true
  | _ => false

mutual

def layout : Json → Layout
  | .null => .inline "null"
  | .bool b => .inline (if b then "true" else "false")
  | .number n => .inline (String.ofList (Json.writeNumber n))
  | .string s => .inline (writeScalar s)
  | .array [] => .inline "[]"
  | .array items => .lines (layoutItems items)
  | .object [] => .inline (String.ofList [Json.opening, Json.closing])
  | .object members => .lines (layoutMembers members)

def layoutItems : List Json → List String
  | [] => []
  | j :: r => dashed (layout j) ++ layoutItems r

def layoutMembers : List (String × Json) → List String
  | [] => []
  | (k, j) :: r => keyed k (isList j) (layout j) ++ layoutMembers r

end

def lines (j : Json) : List String :=
  match layout j with
  | .inline s => [s]
  | .lines ls => ls

def text (j : Json) : String := String.join ((lines j).map (· ++ "\n"))

end DistributionOperator.Yaml
