import DistributionOperator.Json.Basic

/-! The compact text of a JSON value: no blanks, members in their order, and in strings only those
characters escaped that have to be. -/

namespace DistributionOperator.Json

def hexDigit (n : Nat) : Char := Nat.digitChar n

/-- Quotes, backslashes and control characters are escaped, five of them by a letter. -/
def escapeChar (c : Char) : List Char :=
  match c with
  | '"' => ['\\', '"']
  | '\\' => ['\\', '\\']
  | '\x08' => ['\\', 'b']
  | '\x0c' => ['\\', 'f']
  | '\n' => ['\\', 'n']
  | '\r' => ['\\', 'r']
  | '\t' => ['\\', 't']
  | c =>
    if c.toNat < 0x20 then ['\\', 'u', '0', '0', hexDigit (c.toNat / 16), hexDigit (c.toNat % 16)]
    else [c]

def writeString (s : String) : List Char := '"' :: s.toList.flatMap escapeChar ++ ['"']

def writeNumber : Number → List Char
  | .int n => (toString n).toList
  | .float x => x.write

def opening : Char := Char.ofNat 0x7B

def closing : Char := Char.ofNat 0x7D

mutual

def write : Json → List Char
  | .null => ['n', 'u', 'l', 'l']
  | .bool true => ['t', 'r', 'u', 'e']
  | .bool false => ['f', 'a', 'l', 's', 'e']
  | .number n => writeNumber n
  | .string s => writeString s
  | .array [] => ['[', ']']
  | .array (j :: r) => '[' :: write j ++ writeItems r
  | .object [] => [opening, closing]
  | .object ((k, j) :: r) => opening :: writeString k ++ ':' :: write j ++ writeMembers r

def writeItems : List Json → List Char
  | [] => [']']
  | j :: r => ',' :: write j ++ writeItems r

def writeMembers : List (String × Json) → List Char
  | [] => [closing]
  | (k, j) :: r => ',' :: writeString k ++ ':' :: write j ++ writeMembers r

end

def text (j : Json) : String := String.ofList j.write

end DistributionOperator.Json
