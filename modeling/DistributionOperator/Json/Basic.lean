import DistributionOperator.StringMap
import DistributionOperator.Json.Binary64

/-! JSON values. Whole and floating numbers are kept apart. The members of an object are a list;
in a canonical value they are sorted by key at every depth and no key is repeated. -/

namespace DistributionOperator

inductive Number where
  | int (n : Int)
  | float (x : Binary64)
deriving DecidableEq

/-- Equal as numbers of one kind: a whole number never agrees with a floating one. -/
def Number.same : Number → Number → Bool
  | .int a, .int b => a = b
  | .float x, .float y => x.same y
  | _, _ => false

inductive Json where
  | null
  | bool (b : Bool)
  | number (n : Number)
  | string (s : String)
  | array (items : List Json)
  | object (members : List (String × Json))
deriving Inhabited

namespace Json

mutual

/-- Whether two values are equal, with equal numbers taken for one. -/
def same : Json → Json → Bool
  | .null, .null => true
  | .bool a, .bool b => a = b
  | .number a, .number b => a.same b
  | .string a, .string b => a = b
  | .array a, .array b => sameItems a b
  | .object a, .object b => sameMembers a b
  | _, _ => false

def sameItems : List Json → List Json → Bool
  | [], [] => true
  | a :: r, b :: s => same a b && sameItems r s
  | _, _ => false

def sameMembers : List (String × Json) → List (String × Json) → Bool
  | [], [] => true
  | (j, a) :: r, (k, b) :: s => j = k && same a b && sameMembers r s
  | _, _ => false

end

mutual

def decEq : (a b : Json) → Decidable (a = b)
  | .null, .null => isTrue rfl
  | .bool a, .bool b => decidable_of_iff (a = b) (by simp)
  | .number a, .number b => decidable_of_iff (a = b) (by simp)
  | .string a, .string b => decidable_of_iff (a = b) (by simp)
  | .array a, .array b =>
    match decEqItems a b with
    | isTrue h => isTrue (h ▸ rfl)
    | isFalse h => isFalse (by simpa using h)
  | .object a, .object b =>
    match decEqMembers a b with
    | isTrue h => isTrue (h ▸ rfl)
    | isFalse h => isFalse (by simpa using h)
  | .null, .bool _ | .null, .number _ | .null, .string _ | .null, .array _ | .null, .object _
  | .bool _, .null | .bool _, .number _ | .bool _, .string _ | .bool _, .array _
  | .bool _, .object _ | .number _, .null | .number _, .bool _ | .number _, .string _
  | .number _, .array _ | .number _, .object _ | .string _, .null | .string _, .bool _
  | .string _, .number _ | .string _, .array _ | .string _, .object _ | .array _, .null
  | .array _, .bool _ | .array _, .number _ | .array _, .string _ | .array _, .object _
  | .object _, .null | .object _, .bool _ | .object _, .number _ | .object _, .string _
  | .object _, .array _ => isFalse (by simp)

def decEqItems : (a b : List Json) → Decidable (a = b)
  | [], [] => isTrue rfl
  | a :: r, b :: s =>
    match decEq a b, decEqItems r s with
    | isTrue h, isTrue hr => isTrue (h ▸ hr ▸ rfl)
    | isFalse h, _ => isFalse fun e => h (List.cons.inj e).1
    | _, isFalse h => isFalse fun e => h (List.cons.inj e).2
  | [], _ :: _ | _ :: _, [] => isFalse (by simp)

def decEqMembers : (a b : List (String × Json)) → Decidable (a = b)
  | [], [] => isTrue rfl
  | (j, a) :: r, (k, b) :: s =>
    match decEq a b, decEqMembers r s with
    | isTrue h, isTrue hr =>
      if hk : j = k then isTrue (h ▸ hr ▸ hk ▸ rfl)
      else isFalse fun e => hk (Prod.mk.inj (List.cons.inj e).1).1
    | isFalse h, _ => isFalse fun e => h (Prod.mk.inj (List.cons.inj e).1).2
    | _, isFalse h => isFalse fun e => h (List.cons.inj e).2
  | [], _ :: _ | _ :: _, [] => isFalse (by simp)

end

instance : DecidableEq Json := decEq

mutual

/-- Sorted members without repeated keys, at every depth. -/
def Canonical : Json → Prop
  | .array items => CanonicalItems items
  | .object members => members.Pairwise (fun a b => a.1 < b.1) ∧ CanonicalMembers members
  | _ => True

def CanonicalItems : List Json → Prop
  | [] => True
  | j :: r => Canonical j ∧ CanonicalItems r

def CanonicalMembers : List (String × Json) → Prop
  | [] => True
  | (_, j) :: r => Canonical j ∧ CanonicalMembers r

end

def isNull : Json → Bool
  | .null => true
  | _ => false

def int (n : Int) : Json := .number (.int n)

/-- An object of these members, sorted; the last of several with one key counts. -/
def mkObject (members : List (String × Json)) : Json :=
  .object (StringMap.ofList members).entries

def ofPresent (members : List (String × Option Json)) : Json :=
  mkObject (members.filterMap fun m => m.2.map (m.1, ·))

def ofStrings (m : StringMap String) : Json :=
  .object (m.map Json.string).entries

def member? : Json → String → Option Json
  | .object members, k => StringMap.find k members
  | _, _ => none

def items : Json → List Json
  | .array items => items
  | _ => []

def string? : Json → Option String
  | .string s => some s
  | _ => none

def int? : Json → Option Int
  | .number (.int n) => some n
  | _ => none

def setMember (j : Json) (k : String) (v : Json) : Json :=
  match j with
  | .object members => .object (StringMap.place k v members)
  | j => j

def eraseMember (j : Json) (k : String) : Json :=
  match j with
  | .object members => .object (members.filter fun m => m.1 ≠ k)
  | j => j

end Json

end DistributionOperator
