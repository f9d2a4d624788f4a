import DistributionOperator.Json.Text

/-! JSON texts as far as they can be read. A draft keeps the places where a text stops being JSON,
so that a reader that goes through it from left to right meets its own complaints and the faults of
the text in the order in which they stand. -/

namespace DistributionOperator

/-- Why a text is not JSON: what is written is wrong, or more should follow. -/
inductive Fault where
  | malformed
  | endOfText
deriving DecidableEq, Repr

/-- Values, with the faults in place. A number beyond the greatest float and a string with half of
a surrogate pair are faults only for a reader that wants the value. An array or object that is cut
short keeps its fault; what stands after a comma counts as an item or member of its own. The stray
value of an object stands where its first key should. Of a broken scalar a reader that wants its
value, one that passes over it and one that wants a name complain in ways of their own. -/
inductive Draft where
  | null
  | bool (b : Bool)
  | number (n : Option Number)
  | string (s : Option String)
  | array (items : List Draft) (stop : Option Fault)
  | object (members : List (Draft × Draft)) (stop : Option Fault) (stray : Option Draft)
  | fault (read skipped named : Fault)
deriving Inhabited

namespace Draft

def skipBlank (s : List Char) : List Char :=
  s.dropWhile fun c => c = ' ' || c = '\n' || c = '\t' || c = '\r'

def failed (f : Fault) : Draft × Option (List Char) := (.fault f f f, none)

def readWord (d : Draft) : List Char → List Char → Draft × Option (List Char)
  | [], s => (d, some s)
  | _ :: _, [] => (.fault .endOfText .endOfText .malformed, none)
  | w :: ws, c :: s => if c = w then readWord d ws s else failed .malformed

def hexValue? (c : Char) : Option Nat :=
  if '0' ≤ c && c ≤ '9' then some (c.toNat - 48)
  else if 'a' ≤ c && c ≤ 'f' then some (c.toNat - 87)
  else if 'A' ≤ c && c ≤ 'F' then some (c.toNat - 55)
  else none

def fourHex? (a b c d : Char) : Option Nat := do
  let a ← hexValue? a
  let b ← hexValue? b
  let c ← hexValue? c
  let d ← hexValue? d
  return ((a * 16 + b) * 16 + c) * 16 + d

def isHigh (n : Nat) : Bool := 0xD800 ≤ n && n ≤ 0xDBFF

def isLow (n : Nat) : Bool := 0xDC00 ≤ n && n ≤ 0xDFFF

def joinHalves (high low : Nat) : Char :=
  Char.ofNat (0x10000 + (high - 0xD800) * 0x400 + (low - 0xDC00))

def simpleEscape? (c : Char) : Option Char :=
  match c with
  | '"' => some '"'
  | '\\' => some '\\'
  | '/' => some '/'
  | 'b' => some '\x08'
  | 'f' => some '\x0c'
  | 'n' => some '\n'
  | 'r' => some '\r'
  | 't' => some '\t'
  | _ => none

def inString (lone : Bool) (f : Fault) : Draft × Option (List Char) :=
  (.fault (if lone then .malformed else f) f (if lone then .malformed else f), none)

/-- The rest of a string. A high surrogate waits for its other half; a half that stays alone spoils
the string for those who want it. -/
def readString (s : List Char) (high : Option Nat) (lone : Bool) (seen : List Char) :
    Draft × Option (List Char) :=
  match s with
  | [] => inString lone .endOfText
  | '"' :: r =>
    (.string (if lone || high.isSome then none else some (String.ofList seen.reverse)), some r)
  | '\\' :: r =>
    match r with
    | [] => inString lone .endOfText
    | 'u' :: a :: b :: c :: d :: r =>
      match fourHex? a b c d with
      | none => inString lone .malformed
      | some n =>
        match high with
        | some h =>
          if isLow n then
            readString r none lone (joinHalves h n :: seen)
          else readString r none true seen
        | none =>
          if isHigh n then readString r (some n) lone seen
          else if isLow n then readString r none true seen
          else readString r none lone (Char.ofNat n :: seen)
    | 'u' :: r =>
      inString lone (if (String.ofList r).utf8ByteSize < 4 then .endOfText else .malformed)
    | e :: r =>
      match simpleEscape? e with
      | none => inString lone .malformed
      | some c => readString r none (lone || high.isSome) (c :: seen)
  | c :: r =>
    if c.toNat < 0x20 then inString lone .malformed
    else readString r none (lone || high.isSome) (c :: seen)

def isDigit (c : Char) : Bool := '0' ≤ c && c ≤ '9'

def digitsValue (s : List Char) : Nat := s.foldl (fun n c => n * 10 + (c.toNat - 48)) 0

/-- A place where a digit should be: at the end of the text only readers expect more. -/
def noDigit (s : List Char) : Draft × Option (List Char) :=
  (.fault (if s.isEmpty then .endOfText else .malformed) .malformed .malformed, none)

/-- Whole numbers beyond 64 bits and the negative zero are floating. -/
def wholeNumber (negative : Bool) (n : Nat) : Option Number :=
  if negative then
    if n = 0 || 9223372036854775808 < n then (Binary64.ofDecimal? true n 0).map .float
    else some (.int (-n))
  else if 18446744073709551615 < n then (Binary64.ofDecimal? false n 0).map .float
  else some (.int n)

def readExponent (negative : Bool) (digits : Nat) (places : Nat) (s : List Char) :
    Draft × Option (List Char) :=
  let signed := match s with
    | '+' :: r => (false, r)
    | '-' :: r => (true, r)
    | r => (false, r)
  let power := signed.2.takeWhile isDigit
  let rest := signed.2.dropWhile isDigit
  if power.isEmpty then noDigit signed.2
  else
    let e : Int := if signed.1 then -(digitsValue power : Int) else digitsValue power
    (.number ((Binary64.ofDecimal? negative digits (e - places)).map .float), some rest)

def readFraction (negative : Bool) (whole : List Char) (s : List Char) :
    Draft × Option (List Char) :=
  let places := s.takeWhile isDigit
  let rest := s.dropWhile isDigit
  let digits := digitsValue (whole ++ places)
  if places.isEmpty then noDigit s
  else
    match rest with
    | 'e' :: r | 'E' :: r => readExponent negative digits places.length r
    | r => (.number ((Binary64.ofDecimal? negative digits (-places.length)).map .float), some r)

def readDigits (negative : Bool) (s : List Char) : Draft × Option (List Char) :=
  let whole := s.takeWhile isDigit
  let rest := s.dropWhile isDigit
  if whole.isEmpty then noDigit s
  else if whole.head? = some '0' && 1 < whole.length then failed .malformed
  else
    match rest with
    | '.' :: r => readFraction negative whole r
    | 'e' :: r | 'E' :: r => readExponent negative (digitsValue whole) 0 r
    | r => (.number (wholeNumber negative (digitsValue whole)), some r)

mutual

def readValue : Nat → List Char → Draft × Option (List Char)
  | 0, _ => failed .malformed
  | fuel + 1, s =>
    match skipBlank s with
    | [] => failed .endOfText
    | 'n' :: r => readWord .null ['u', 'l', 'l'] r
    | 't' :: r => readWord (.bool true) ['r', 'u', 'e'] r
    | 'f' :: r => readWord (.bool false) ['a', 'l', 's', 'e'] r
    | '"' :: r => readString r none false []
    | '-' :: r => readDigits true r
    | '[' :: r =>
      match skipBlank r with
      | [] => (.array [] (some .endOfText), none)
      | ']' :: r => (.array [] none, some r)
      | r =>
        let read := readItems fuel r
        (.array read.1 read.2.1, read.2.2)
    | c :: r =>
      if c = Json.opening then
        match skipBlank r with
        | [] => (.object [] (some .endOfText) none, none)
        | d :: r =>
          if d = Json.closing then (.object [] none none, some r)
          else if d = '"' then
            let read := readMembers fuel r
            (.object read.1 read.2.1 none, read.2.2)
          else (.object [] (some .malformed) (some (readValue fuel (d :: r)).1), none)
      else if isDigit c then readDigits false (c :: r)
      else failed .malformed

/-- The items from one on, with the fault that stops them and what follows the bracket. -/
def readItems : Nat → List Char → List Draft × Option Fault × Option (List Char)
  | 0, _ => ([], some .malformed, none)
  | fuel + 1, s =>
    match readValue fuel s with
    | (d, none) => ([d], none, none)
    | (d, some r) =>
      match skipBlank r with
      | [] => ([d], some .endOfText, none)
      | ']' :: r => ([d], none, some r)
      | ',' :: r =>
        let more := readItems fuel r
        (d :: more.1, more.2)
      | _ => ([d], some .malformed, none)

def readMembers : Nat → List Char → List (Draft × Draft) × Option Fault × Option (List Char)
  | 0, _ => ([], some .malformed, none)
  | fuel + 1, s =>
    match readString s none false [] with
    | (k, none) => ([(k, .null)], none, none)
    | (k, some r) =>
      match skipBlank r with
      | [] => ([(k, .fault .endOfText .endOfText .endOfText)], none, none)
      | ':' :: r =>
        match readValue fuel r with
        | (d, none) => ([(k, d)], none, none)
        | (d, some r) =>
          match skipBlank r with
          | [] => ([(k, d)], some .endOfText, none)
          | ',' :: r =>
            match skipBlank r with
            | [] => ([(k, d), (.fault .endOfText .endOfText .endOfText, .null)], none, none)
            | '"' :: r =>
              let more := readMembers fuel r
              ((k, d) :: more.1, more.2)
            | _ => ([(k, d), (.fault .malformed .malformed .malformed, .null)], none, none)
          | c :: r =>
            if c = Json.closing then ([(k, d)], none, some r)
            else ([(k, d)], some .malformed, none)
      | _ => ([(k, .fault .malformed .malformed .malformed)], none, none)

end

/-- The draft of a text, and whether more than blanks follows the value. -/
def ofText (s : String) : Draft × Bool :=
  let cs := s.toList
  let read := readValue (2 * cs.length + 2) cs
  (read.1, match read.2 with
    | none => false
    | some rest => !(skipBlank rest).isEmpty)

mutual

/-- The first fault met by a reader that only passes over the value. -/
def skipFault? : Draft → Option Fault
  | .fault _ skipped _ => some skipped
  | .array items stop => skipItems items stop
  | .object members stop _ => skipMembers members stop
  | _ => none

def skipItems : List Draft → Option Fault → Option Fault
  | [], stop => stop
  | d :: r, stop => (skipFault? d).or (skipItems r stop)

def skipMembers : List (Draft × Draft) → Option Fault → Option Fault
  | [], stop => stop
  | (k, d) :: r, stop => ((skipFault? k).or (skipFault? d)).or (skipMembers r stop)

end

mutual

/-- The value of a draft, or the first fault met by a reader that wants all of it. -/
def toJson : Draft → Except Fault Json
  | .null => .ok .null
  | .bool b => .ok (.bool b)
  | .number (some n) => .ok (.number n)
  | .number none => .error .malformed
  | .string (some s) => .ok (.string s)
  | .string none => .error .malformed
  | .fault read _ _ => .error read
  | .array items stop => do
    let items ← toItems items
    match stop with
    | some f => .error f
    | none => .ok (.array items)
  | .object members stop _ => do
    let members ← toMembers members
    match stop with
    | some f => .error f
    | none => .ok (Json.mkObject members)

def toItems : List Draft → Except Fault (List Json)
  | [] => .ok []
  | d :: r => do
    let j ← toJson d
    let js ← toItems r
    return j :: js

def toMembers : List (Draft × Draft) → Except Fault (List (String × Json))
  | [] => .ok []
  | (k, d) :: r => do
    let key ← match k with
      | .string (some s) => .ok s
      | .fault read _ _ => .error read
      | _ => .error .malformed
    let j ← toJson d
    let js ← toMembers r
    return (key, j) :: js

end

end Draft

namespace Json

mutual

def toDraft : Json → Draft
  | .null => .null
  | .bool b => .bool b
  | .number n => .number (some n)
  | .string s => .string (some s)
  | .array items => .array (draftItems items) none
  | .object members => .object (draftMembers members) none none

def draftItems : List Json → List Draft
  | [] => []
  | j :: r => toDraft j :: draftItems r

def draftMembers : List (String × Json) → List (Draft × Draft)
  | [] => []
  | (k, j) :: r => (.string (some k), toDraft j) :: draftMembers r

end

def ofText (s : String) : Except Fault Json :=
  match Draft.ofText s with
  | (d, trailing) => do
    let j ← d.toJson
    if trailing then .error .malformed else .ok j

end Json

end DistributionOperator
