import DistributionOperator.Json.Draft
import DistributionOperator.Text.Quoted

/-! What a typed reading of JSON can complain about. Besides the faults of the text there are data
errors: the text was JSON so far, but not of the wanted type. -/

namespace DistributionOperator

inductive Found where
  | null
  | bool (b : Bool)
  | int (n : Int)
  | float
  | string (s : String)
  | sequence
  | map
deriving DecidableEq

def Found.text : Found → String
  | .null => "null"
  | .bool b => s!"boolean `{b}`"
  | .int n => s!"integer `{n}`"
  | .float => "floating point"
  | .string s => "string " ++ quoted s
  | .sequence => "sequence"
  | .map => "map"

inductive DataError where
  | missingField (name : String)
  | duplicateField (name : String)
  | wrongType (found : Found) (wanted : String)
  | wrongValue (found : Found) (wanted : String)
  | wrongLength (length : Nat) (wanted : String)
  | unknownVariant (name : String) (known : List String)
  | invalidTimestamp
deriving DecidableEq

def DataError.message : DataError → String
  | .missingField name => s!"missing field `{name}`"
  | .duplicateField name => s!"duplicate field `{name}`"
  | .wrongType found wanted => s!"invalid type: {found.text}, expected {wanted}"
  | .wrongValue found wanted => s!"invalid value: {found.text}, expected {wanted}"
  | .wrongLength length wanted => s!"invalid length {length}, expected {wanted}"
  | .unknownVariant name known =>
    s!"unknown variant `{name}`, expected one of " ++
      ", ".intercalate (known.map fun k => s!"`{k}`")
  | .invalidTimestamp => "invalid timestamp"

inductive DecodeError where
  | fault (f : Fault)
  | data (e : DataError)
deriving DecidableEq

def DecodeError.message : DecodeError → String
  | .fault .malformed => "malformed text"
  | .fault .endOfText => "the text ends too early"
  | .data e => e.message

/-- Where a draft comes from: a text that is being read, or a value that is already there. -/
inductive Source where
  | text
  | value
deriving DecidableEq

abbrev Decoder (α : Type) := Source → Draft → Except DecodeError α

namespace Draft

/-- The complaint of a reader that wants something else. Of arrays and objects it has seen only the
first character. -/
def unwanted (wanted : String) : Draft → DecodeError
  | .null => .data (.wrongType .null wanted)
  | .bool b => .data (.wrongType (.bool b) wanted)
  | .number (some (.int n)) => .data (.wrongType (.int n) wanted)
  | .number (some (.float _)) => .data (.wrongType .float wanted)
  | .number none => .fault .malformed
  | .string (some s) => .data (.wrongType (.string s) wanted)
  | .string none => .fault .malformed
  | .array _ _ => .data (.wrongType .sequence wanted)
  | .object _ _ _ => .data (.wrongType .map wanted)
  | .fault read _ _ => .fault read

/-- The key of a member; whatever else stands in its place is wrong. -/
def key : Draft → Except DecodeError String
  | .string (some s) => .ok s
  | .fault read _ _ => .error (.fault read)
  | _ => .error (.fault .malformed)

def skip (d : Draft) : Except DecodeError Unit :=
  match d.skipFault? with
  | some f => .error (.fault f)
  | none => .ok ()

def stopped (stop : Option Fault) : Except DecodeError Unit :=
  match stop with
  | some f => .error (.fault f)
  | none => .ok ()

end Draft

def Decoder.ofText {α : Type} (decode : Decoder α) (s : String) : Except DecodeError α :=
  match Draft.ofText s with
  | (d, trailing) => do
    let a ← decode .text d
    if trailing then .error (.fault .malformed) else .ok a

def Decoder.ofJson {α : Type} (decode : Decoder α) (j : Json) : Except DecodeError α :=
  decode .value j.toDraft

end DistributionOperator
