import DistributionOperator.Json.Decode

/-! Codecs pair the reading of a type with its writing. -/

namespace DistributionOperator

structure Codec (α : Type) where
  decode : Decoder α
  encode : α → Json

namespace Codec

variable {α : Type}

def string : Codec String where
  decode _ d := match d with
    | .string (some s) => .ok s
    | d => .error (d.unwanted "a string")
  encode := .string

def bool : Codec Bool where
  decode _ d := match d with
    | .bool b => .ok b
    | d => .error (d.unwanted "a boolean")
  encode := .bool

def int32 : Codec Int32 where
  decode _ d := match d with
    | .number (some (.int n)) =>
      if -2147483648 ≤ n ∧ n ≤ 2147483647 then .ok (Int32.ofInt n)
      else .error (.data (.wrongValue (.int n) "i32"))
    | d => .error (d.unwanted "i32")
  encode n := Json.int n.toInt

def int64 : Codec Int64 where
  decode _ d := match d with
    | .number (some (.int n)) =>
      if -9223372036854775808 ≤ n ∧ n ≤ 9223372036854775807 then .ok (Int64.ofInt n)
      else .error (.data (.wrongValue (.int n) "i64"))
    | d => .error (d.unwanted "i64")
  encode n := Json.int n.toInt

def uint16 : Codec UInt16 where
  decode _ d := match d with
    | .number (some (.int n)) =>
      if 0 ≤ n ∧ n ≤ 65535 then .ok (UInt16.ofNat n.toNat)
      else .error (.data (.wrongValue (.int n) "u16"))
    | d => .error (d.unwanted "u16")
  encode n := Json.int n.toNat

def json : Codec Json where
  decode _ d := d.toJson.mapError .fault
  encode := id

def decodeItems (decode : Decoder α) (src : Source) : List Draft → Except DecodeError (List α)
  | [] => .ok []
  | d :: r => do
    let a ← decode src d
    let as ← decodeItems decode src r
    return a :: as

def list (c : Codec α) : Codec (List α) where
  decode src d := match d with
    | .array items stop => do
      let as ← decodeItems c.decode src items
      Draft.stopped stop
      return as
    | d => .error (d.unwanted "a sequence")
  encode as := .array (as.map c.encode)

def decodeEntries (decode : Decoder α) (src : Source) :
    List (Draft × Draft) → Except DecodeError (List (String × α))
  | [] => .ok []
  | (k, d) :: r => do
    let k ← k.key
    let a ← decode src d
    let as ← decodeEntries decode src r
    return (k, a) :: as

/-- The last of repeated keys counts. -/
def map (c : Codec α) : Codec (StringMap α) where
  decode src d := match d with
    | .object members stop _ => do
      let entries ← decodeEntries c.decode src members
      Draft.stopped stop
      return StringMap.ofList entries
    | d => .error (d.unwanted "a map")
  encode m := .object (m.map c.encode).entries

def option (c : Codec α) : Codec (Option α) where
  decode src d := match d with
    | .null => .ok none
    | d => (c.decode src d).map some
  encode a := match a with
    | none => .null
    | some a => c.encode a

/-- A value with one of several names; of the names of one value the first is written. -/
structure Variant (α : Type) where
  value : α
  name : String
  aliases : List String

def Variant.named? (known : List (Variant α)) (s : String) : Except DecodeError α :=
  match known.find? fun v => v.name = s || v.aliases.contains s with
  | some v => .ok v.value
  | none => .error (.data (.unknownVariant s (known.flatMap fun v => v.name :: v.aliases)))

def unit (d : Draft) : Except DecodeError Unit :=
  match d with
  | .null => .ok ()
  | d => .error (d.unwanted "unit")

/-- In a text the variant is a string or the key of a single null. -/
def readVariant (known : List (Variant α)) : Draft → Except DecodeError α
  | .string (some s) => Variant.named? known s
  | .object ((k, d) :: more) stop _ => do
    let a ← match k with
      | .string (some s) => Variant.named? known s
      | k => .error (k.unwanted "variant identifier")
    unit d
    if more.isEmpty then do
      Draft.stopped stop
      return a
    else .error (.fault .malformed)
  | .object [] _ (some stray) => .error (stray.unwanted "variant identifier")
  | .object [] (some f) none => .error (.fault f)
  | .fault _ _ named => .error (.fault named)
  | _ => .error (.fault .malformed)

def takeVariant (known : List (Variant α)) : Draft → Except DecodeError α
  | .string (some s) => Variant.named? known s
  | .object [(k, d)] _ _ => do
    let a ← Variant.named? known (← k.key)
    unit d
    return a
  | .object _ _ _ => .error (.data (.wrongValue .map "map with a single key"))
  | d => .error (d.unwanted "string or map")

def variants (known : List (Variant α)) (name : α → String) : Codec α where
  decode src d := match src with
    | .text => readVariant known d
    | .value => takeVariant known d
  encode a := .string (name a)

end Codec

end DistributionOperator
