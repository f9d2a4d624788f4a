import DistributionOperator.Json.Codec

/-! Records as JSON objects, given by their fields. A reading starts from the blank record and sets
the fields in the order of the members; members that are no field are passed over. -/

namespace DistributionOperator

/-- A field of a record: how its value is got and set, read and written. A value that is not
written is the one of the blank record. -/
structure Field (α : Type) where
  name : String
  aliases : List String
  required : Bool
  Value : Type
  get : α → Value
  set : α → Value → α
  decode : Decoder Value
  encode : Value → Option Json

namespace Field

variable {α β : Type}

def accepts (f : Field α) (key : String) : Bool := f.name = key || f.aliases.contains key

def read (f : Field α) (src : Source) (d : Draft) (a : α) : Except DecodeError α :=
  (f.decode src d).map (f.set a)

def needed (name : String) (c : Codec β) (get : α → β) (set : α → β → α) : Field α :=
  ⟨name, [], true, β, get, set, c.decode, fun b => some (c.encode b)⟩

/-- May be missing, and is always written. -/
def defaulted (name : String) (c : Codec β) (get : α → β) (set : α → β → α) : Field α :=
  ⟨name, [], false, β, get, set, c.decode, fun b => some (c.encode b)⟩

/-- May be missing, and is not written where a test holds. -/
def skippedIf (name : String) (c : Codec β) (skipped : β → Bool) (get : α → β) (set : α → β → α) :
    Field α :=
  ⟨name, [], false, β, get, set, c.decode, fun b => if skipped b then none else some (c.encode b)⟩

/-- May be null or missing, and is not written then. -/
def optional (name : String) (c : Codec β) (get : α → Option β) (set : α → Option β → α) :
    Field α :=
  ⟨name, [], false, Option β, get, set, c.option.decode, Option.map c.encode⟩

/-- May be null or missing, and is written as null then. -/
def nullable (name : String) (c : Codec β) (get : α → Option β) (set : α → Option β → α) :
    Field α :=
  ⟨name, [], false, Option β, get, set, c.option.decode, fun b => some (c.option.encode b)⟩

/-- A null leaves the value that the record starts with. -/
def lenient (name : String) (c : Codec β) (initial : β) (get : α → β) (set : α → β → α) : Field α :=
  ⟨name, [], false, β, get, set, fun src d => (c.option.decode src d).map fun b => b.getD initial,
    fun b => some (c.encode b)⟩

def withAlias (f : Field α) (other : String) : Field α := { f with aliases := other :: f.aliases }

end Field

/-- Strict records refuse repeated fields and may be written as arrays; the others are objects only,
and a repeated field replaces the one before. -/
structure Record (α : Type) where
  name : String
  strict : Bool
  blank : α
  fields : List (Field α)

namespace Record

variable {α : Type}

def wanted (r : Record α) : String := if r.strict then "struct " ++ r.name else r.name

def readMembers (r : Record α) (src : Source) :
    List (Draft × Draft) → List String → α → Except DecodeError (α × List String)
  | [], seen, a => .ok (a, seen)
  | (k, d) :: rest, seen, a => do
    let key ← k.key
    match r.fields.find? (·.accepts key) with
    | none => do
      d.skip
      readMembers r src rest seen a
    | some f =>
      if r.strict && seen.contains f.name then .error (.data (.duplicateField f.name))
      else do
        let a ← f.read src d a
        readMembers r src rest (f.name :: seen) a

def missing? (r : Record α) (seen : List String) : Option String :=
  (r.fields.find? fun f => f.required && !seen.contains f.name).map (·.name)

def lengthWanted (r : Record α) : String :=
  let n := r.fields.length
  r.wanted ++ s!" with {n} element" ++ (if n = 1 then "" else "s")

/-- Fields from an array, in the order of declaration: the record and what is left. -/
def readItems (r : Record α) (src : Source) (stop : Option Fault) :
    List (Field α) → Nat → List Draft → α → Except DecodeError (α × List Draft)
  | [], _, items, a => .ok (a, items)
  | f :: fields, i, d :: items, a => do
    let a ← f.read src d a
    readItems r src stop fields (i + 1) items a
  | f :: fields, i, [], a => do
    Draft.stopped stop
    if f.required then .error (.data (.wrongLength i r.lengthWanted))
    else readItems r src stop fields (i + 1) [] a

def decode (r : Record α) : Decoder α := fun src d =>
  match d with
  | .object members stop _ => do
    let (a, seen) ← r.readMembers src members [] r.blank
    Draft.stopped stop
    match r.missing? seen with
    | some name => .error (.data (.missingField name))
    | none => .ok a
  | .array items stop =>
    if r.strict then do
      let (a, left) ← r.readItems src stop r.fields 0 items r.blank
      if left.isEmpty then do
        Draft.stopped stop
        return a
      else match src with
        | .text => .error (.fault .malformed)
        | .value => .error (.data (.wrongLength items.length "fewer elements in array"))
    else .error (d.unwanted r.wanted)
  | d => .error (d.unwanted r.wanted)

def encode (r : Record α) (a : α) : Json :=
  Json.ofPresent (r.fields.map fun f => (f.name, f.encode (f.get a)))

def codec (r : Record α) : Codec α := ⟨r.decode, r.encode⟩

end Record

end DistributionOperator
