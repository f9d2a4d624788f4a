/-! Addresses of sockets: an IP address of either version, and a port. -/

namespace DistributionOperator

structure Ipv4 where
  a : UInt8
  b : UInt8
  c : UInt8
  d : UInt8
deriving DecidableEq

structure Ipv6 where
  groups : List UInt16
  eight : groups.length = 8
deriving DecidableEq

def Ipv4.halves (ip : Ipv4) : List UInt16 :=
  [ip.a.toUInt16 * 256 + ip.b.toUInt16, ip.c.toUInt16 * 256 + ip.d.toUInt16]

def Ipv4.text (ip : Ipv4) : String :=
  ".".intercalate ([ip.a, ip.b, ip.c, ip.d].map fun o => toString o.toNat)

def Ipv6.make? (groups : List UInt16) : Option Ipv6 :=
  if h : groups.length = 8 then some ⟨groups, h⟩ else none

def Ipv6.hex (g : UInt16) : String := String.ofList (Nat.toDigits 16 g.toNat)

def Ipv6.colons (gs : List UInt16) : String := ":".intercalate (gs.map Ipv6.hex)

def Ipv6.zeros (gs : List UInt16) : Nat := (gs.takeWhile (· = 0)).length

/-- Where the first of the longest runs of zeros begins, and its length. -/
def Ipv6.longestRun : Nat → List UInt16 → Nat × Nat
  | _, [] => (0, 0)
  | i, g :: r =>
    let later := Ipv6.longestRun (i + 1) r
    let here := Ipv6.zeros (g :: r)
    if later.2 ≤ here then (i, here) else later

/-- Groups in hexadecimal; the first of the longest runs of zeros, if it has two groups at least,
gives way to two colons. -/
def Ipv6.text (ip : Ipv6) : String :=
  match ip.groups with
  | [0, 0, 0, 0, 0, 0xFFFF, g, h] =>
    let n := g.toNat * 65536 + h.toNat
    "::ffff:" ++ ".".intercalate
      ([n / 16777216, n / 65536 % 256, n / 256 % 256, n % 256].map toString)
  | gs =>
    let run := Ipv6.longestRun 0 gs
    if 1 < run.2 then Ipv6.colons (gs.take run.1) ++ "::" ++ Ipv6.colons (gs.drop (run.1 + run.2))
    else Ipv6.colons gs

inductive SocketAddress where
  | v4 (ip : Ipv4) (port : UInt16)
  | v6 (ip : Ipv6) (scope : UInt32) (port : UInt16)
deriving DecidableEq

namespace SocketAddress

abbrev Reader (α : Type) := List Char → Option (α × List Char)

def digit? (base : Nat) (c : Char) : Option Nat :=
  let v :=
    if '0' ≤ c && c ≤ '9' then some (c.toNat - 48)
    else if 'a' ≤ c && c ≤ 'z' then some (c.toNat - 87)
    else if 'A' ≤ c && c ≤ 'Z' then some (c.toNat - 55)
    else none
  v.filter (· < base)

def digits (base : Nat) (s : List Char) : List Char := s.takeWhile fun c => (digit? base c).isSome

def value (base : Nat) (s : List Char) : Nat :=
  s.foldl (fun n c => n * base + (digit? base c).getD 0) 0

/-- All digits that stand here, at least one, as a number below a limit. -/
def number? (base limit : Nat) : Reader Nat := fun s =>
  let ds := digits base s
  if ds.isEmpty || limit ≤ value base ds then none else some (value base ds, s.drop ds.length)

def mark? (c : Char) : Reader Unit
  | d :: r => if d = c then some ((), r) else none
  | [] => none

/-- An octet has no leading zero. -/
def octet? : Reader UInt8 := fun s =>
  let ds := digits 10 s
  if 3 < ds.length || (1 < ds.length && ds.head? = some '0') then none
  else (number? 10 256 s).map fun n => (UInt8.ofNat n.1, n.2)

def ipv4? : Reader Ipv4 := fun s => do
  let (a, s) ← octet? s
  let (_, s) ← mark? '.' s
  let (b, s) ← octet? s
  let (_, s) ← mark? '.' s
  let (c, s) ← octet? s
  let (_, s) ← mark? '.' s
  let (d, s) ← octet? s
  return (⟨a, b, c, d⟩, s)

/-- The text after the colon that stands before every group but the first. -/
def afterColon? (first : Bool) (s : List Char) : Option (List Char) :=
  if first then some s else (mark? ':' s).map (·.2)

def group? : Reader UInt16 := fun s =>
  if 4 < (digits 16 s).length then none
  else (number? 16 65536 s).map fun n => (UInt16.ofNat n.1, n.2)

/-- As many groups as stand here, up to a number of them. The last two may be written as an address
of version 4; the flag tells that they were, or that nothing more can be read. -/
def groups : Nat → Bool → List Char → List UInt16 × Bool × List Char
  | 0, _, s => ([], false, s)
  | left + 1, first, s =>
    match (if left = 0 then none else (afterColon? first s).bind ipv4?) with
    | some (ip, r) => (ip.halves, true, r)
    | none =>
      match (afterColon? first s).bind group? with
      | some (g, r) =>
        let more := groups left false r
        (g :: more.1, more.2)
      | none => ([], false, s)

/-- Two colons stand for the groups of zeros that are left out, one at least. -/
def ipv6? : Reader Ipv6 := fun s => do
  let (head, mapped, r) := groups 8 true s
  if head.length = 8 then return (← Ipv6.make? head, r)
  else if mapped then none
  else
    let (_, r) ← mark? ':' r
    let (_, r) ← mark? ':' r
    let (tail, _, r) := groups (7 - head.length) true r
    let zeros := List.replicate (8 - head.length - tail.length) 0
    return (← Ipv6.make? (head ++ zeros ++ tail), r)

def port? (s : List Char) : Option UInt16 := do
  let (_, s) ← mark? ':' s
  let (port, s) ← number? 10 65536 s
  if s.isEmpty then return UInt16.ofNat port else none

def scope? : Reader UInt32 := fun s =>
  match s with
  | '%' :: r => (number? 10 4294967296 r).map fun n => (UInt32.ofNat n.1, n.2)
  | r => some (0, r)

def ofText? (text : String) : Option SocketAddress :=
  let s := text.toList
  match ipv4? s with
  | some (ip, r) => (port? r).map (.v4 ip)
  | none => do
    let (_, s) ← mark? '[' s
    let (ip, s) ← ipv6? s
    let (scope, s) ← scope? s
    let (_, s) ← mark? ']' s
    return .v6 ip scope (← port? s)

def text : SocketAddress → String
  | .v4 ip port => ip.text ++ ":" ++ toString port.toNat
  | .v6 ip scope port =>
    "[" ++ ip.text ++ (if scope = 0 then "" else "%" ++ toString scope.toNat) ++ "]:" ++
      toString port.toNat

end SocketAddress

end DistributionOperator
