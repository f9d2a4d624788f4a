import DistributionOperator.Json.Codec
import DistributionOperator.Text.Blank

/-! Moments of universal time, kept as calendar date and time of day down to the nanosecond. The
written form is that of RFC 3339; the reader is laxer about signs, widths and blanks. -/

namespace DistributionOperator

def isLeapYear (year : Int) : Bool := year % 4 = 0 && (year % 100 ≠ 0 || year % 400 = 0)

def daysInMonth (year : Int) (month : Nat) : Nat :=
  if month = 2 then if isLeapYear year then 29 else 28
  else if month = 4 || month = 6 || month = 9 || month = 11 then 30
  else 31

structure Date where
  year : Int
  month : Nat
  day : Nat
  month_valid : 1 ≤ month ∧ month ≤ 12
  day_valid : 1 ≤ day ∧ day ≤ daysInMonth year month
deriving DecidableEq

namespace Date

def make? (year : Int) (month day : Nat) : Option Date :=
  if hm : 1 ≤ month ∧ month ≤ 12 then
    if hd : 1 ≤ day ∧ day ≤ daysInMonth year month then some ⟨year, month, day, hm, hd⟩ else none
  else none

def next? (d : Date) : Option Date :=
  (make? d.year d.month (d.day + 1)).or
    (if d.month = 12 then make? (d.year + 1) 1 1 else make? d.year (d.month + 1) 1)

def previous? (d : Date) : Option Date :=
  if d.day = 1 then
    if d.month = 1 then make? (d.year - 1) 12 31
    else make? d.year (d.month - 1) (daysInMonth d.year (d.month - 1))
  else make? d.year d.month (d.day - 1)

def inRange (d : Date) : Bool := -262143 ≤ d.year && d.year ≤ 262142

end Date

/-- A second of 60 is a leap second. -/
structure Timestamp where
  date : Date
  hour : Nat
  minute : Nat
  second : Nat
  nanos : Nat
  time_valid : hour ≤ 23 ∧ minute ≤ 59 ∧ second ≤ 60 ∧ nanos ≤ 999999999
deriving DecidableEq

namespace Timestamp

def make? (date : Date) (hour minute second nanos : Nat) : Option Timestamp :=
  if h : hour ≤ 23 ∧ minute ≤ 59 ∧ second ≤ 60 ∧ nanos ≤ 999999999 then
    some ⟨date, hour, minute, second, nanos, h⟩
  else none

/-- A local time with its distance from universal time in minutes, less than a day. -/
def ofLocal? (t : Timestamp) (offset : Int) : Option Timestamp :=
  let m : Int := t.hour * 60 + t.minute - offset
  if m < 0 then do
    let m := (m + 1440).toNat
    make? (← t.date.previous?) (m / 60) (m % 60) t.second t.nanos
  else if m < 1440 then make? t.date (m.toNat / 60) (m.toNat % 60) t.second t.nanos
  else do
    let m := (m - 1440).toNat
    make? (← t.date.next?) (m / 60) (m % 60) t.second t.nanos

/-- Decimal digits, with zeros before them up to a width. -/
def padded (width n : Nat) : List Char :=
  let ds := Nat.toDigits 10 n
  List.replicate (width - ds.length) '0' ++ ds

/-- Years of four digits are plain, the others have a sign. -/
def writeYear (year : Int) : List Char :=
  if 0 ≤ year ∧ year ≤ 9999 then padded 4 year.toNat
  else (if year < 0 then '-' else '+') :: padded 4 year.natAbs

/-- As many digits as lose nothing, by threes. -/
def writeFraction (nanos : Nat) : List Char :=
  if nanos = 0 then []
  else if nanos % 1000000 = 0 then '.' :: padded 3 (nanos / 1000000)
  else if nanos % 1000 = 0 then '.' :: padded 6 (nanos / 1000)
  else '.' :: padded 9 nanos

def write (t : Timestamp) : List Char :=
  writeYear t.date.year ++ '-' :: padded 2 t.date.month ++ '-' :: padded 2 t.date.day ++
    'T' :: padded 2 t.hour ++ ':' :: padded 2 t.minute ++ ':' :: padded 2 t.second ++
    writeFraction t.nanos ++ ['Z']

def text (t : Timestamp) : String := String.ofList t.write

def isDigit (c : Char) : Bool := '0' ≤ c && c ≤ '9'

def value (ds : List Char) : Nat := ds.foldl (fun n c => n * 10 + (c.toNat - 48)) 0

/-- At least one digit and at most a number of them. -/
def number? (width : Nat) (s : List Char) : Option (Nat × List Char) :=
  let ds := (s.take width).takeWhile isDigit
  if ds.isEmpty then none else some (value ds, s.drop ds.length)

/-- A signed year may have any number of digits. -/
def year? (s : List Char) : Option (Int × List Char) :=
  match s with
  | '-' :: r => (number? r.length r).map fun n => (-(n.1 : Int), n.2)
  | '+' :: r => (number? r.length r).map fun n => ((n.1 : Int), n.2)
  | r => (number? 4 r).map fun n => ((n.1 : Int), n.2)

def mark? (c : Char) (s : List Char) : Option (List Char) :=
  match s with
  | d :: r => if d = c then some r else none
  | [] => none

/-- Blanks may stand before a number and before the mark after it. -/
def field? (s : List Char) : Option (Nat × List Char) := number? 2 (trimStart s)

def date? (s : List Char) : Option (Date × List Char) := do
  let (year, s) ← year? (trimStart s)
  let s ← mark? '-' (trimStart s)
  let (month, s) ← field? s
  let s ← mark? '-' (trimStart s)
  let (day, s) ← field? s
  return (← Date.make? year month day, s)

/-- Digits after the ninth are dropped. -/
def fraction? (s : List Char) : Option (Nat × List Char) :=
  match s with
  | '.' :: r =>
    let ds := r.takeWhile isDigit
    if ds.isEmpty then none
    else some (value (ds.take 9) * Nat.pow 10 (9 - ds.length), r.dropWhile isDigit)
  | r => some (0, r)

def isUtc (s : List Char) : Bool :=
  match s with
  | [a, b, c] => (a = 'U' || a = 'u') && (b = 'T' || b = 't') && (c = 'C' || c = 'c')
  | _ => false

/-- Two digits of hours and two of minutes, with colons and blanks between them. -/
def distance? (s : List Char) : Option (Nat × List Char) :=
  match s with
  | a :: b :: r =>
    match r.dropWhile (fun c => c = ':' || isBlank c) with
    | c :: d :: r =>
      if [a, b, c, d].all isDigit && value [a, b] ≤ 23 && value [c, d] ≤ 59 then
        some (value [a, b] * 60 + value [c, d], r)
      else none
    | _ => none
  | _ => none

def offset? (s : List Char) : Option (Int × List Char) :=
  if isUtc (s.take 3) then some (0, s.drop 3)
  else
    match s with
    | 'Z' :: r | 'z' :: r => some (0, r)
    | '+' :: r => (distance? r).map fun d => ((d.1 : Int), d.2)
    | '-' :: r | '\u2212' :: r => (distance? r).map fun d => (-(d.1 : Int), d.2)
    | _ => none

def separator? (s : List Char) : Option (List Char) :=
  match s with
  | 't' :: r | 'T' :: r | ' ' :: r => some r
  | _ => none

def read? (s : List Char) : Option Timestamp := do
  let (date, s) ← date? s
  let s ← separator? s
  let (hour, s) ← field? s
  let s ← mark? ':' (trimStart s)
  let (minute, s) ← field? s
  let s ← mark? ':' (trimStart s)
  let (second, s) ← field? s
  let (nanos, s) ← fraction? s
  let (offset, s) ← offset? (trimStart s)
  let t ← make? date hour minute second nanos
  let u ← ofLocal? t offset
  if (trimStart s).isEmpty && date.inRange && u.date.inRange then some u else none

def ofText? (s : String) : Option Timestamp := read? s.toList

def codec : Codec Timestamp where
  decode _ d := match d with
    | .string (some s) =>
      match ofText? s with
      | some t => .ok t
      | none => .error (.data .invalidTimestamp)
    | d => .error (d.unwanted "an RFC 3339 formatted date and time string")
  encode t := .string t.text

end Timestamp

end DistributionOperator
