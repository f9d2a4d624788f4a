import DistributionOperator.Yaml.Scalar

/-! The tokens of YAML texts. Indentation opens and closes blocks, and a scalar that turns out to be
a key gets its mark in front of it after the fact. -/

namespace DistributionOperator.Yaml

inductive Style where
  | plain
  | literal
  | other
deriving DecidableEq

inductive Token where
  | version
  | handle (name tagStart : String)
  | documentStart
  | documentEnd
  | blockSequenceStart
  | blockMappingStart
  | blockEnd
  | flowSequenceStart
  | flowSequenceEnd
  | flowMappingStart
  | flowMappingEnd
  | blockEntry
  | flowEntry
  | key
  | value
  | alias (name : String)
  | anchor (name : String)
  | tag (handle rest : String)
  | scalar (style : Style) (text : String)
deriving DecidableEq

/-- A node that may still become a key: where it began, before which token, and whether it has to
become one because it begins a line of its block. -/
structure PendingKey where
  needed : Bool
  number : Nat
  place : Place

/-- The place in the text, the tokens so far with the newest first, the open blocks, and a pending
key for each open level of flow style. -/
structure Scan where
  place : Place
  tokens : List Token
  indent : Int
  outer : List Int
  keyAllowed : Bool
  pending : Option PendingKey
  flow : List (Option PendingKey)

namespace Scan

def start (s : List Char) : Scan := ⟨⟨s, 0, 0, 0⟩, [], -1, [], true, none, []⟩

def inFlow (s : Scan) : Bool := !s.flow.isEmpty

def emit (s : Scan) (t : Token) : Scan := { s with tokens := t :: s.tokens }

def insert (s : Scan) (number : Nat) (t : Token) : Scan :=
  let later := s.tokens.length - number
  { s with tokens := s.tokens.take later ++ t :: s.tokens.drop later }

def openBlock (s : Scan) (column : Nat) (number : Nat) (t : Token) : Scan :=
  if s.inFlow || (column : Int) ≤ s.indent then s
  else { s.insert number t with indent := column, outer := s.indent :: s.outer }

def closeBlocks (column : Int) : List Int → Scan → Scan
  | [], s => s
  | i :: r, s =>
    if s.inFlow || s.indent ≤ column then s
    else closeBlocks column r { s.emit .blockEnd with indent := i, outer := r }

def dropKey (s : Scan) : Option Scan :=
  match s.pending with
  | some k => if k.needed then none else some { s with pending := none }
  | none => some s

/-- What begins here may be a key. -/
def saveKey (s : Scan) : Option Scan :=
  if s.keyAllowed then do
    let needed := !s.inFlow && s.indent = s.place.column
    let s ← s.dropKey
    return { s with pending := some ⟨needed, s.tokens.length, s.place⟩ }
  else some s

/-- A key stands on one line and is not too long. -/
def expired (p : Place) (k : PendingKey) : Bool :=
  k.place.line < p.line || k.place.index + 1024 < p.index

def expireKey (p : Place) : Option PendingKey → Option (Option PendingKey)
  | none => some none
  | some k => if expired p k then (if k.needed then none else some none) else some (some k)

def expireKeys (s : Scan) : Option Scan := do
  let pending ← expireKey s.place s.pending
  let flow ← s.flow.mapM (expireKey s.place)
  return { s with pending := pending, flow := flow }

/-- Passes over blanks, comments and breaks. A tab may not indent what could be a key. -/
def toToken : Nat → Scan → Scan
  | 0, s => s
  | fuel + 1, s =>
    match s.place.first? with
    | none => s
    | some c =>
      if c = '\ufeff' && s.place.column = 0 || c = ' ' ||
          (c = '\t' && (s.inFlow || !s.keyAllowed)) then
        toToken fuel { s with place := s.place.next }
      else if c = '#' then toToken fuel { s with place := s.place.toLineEnd }
      else if isBreak c then
        toToken fuel { s with place := s.place.next, keyAllowed := s.keyAllowed || !s.inFlow }
      else s

def isNameChar (c : Char) : Bool := c.isAlphanum || c = '_' || c = '-'

/-- An anchor or alias: a name, and then white space or a mark. -/
def name? (p : Place) : Option (String × Place) :=
  let q := p.next.skipWhile isNameChar p.rest.length
  let name := p.next.rest.take (p.next.rest.length - q.rest.length)
  let ends := Place.isWhite q.first? ||
    q.first?.any fun c => ['?', ':', ',', ']', Json.closing, '%', '@', '\x60'].contains c
  if name.isEmpty || !ends then none else some (String.ofList name, q)

def tagSigns : List Char :=
  [';', '/', '?', ':', '@', '&', '=', '+', '$', '.', '!', '~', '*', '\x27', '(', ')']

/-- The characters of the address that a tag stands for; some only where a tag is spelt out. -/
def isTagChar (full : Bool) (c : Char) : Bool :=
  isNameChar c || tagSigns.contains c || (full && [',', '[', ']'].contains c)

/-- A part of a tag. A percent sign goes with two digits of a code. -/
def tagPart (full : Bool) : Nat → Place → Option (List Char × Place)
  | 0, _ => none
  | fuel + 1, p =>
    match p.rest with
    | '%' :: a :: b :: _ => do
      let n ← hexNumber? [a, b]
      let (cs, q) ← tagPart full fuel (p.skip 3)
      return (Char.ofNat n :: cs, q)
    | '%' :: _ => none
    | c :: _ =>
      if isTagChar full c then (tagPart full fuel p.next).map fun g => (c :: g.1, g.2)
      else some ([], p)
    | [] => some ([], p)

/-- A handle: a word after an exclamation mark, and a second mark if there is one. -/
def tagHandle (p : Place) : List Char × Place :=
  let q := p.next.skipWhile isNameChar p.rest.length
  let q := if q.first? = some '!' then q.next else q
  (p.rest.take (p.rest.length - q.rest.length), q)

/-- A tag: spelt out, with a handle of its own, or with the plain handle. -/
def tag? (p : Place) : Option (Token × Place) := do
  let fuel := p.rest.length.succ
  if p.second? = some '<' then
    let (rest, q) ← tagPart true fuel (p.skip 2)
    if rest.isEmpty || q.first? ≠ some '>' then none
    else return (.tag "" (String.ofList rest), q.next)
  else
    let (handle, q) := tagHandle p
    if 2 ≤ handle.length && handle.getLast? = some '!' then
      let (rest, q) ← tagPart false fuel q
      if rest.isEmpty then none else return (.tag (String.ofList handle) (String.ofList rest), q)
    else
      let (rest, q) ← tagPart false fuel q
      let rest := handle.drop 1 ++ rest
      return (if rest.isEmpty then .tag "" "!" else .tag "!" (String.ofList rest), q)

def skipBlanks (p : Place) : Place := p.skipWhile isSpace p.rest.length

/-- Versions 1.1 and 1.2 are understood. -/
def versionDirective? (p : Place) : Option (Token × Place) :=
  match p.rest with
  | '1' :: '.' :: '1' :: _ | '1' :: '.' :: '2' :: _ => some (.version, p.skip 3)
  | _ => none

def handleDirective? (p : Place) : Option (Token × Place) := do
  let (handle, q) := tagHandle p
  let (tagStart, r) ← tagPart true p.rest.length.succ (skipBlanks q)
  if p.first? ≠ some '!' || (handle.length ≠ 1 && handle.getLast? ≠ some '!') || !q.atSpace ||
      tagStart.isEmpty then none
  else return (.handle (String.ofList handle) (String.ofList tagStart), r)

/-- A directive with the rest of its line, on which only a comment may follow. -/
def directive? (p : Place) : Option (Token × Place) := do
  let (name, q) := (p.next.rest.takeWhile isNameChar, p.next.skipWhile isNameChar p.rest.length)
  let r := skipBlanks q
  let (t, r) ←
    if name = ['Y', 'A', 'M', 'L'] && q.atSpace then versionDirective? r
    else if name = ['T', 'A', 'G'] && q.atSpace then handleDirective? r
    else none
  let e := skipBlanks r
  if r.atWhite && (e.atWhite || e.first? = some '#') then return (t, e.toLineEnd) else none

def atIndicator (s : Scan) (c : Char) : Bool :=
  s.place.first? = some c && (s.inFlow || Place.isWhite s.place.second?)

def plainForbidden : List Char :=
  ['-', '?', ':', ',', '[', ']', Json.opening, Json.closing, '#', '&', '*', '!', '|', '>', '\x27',
    '"', '%', '@', '\x60']

def startsPlain (s : Scan) : Bool :=
  match s.place.first? with
  | none => false
  | some c =>
    !(s.place.atWhite || plainForbidden.contains c) ||
      (c = '-' && !(s.place.second?.any isSpace)) ||
      (!s.inFlow && (c = '?' || c = ':') && !Place.isWhite s.place.second?)

def endBlocks (s : Scan) : Option Scan := do
  let s := closeBlocks (-1) s.outer s
  let s ← s.dropKey
  return { s with keyAllowed := false }

def marker (s : Scan) (t : Token) : Option Scan := do
  let s ← s.endBlocks
  return { s.emit t with place := s.place.skip 3 }

def directiveToken (s : Scan) : Option Scan := do
  let s ← s.endBlocks
  let (t, p) ← directive? s.place
  return { s.emit t with place := p }

def openFlow (s : Scan) (t : Token) : Option Scan := do
  let s ← s.saveKey
  return { s.emit t with
    place := s.place.next, flow := s.pending :: s.flow, pending := none, keyAllowed := true }

def closeFlow (s : Scan) (t : Token) : Option Scan := do
  let s ← s.dropKey
  let s := match s.flow with
    | [] => s
    | k :: r => { s with flow := r, pending := k }
  return { s.emit t with place := s.place.next, keyAllowed := false }

def blockMark (s : Scan) (start mark : Token) (keyAllowed : Bool) : Option Scan :=
  if !s.inFlow && !s.keyAllowed then none
  else do
    let s := s.openBlock s.place.column s.tokens.length start
    let s ← s.dropKey
    return { s.emit mark with place := s.place.next, keyAllowed := keyAllowed }

def valueMark (s : Scan) : Option Scan :=
  match s.pending with
  | some k =>
    let s := s.insert k.number .key
    let s := s.openBlock k.place.column k.number .blockMappingStart
    some { s.emit .value with place := s.place.next, pending := none, keyAllowed := false }
  | none =>
    if !s.inFlow && !s.keyAllowed then none
    else
      let s := s.openBlock s.place.column s.tokens.length .blockMappingStart
      some { s.emit .value with place := s.place.next, keyAllowed := !s.inFlow }

def scalarToken (s : Scan) (style : Style) (text : List Char) (p : Place) : Scan :=
  { s.emit (.scalar style (String.ofList text)) with place := p, keyAllowed := false }

def quotedToken (s : Scan) (double : Bool) : Option Scan := do
  let s ← s.saveKey
  let (text, p) ← quotedScalar double s.place.rest.length.succ s.place.next []
  return s.scalarToken .other text p

def blockToken (s : Scan) (literal : Bool) : Option Scan := do
  let s ← s.dropKey
  let (text, p) ← blockScalar literal s.indent s.place.next
  return { s.scalarToken (if literal then .literal else .other) text p with keyAllowed := true }

def plainToken (s : Scan) : Option Scan := do
  let s ← s.saveKey
  let (text, broken, p) ←
    plainScalar s.inFlow (s.indent + 1).toNat s.place.rest.length.succ s.place Gap.none []
  return { s.scalarToken .plain text p with keyAllowed := broken }

def named (s : Scan) (token : String → Token) : Option Scan := do
  let s ← s.saveKey
  let (name, p) ← name? s.place
  return { s.emit (token name) with place := p, keyAllowed := false }

def tagToken (s : Scan) : Option Scan := do
  let s ← s.saveKey
  let (t, p) ← tag? s.place
  if p.atWhite || (s.inFlow && p.first? = some ',') then
    return { s.emit t with place := p, keyAllowed := false }
  else none

def token (s : Scan) (c : Char) : Option Scan :=
  if s.place.column = 0 && c = '%' then s.directiveToken
  else if s.place.atMarker '-' then s.marker .documentStart
  else if s.place.atMarker '.' then s.marker .documentEnd
  else if c = '[' then s.openFlow .flowSequenceStart
  else if c = Json.opening then s.openFlow .flowMappingStart
  else if c = ']' then s.closeFlow .flowSequenceEnd
  else if c = Json.closing then s.closeFlow .flowMappingEnd
  else if c = ',' then do
    let s ← s.dropKey
    return { s.emit .flowEntry with place := s.place.next, keyAllowed := true }
  else if c = '-' && Place.isWhite s.place.second? then
    s.blockMark .blockSequenceStart .blockEntry true
  else if s.atIndicator '?' then s.blockMark .blockMappingStart .key (!s.inFlow)
  else if s.atIndicator ':' then s.valueMark
  else if c = '*' then s.named .alias
  else if c = '&' then s.named .anchor
  else if c = '!' then s.tagToken
  else if c = '|' && !s.inFlow then s.blockToken true
  else if c = '>' && !s.inFlow then s.blockToken false
  else if c = apostrophe then s.quotedToken false
  else if c = '"' then s.quotedToken true
  else if s.startsPlain then s.plainToken
  else none

def run : Nat → Scan → Option (List Token)
  | 0, _ => none
  | fuel + 1, s => do
    let s := toToken s.place.rest.length.succ s
    let s ← s.expireKeys
    let s := closeBlocks s.place.column s.outer s
    match s.place.first? with
    | none => do
      let s := closeBlocks (-1) s.outer s
      let s ← s.dropKey
      return s.tokens.reverse
    | some c => do
      let s ← s.token c
      run fuel s

end Scan

/-- The characters that a text may hold: no control characters but breaks and tabs. -/
def isAllowed (c : Char) : Bool :=
  let n := c.toNat
  n = 0x9 || n = 0xA || n = 0xD || (0x20 ≤ n && n ≤ 0x7E) || n = 0x85 || (0xA0 ≤ n && n ≤ 0xFFFD) ||
    0x10000 ≤ n

def Token.ofText? (s : String) : Option (List Token) :=
  let cs := s.toList
  if cs.all isAllowed then Scan.run cs.length.succ (Scan.start cs) else none

end DistributionOperator.Yaml
