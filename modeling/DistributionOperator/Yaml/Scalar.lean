import DistributionOperator.Json.Draft

/-! The scalars of YAML texts: plain, between quotes, and in blocks. Lines are folded as each style
folds them. -/

namespace DistributionOperator.Yaml

def isBreak (c : Char) : Bool :=
  c = '\n' || c = '\r' || c = '\u0085' || c = '\u2028' || c = '\u2029'

def isSpace (c : Char) : Bool := c = ' ' || c = '\t'

def apostrophe : Char := '\x27'

/-- A place in a text, and how far along its line it is. -/
structure Place where
  rest : List Char
  column : Nat
  line : Nat
  index : Nat

namespace Place

def first? (p : Place) : Option Char := p.rest.head?

def second? (p : Place) : Option Char := (p.rest.drop 1).head?

/-- The place after one character; a carriage return and a line feed are one break. -/
def next (p : Place) : Place :=
  match p.rest with
  | [] => p
  | '\r' :: '\n' :: r => ⟨r, 0, p.line + 1, p.index + 2⟩
  | c :: r =>
    if isBreak c then ⟨r, 0, p.line + 1, p.index + 1⟩ else ⟨r, p.column + 1, p.line, p.index + 1⟩

def skip : Nat → Place → Place
  | 0, p => p
  | n + 1, p => skip n p.next

/-- What a line break stands for: the usual ones are all the same. -/
def breakChar (p : Place) : Char :=
  match p.first? with
  | some c => if c = '\u2028' || c = '\u2029' then c else '\n'
  | none => '\n'

def atBreak (p : Place) : Bool := p.first?.any isBreak

def atSpace (p : Place) : Bool := p.first?.any isSpace

def atEnd (p : Place) : Bool := p.rest.isEmpty

def atWhite (p : Place) : Bool := p.atEnd || p.atBreak || p.atSpace

def isWhite (c : Option Char) : Bool := c.all fun c => isBreak c || isSpace c

/-- Three equal signs that stand alone at the start of a line. -/
def atMarker (sign : Char) (p : Place) : Bool :=
  p.column = 0 && p.rest.take 3 = [sign, sign, sign] && isWhite (p.rest.drop 3).head?

def atDocumentMarker (p : Place) : Bool := p.atMarker '-' || p.atMarker '.'

def skipWhile (test : Char → Bool) : Nat → Place → Place
  | 0, p => p
  | fuel + 1, p => if p.first?.any test then skipWhile test fuel p.next else p

def toLineEnd (p : Place) : Place := p.skipWhile (fun c => !isBreak c) p.rest.length

end Place

/-- White space between the words of a scalar: blanks of the first line, and breaks if there are
any, the first of them apart. -/
structure Gap where
  blanks : List Char
  leading : Option Char
  trailing : List Char

def Gap.none : Gap := ⟨[], .none, []⟩

def Gap.hasBreak (g : Gap) : Bool := g.leading.isSome

/-- One break is folded to a blank, and of several the first is dropped. -/
def Gap.folded (g : Gap) : List Char :=
  match g.leading with
  | .none => g.blanks
  | some '\n' => if g.trailing.isEmpty then [' '] else g.trailing
  | some c => c :: g.trailing

/-- The gap that begins here. In a plain scalar a tab must not stand before the indentation. -/
def readGap (plainIndent : Option Nat) : Nat → Place → Gap → Option (Gap × Place)
  | 0, _, _ => none
  | fuel + 1, p, g =>
    match p.first? with
    | .none => some (g, p)
    | some c =>
      if isSpace c then
        if g.hasBreak && c = '\t' && plainIndent.any (p.column < ·) then none
        else readGap plainIndent fuel p.next
          (if g.hasBreak then g else { g with blanks := g.blanks ++ [c] })
      else if isBreak c then
        readGap plainIndent fuel p.next
          (if g.hasBreak then { g with trailing := g.trailing ++ [p.breakChar] }
            else { g with blanks := [], leading := some p.breakChar })
      else some (g, p)

def isFlowMark (c : Char) : Bool :=
  c = ',' || c = '[' || c = ']' || c = Json.opening || c = Json.closing

/-- The characters of a plain word, up to white space or a mark that ends the scalar. -/
def plainWord (inFlow : Bool) : Nat → Place → Option (List Char × Place)
  | 0, _ => none
  | fuel + 1, p =>
    match p.first? with
    | .none => some ([], p)
    | some c =>
      if p.atWhite then some ([], p)
      else if inFlow && c = ':' && p.second?.any isFlowMark then none
      else if (c = ':' && Place.isWhite p.second?) || (inFlow && isFlowMark c) then some ([], p)
      else (plainWord inFlow fuel p.next).map fun w => (c :: w.1, w.2)

/-- A plain scalar from a gap on: its text, whether a break comes last, and the place after it. -/
def plainScalar (inFlow : Bool) (indent : Nat) : Nat → Place → Gap → List Char →
    Option (List Char × Bool × Place)
  | 0, _, _, _ => none
  | fuel + 1, p, gap, text => do
    if p.atDocumentMarker || p.first? = some '#' then return (text, gap.hasBreak, p)
    let (word, q) ← plainWord inFlow p.rest.length.succ p
    let text' := if word.isEmpty then text else text ++ gap.folded ++ word
    let gap' := if word.isEmpty then gap else Gap.none
    if q.atSpace || q.atBreak then do
      let (gap', q) ← readGap (some indent) q.rest.length.succ q gap'
      if !inFlow && q.column < indent then return (text', gap'.hasBreak, q)
      else plainScalar inFlow indent fuel q gap' text'
    else return (text', gap'.hasBreak, q)

def hexNumber? (s : List Char) : Option Nat :=
  s.foldlM (fun n c => (Draft.hexValue? c).map (n * 16 + ·)) 0

def codeEscape? (digits : Nat) (p : Place) : Option (Char × Place) := do
  let ds := p.rest.take digits
  let n ← hexNumber? ds
  if ds.length = digits && n.isValidChar then return (Char.ofNat n, p.skip digits) else .none

/-- The character of an escape, from the one after the backslash on. -/
def escape? (p : Place) : Option (Char × Place) := do
  let simple := fun (c : Char) => some (c, p.next)
  match ← p.first? with
  | '0' => simple '\x00'
  | 'a' => simple '\x07'
  | 'b' => simple '\x08'
  | 't' | '\t' => simple '\t'
  | 'n' => simple '\n'
  | 'v' => simple '\x0b'
  | 'f' => simple '\x0c'
  | 'r' => simple '\r'
  | 'e' => simple '\x1b'
  | ' ' => simple ' '
  | '"' => simple '"'
  | '/' => simple '/'
  | '\\' => simple '\\'
  | 'N' => simple '\u0085'
  | '_' => simple '\u00a0'
  | 'L' => simple '\u2028'
  | 'P' => simple '\u2029'
  | 'x' => codeEscape? 2 p.next
  | 'u' => codeEscape? 4 p.next
  | 'U' => codeEscape? 8 p.next
  | _ => .none

/-- The text between quotes, from after the first on, and the place after the last. A doubled single
quote stands for one; in double quotes a backslash escapes, and before a break joins the lines. -/
def quotedScalar (double : Bool) : Nat → Place → List Char → Option (List Char × Place)
  | 0, _, _ => none
  | fuel + 1, p, text =>
    if p.atDocumentMarker then none
    else
      match p.first? with
      | .none => none
      | some c =>
        if p.atWhite then do
          let (gap, q) ← readGap .none p.rest.length.succ p Gap.none
          quotedScalar double fuel q (text ++ gap.folded)
        else if !double && c = apostrophe then
          if p.second? = some apostrophe then
            quotedScalar double fuel (p.skip 2) (text ++ [apostrophe])
          else some (text, p.next)
        else if double && c = '"' then some (text, p.next)
        else if double && c = '\\' then
          if p.second?.any isBreak then do
            let (gap, q) ← readGap .none p.rest.length.succ p.next.next ⟨[], some '\n', []⟩
            quotedScalar double fuel q (text ++ gap.trailing)
          else do
            let (c, q) ← escape? p.next
            quotedScalar double fuel q (text ++ [c])
        else quotedScalar double fuel p.next (text ++ [c])

/-- How a block scalar ends: without its last break, with it, or with all that follow. -/
inductive Chomp where
  | strip
  | clip
  | keep
deriving DecidableEq

/-- The signs after the mark of a block scalar, in either order. -/
def blockHeader (p : Place) : Option (Chomp × Option Nat × Place) :=
  let chomp? := fun (p : Place) => match p.first? with
    | some '+' => some Chomp.keep
    | some '-' => some Chomp.strip
    | _ => .none
  let digit? := fun (p : Place) => (p.first?.filter Char.isDigit).map fun c => c.toNat - 48
  match chomp? p, digit? p with
  | some ch, _ =>
    match digit? p.next with
    | some 0 => none
    | some n => some (ch, some n, p.next.next)
    | .none => some (ch, .none, p.next)
  | .none, some 0 => none
  | .none, some n =>
    match chomp? p.next with
    | some ch => some (ch, some n, p.next.next)
    | .none => some (.clip, some n, p.next)
  | .none, .none => some (.clip, .none, p)

/-- The empty lines before a line of a block: their breaks, the deepest column, and the place. -/
def blockBreaks (indent : Option Nat) : Nat → Place → List Char → Nat →
    Option (List Char × Nat × Place)
  | 0, _, _, _ => none
  | fuel + 1, p, breaks, deepest =>
    let q := match indent with
      | .none => p.skipWhile (· = ' ') p.rest.length
      | some n => p.skipWhile (· = ' ') (n - p.column)
    let deepest := max deepest q.column
    if indent.all (q.column < ·) && q.first? = some '\t' then none
    else if q.atBreak then blockBreaks indent fuel q.next (breaks ++ [q.breakChar]) deepest
    else some (breaks, deepest, q)

def blockLines (literal : Bool) (indent : Nat) : Nat → Place → (leading : Option Char) →
    (leadingBlank : Bool) → (trailing : List Char) → List Char →
    Option (List Char × Option Char × List Char × Place)
  | 0, _, _, _, _, _ => none
  | fuel + 1, p, leading, leadingBlank, trailing, text =>
    if p.column ≠ indent || p.atEnd then some (text, leading, trailing, p)
    else do
      let blank := p.atSpace
      let joint := match leading with
        | .none => []
        | some c =>
          if !literal && c = '\n' && !leadingBlank && !blank then
            if trailing.isEmpty then [' '] else []
          else [c]
      let q := p.toLineEnd
      let line := p.rest.take (p.rest.length - q.rest.length)
      let leading' := if q.atBreak then some q.breakChar else .none
      let (breaks, _, r) ← blockBreaks (some indent) q.rest.length.succ q.next [] 0
      blockLines literal indent fuel r leading' blank breaks (text ++ joint ++ trailing ++ line)

def blockScalar (literal : Bool) (outer : Int) (p : Place) : Option (List Char × Place) := do
  let (chomp, depth, p) ← blockHeader p
  let p := p.skipWhile isSpace p.rest.length
  let p := if p.first? = some '#' then p.toLineEnd else p
  if !(p.atEnd || p.atBreak) then .none
  else do
    let p := p.next
    let given := depth.map fun n => if 0 ≤ outer then outer.toNat + n else n
    let (breaks, deepest, p) ← blockBreaks given p.rest.length.succ p [] 0
    let indent := given.getD (max (max deepest (outer + 1).toNat) 1)
    let (text, leading, trailing, p) ←
      blockLines literal indent p.rest.length.succ p .none false breaks []
    let last := leading.toList
    return (match chomp with
      | .strip => text
      | .clip => text ++ last
      | .keep => text ++ last ++ trailing, p)

end DistributionOperator.Yaml
