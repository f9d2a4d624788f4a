import DistributionOperator.Yaml.Token

/-! Documents of YAML as trees. A text holds one document at most; aliases give way to the nodes
that they name. -/

namespace DistributionOperator.Yaml

inductive Node where
  | scalar (style : Style) (tag : Option String) (text : String)
  | sequence (items : List Node)
  | mapping (entries : List (Node × Node))
deriving Inhabited

/-- What has been named: nodes, and the starts of tags by their handles. -/
structure Names where
  nodes : List (String × Node)
  handles : List (String × String)

abbrev Reader (α : Type) := Names → List Token → Option (α × Names × List Token)

namespace Node

def blank (tag : Option String) : Node := .scalar .plain tag ""

def named (name : Option String) (n : Node) (as : Names) : Names :=
  match name with
  | some a => { as with nodes := (a, n) :: as.nodes }
  | none => as

structure Properties where
  name : Option String
  tag : Option String

def Properties.isEmpty (p : Properties) : Bool := p.name.isNone && p.tag.isNone

/-- A tag in full; its handle must be known. -/
def fullTag? (as : Names) (handle rest : String) : Option String :=
  if handle = "" then some rest else (StringMap.find handle as.handles).map (· ++ rest)

def properties (as : Names) : List Token → Option (Properties × List Token)
  | .anchor a :: .tag h t :: r => (fullTag? as h t).map fun t => (⟨some a, some t⟩, r)
  | .tag h t :: .anchor a :: r => (fullTag? as h t).map fun t => (⟨some a, some t⟩, r)
  | .anchor a :: r => some (⟨some a, none⟩, r)
  | .tag h t :: r => (fullTag? as h t).map fun t => (⟨none, some t⟩, r)
  | r => some (⟨none, none⟩, r)

def endsEntry : List Token → Bool
  | .blockEntry :: _ | .key :: _ | .value :: _ | .blockEnd :: _ => true
  | _ => false

def endsPair : List Token → Bool
  | .key :: _ | .value :: _ | .blockEnd :: _ => true
  | _ => false

def endsFlow (close : Token) : List Token → Bool
  | .flowEntry :: _ => true
  | t :: _ => t = close
  | [] => false

mutual

/-- A node; in block style where blocks may begin, and with entries at the level of their key. -/
def read : Nat → (block indentless : Bool) → Reader Node
  | 0, _, _, _, _ => none
  | fuel + 1, block, indentless, as, ts =>
    match ts with
    | .alias a :: r => (StringMap.find a as.nodes).map fun n => (n, as, r)
    | ts => do
      let (before, ts) ← properties as ts
      let keep := fun (got : Node × Names × List Token) =>
        (got.1, named before.name got.1 got.2.1, got.2.2)
      let nothing := if before.isEmpty then none else some (keep (blank before.tag, as, ts))
      match ts with
      | .scalar style text :: r => some (keep (.scalar style before.tag text, as, r))
      | .flowSequenceStart :: r => (flowItems fuel true as r).map fun g => keep (.sequence g.1, g.2)
      | .flowMappingStart :: r => (flowEntries fuel true as r).map fun g => keep (.mapping g.1, g.2)
      | .blockEntry :: r =>
        if indentless then
          (looseItems fuel as (.blockEntry :: r)).map fun g => keep (.sequence g.1, g.2)
        else nothing
      | .blockSequenceStart :: r =>
        if block then (blockItems fuel as r).map fun g => keep (.sequence g.1, g.2) else nothing
      | .blockMappingStart :: r =>
        if block then (blockEntries fuel as r).map fun g => keep (.mapping g.1, g.2) else nothing
      | _ => nothing

def blockItems : Nat → Reader (List Node)
  | 0, _, _ => none
  | fuel + 1, as, ts =>
    match ts with
    | .blockEnd :: r => some ([], as, r)
    | .blockEntry :: r => do
      let (n, as, r) ← match r with
        | .blockEntry :: _ | .blockEnd :: _ => some (blank none, as, r)
        | r => read fuel true false as r
      let (ns, as, r) ← blockItems fuel as r
      return (n :: ns, as, r)
    | _ => none

def looseItems : Nat → Reader (List Node)
  | 0, _, _ => none
  | fuel + 1, as, ts =>
    match ts with
    | .blockEntry :: r => do
      let (n, as, r) ← if endsEntry r then some (blank none, as, r) else read fuel true false as r
      let (ns, as, r) ← looseItems fuel as r
      return (n :: ns, as, r)
    | ts => some ([], as, ts)

def blockEntries : Nat → Reader (List (Node × Node))
  | 0, _, _ => none
  | fuel + 1, as, ts =>
    match ts with
    | .blockEnd :: r => some ([], as, r)
    | .key :: r => do
      let (k, as, r) ← if endsPair r then some (blank none, as, r) else read fuel true true as r
      let (v, as, r) ← match r with
        | .value :: r => if endsPair r then some (blank none, as, r) else read fuel true true as r
        | r => some (blank none, as, r)
      let (es, as, r) ← blockEntries fuel as r
      return ((k, v) :: es, as, r)
    | _ => none

/-- The items of a sequence in flow style; a single pair among them is a mapping of its own. -/
def flowItems : Nat → Bool → Reader (List Node)
  | 0, _, _, _ => none
  | fuel + 1, first, as, ts => do
    let ts ← match ts with
      | .flowSequenceEnd :: _ => some ts
      | .flowEntry :: r => if first then some ts else some r
      | ts => if first then some ts else none
    match ts with
    | .flowSequenceEnd :: r => some ([], as, r)
    | .key :: r => do
      let (e, as, r) ← flowPair fuel .flowSequenceEnd as r
      let (ns, as, r) ← flowItems fuel false as r
      return (.mapping [e] :: ns, as, r)
    | ts => do
      let (n, as, r) ← read fuel false false as ts
      let (ns, as, r) ← flowItems fuel false as r
      return (n :: ns, as, r)

def flowPair : Nat → Token → Reader (Node × Node)
  | 0, _, _, _ => none
  | fuel + 1, close, as, ts => do
    let (k, as, r) ← match ts with
      | .value :: _ => some (blank none, as, ts)
      | ts => if endsFlow close ts then some (blank none, as, ts) else read fuel false false as ts
    let (v, as, r) ← match r with
      | .value :: r =>
        if endsFlow close r then some (blank none, as, r) else read fuel false false as r
      | r => some (blank none, as, r)
    return ((k, v), as, r)

def flowEntries : Nat → Bool → Reader (List (Node × Node))
  | 0, _, _, _ => none
  | fuel + 1, first, as, ts => do
    let ts ← match ts with
      | .flowMappingEnd :: _ => some ts
      | .flowEntry :: r => if first then some ts else some r
      | ts => if first then some ts else none
    match ts with
    | .flowMappingEnd :: r => some ([], as, r)
    | .key :: r => do
      let (e, as, r) ← flowPair fuel .flowMappingEnd as r
      let (es, as, r) ← flowEntries fuel false as r
      return (e :: es, as, r)
    | ts => do
      let (k, as, r) ← read fuel false false as ts
      let (es, as, r) ← flowEntries fuel false as r
      return ((k, blank none) :: es, as, r)

end

/-- The handles before a document, each given once, with the usual ones; one version at most. -/
def handles? : List Token → Option (List (String × String) × List Token)
  | .version :: r => do
    let (hs, rest) ← handles? r
    if r.take (r.length - rest.length) |>.contains .version then none else return (hs, rest)
  | .handle h t :: r => do
    let (hs, rest) ← handles? r
    if (r.take (r.length - rest.length)).any (isHandle h) then none else return ((h, t) :: hs, rest)
  | r => some ([("!", "!"), ("!!", "tag:yaml.org,2002:")], r)
where
  isHandle (h : String) : Token → Bool
    | .handle h' _ => h' = h
    | _ => false

def isDirective : Token → Bool
  | .version | .handle _ _ => true
  | _ => false

def endsContent : List Token → Bool
  | [] | .documentStart :: _ | .documentEnd :: _ => true
  | t :: _ => isDirective t

def document? (hs : List (String × String)) (ts : List Token) : Option Node := do
  let as : Names := ⟨[], hs⟩
  let (n, _, r) ←
    if endsContent ts then some (blank none, as, ts) else read (2 * ts.length + 2) true false as ts
  if (r.dropWhile (· = .documentEnd)).isEmpty then return n else none

/-- The only document of a text; a text of comments and blanks has none. -/
def ofText? (s : String) : Option (Option Node) := do
  let ts ← Token.ofText? s
  let (hs, r) ← handles? ts
  match r with
  | [] => if ts.isEmpty then return none else .none
  | .documentStart :: r => (document? hs r).map some
  | r =>
    if ts.length = r.length && r.head? ≠ some .documentEnd then (document? hs r).map some else .none

end Node

end DistributionOperator.Yaml
