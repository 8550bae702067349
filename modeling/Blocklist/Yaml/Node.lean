import Blocklist.Yaml.Token.Lexer

/-!
The tree of a YAML document, read from its tokens by recursive descent. A place where nothing is written
holds an empty plain scalar.
-/

namespace Blocklist.Yaml

inductive Node where
  | scalar (anchor : Option Nat) (tag : Option String) (style : Style) (text : String)
  | sequence (anchor : Option Nat) (tag : Option String) (items : List Node)
  | mapping (anchor : Option Nat) (tag : Option String) (entries : List (Node × Node))
  | reference (slot : Nat)
  deriving Repr, Inhabited

namespace Node

/-- What stands where nothing is written. -/
def empty : Node := .scalar none none .plain ""

structure Properties where
  anchor : Option Nat := none
  tag : Option String := none
  deriving Repr

namespace Properties

def isEmpty (p : Properties) : Bool := p.anchor.isNone && p.tag.isNone

end Properties

/-- An anchor and a tag in either order, each at most once. -/
def readProperties (handles : Handles) : List Token → Option (Properties × List Token)
  | .anchor slot :: .tag text :: rest => do
    return (⟨some slot, some (← text.resolve? handles)⟩, rest)
  | .tag text :: .anchor slot :: rest => do
    return (⟨some slot, some (← text.resolve? handles)⟩, rest)
  | .anchor slot :: rest => some (⟨some slot, none⟩, rest)
  | .tag text :: rest => do return (⟨none, some (← text.resolve? handles)⟩, rest)
  | rest => some ({}, rest)

inductive Place where
  /-- In a block sequence, or as a whole document. -/
  | block
  /-- In a block mapping, where a sequence needs no further indentation. -/
  | blockPair
  | flow
  deriving DecidableEq, Repr

def endsBlockPair : List Token → Bool
  | [] => false
  | t :: _ => t = .key || t = .value || t = .blockEnd

def endsBlockEntry : List Token → Bool
  | [] => false
  | t :: _ => t = .entry || t = .blockEnd

def endsLooseEntry (ts : List Token) : Bool := ts.head? == some .entry || endsBlockPair ts

def endsFlowPart (close : Token) : List Token → Bool
  | [] => false
  | t :: _ => t = .comma || t = close

mutual

def read (handles : Handles) (place : Place) : Nat → List Token → Option (Node × List Token)
  | 0, _ => none
  | fuel + 1, ts =>
    match ts with
    | .reference slot :: rest => some (.reference slot, rest)
    | _ => do
      let (p, ts) ← readProperties handles ts
      match ts with
      | .entry :: _ =>
        if place = .blockPair then
          let (items, rest) ← readLooseEntries handles fuel ts
          return (.sequence p.anchor p.tag items, rest)
        else if p.isEmpty then none
        else return (.scalar p.anchor p.tag .plain "", ts)
      | .scalar style text :: rest => return (.scalar p.anchor p.tag style text, rest)
      | .flowSequence :: rest =>
        let (items, rest) ← readFlowItems handles true fuel rest
        return (.sequence p.anchor p.tag items, rest)
      | .flowMapping :: rest =>
        let (entries, rest) ← readFlowEntries handles true fuel rest
        return (.mapping p.anchor p.tag entries, rest)
      | .blockSequence :: rest =>
        if place ≠ .flow then
          let (items, rest) ← readBlockEntries handles fuel rest
          return (.sequence p.anchor p.tag items, rest)
        else if p.isEmpty then none
        else return (.scalar p.anchor p.tag .plain "", ts)
      | .blockMapping :: rest =>
        if place ≠ .flow then
          let (entries, rest) ← readBlockPairs handles fuel rest
          return (.mapping p.anchor p.tag entries, rest)
        else if p.isEmpty then none
        else return (.scalar p.anchor p.tag .plain "", ts)
      | _ =>
        if p.isEmpty then none else return (.scalar p.anchor p.tag .plain "", ts)

def readUnless (handles : Handles) (place : Place) (atEnd : Bool) :
    Nat → List Token → Option (Node × List Token)
  | 0, _ => none
  | fuel + 1, ts => if atEnd then some (empty, ts) else read handles place fuel ts

def readBlockEntries (handles : Handles) : Nat → List Token → Option (List Node × List Token)
  | 0, _ => none
  | fuel + 1, ts =>
    match ts with
    | .blockEnd :: rest => some ([], rest)
    | .entry :: rest => do
      let (item, rest) ← readUnless handles .block (endsBlockEntry rest) fuel rest
      let (items, rest) ← readBlockEntries handles fuel rest
      return (item :: items, rest)
    | _ => none

def readLooseEntries (handles : Handles) : Nat → List Token → Option (List Node × List Token)
  | 0, _ => none
  | fuel + 1, ts =>
    match ts with
    | .entry :: rest => do
      let (item, rest) ← readUnless handles .block (endsLooseEntry rest) fuel rest
      let (items, rest) ← readLooseEntries handles fuel rest
      return (item :: items, rest)
    | _ => some ([], ts)

def readBlockPairs (handles : Handles) : Nat → List Token → Option (List (Node × Node) × List Token)
  | 0, _ => none
  | fuel + 1, ts =>
    match ts with
    | .blockEnd :: rest => some ([], rest)
    | .key :: rest => do
      let (k, rest) ← readUnless handles .blockPair (endsBlockPair rest) fuel rest
      let (v, rest) ← match rest with
        | .value :: rest => readUnless handles .blockPair (endsBlockPair rest) fuel rest
        | _ => some (empty, rest)
      let (entries, rest) ← readBlockPairs handles fuel rest
      return ((k, v) :: entries, rest)
    | _ => none

/-- The items of a flow sequence, with the mark of its end. A key makes a mapping of one entry. -/
def readFlowItems (handles : Handles) (first : Bool) :
    Nat → List Token → Option (List Node × List Token)
  | 0, _ => none
  | fuel + 1, ts =>
    match ts with
    | .flowSequenceEnd :: rest => some ([], rest)
    | _ => do
      let ts ← if first then some ts else
        match ts with
        | .comma :: rest => some rest
        | _ => none
      match ts with
      | .flowSequenceEnd :: rest => return ([], rest)
      | .key :: rest =>
        let (pair, rest) ← readFlowPair handles fuel rest
        let (items, rest) ← readFlowItems handles false fuel rest
        return (.mapping none none [pair] :: items, rest)
      | _ =>
        let (item, rest) ← read handles .flow fuel ts
        let (items, rest) ← readFlowItems handles false fuel rest
        return (item :: items, rest)

def readFlowValue (handles : Handles) (close : Token) :
    Nat → List Token → Option (Node × List Token)
  | 0, _ => none
  | fuel + 1, ts =>
    match ts with
    | .value :: rest => readUnless handles .flow (endsFlowPart close rest) fuel rest
    | _ => some (empty, ts)

/-- The one entry of a mapping inside a flow sequence. A missing key takes the token that shows that it
is missing with it. -/
def readFlowPair (handles : Handles) : Nat → List Token → Option ((Node × Node) × List Token)
  | 0, _ => none
  | fuel + 1, ts => do
    let (k, ts) ←
      if ts.head? == some .value || endsFlowPart .flowSequenceEnd ts then some (empty, ts.tail)
      else read handles .flow fuel ts
    let (v, ts) ← readFlowValue handles .flowSequenceEnd fuel ts
    return ((k, v), ts)

def readFlowEntries (handles : Handles) (first : Bool) :
    Nat → List Token → Option (List (Node × Node) × List Token)
  | 0, _ => none
  | fuel + 1, ts =>
    match ts with
    | .flowMappingEnd :: rest => some ([], rest)
    | _ => do
      let ts ← if first then some ts else
        match ts with
        | .comma :: rest => some rest
        | _ => none
      match ts with
      | .flowMappingEnd :: rest => return ([], rest)
      | .key :: rest =>
        let atEnd := rest.head? == some .value || endsFlowPart .flowMappingEnd rest
        let (k, rest) ← readUnless handles .flow atEnd fuel rest
        let (v, rest) ← readFlowValue handles .flowMappingEnd fuel rest
        let (entries, rest) ← readFlowEntries handles false fuel rest
        return ((k, v) :: entries, rest)
      | _ =>
        let (k, rest) ← read handles .flow fuel ts
        let (entries, rest) ← readFlowEntries handles false fuel rest
        return ((k, empty) :: entries, rest)

end

mutual

/-- The nodes with an anchor and their slots, in the order in which they begin. -/
def anchored : Node → List (Nat × Node)
  | scalar anchor tag style text => slotOf anchor (scalar anchor tag style text)
  | sequence anchor tag items => slotOf anchor (sequence anchor tag items) ++ anchoredItems items
  | mapping anchor tag entries => slotOf anchor (mapping anchor tag entries) ++ anchoredEntries entries
  | reference _ => []
where
  slotOf (anchor : Option Nat) (n : Node) : List (Nat × Node) :=
    match anchor with
    | some slot => [(slot, n)]
    | none => []

def anchoredItems : List Node → List (Nat × Node)
  | [] => []
  | n :: ns => n.anchored ++ anchoredItems ns

def anchoredEntries : List (Node × Node) → List (Nat × Node)
  | [] => []
  | (k, v) :: es => k.anchored ++ v.anchored ++ anchoredEntries es

end

mutual

/-- The number of marks that spell out a node: one for a scalar or an alias, two around a collection. -/
def weight : Node → Nat
  | scalar .. => 1
  | sequence _ _ items => 2 + weightOfItems items
  | mapping _ _ entries => 2 + weightOfEntries entries
  | reference _ => 1

def weightOfItems : List Node → Nat
  | [] => 0
  | n :: ns => n.weight + weightOfItems ns

def weightOfEntries : List (Node × Node) → Nat
  | [] => 0
  | (k, v) :: es => k.weight + v.weight + weightOfEntries es

end

end Node

structure Document where
  root : Node
  anchored : List (Nat × Node)
  deriving Repr, Inhabited

namespace Document

/-- The document of a tree; of several nodes with one slot the last counts. -/
def ofRoot (root : Node) : Document := ⟨root, root.anchored.reverse⟩

/-- Directives: a version that is known, at most once, and handles, each defined at most once. -/
def readDirectives : List Token → Bool → Handles → Option (Handles × List Token)
  | .version major minor :: rest, versioned, handles =>
    if versioned || major ≠ 1 || (minor ≠ 1 && minor ≠ 2) then none
    else readDirectives rest true handles
  | .handle name start :: rest, versioned, handles =>
    if (handles.lookup name).isSome then none
    else readDirectives rest versioned ((name, start) :: handles)
  | rest, _, handles => some (handles, rest)

def endsDocument : List Token → Bool
  | [] => true
  | t :: _ =>
    match t with
    | .version .. | .handle .. | .documentStart | .documentEnd => true
    | _ => false

def readRoot (ts : List Token) : Option (Node × List Token) := do
  let fuel := 4 * ts.length + 4
  let (handles, rest) ← readDirectives ts false []
  let handles := handles ++ standardHandles
  match rest with
  | .documentStart :: rest => Node.readUnless handles .block (endsDocument rest) fuel rest
  | _ => if rest.length = ts.length then Node.read handles .block fuel ts else none

/-- The only document of a token stream; marks that end a document may follow it. A stream without a
token holds an empty document. -/
def ofTokens? (ts : List Token) : Option Document :=
  if ts.isEmpty then some (ofRoot .empty)
  else do
    let (root, rest) ← readRoot ts
    if rest.all (· = .documentEnd) then return ofRoot root else none

def ofText? (text : String) : Option Document := (Token.ofText? text).bind ofTokens?

end Document

end Blocklist.Yaml
