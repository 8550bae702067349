import Blocklist.Yaml.Token

/-!
The tokens of a text in order. Indentation opens and closes block collections, and a colon makes a key of
what stands before it: the tokens for the key are then put in at the place where it began.
-/

namespace Blocklist.Yaml

/-- A place where a key may have begun. -/
structure KeyPlace where
  required : Bool
  number : Nat
  line : Nat
  column : Nat
  index : Nat
  deriving Repr

/-- Holds of a key place that is too far behind: on an earlier line, or more than 1024 bytes back. -/
def KeyPlace.isBehind (k : KeyPlace) (c : Cursor) : Bool := k.line < c.line || k.index + 1024 < c.index

structure Lexer where
  cursor : Cursor
  tokens : Array Token := #[]
  anchors : Anchors := []
  /-- The indentation of the current block collection, and those around it. -/
  indent : Int := -1
  outerIndents : List Int := []
  keyAllowed : Bool := true
  /-- The place where the current key may have begun, and those around the flow collections. -/
  key : Option KeyPlace := none
  outerKeys : List (Option KeyPlace) := []
  deriving Repr

namespace Lexer

def inFlow (s : Lexer) : Bool := !s.outerKeys.isEmpty

def emit (s : Lexer) (t : Token) : Lexer := { s with tokens := s.tokens.push t }

def emitMark (s : Lexer) (t : Token) (count : Nat) : Lexer :=
  { s.emit t with cursor := s.cursor.forward count }

def allowKey (s : Lexer) (allowed : Bool) : Lexer := { s with keyAllowed := allowed }

/-- Gives up the current key place; a required one cannot be given up. -/
def dropKey (s : Lexer) : Option Lexer :=
  match s.key with
  | some k => if k.required then none else some { s with key := none }
  | none => some s

def noteKey (s : Lexer) : Option Lexer :=
  if s.keyAllowed then do
    let s ← s.dropKey
    return { s with key := some {
      required := !s.inFlow && s.indent = s.cursor.column
      number := s.tokens.size
      line := s.cursor.line
      column := s.cursor.column
      index := s.cursor.index } }
  else some s

def dropStale (s : Lexer) : Option Lexer :=
  let isStale (k : Option KeyPlace) : Bool := (k.map (·.isBehind s.cursor)).getD false
  let isLost (k : Option KeyPlace) : Bool := isStale k && (k.map (·.required)).getD false
  let fresh (k : Option KeyPlace) : Option KeyPlace := if isStale k then none else k
  if (s.key :: s.outerKeys).any isLost then none
  else some { s with key := fresh s.key, outerKeys := s.outerKeys.map fresh }

/-- Begins a block collection if the column is further right than the current one; its mark is put in
after `number` tokens. -/
def openBlock (s : Lexer) (column number : Nat) (t : Token) : Lexer :=
  if !s.inFlow && s.indent < column then
    { s with
      indent := column
      outerIndents := s.indent :: s.outerIndents
      tokens := s.tokens.insertIdxIfInBounds number t }
  else s

def closeBlocks (s : Lexer) (column : Int) : Lexer :=
  if s.inFlow then s else close s.outerIndents s
where
  close : List Int → Lexer → Lexer
    | [], s => s
    | outer :: rest, s =>
      if column < s.indent then
        close rest { s.emit .blockEnd with indent := outer, outerIndents := rest }
      else s

/-- Goes on to the next token, over gaps, comments and line ends. Where a key may begin, a tab is not a
gap. -/
def skipToToken : Nat → Lexer → Lexer
  | 0, s => s
  | fuel + 1, s =>
    let c := s.cursor
    let c := if c.column = 0 && c.rest.head? == some '\uFEFF' then c.forward 1 else c
    let c := c.skipWhile fun x => x == ' ' || ((s.inFlow || !s.keyAllowed) && x == '\t')
    let c := c.skipComment
    match c.lineBreak? with
    | some (_, next) =>
      skipToToken fuel { s with cursor := next, keyAllowed := s.keyAllowed || !s.inFlow }
    | none => { s with cursor := c }

def finish (s : Lexer) : Option Lexer := (s.closeBlocks (-1)).dropKey

def directive (s : Lexer) : Option Lexer := do
  let s ← (s.closeBlocks (-1)).dropKey
  let (token, c) ← readDirective (s.cursor.forward 1)
  return { s.emit token with cursor := c, keyAllowed := false }

def documentMark (s : Lexer) (t : Token) : Option Lexer := do
  let s ← (s.closeBlocks (-1)).dropKey
  return (s.emitMark t 3).allowKey false

def openFlow (s : Lexer) (t : Token) : Option Lexer := do
  let s ← s.noteKey
  return { (s.emitMark t 1).allowKey true with key := none, outerKeys := s.key :: s.outerKeys }

def closeFlow (s : Lexer) (t : Token) : Option Lexer := do
  let s ← s.dropKey
  let s := (s.emitMark t 1).allowKey false
  match s.outerKeys with
  | k :: rest => return { s with key := k, outerKeys := rest }
  | [] => return s

def comma (s : Lexer) : Option Lexer := do
  let s ← s.dropKey
  return (s.emitMark .comma 1).allowKey true

/-- Begins a block collection at this column, where only a place for keys will do. -/
def openHere (s : Lexer) (t : Token) : Option Lexer :=
  if s.inFlow then some s
  else if s.keyAllowed then some (s.openBlock s.cursor.column s.tokens.size t)
  else none

def entry (s : Lexer) : Option Lexer := do
  let s ← (← s.openHere .blockSequence).dropKey
  return (s.emitMark .entry 1).allowKey true

def explicitKey (s : Lexer) : Option Lexer := do
  let s ← (← s.openHere .blockMapping).dropKey
  return (s.emitMark .key 1).allowKey !s.inFlow

def colon (s : Lexer) : Option Lexer := do
  match s.key with
  | some k =>
    let s := { s with key := none, tokens := s.tokens.insertIdxIfInBounds k.number .key }
    return ((s.openBlock k.column k.number .blockMapping).emitMark .value 1).allowKey false
  | none =>
    let s ← s.openHere .blockMapping
    return (s.emitMark .value 1).allowKey !s.inFlow

/-- An alias, which has to have its anchor before it. -/
def reference (s : Lexer) : Option Lexer := do
  let s ← s.noteKey
  let (name, c) ← readAnchorName (s.cursor.forward 1)
  let slot ← s.anchors.lookup name
  return { (s.emit (.reference slot)).allowKey false with cursor := c }

def anchor (s : Lexer) : Option Lexer := do
  let s ← s.noteKey
  let (name, c) ← readAnchorName (s.cursor.forward 1)
  return { (s.emit (.anchor s.anchors.length)).allowKey false with
    cursor := c
    anchors := s.anchors.define name }

def tag (s : Lexer) : Option Lexer := do
  let s ← s.noteKey
  let (text, c) ← readTag s.inFlow s.cursor
  return { (s.emit (.tag text)).allowKey false with cursor := c }

def blockScalar (s : Lexer) (literal : Bool) : Option Lexer := do
  let s ← s.dropKey
  let (text, c) ← readBlock literal s.indent (s.cursor.forward 1)
  let style := if literal then .literal else .folded
  return { (s.emit (.scalar style (String.ofList text))).allowKey true with cursor := c }

def quotedScalar (s : Lexer) (single : Bool) : Option Lexer := do
  let s ← s.noteKey
  let c := s.cursor.forward 1
  let (text, c) ← readQuoted single (c.rest.length + 1) [] c
  return { (s.emit (.scalar .quoted (String.ofList text))).allowKey false with cursor := c }

/-- A plain scalar. After a line end a key may begin again. -/
def plainScalar (s : Lexer) : Option Lexer := do
  let s ← s.noteKey
  let c := s.cursor
  let (text, broken, c) ← readPlain s.inFlow (s.indent + 1) (c.rest.length + 1) [] {} c
  return { (s.emit (.scalar .plain (String.ofList text))).allowKey broken with cursor := c }

def isMark (c : Char) : Bool := "-?:,[]\x7b\x7d#&*!|>'\"%@\x60".toList.contains c

def startsPlain (flow : Bool) : List Char → Bool
  | [] => false
  | '-' :: rest => !(rest.head?.map isGap).getD false
  | c :: rest =>
    !(isMark c || isGap c || isBreak c) || (!flow && (c == '?' || c == ':') && !endsWord rest)

def marksWord (mark : Char) : List Char → Bool
  | c :: rest => c == mark && endsWord rest
  | [] => false

def tokenAt (s : Lexer) (x : Char) : Option Lexer :=
  let cs := s.cursor.rest
  let atMark := s.cursor.isAtMark
  if s.cursor.column = 0 && x = '%' then s.directive
  else if atMark then s.documentMark (if x = '-' then .documentStart else .documentEnd)
  else if x = '[' then s.openFlow .flowSequence
  else if x = '\x7b' then s.openFlow .flowMapping
  else if x = ']' then s.closeFlow .flowSequenceEnd
  else if x = '\x7d' then s.closeFlow .flowMappingEnd
  else if x = ',' then s.comma
  else if marksWord '-' cs then s.entry
  else if x = '?' && (s.inFlow || marksWord '?' cs) then s.explicitKey
  else if x = ':' && (s.inFlow || marksWord ':' cs) then s.colon
  else if x = '*' then s.reference
  else if x = '&' then s.anchor
  else if x = '!' then s.tag
  else if x = '|' && !s.inFlow then s.blockScalar true
  else if x = '>' && !s.inFlow then s.blockScalar false
  else if x = '\'' then s.quotedScalar true
  else if x = '"' then s.quotedScalar false
  else if startsPlain s.inFlow cs then s.plainScalar
  else none

def run : Nat → Lexer → Option (List Token)
  | 0, _ => none
  | fuel + 1, s => do
    let s ← (skipToToken (s.cursor.rest.length + 1) s).dropStale
    let s := s.closeBlocks s.cursor.column
    match s.cursor.rest with
    | [] => return (← s.finish).tokens.toList
    | x :: _ => run fuel (← s.tokenAt x)

end Lexer

def Token.ofText? (text : String) : Option (List Token) :=
  let cs := text.toList
  if cs.all isAllowed then Lexer.run (cs.length + 2) { cursor := { rest := cs } } else none

end Blocklist.Yaml
