import Blocklist.Text.Basic
import Blocklist.Yaml.Cursor

/-!
The texts of YAML scalars: plain ones, quoted ones, and blocks. Where a text runs over several lines, a
single line end becomes a space and further ones are kept.
-/

namespace Blocklist.Yaml

inductive Style where
  | plain | quoted | literal | folded
  deriving DecidableEq, Repr

/-- The gaps and line ends between two words of a scalar. -/
structure Gap where
  blanks : List Char := []
  broken : Bool := false
  /-- The first line end, unless it is escaped. -/
  first : List Char := []
  later : List Char := []
  deriving Repr, Inhabited

namespace Gap

def folded (g : Gap) : List Char :=
  if g.broken then
    if g.first = ['\n'] then if g.later.isEmpty then [' '] else g.later
    else g.first ++ g.later
  else g.blanks

def addBlank (g : Gap) (c : Char) : Gap :=
  if g.broken then g else { g with blanks := g.blanks ++ [c] }

def addBreak (g : Gap) (b : Char) : Gap :=
  if g.broken then { g with later := g.later ++ [b] }
  else { blanks := [], broken := true, first := [b] }

end Gap

/-- Reads on over gaps and line ends. Where `indent` is given, a tab left of it on a new line is an
error. -/
def readGap (indent : Option Int) : Nat → Gap → Cursor → Option (Gap × Cursor)
  | 0, _, _ => none
  | fuel + 1, g, c =>
    match c.rest with
    | [] => some (g, c)
    | x :: _ =>
      if isGap x then
        let abuses := match indent with
          | some i => g.broken && x == '\t' && (c.column : Int) < i
          | none => false
        if abuses then none else readGap indent fuel (g.addBlank x) (c.forward 1)
      else
        match c.lineBreak? with
        | some (b, next) => readGap indent fuel (g.addBreak b) next
        | none => some (g, c)

def hexNumber (count : Nat) (cs : List Char) : Option Nat :=
  let ds := cs.take count
  if ds.length = count then
    ds.foldlM (fun n d => (Text.hexValue? d).map fun v => 16 * n + v) 0
  else none

def letterEscape? (c : Char) : Option Char :=
  match c with
  | '0' => some '\x00'
  | 'a' => some '\x07'
  | 'b' => some '\x08'
  | 't' | '\t' => some '\t'
  | 'n' => some '\n'
  | 'v' => some '\x0b'
  | 'f' => some '\x0c'
  | 'r' => some '\r'
  | 'e' => some '\x1b'
  | ' ' => some ' '
  | '"' => some '"'
  | '/' => some '/'
  | '\\' => some '\\'
  | 'N' => some '\u0085'
  | '_' => some '\u00A0'
  | 'L' => some '\u2028'
  | 'P' => some '\u2029'
  | _ => none

def numberEscape? (c : Char) : Option Nat :=
  match c with
  | 'x' => some 2
  | 'u' => some 4
  | 'U' => some 8
  | _ => none

def charOfNumber? (n : Nat) : Option Char := if n.isValidChar then some (Char.ofNat n) else none

def readEscape (c : Cursor) : Option (Char × Cursor) :=
  match c.rest with
  | [] => none
  | x :: rest =>
    match letterEscape? x with
    | some e => some (e, c.forward 1)
    | none => do
      let count ← numberEscape? x
      let e ← charOfNumber? (← hexNumber count rest)
      return (e, c.forward (1 + count))

/-- A run of a quoted text up to a gap, a line end or the closing quote. The text is kept latest
character first; the flag says that an escaped line end closed the run. -/
def readQuotedRun (single : Bool) :
    Nat → List Char → Cursor → Option (List Char × Bool × Cursor)
  | 0, _, _ => none
  | fuel + 1, text, c =>
    match c.rest with
    | [] => some (text, false, c)
    | x :: rest =>
      if isGap x || isBreak x then some (text, false, c)
      else if single then
        if x = '\'' then
          if rest.head? == some '\'' then
            readQuotedRun single fuel ('\'' :: text) (c.forward 2)
          else some (text, false, c)
        else readQuotedRun single fuel (x :: text) (c.forward 1)
      else if x = '"' then some (text, false, c)
      else if x = '\\' then
        match (c.forward 1).lineBreak? with
        | some (_, next) => some (text, true, next)
        | none => do
          let (e, next) ← readEscape (c.forward 1)
          readQuotedRun single fuel (e :: text) next
      else readQuotedRun single fuel (x :: text) (c.forward 1)

def quoteMark (single : Bool) : Char := if single then '\'' else '"'

/-- A quoted text after its opening quote, and the place after its closing quote. The text before is
given latest character first. -/
def readQuoted (single : Bool) : Nat → List Char → Cursor → Option (List Char × Cursor)
  | 0, _, _ => none
  | fuel + 1, text, c =>
    if c.isAtMark || c.rest.isEmpty then none
    else do
      let (text, escaped, c) ← readQuotedRun single (c.rest.length + 1) text c
      if c.rest.head? == some (quoteMark single) && !escaped then return (text.reverse, c.forward 1)
      else
        let (gap, c) ← readGap none (c.rest.length + 1) { broken := escaped } c
        readQuoted single fuel (gap.folded.reverse ++ text) c

def isFlowMark (c : Char) : Bool := c == ',' || c == '[' || c == ']' || c == '\x7b' || c == '\x7d'

/-- A run of a plain text up to a gap, a line end or a mark that ends it. Inside a flow collection a
colon right before a flow mark is an error. -/
def readPlainRun (flow : Bool) : List Char → Option (List Char)
  | [] => some []
  | x :: rest =>
    if isGap x || isBreak x then some []
    else if flow && x = ':' &&
        (match rest with
          | y :: _ => isFlowMark y || y == '?'
          | [] => false) then none
    else if (x = ':' && endsWord rest) || (flow && isFlowMark x) then some []
    else (readPlainRun flow rest).map (x :: ·)

/-- A plain text: its words so far, latest character first, and the gap after them. It gives the whole
text, whether a line has ended after it, and the place where the next token is to be looked for. -/
def readPlain (flow : Bool) (indent : Int) :
    Nat → List Char → Gap → Cursor → Option (List Char × Bool × Cursor)
  | 0, _, _, _ => none
  | fuel + 1, text, gap, c =>
    if c.isAtMark || c.rest.head? == some '#' then some (text.reverse, gap.broken, c)
    else do
      let run ← readPlainRun flow c.rest
      if run.isEmpty then return (text.reverse, gap.broken, c)
      else
        let text := (gap.folded ++ run).reverse ++ text
        let c := c.forward run.length
        let (gap, next) ← readGap (some indent) (c.rest.length + 1) {} c
        if next.index = c.index || (!flow && (next.column : Int) < indent) then
          return (text.reverse, gap.broken, next)
        else readPlain flow indent fuel text gap next

structure BlockHead where
  /-- Keep all of them, keep one, or keep none. -/
  keep : Bool := false
  strip : Bool := false
  indent : Option Nat := none
  deriving Repr

def indentMark? (c : Char) : Option Nat :=
  if '1' ≤ c && c ≤ '9' then some (c.toNat - '0'.toNat) else none

/-- Reads the marks of a block in either order. -/
def readBlockHead (c : Cursor) : Option (BlockHead × Cursor) :=
  let digit (h : BlockHead) (c : Cursor) : Option (BlockHead × Cursor) :=
    match c.rest with
    | '0' :: _ => none
    | x :: _ =>
      match indentMark? x with
      | some n => some ({ h with indent := some n }, c.forward 1)
      | none => some (h, c)
    | [] => some (h, c)
  let chomp (h : BlockHead) (c : Cursor) : Option (BlockHead × Cursor) :=
    match c.rest with
    | '+' :: _ => some ({ h with keep := true }, c.forward 1)
    | '-' :: _ => some ({ h with strip := true }, c.forward 1)
    | _ => none
  match chomp {} c with
  | some (h, c) => digit h c
  | none =>
    match digit {} c with
    | some (h, c) => some ((chomp h c).getD (h, c))
    | none => none

/-- Reads over empty lines up to column `indent`, or over all indentation if it is zero. It gives the
line ends, the largest column seen, and the place reached; a tab in the indentation is an error. -/
def readBlockBreaks (indent : Nat) :
    Nat → List Char → Nat → Cursor → Option (List Char × Nat × Cursor)
  | 0, _, _, _ => none
  | fuel + 1, breaks, widest, c =>
    let spaces := (c.rest.takeWhile (· == ' ')).length
    let c := c.forward (if indent = 0 then spaces else min spaces (indent - c.column))
    let widest := max widest c.column
    if (indent = 0 || c.column < indent) && c.rest.head? == some '\t' then none
    else
      match c.lineBreak? with
      | some (b, next) => readBlockBreaks indent fuel (breaks ++ [b]) widest next
      | none => some (breaks, widest, c)

structure BlockText where
  text : List Char := []
  lead : List Char := []
  trail : List Char := []
  gapped : Bool := false
  deriving Repr, Inhabited

def readBlockLines (literal : Bool) (indent : Nat) :
    Nat → BlockText → Cursor → Option (BlockText × Cursor)
  | 0, _, _ => none
  | fuel + 1, b, c =>
    if c.column = indent && !c.rest.isEmpty then do
      let gapped := (c.rest.head?.map isGap).getD false
      let glue :=
        if !literal && b.lead = ['\n'] && !b.gapped && !gapped then
          if b.trail.isEmpty then [' '] else []
        else b.lead
      let line := c.rest.takeWhile fun x => !isBreak x
      let text := (glue ++ b.trail ++ line).reverse ++ b.text
      let c := c.forward line.length
      let (lead, c) := match c.lineBreak? with
        | some (x, next) => ([x], next)
        | none => ([], c)
      let (trail, _, c) ← readBlockBreaks indent (c.rest.length + 1) [] 0 c
      readBlockLines literal indent fuel { text, lead, trail, gapped } c
    else some (b, c)

def readBlock (literal : Bool) (parent : Int) (c : Cursor) : Option (List Char × Cursor) := do
  let (head, c) ← readBlockHead c
  let c ← c.finishLine?
  let given := match head.indent with
    | some n => if 0 ≤ parent then parent.toNat + n else n
    | none => 0
  let (trail, widest, c) ← readBlockBreaks given (c.rest.length + 1) [] 0 c
  let indent := if given = 0 then max (max widest (parent + 1).toNat) 1 else given
  let (b, c) ← readBlockLines literal indent (c.rest.length + 1) { trail } c
  return (b.text.reverse ++ (if head.strip then [] else b.lead) ++ (if head.keep then b.trail else []), c)

end Blocklist.Yaml
