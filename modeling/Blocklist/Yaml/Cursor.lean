/-!
A place in a YAML text: what is left of it, the line and column of the next character, and the number of
bytes before it. Lines end at a line feed, a carriage return or both, and at the Unicode line ends.
-/

namespace Blocklist.Yaml

def isAllowed (c : Char) : Bool :=
  let n := c.toNat
  n == 0x09 || n == 0x0A || n == 0x0D || (0x20 ≤ n && n ≤ 0x7E) || n == 0x85 ||
    (0xA0 ≤ n && n ≤ 0xFFFD) || 0x10000 ≤ n

def isBreak (c : Char) : Bool :=
  c == '\n' || c == '\r' || c == '\u0085' || c == '\u2028' || c == '\u2029'

def isGap (c : Char) : Bool := c == ' ' || c == '\t'

def isWordChar (c : Char) : Bool := c.isAlphanum || c == '_' || c == '-'

def endsWord : List Char → Bool
  | [] => true
  | c :: _ => isGap c || isBreak c

def endsLine : List Char → Bool
  | [] => true
  | c :: _ => isBreak c

/-- Holds before a mark between documents: three hyphens or three dots that end a word. -/
def startsMark : List Char → Bool
  | '-' :: '-' :: '-' :: rest => endsWord rest
  | '.' :: '.' :: '.' :: rest => endsWord rest
  | _ => false

def byteCount (cs : List Char) : Nat := cs.foldr (fun c count => c.utf8Size + count) 0

structure Cursor where
  rest : List Char
  line : Nat := 0
  column : Nat := 0
  /-- The number of bytes before this place. -/
  index : Nat := 0
  deriving Repr, Inhabited

namespace Cursor

def forward (c : Cursor) (count : Nat) : Cursor :=
  { c with
    rest := c.rest.drop count
    column := c.column + count
    index := c.index + byteCount (c.rest.take count) }

def skipWhile (c : Cursor) (p : Char → Bool) : Cursor := c.forward (c.rest.takeWhile p).length

/-- The line end at this place as it counts in a text, and the start of the next line. -/
def lineBreak? (c : Cursor) : Option (Char × Cursor) :=
  match c.rest with
  | '\r' :: '\n' :: rest => some ('\n', ⟨rest, c.line + 1, 0, c.index + 2⟩)
  | b :: rest =>
    if isBreak b then
      some (if b == '\u2028' || b == '\u2029' then b else '\n', ⟨rest, c.line + 1, 0, c.index + b.utf8Size⟩)
    else none
  | [] => none

/-- The start of the next line, or the same place if no line ends here. -/
def skipBreak (c : Cursor) : Cursor :=
  match c.lineBreak? with
  | some (_, next) => next
  | none => c

def skipComment (c : Cursor) : Cursor :=
  if c.rest.head? == some '#' then c.skipWhile fun x => !isBreak x else c

def finishLine? (c : Cursor) : Option Cursor :=
  let c := (c.skipWhile isGap).skipComment
  if endsLine c.rest then some c.skipBreak else none

def isAtMark (c : Cursor) : Bool := c.column == 0 && startsMark c.rest

end Cursor

end Blocklist.Yaml
