import Blocklist.Text.Basic
import Blocklist.Yaml.Cursor

/-!
Tags as they are written: a handle, which a document may define, and a suffix. An address in a tag may
hold bytes in hexadecimal. A tag is kept as its bytes, one character for each, and ends before a byte that
is zero.
-/

namespace Blocklist.Yaml

/-- Holds of the characters that stand for themselves in an address; inside angle brackets and in
definitions the marks of flow collections do so too. -/
def isAddressChar (flowMarks : Bool) (c : Char) : Bool :=
  isWordChar c || ";/?:@&=+$.!~*'()".toList.contains c || (flowMarks && ",[]".toList.contains c)

def readByte? : List Char → Option (Nat × List Char)
  | '%' :: a :: b :: rest => do return (16 * (← Text.hexValue? a) + (← Text.hexValue? b), rest)
  | _ => none

def tailCount? (byte : Nat) : Option Nat :=
  if byte < 0x80 then some 0
  else if byte / 0x20 = 6 then some 1
  else if byte / 0x10 = 14 then some 2
  else if byte / 0x08 = 30 then some 3
  else none

def readTail : Nat → List Char → Option (List Char)
  | 0, _ => some []
  | count + 1, cs => do
    let (byte, rest) ← readByte? cs
    if byte / 0x40 = 2 then return Char.ofNat byte :: (← readTail count rest) else none

def readBytes (cs : List Char) : Option (List Char) := do
  let (byte, rest) ← readByte? cs
  return Char.ofNat byte :: (← readTail (← tailCount? byte) rest)

def readAddress (flowMarks : Bool) : Nat → List Char → Cursor → Option (List Char × Cursor)
  | 0, _, _ => none
  | fuel + 1, text, c =>
    match c.rest with
    | '%' :: _ => do
      let bytes ← readBytes c.rest
      readAddress flowMarks fuel (text ++ bytes) (c.forward (3 * bytes.length))
    | x :: _ =>
      if isAddressChar flowMarks x then readAddress flowMarks fuel (text ++ [x]) (c.forward 1)
      else some (text, c)
    | [] => some (text, c)

def addressAfter (flowMarks : Bool) (start : List Char) (c : Cursor) :
    Option (List Char × Cursor) :=
  readAddress flowMarks (c.rest.length + 1) start c

def filledAddress (flowMarks : Bool) (c : Cursor) : Option (List Char × Cursor) := do
  let (text, c) ← addressAfter flowMarks [] c
  if text.isEmpty then none else return (text, c)

/-- The bytes before the first that is zero. -/
def beforeZero (text : List Char) : List Char := text.takeWhile (· != '\x00')

/-- A tag as written. An empty handle says that the suffix is the whole tag. -/
structure TagText where
  handle : List Char
  suffix : List Char
  deriving DecidableEq, Repr

/-- What begins with an exclamation mark: a word after it, and a second mark that ends a handle. -/
def readHandle (c : Cursor) : Option (List Char × Cursor) :=
  match c.rest with
  | '!' :: rest =>
    let word := rest.takeWhile isWordChar
    if (rest.drop word.length).head? == some '!' then
      some ('!' :: word ++ ['!'], c.forward (word.length + 2))
    else some ('!' :: word, c.forward (word.length + 1))
  | _ => none

def isNamedHandle (handle : List Char) : Bool :=
  2 ≤ handle.length && handle.getLast? == some '!'

/-- A tag in angle brackets, a tag with a named handle, or a tag of this document alone. -/
def readTagText (c : Cursor) : Option (TagText × Cursor) :=
  match c.rest with
  | '!' :: '<' :: _ => do
    let (suffix, c) ← filledAddress true (c.forward 2)
    if c.rest.head? == some '>' then return (⟨[], beforeZero suffix⟩, c.forward 1) else none
  | _ => do
    let (handle, next) ← readHandle c
    if isNamedHandle handle then
      let (suffix, next) ← filledAddress false next
      return (⟨handle, beforeZero suffix⟩, next)
    else
      let (address, next) ← addressAfter false handle.tail next
      let suffix := beforeZero address
      return (if suffix.isEmpty then ⟨[], ['!']⟩ else ⟨['!'], suffix⟩, next)

/-- A tag, which a gap, a line end or, inside a flow collection, a comma has to follow. -/
def readTag (flow : Bool) (c : Cursor) : Option (TagText × Cursor) := do
  let (tag, c) ← readTagText c
  if endsWord c.rest || (flow && c.rest.head? == some ',') then return (tag, c) else none

abbrev Handles := List (List Char × List Char)

def standardHandles : Handles :=
  [(['!'], ['!']), (['!', '!'], "tag:yaml.org,2002:".toList)]

def TagText.resolve? (tag : TagText) (handles : Handles) : Option String :=
  if tag.handle.isEmpty then some (String.ofList tag.suffix)
  else (handles.lookup tag.handle).map fun start => String.ofList (start ++ tag.suffix)

end Blocklist.Yaml
