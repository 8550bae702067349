import Blocklist.Yaml.Scalar
import Blocklist.Yaml.Tag

/-!
Tokens of a YAML text. Block collections have marks of their own where their indentation begins and
ends; anchors and aliases carry the slot of their name.
-/

namespace Blocklist.Yaml

inductive Token where
  | version (major minor : Nat)
  | handle (name start : List Char)
  | documentStart | documentEnd
  | blockSequence | blockMapping | blockEnd
  | flowSequence | flowSequenceEnd
  | flowMapping | flowMappingEnd
  | entry | comma
  | key | value
  | reference (slot : Nat)
  | anchor (slot : Nat)
  | tag (text : TagText)
  | scalar (style : Style) (text : String)
  deriving DecidableEq, Repr, Inhabited

abbrev Anchors := List (String × Nat)

namespace Anchors

/-- The names with one more anchor. Its slot is the number of names before it, so a name that is used
again gives up its old slot, and the next new name comes to the same slot. -/
def define (anchors : Anchors) (name : String) : Anchors :=
  (name, anchors.length) :: anchors.filter fun a => a.1 != name

end Anchors

def readShortNumber (c : Cursor) : Option (Nat × Cursor) :=
  let ds := Text.digits c.rest
  if 1 ≤ ds.length && ds.length ≤ 9 then some (Text.digitsValue ds, c.forward ds.length) else none

def readVersion (c : Cursor) : Option (Token × Cursor) := do
  let (major, c) ← readShortNumber (c.skipWhile isGap)
  if c.rest.head? == some '.' then
    let (minor, c) ← readShortNumber (c.forward 1)
    return (.version major minor, c)
  else none

def readHandleDefinition (c : Cursor) : Option (Token × Cursor) := do
  let (name, c) ← readHandle (c.skipWhile isGap)
  if (name.length = 1 || isNamedHandle name) && (c.rest.head?.map isGap).getD false then
    let (start, c) ← filledAddress true (c.skipWhile isGap)
    if endsWord c.rest then return (.handle name (beforeZero start), c) else none
  else none

def readDirective (c : Cursor) : Option (Token × Cursor) := do
  let name := c.rest.takeWhile isWordChar
  let c := c.forward name.length
  if endsWord c.rest then
    let (token, c) ←
      if name = "YAML".toList then readVersion c
      else if name = "TAG".toList then readHandleDefinition c
      else none
    return (token, ← c.finishLine?)
  else none

def endsAnchor (cs : List Char) : Bool :=
  endsWord cs || (cs.head?.map "?:,]\x7d%@\x60".toList.contains).getD false

def readAnchorName (c : Cursor) : Option (String × Cursor) :=
  let name := c.rest.takeWhile isWordChar
  let c := c.forward name.length
  if !name.isEmpty && endsAnchor c.rest then some (String.ofList name, c) else none

end Blocklist.Yaml
