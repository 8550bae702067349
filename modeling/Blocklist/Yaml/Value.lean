import Blocklist.Text.Basic
import Blocklist.Text.Utf8
import Blocklist.Yaml.Node
import Blocklist.Yaml.Plain

/-!
Values of a YAML document without a type that is known beforehand: what the tag of a scalar says, or what
its text says where it is plain. Aliases are followed, but only so often.
-/

namespace Blocklist.Yaml

/-- A value. Integers behind a minus sign are kept apart, zero included. -/
inductive Value where
  | null
  | bool (value : Bool)
  | natural (value : Nat)
  | negative (value : Int)
  | float
  | string (value : String)
  | sequence (items : List Value)
  | mapping (entries : List (Value × Value))
  deriving Repr, Inhabited

def standardTag (name : String) : String := "tag:yaml.org,2002:" ++ name

def isLocal (tag : String) : Bool := tag.toList.head? == some '!'

/-- Holds of local tags whose bytes are a text. They name a type of their own, which has no value here. -/
def namesType (tag : Option String) : Bool :=
  match tag with
  | some tag => isLocal tag && (Text.decode? (tag.toList.map fun c => c.toNat.toUInt8)).isSome
  | none => false

namespace Value

def ofSigned? (n : Plain.Signed) : Option Value :=
  if isInt64 n.value then some (if n.minus then negative n.value else natural n.magnitude)
  else none

/-- The value of a plain text. An integer that needs more than 64 bits has none, unless it needs more
than 128. -/
def ofPlain? (text : String) : Option Value :=
  if text.isEmpty || Plain.isNull text then some null
  else
    match Plain.bool? text, Plain.int? text with
    | some b, _ => some (bool b)
    | none, some n => if isInt128 n.value then ofSigned? n else some (ofOther text)
    | none, none => some (ofOther text)
where
  ofOther (text : String) : Value :=
    if !Plain.hasLeadingZero (Plain.unsigned text.toList) && Plain.isFloat text then float
    else string text

/-- The value of a scalar with the tag of a standard type; other tags do not change a string. -/
def ofTagged? (tag : String) (style : Style) (text : String) : Option Value :=
  if tag = standardTag "bool" then (Plain.bool? text).map bool
  else if tag = standardTag "int" then (Plain.int? text).bind ofSigned?
  else if tag = standardTag "float" then if Plain.isFloat text then some float else none
  else if tag = standardTag "null" then if Plain.isNull text then some null else none
  else if isLocal tag && style = .plain then ofPlain? text
  else some (string text)

def ofScalar? (tag : Option String) (style : Style) (text : String) : Option Value :=
  if namesType tag then none
  else
    match tag with
    | some tag => ofTagged? tag style text
    | none => if style = .plain then ofPlain? text else some (string text)

def isUnit : Value → Bool
  | null | mapping [] => true
  | _ => false

end Value

/-- Reading while aliases may be followed only so often; the state is how often still. -/
abbrev Reading := StateT Nat Option

namespace Document

/-- How often aliases may be followed, so that aliases inside of aliases do not grow without bound. -/
def aliasBudget (d : Document) : Nat := 100 * d.root.weight

def follow (d : Document) : Node → Reading Node
  | .reference slot => do
    match ← get with
    | 0 => failure
    | left + 1 => set left; StateT.lift (d.anchored.lookup slot)
  | n => pure n

def value (d : Document) : Nat → Node → Reading Value
  | 0, n => do
    match ← d.follow n with
    | .scalar _ tag style text => StateT.lift (Value.ofScalar? tag style text)
    | _ => failure
  | depth + 1, n => do
    match ← d.follow n with
    | .scalar _ tag style text => StateT.lift (Value.ofScalar? tag style text)
    | .sequence _ tag items =>
      if namesType tag then failure else return .sequence (← items.mapM (value d depth))
    | .mapping _ tag entries =>
      if namesType tag then failure
      else
        return .mapping (← entries.mapM fun e => do
          return (← value d depth e.1, ← value d depth e.2))
    | .reference _ => failure

end Document

end Blocklist.Yaml
