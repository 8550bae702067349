import Blocklist.Text.Basic
import Blocklist.Yaml.Value

/-!
Reading typed values out of a YAML document. A string may be written as any scalar; a structure is a
mapping whose unknown keys are passed over; and nothing at all is an empty structure or list.
-/

namespace Blocklist.Yaml

/-- The value of a key; `none` when it occurs twice, `some none` when it does not occur. -/
def member? (name : String) (members : List (String × α)) : Option (Option α) :=
  match members.filter fun m => m.1 = name with
  | [] => some none
  | [m] => some (some m.2)
  | _ => none

namespace Document

def readString (d : Document) (n : Node) : Reading String := do
  match ← d.follow n with
  | .scalar _ _ _ text => return text
  | _ => failure

/-- The text of a plain scalar, or of a literal block with the tag of the wanted type. -/
def readTyped (d : Document) (type : String) (n : Node) : Reading String := do
  match ← d.follow n with
  | .scalar _ _ .plain text => return text
  | .scalar _ tag .literal text => if tag = some (standardTag type) then return text else failure
  | _ => failure

def readBool (d : Document) (n : Node) : Reading Bool := do
  StateT.lift (Plain.bool? (← d.readTyped "bool" n))

def readInt32 (d : Document) (n : Node) : Reading Int32 := do
  let i ← StateT.lift (Plain.int? (← d.readTyped "int" n))
  StateT.lift (int32? i.value)

def isNothing : Node → Bool
  | .scalar _ _ .plain text => text.isEmpty
  | _ => false

/-- Whether there is no value; `none` if a tag says so and the text does not. -/
def isAbsent? : Node → Option Bool
  | .scalar _ none .plain text => some (text.isEmpty || Plain.isNull text)
  | .scalar _ (some tag) .plain text =>
    if tag = standardTag "null" then if Plain.isNull text then some true else none
    else some false
  | _ => some false

def optional (d : Document) (item : Node → Reading α) (n : Node) : Reading (Option α) := do
  let n ← d.follow n
  if ← StateT.lift (isAbsent? n) then return none else return some (← item n)

/-- An optional field: no value when it is absent or null. -/
def optionalField (d : Document) (item : Node → Reading α) : Option Node → Reading (Option α)
  | none => return none
  | some n => d.optional item n

def fieldOr (fallback : α) (item : Node → Reading α) : Option Node → Reading α
  | none => return fallback
  | some n => item n

def listOf (d : Document) (item : Node → Reading α) (n : Node) : Reading (List α) := do
  match ← d.follow n with
  | .sequence _ _ items => items.mapM item
  | n => if isNothing n then return [] else failure

/-- The members of a structure, whose keys all have to be scalars. -/
def members (d : Document) (n : Node) : Reading (List (String × Node)) := do
  match ← d.follow n with
  | .mapping _ _ entries => entries.mapM fun e => do return (← d.readString e.1, e.2)
  | n => if isNothing n then return [] else failure

def fields (d : Document) (names : List String) (n : Node) : Reading (List (Option Node)) := do
  let members ← d.members n
  StateT.lift (names.mapM fun name => member? name members)

def read? (d : Document) (reading : Node → Reading α) : Option α :=
  ((reading d.root).run d.aliasBudget).map Prod.fst

end Document

end Blocklist.Yaml
