import Blocklist.Json.Basic
import Blocklist.Text.Basic

/-!
Reading typed values out of JSON. A structure may be given as an object, whose unknown members are
passed over, or as an array of its fields in order.
-/

namespace Blocklist.Json

def asString? : Json → Option String
  | string s => some s
  | _ => none

def asBool? : Json → Option Bool
  | bool b => some b
  | _ => none

def asInt32? : Json → Option Int32
  | int n => int32? n
  | _ => none

def asNat64? : Json → Option Nat
  | int n => if 0 ≤ n then some n.toNat else none
  | _ => none

def asList? : Json → Option (List Json)
  | array xs => some xs
  | _ => none

def listOf (item : Json → Option α) (value : Json) : Option (List α) :=
  value.asList?.bind fun xs => xs.mapM item

def asStrings? (value : Json) : Option (List String) := listOf asString? value

/-- Null is no value; anything else has to read. -/
def optional (item : Json → Option α) : Json → Option (Option α)
  | null => some none
  | v => (item v).map some

/-- An optional field: no value when it is absent or null. -/
def optionalField (item : Json → Option α) : Option Json → Option (Option α)
  | none => some none
  | some v => optional item v

def fieldOr (fallback : α) (item : Json → Option α) : Option Json → Option α
  | none => some fallback
  | some v => item v

def required (item : Json → Option α) (field : Option Json) : Option α := field.bind item

/-- The value of a member; `none` when a name occurs twice, `some none` when it does not occur. -/
def member? (name : String) (members : List (String × Json)) : Option (Option Json) :=
  match members.filter fun m => m.1 = name with
  | [] => some none
  | [m] => some (some m.2)
  | _ => none

/-- The fields of a structure in the order of `names`, from an object or from an array. -/
def fields (names : List String) : Json → Option (List (Option Json))
  | object members => names.mapM fun name => member? name members
  | array items =>
    if items.length ≤ names.length then
      some (items.map some ++ List.replicate (names.length - items.length) none)
    else none
  | _ => none

mutual

def isMeaningful : Json → Bool
  | meaningless => false
  | array xs => areMeaningful xs
  | object ms => haveMeaning ms
  | _ => true

def areMeaningful : List Json → Bool
  | [] => true
  | x :: xs => isMeaningful x && areMeaningful xs

def haveMeaning : List (String × Json) → Bool
  | [] => true
  | m :: ms => isMeaningful m.2 && haveMeaning ms

end

/-- The name of a choice without data: a string, or an object whose only member is null. -/
def choiceName? : Json → Option String
  | string s => some s
  | object [(name, null)] => some name
  | _ => none

/-- As `choiceName?`, but an empty object stands for null as well. -/
def looseChoiceName? : Json → Option String
  | object [(name, object [])] => some name
  | v => v.choiceName?

end Blocklist.Json
