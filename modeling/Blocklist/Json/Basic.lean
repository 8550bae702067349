import Blocklist.Text.Basic

/-!
JSON values and their compact text. Integers of 64 bits are numbers with a value; every other number keeps
its spelling, since nothing here calculates with it. The text has no white space, the fewest escapes, and
non-ASCII characters as they are.
-/

namespace Blocklist

/-- A JSON value. An object keeps its members in order, repeated names included. -/
inductive Json where
  | null
  | bool (value : Bool)
  | int (value : Int)
  | number (literal : String)
  | string (value : String)
  | array (items : List Json)
  | object (members : List (String × Json))
  /-- A well-formed value without a meaning: a number beyond every range, a text with half a surrogate
  pair, an object with such a name, an array or an object in too many others. -/
  | meaningless
  deriving Repr, Inhabited

namespace Json

def strings (values : List String) : Json := .array (values.map .string)

def ofOption (value : Option String) : Json :=
  match value with
  | some s => .string s
  | none => .null

end Json

end Blocklist

namespace Blocklist.Json

/-- How one character stands inside a string: a short escape, a hexadecimal one, or itself. -/
def escape (c : Char) : List Char :=
  if c = '"' then ['\\', '"']
  else if c = '\\' then ['\\', '\\']
  else if c = '\n' then ['\\', 'n']
  else if c = '\r' then ['\\', 'r']
  else if c = '\t' then ['\\', 't']
  else if c = '\x08' then ['\\', 'b']
  else if c = '\x0c' then ['\\', 'f']
  else if c.toNat < 0x20 then
    ['\\', 'u', '0', '0', Text.hexDigit (c.toNat / 16), Text.hexDigit (c.toNat % 16)]
  else [c]

def quote (cs : List Char) : List Char := '"' :: cs.flatMap escape ++ ['"']

mutual

def print : Json → List Char
  | null => "null".toList
  | bool true => "true".toList
  | bool false => "false".toList
  | int n => Text.intText n
  | number literal => literal.toList
  | string s => quote s.toList
  | array [] => ['[', ']']
  | array (x :: xs) => '[' :: (print x ++ printItems xs)
  | object [] => ['{', '}']
  | object ((k, x) :: ms) => '{' :: (quote k.toList ++ ':' :: (print x ++ printMembers ms))
  | meaningless => "null".toList

/-- The items after the first, and the bracket that ends the array. -/
def printItems : List Json → List Char
  | [] => [']']
  | x :: xs => ',' :: (print x ++ printItems xs)

/-- The members after the first, and the brace that ends the object. -/
def printMembers : List (String × Json) → List Char
  | [] => ['}']
  | (k, x) :: ms => ',' :: (quote k.toList ++ ':' :: (print x ++ printMembers ms))

end

def render (value : Json) : String := String.ofList value.print

end Blocklist.Json
