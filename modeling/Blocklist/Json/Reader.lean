import Blocklist.Json.Basic
import Blocklist.Text.Basic

/-!
Reading JSON text. The grammar is strict: no comments, no trailing commas, no leading zeros, no control
characters inside strings, and one value with nothing but white space around it.
-/

namespace Blocklist.Json

def isSpace (c : Char) : Bool := c == ' ' || c == '\n' || c == '\t' || c == '\r'

def skip (cs : List Char) : List Char := cs.dropWhile isSpace

def hex4? (a b c d : Char) : Option Nat := do
  return (((← Text.hexValue? a) * 16 + (← Text.hexValue? b)) * 16 + (← Text.hexValue? c)) * 16 + (← Text.hexValue? d)

def isHighHalf (n : Nat) : Bool := 0xD800 ≤ n && n < 0xDC00

def isLowHalf (n : Nat) : Bool := 0xDC00 ≤ n && n < 0xE000

def joinHalves (high low : Nat) : Char :=
  Char.ofNat (0x10000 + (high - 0xD800) * 0x400 + (low - 0xDC00))

def shortEscape? (c : Char) : Option Char :=
  if c = '"' || c = '\\' || c = '/' then some c
  else if c = 'b' then some '\x08'
  else if c = 'f' then some '\x0c'
  else if c = 'n' then some '\n'
  else if c = 'r' then some '\r'
  else if c = 't' then some '\t'
  else none

/-- A piece of a string: a character, or half a surrogate pair. -/
inductive Piece where
  | char (c : Char)
  | high (half : Nat)
  | low (half : Nat)
  deriving DecidableEq, Repr

def Piece.ofEscape (n : Nat) : Piece :=
  if isHighHalf n then high n else if isLowHalf n then low n else char (Char.ofNat n)

/-- The pieces of a string up to its closing quote, and the text after it. -/
def pieces : List Char → Option (List Piece × List Char)
  | [] => none
  | '"' :: rest => some ([], rest)
  | '\\' :: 'u' :: a :: b :: c :: d :: rest =>
    match hex4? a b c d with
    | none => none
    | some n => (pieces rest).map fun r => (Piece.ofEscape n :: r.1, r.2)
  | '\\' :: c :: rest =>
    match shortEscape? c with
    | none => none
    | some e => (pieces rest).map fun r => (.char e :: r.1, r.2)
  | c :: rest =>
    if c.toNat < 0x20 then none else (pieces rest).map fun r => (.char c :: r.1, r.2)

/-- The characters of a string; `none` if it has half a surrogate pair. -/
def joinPieces : List Piece → Option (List Char)
  | [] => some []
  | .char c :: ps => (joinPieces ps).map (c :: ·)
  | .high n :: .low m :: ps => (joinPieces ps).map (joinHalves n m :: ·)
  | _ => none

/-- Whole digits at the start of a number: a zero, or digits that begin with none. -/
def wholeDigits : List Char → Option (List Char × List Char)
  | '0' :: rest => if (rest.head?.map Char.isDigit).getD false then none else some (['0'], rest)
  | cs =>
    let ds := Text.digits cs
    if ds.isEmpty then none else some (ds, cs.drop ds.length)

def fractionDigits : List Char → Option (Option (List Char) × List Char)
  | '.' :: rest =>
    let ds := Text.digits rest
    if ds.isEmpty then none else some (some ds, rest.drop ds.length)
  | cs => some (none, cs)

def exponentPart (cs : List Char) : Option (Option Int × List Char) :=
  match cs with
  | e :: rest =>
    if e = 'e' || e = 'E' then
      let (negative, rest) := match rest with
        | '-' :: r => (true, r)
        | '+' :: r => (false, r)
        | r => (false, r)
      let ds := Text.digits rest
      if ds.isEmpty then none
      else
        let n : Int := Text.digitsValue ds
        some (some (if negative then -n else n), rest.drop ds.length)
    else some (none, cs)
  | [] => some (none, [])

/-- Holds when the significand times ten to the exponent is too large for a double. -/
def overflowsDouble (significand : Nat) (exponent : Int) : Bool :=
  if significand = 0 || exponent ≤ 0 then false
  else 400 < exponent || floatLimit ≤ significand * Nat.pow 10 exponent.toNat

/-- The number after an optional hyphen. An integer of 64 bits has its value; negative zero and all other
numbers are kept as they are spelled. -/
def numberAfter (negative : Bool) (cs : List Char) : Option (Json × List Char) := do
  let (whole, afterWhole) ← wholeDigits cs
  let (fraction, afterFraction) ← fractionDigits afterWhole
  let (exponent, rest) ← exponentPart afterFraction
  let n := Text.digitsValue whole
  let value : Int := if negative then -(n : Int) else n
  if fraction.isNone && exponent.isNone && isInt64 value && !(negative && n = 0) then
    return (.int value, rest)
  else
    let places := (fraction.getD []).length
    let significand := Text.digitsValue (whole ++ fraction.getD [])
    if overflowsDouble significand (exponent.getD 0 - places) then return (.meaningless, rest)
    else
      let literal := cs.take (cs.length - rest.length)
      return (.number (String.ofList (if negative then '-' :: literal else literal)), rest)

def word (w : List Char) (cs : List Char) : Option (List Char) :=
  if w.isPrefixOf cs then some (cs.drop w.length) else none

def ofMembers (members : List (Option String × Json)) : Json :=
  match members.mapM fun m => m.1.map fun name => (name, m.2) with
  | some named => .object named
  | none => .meaningless

mutual

def value : Nat → List Char → Option (Json × List Char)
  | 0, _ => none
  | depth + 1, cs =>
    match skip cs with
    | [] => none
    | '"' :: rest => (pieces rest).map fun r =>
        match joinPieces r.1 with
        | some text => (.string (String.ofList text), r.2)
        | none => (.meaningless, r.2)
    | '[' :: rest =>
      match skip rest with
      | ']' :: rest => some (.array [], rest)
      | rest => (items depth rest).map fun r => (.array r.1, r.2)
    | '{' :: rest =>
      match skip rest with
      | '}' :: rest => some (.object [], rest)
      | rest => (members depth rest).map fun r => (ofMembers r.1, r.2)
    | '-' :: rest => numberAfter true rest
    | 'n' :: rest => (word "ull".toList rest).map fun r => (.null, r)
    | 't' :: rest => (word "rue".toList rest).map fun r => (.bool true, r)
    | 'f' :: rest => (word "alse".toList rest).map fun r => (.bool false, r)
    | rest => numberAfter false rest

def items : Nat → List Char → Option (List Json × List Char)
  | 0, _ => none
  | depth + 1, cs => do
    let (x, rest) ← value depth cs
    match skip rest with
    | ',' :: rest =>
      let (xs, rest) ← items depth rest
      return (x :: xs, rest)
    | ']' :: rest => return ([x], rest)
    | _ => none

/-- The members of an object up to its brace; a name that has half a surrogate pair is none. -/
def members : Nat → List Char → Option (List (Option String × Json) × List Char)
  | 0, _ => none
  | depth + 1, cs =>
    match skip cs with
    | '"' :: rest => do
      let (ps, rest) ← pieces rest
      let name := (joinPieces ps).map String.ofList
      match skip rest with
      | ':' :: rest =>
        let (x, rest) ← value depth rest
        match skip rest with
        | ',' :: rest =>
          let (xs, rest) ← members depth rest
          return ((name, x) :: xs, rest)
        | '}' :: rest => return ([(name, x)], rest)
        | _ => none
      | _ => none
    | _ => none

end

mutual

/-- The value with every array and object below `depth` others taken for meaningless. -/
def within : Nat → Json → Json
  | 0, .array _ => .meaningless
  | 0, .object _ => .meaningless
  | depth + 1, .array xs => .array (itemsWithin depth xs)
  | depth + 1, .object ms => .object (membersWithin depth ms)
  | _, v => v

def itemsWithin : Nat → List Json → List Json
  | _, [] => []
  | depth, x :: xs => within depth x :: itemsWithin depth xs

def membersWithin : Nat → List (String × Json) → List (String × Json)
  | _, [] => []
  | depth, (name, x) :: ms => (name, within depth x) :: membersWithin depth ms

end

/-- Arrays and objects mean something down to this depth. -/
def deepest : Nat := 127

def parse? (cs : List Char) : Option Json :=
  match value (cs.length + 1) cs with
  | some (v, rest) => if (skip rest).isEmpty then some (v.within deepest) else none
  | none => none

end Blocklist.Json
