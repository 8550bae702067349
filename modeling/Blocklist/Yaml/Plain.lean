import Blocklist.Text.Basic

/-!
What the text of a plain scalar means: nothing, a boolean, an integer, or a number with a point or an
exponent. Anything else is a string.
-/

namespace Blocklist.Yaml.Plain

def isNull (text : String) : Bool := ["~", "null", "Null", "NULL"].contains text

def bool? (text : String) : Option Bool :=
  if ["true", "True", "TRUE"].contains text then some true
  else if ["false", "False", "FALSE"].contains text then some false
  else none

/-- The value of digits to a base of at most sixteen; there has to be one, and all have to fit. -/
def digitsIn? (base : Nat) (ds : List Char) : Option Nat :=
  if ds.isEmpty then none
  else
    ds.foldlM
      (fun n d => (Text.hexValue? d).bind fun v => if v < base then some (base * n + v) else none) 0

def hasLeadingZero (ds : List Char) : Bool :=
  2 ≤ ds.length && ds.head? == some '0' && ds.all Char.isDigit

/-- The number without a sign: hexadecimal, octal and binary after their marks, or decimal. -/
def natural? : List Char → Option Nat
  | '0' :: 'x' :: ds => digitsIn? 16 ds
  | '0' :: 'o' :: ds => digitsIn? 8 ds
  | '0' :: 'b' :: ds => digitsIn? 2 ds
  | ds => if hasLeadingZero ds then none else digitsIn? 10 ds

/-- An integer as it is written: whether a minus sign stands before it, and its digits' value. -/
structure Signed where
  minus : Bool
  magnitude : Nat
  deriving DecidableEq, Repr

def Signed.value (n : Signed) : Int := if n.minus then -(n.magnitude : Int) else n.magnitude

def int? (text : String) : Option Signed :=
  match text.toList with
  | '+' :: ds => (natural? ds).map fun n => ⟨false, n⟩
  | '-' :: ds => (natural? ds).map fun n => ⟨true, n⟩
  | ds => (natural? ds).map fun n => ⟨false, n⟩

/-- A decimal number in parts: the digits before and after the point, and the exponent. -/
structure Decimal where
  whole : List Char
  fraction : List Char
  exponent : Int
  deriving DecidableEq, Repr

def exponent? : List Char → Option Int
  | [] => some 0
  | e :: rest =>
    if e = 'e' || e = 'E' then
      match rest with
      | '+' :: ds => (digits? ds).map Int.ofNat
      | '-' :: ds => (digits? ds).map fun n => -(n : Int)
      | ds => (digits? ds).map Int.ofNat
    else none
where
  digits? (ds : List Char) : Option Nat := digitsIn? 10 ds

/-- A decimal number without a sign; a digit has to stand on one side of the point. -/
def decimal? (cs : List Char) : Option Decimal := do
  let whole := Text.digits cs
  let rest := cs.drop whole.length
  let (fraction, rest) := match rest with
    | '.' :: rest =>
      let ds := Text.digits rest
      (ds, rest.drop ds.length)
    | _ => ([], rest)
  if whole.isEmpty && fraction.isEmpty then none
  else return ⟨whole, fraction, ← exponent? rest⟩

/-- Holds of decimal numbers that 64 bits of floating point can hold, at least roughly. -/
def Decimal.isFinite (d : Decimal) : Bool :=
  let ds := (d.whole ++ d.fraction).dropWhile (· == '0')
  let scale := d.exponent - d.fraction.length
  let magnitude := ds.length + scale
  if ds.isEmpty || magnitude ≤ 300 then true
  else if 310 ≤ magnitude then false
  else if 0 ≤ scale then Text.digitsValue ds * Nat.pow 10 scale.toNat < floatLimit
  else Text.digitsValue ds < floatLimit * Nat.pow 10 (-scale).toNat

def isInfinity (text : String) : Bool :=
  [".inf", ".Inf", ".INF", "+.inf", "+.Inf", "+.INF", "-.inf", "-.Inf", "-.INF"].contains text

def isNotNumber (text : String) : Bool := [".nan", ".NaN", ".NAN"].contains text

def unsigned : List Char → List Char
  | '+' :: rest => rest
  | '-' :: rest => rest
  | cs => cs

def isFloat (text : String) : Bool :=
  isInfinity text || isNotNumber text ||
    ((decimal? (unsigned text.toList)).map Decimal.isFinite).getD false

end Blocklist.Yaml.Plain
