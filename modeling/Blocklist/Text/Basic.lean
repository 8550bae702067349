/-!
Characters and texts: blanks, letter case, digits, and cutting a text into pieces and into lines. Letter case
matters for ASCII names only, so that lower-casing needs no more than the characters whose lower case is an
ASCII letter. A line ends at a line feed, and one carriage return directly before it belongs to its end.
-/

namespace Blocklist.Text

/-- Holds of the twenty-five characters with the Unicode property `White_Space`. -/
def isBlank (c : Char) : Bool :=
  let n := c.toNat
  (0x09 ≤ n && n ≤ 0x0D) || n == 0x20 || n == 0x85 || n == 0xA0 || n == 0x1680 ||
    (0x2000 ≤ n && n ≤ 0x200A) || n == 0x2028 || n == 0x2029 || n == 0x202F || n == 0x205F ||
    n == 0x3000

def trimLeft (cs : List Char) : List Char := cs.dropWhile isBlank

def trimRight (cs : List Char) : List Char := (cs.reverse.dropWhile isBlank).reverse

def trim (cs : List Char) : List Char := trimRight (trimLeft cs)

def trimmed (s : String) : String := String.ofList (trim s.toList)

def isBlankText (s : String) : Bool := s.toList.all isBlank

/-- An ASCII capital becomes its small letter; so does the Kelvin sign, whose lower case is `k`. -/
def lower (c : Char) : Char := if c = '\u212A' then 'k' else c.toLower

/-- Case folding: `lower`, and the long s folds to `s`. -/
def fold (c : Char) : Char := if c = '\u017F' then 's' else lower c

def lowered (s : String) : String := String.ofList (s.toList.map lower)

def isLetter (c : Char) : Bool := c.isAlpha

def isAlnum (c : Char) : Bool := c.isAlphanum

def hexDigit (n : Nat) : Char := if n < 10 then Char.ofNat (48 + n) else Char.ofNat (87 + n)

def hexValue? (c : Char) : Option Nat :=
  if '0' ≤ c && c ≤ '9' then some (c.toNat - 48)
  else if 'a' ≤ c && c ≤ 'f' then some (c.toNat - 87)
  else if 'A' ≤ c && c ≤ 'F' then some (c.toNat - 55)
  else none

def natText (n : Nat) : List Char := Nat.toDigits 10 n

/-- The decimal digits of an integer, with a hyphen if it is negative. -/
def intText (n : Int) : List Char :=
  if n < 0 then '-' :: natText n.natAbs else natText n.natAbs

/-- The last `width` decimal digits of a number. -/
def fixedDigits : Nat → Nat → List Char
  | 0, _ => []
  | width + 1, n => fixedDigits width (n / 10) ++ [Char.ofNat (48 + n % 10)]

def digits (cs : List Char) : List Char := cs.takeWhile Char.isDigit

def digitsValue (ds : List Char) : Nat := ds.foldl (fun n d => 10 * n + (d.toNat - 48)) 0

/-- The pieces between occurrences of `sep`; there is always one more piece than separators. -/
def splitAt (sep : Char) : List Char → List (List Char)
  | [] => [[]]
  | c :: cs =>
    if c = sep then [] :: splitAt sep cs
    else
      match splitAt sep cs with
      | [] => [[c]]
      | piece :: pieces => (c :: piece) :: pieces

def joinWith (sep : List Char) : List (List Char) → List Char
  | [] => []
  | [piece] => piece
  | piece :: pieces => piece ++ sep ++ joinWith sep pieces

def splitOnce (sep : Char) : List Char → Option (List Char × List Char)
  | [] => none
  | c :: cs =>
    if c = sep then some ([], cs)
    else (splitOnce sep cs).map fun parts => (c :: parts.1, parts.2)

def afterLast (sep : Char) : List Char → Option (List Char)
  | [] => none
  | c :: cs =>
    match afterLast sep cs with
    | some tail => some tail
    | none => if c = sep then some cs else none

/-- The text without one carriage return at its end. -/
def dropReturn (cs : List Char) : List Char :=
  match cs.reverse with
  | '\r' :: rest => rest.reverse
  | _ => cs

/-- The lines made of these pieces between line feeds; only a last piece with text in it is a line. -/
def linesOfPieces : List (List Char) → List (List Char)
  | [] => []
  | [last] => if last.isEmpty then [] else [last]
  | piece :: pieces => dropReturn piece :: linesOfPieces pieces

def lines (cs : List Char) : List (List Char) := linesOfPieces (splitAt '\n' cs)

def occursIn (pattern : List Char) : List Char → Bool
  | [] => pattern.isEmpty
  | c :: cs => pattern.isPrefixOf (c :: cs) || occursIn pattern cs

end Blocklist.Text

namespace Blocklist

def isInt32 (n : Int) : Bool := -0x80000000 ≤ n && n < 0x80000000

def isInt64 (n : Int) : Bool := -0x8000000000000000 ≤ n && n < 0x10000000000000000

def isInt128 (n : Int) : Bool :=
  -0x80000000000000000000000000000000 ≤ n && n < 0x100000000000000000000000000000000

def int32? (n : Int) : Option Int32 := if isInt32 n then some (Int32.ofInt n) else none

/-- The least number that is too large for 64 bits of floating point: half a step above the largest. -/
def floatLimit : Nat := Nat.pow 2 1024 - Nat.pow 2 970

end Blocklist
