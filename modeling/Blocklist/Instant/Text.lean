import Blocklist.Instant.Basic
import Blocklist.Text.Basic

/-!
The RFC 3339 text of an instant. It is written in universal time with as few of 0, 3, 6 or 9 fractional
digits as lose nothing; years outside four digits carry a sign. It is read with any offset, with a space
or either case of `T`, and with blanks between the parts.
-/

namespace Blocklist.Instant

/-- The year in four digits, or with a sign in at least four. -/
def yearText (year : Int) : List Char :=
  if 0 ≤ year && year ≤ 9999 then Text.fixedDigits 4 year.toNat
  else
    let digits := Text.natText year.natAbs
    (if year < 0 then '-' else '+') :: List.replicate (4 - digits.length) '0' ++ digits

/-- The fraction of a second with its dot, or nothing for a whole second. -/
def fractionText (nano : Nat) : List Char :=
  if nano = 0 then []
  else if nano % 1000000 = 0 then '.' :: Text.fixedDigits 3 (nano / 1000000)
  else if nano % 1000 = 0 then '.' :: Text.fixedDigits 6 (nano / 1000)
  else '.' :: Text.fixedDigits 9 nano

def write (t : Instant) : List Char :=
  yearText t.date.year ++ '-' :: Text.fixedDigits 2 t.date.month ++
    '-' :: Text.fixedDigits 2 t.date.day ++ 'T' :: Text.fixedDigits 2 t.hour ++
    ':' :: Text.fixedDigits 2 t.minute ++ ':' :: Text.fixedDigits 2 t.second ++
    fractionText t.nano ++ ['Z']

def render (t : Instant) : String := String.ofList t.write

/-- A number of one digit up to `width` digits after blanks. -/
def readNumber (width : Nat) (cs : List Char) : Option (Nat × List Char) :=
  let cs := Text.trimLeft cs
  let ds := (Text.digits cs).take width
  if ds.isEmpty then none else some (Text.digitsValue ds, cs.drop ds.length)

/-- A year after blanks: up to four digits, or a sign and any number of digits. -/
def readYear (cs : List Char) : Option (Int × List Char) :=
  let signed (sign : Int) (rest : List Char) : Option (Int × List Char) :=
    let ds := Text.digits rest
    if ds.isEmpty then none
    else some (sign * Text.digitsValue ds, rest.drop ds.length)
  match Text.trimLeft cs with
  | '-' :: rest => signed (-1) rest
  | '+' :: rest => signed 1 rest
  | rest => (readNumber 4 rest).map fun r => ((r.1 : Int), r.2)

def readMark (mark : Char) (cs : List Char) : Option (List Char) :=
  match Text.trimLeft cs with
  | c :: rest => if c = mark then some rest else none
  | [] => none

/-- A fraction of a second in nanoseconds; digits past the ninth are dropped. -/
def readFraction : List Char → Option (Nat × List Char)
  | '.' :: rest =>
    let ds := Text.digits rest
    let kept := ds.take 9
    if ds.isEmpty then none
    else some (Text.digitsValue kept * Nat.pow 10 (9 - kept.length), rest.drop ds.length)
  | cs => some (0, cs)

/-- The text after any number of colons and blanks. -/
def skipColons (cs : List Char) : List Char := cs.dropWhile fun c => c == ':' || Text.isBlank c

def readTwoDigits : List Char → Option (Nat × List Char)
  | a :: b :: rest =>
    if a.isDigit && b.isDigit then some (Text.digitsValue [a, b], rest) else none
  | _ => none

/-- An offset from universal time in minutes. -/
def readOffset (cs : List Char) : Option (Int × List Char) :=
  let afterSign (sign : Int) (rest : List Char) : Option (Int × List Char) := do
    let (hours, rest) ← readTwoDigits rest
    let (minutes, rest) ← readTwoDigits (skipColons rest)
    if minutes < 60 then return (sign * (hours * 60 + minutes), rest) else none
  match cs with
  | 'Z' :: rest | 'z' :: rest => some (0, rest)
  | '+' :: rest => afterSign 1 rest
  | '-' :: rest | '\u2212' :: rest => afterSign (-1) rest
  | a :: b :: c :: rest => if [a, b, c].map Char.toUpper = ['U', 'T', 'C'] then some (0, rest) else none
  | _ => none

def readDayEnd : List Char → Option (List Char)
  | 'T' :: rest | 't' :: rest | ' ' :: rest => some rest
  | _ => none

def read? (cs : List Char) : Option Instant := do
  let (year, rest) ← readYear cs
  let (month, rest) ← readNumber 2 (← readMark '-' rest)
  let (day, rest) ← readNumber 2 (← readMark '-' rest)
  let (hour, rest) ← readNumber 2 (← readDayEnd rest)
  let (minute, rest) ← readNumber 2 (← readMark ':' rest)
  let (second, rest) ← readNumber 2 (← readMark ':' rest)
  let (nano, rest) ← readFraction rest
  let (offset, rest) ← readOffset (Text.trimLeft rest)
  if !(Text.trimLeft rest).isEmpty || 1440 ≤ offset.natAbs then none
  else
    let date ← Date.ofFields? year month day
    let local_ ← ofFields? date hour minute second nano
    local_.minusMinutes? offset

end Blocklist.Instant
