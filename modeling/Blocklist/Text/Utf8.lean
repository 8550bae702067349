/-!
UTF-8. Encoding writes a character in one to four bytes. Repairing decoding reads the characters of a
byte string and puts one replacement character for every maximal run of bytes that begins a character
but does not complete it.
-/

namespace Blocklist.Text

def encodeChar (c : Char) : List UInt8 :=
  let n := c.toNat
  if n < 0x80 then [n.toUInt8]
  else if n < 0x800 then [(0xC0 + n / 0x40).toUInt8, (0x80 + n % 0x40).toUInt8]
  else if n < 0x10000 then
    [(0xE0 + n / 0x1000).toUInt8, (0x80 + n / 0x40 % 0x40).toUInt8, (0x80 + n % 0x40).toUInt8]
  else
    [(0xF0 + n / 0x40000).toUInt8, (0x80 + n / 0x1000 % 0x40).toUInt8,
      (0x80 + n / 0x40 % 0x40).toUInt8, (0x80 + n % 0x40).toUInt8]

def encode (cs : List Char) : List UInt8 := cs.flatMap encodeChar

def replacement : Char := '\uFFFD'

def isTail (b : UInt8) : Bool := 0x80 ≤ b && b ≤ 0xBF

def secondOfThree (first second : UInt8) : Bool :=
  if first = 0xE0 then 0xA0 ≤ second && second ≤ 0xBF
  else if first = 0xED then 0x80 ≤ second && second ≤ 0x9F
  else isTail second

def secondOfFour (first second : UInt8) : Bool :=
  if first = 0xF0 then 0x90 ≤ second && second ≤ 0xBF
  else if first = 0xF4 then 0x80 ≤ second && second ≤ 0x8F
  else isTail second

def tailBits (b : UInt8) : Nat := b.toNat - 0x80

/-- The number of bytes at the start that are decoded together, one or more, and their character;
`none` stands for bytes that are no character. -/
def decodeStep (b : UInt8) (rest : List UInt8) : Nat × Option Char :=
  if b < 0x80 then (1, some (Char.ofNat b.toNat))
  else if 0xC2 ≤ b && b ≤ 0xDF then
    match rest with
    | c :: _ =>
      if isTail c then (2, some (Char.ofNat ((b.toNat - 0xC0) * 0x40 + tailBits c))) else (1, none)
    | [] => (1, none)
  else if 0xE0 ≤ b && b ≤ 0xEF then
    match rest with
    | c :: rest =>
      if secondOfThree b c then
        match rest with
        | d :: _ =>
          if isTail d then
            (3, some (Char.ofNat
              ((b.toNat - 0xE0) * 0x1000 + tailBits c * 0x40 + tailBits d)))
          else (2, none)
        | [] => (2, none)
      else (1, none)
    | [] => (1, none)
  else if 0xF0 ≤ b && b ≤ 0xF4 then
    match rest with
    | c :: rest =>
      if secondOfFour b c then
        match rest with
        | d :: rest =>
          if isTail d then
            match rest with
            | e :: _ =>
              if isTail e then
                (4, some (Char.ofNat ((b.toNat - 0xF0) * 0x40000 + tailBits c * 0x1000 +
                  tailBits d * 0x40 + tailBits e)))
              else (3, none)
            | [] => (3, none)
          else (2, none)
        | [] => (2, none)
      else (1, none)
    | [] => (1, none)
  else (1, none)

def repair : List UInt8 → List Char
  | [] => []
  | b :: rest =>
    let step := decodeStep b rest
    step.2.getD replacement :: repair (rest.drop (step.1 - 1))
termination_by bytes => bytes.length
decreasing_by simp only [List.length_drop, List.length_cons]; omega

def decode? : List UInt8 → Option (List Char)
  | [] => some []
  | b :: rest =>
    let step := decodeStep b rest
    match step.2 with
    | some c => (decode? (rest.drop (step.1 - 1))).map (c :: ·)
    | none => none
termination_by bytes => bytes.length
decreasing_by simp only [List.length_drop, List.length_cons]; omega

end Blocklist.Text
