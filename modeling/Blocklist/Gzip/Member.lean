import Blocklist.Gzip.Inflate

/-!
A gzip member: a header with optional parts, deflated data, and a trailer with the checksum and the size
of the data. All of it is checked.
-/

namespace Blocklist.Gzip

/-- One bit of the checksum's shift register. -/
def crcBit (crc : UInt32) : UInt32 := if crc &&& 1 = 1 then (crc >>> 1) ^^^ 0xEDB88320 else crc >>> 1

def crcByte (crc : UInt32) (b : UInt8) : UInt32 :=
  crcBit (crcBit (crcBit (crcBit (crcBit (crcBit (crcBit (crcBit (crc ^^^ b.toUInt32))))))))

def crc32 (bytes : List UInt8) : UInt32 := bytes.foldl crcByte 0xFFFFFFFF ^^^ 0xFFFFFFFF

def maxHeaderText : Nat := 65535

def dropBytes? (count : Nat) (bytes : List UInt8) : Option (List UInt8) :=
  if count ≤ bytes.length then some (bytes.drop count) else none

def skipExtra : List UInt8 → Option (List UInt8)
  | a :: b :: rest => dropBytes? (littleEndian [a, b]) rest
  | _ => none

def skipText (bytes : List UInt8) : Option (List UInt8) :=
  let text := bytes.takeWhile (· != 0)
  if maxHeaderText < text.length then none else dropBytes? (text.length + 1) bytes

/-- The bytes after a header's own checksum, which has to fit the header. -/
def skipHeaderSum (whole bytes : List UInt8) : Option (List UInt8) :=
  match bytes with
  | a :: b :: rest =>
    let header := whole.take (whole.length - bytes.length)
    if (crc32 header).toNat % 0x10000 = littleEndian [a, b] then some rest else none
  | _ => none

def skipIf (flag : Bool) (step : List UInt8 → Option (List UInt8)) (bytes : List UInt8) :
    Option (List UInt8) :=
  if flag then step bytes else some bytes

def skipHeader : List UInt8 → Option (List UInt8)
  | 0x1f :: 0x8b :: 8 :: flags :: a :: b :: c :: d :: e :: f :: rest => do
    let whole := 0x1f :: 0x8b :: 8 :: flags :: a :: b :: c :: d :: e :: f :: rest
    if 0x20 ≤ flags then none
    else
      let rest ← skipIf (flags.toNat.testBit 2) skipExtra rest
      let rest ← skipIf (flags.toNat.testBit 3) skipText rest
      let rest ← skipIf (flags.toNat.testBit 4) skipText rest
      skipIf (flags.toNat.testBit 1) (skipHeaderSum whole) rest
  | _ => none

def member? (bytes : List UInt8) : Option (List UInt8 × List UInt8) := do
  let (data, rest) ← inflate (← skipHeader bytes)
  match rest with
  | a :: b :: c :: d :: e :: f :: g :: h :: rest =>
    if littleEndian [a, b, c, d] = (crc32 data).toNat &&
        littleEndian [e, f, g, h] = data.length % 0x100000000 then some (data, rest)
    else none
  | _ => none

end Blocklist.Gzip
