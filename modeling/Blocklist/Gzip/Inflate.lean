import Blocklist.Gzip.Huffman

/-!
Unpacking deflated data: blocks that are stored, coded with the fixed codes, or coded with codes of their
own. The output is kept latest byte first while it grows.
-/

namespace Blocklist.Gzip

/-- Base and number of extra bits of the length symbols from 257 on. -/
def lengthSymbols : List (Nat × Nat) :=
  [(3, 0), (4, 0), (5, 0), (6, 0), (7, 0), (8, 0), (9, 0), (10, 0), (11, 1), (13, 1), (15, 1),
    (17, 1), (19, 2), (23, 2), (27, 2), (31, 2), (35, 3), (43, 3), (51, 3), (59, 3), (67, 4),
    (83, 4), (99, 4), (115, 4), (131, 5), (163, 5), (195, 5), (227, 5), (258, 0)]

def distanceSymbols : List (Nat × Nat) :=
  [(1, 0), (2, 0), (3, 0), (4, 0), (5, 1), (7, 1), (9, 2), (13, 2), (17, 3), (25, 3), (33, 4),
    (49, 4), (65, 5), (97, 5), (129, 6), (193, 6), (257, 7), (385, 7), (513, 8), (769, 8),
    (1025, 9), (1537, 9), (2049, 10), (3073, 10), (4097, 11), (6145, 11), (8193, 12),
    (12289, 12), (16385, 13), (24577, 13)]

/-- The output with `count` bytes repeated from `distance` bytes back. Zeros stand before its start. -/
def repeatBack (distance : Nat) : Nat → List UInt8 → List UInt8
  | 0, out => out
  | count + 1, out => repeatBack distance count ((out[distance - 1]?).getD 0 :: out)

def takeExtra (table : List (Nat × Nat)) (symbol : Nat) (bits : List Bool) :
    Option (Nat × List Bool) := do
  let (base, extra) ← table[symbol]?
  let (more, bits) ← takeBits extra bits
  return (base + more, bits)

/-- The coded symbols of a block up to its end mark; no more of them than `fuel`. -/
def codedBlock (literals distances : Huffman) :
    Nat → List Bool → List UInt8 → Option (List Bool × List UInt8)
  | 0, _, _ => none
  | fuel + 1, bits, out => do
    let (symbol, bits) ← literals.next? bits
    if symbol < 256 then codedBlock literals distances fuel bits (symbol.toUInt8 :: out)
    else if symbol = 256 then return (bits, out)
    else
      let (count, bits) ← takeExtra lengthSymbols (symbol - 257) bits
      let (symbol, bits) ← distances.next? bits
      let (distance, bits) ← takeExtra distanceSymbols symbol bits
      codedBlock literals distances fuel bits (repeatBack distance count out)

def fixedLiteralLengths : List Nat :=
  List.replicate 144 8 ++ List.replicate 112 9 ++ List.replicate 24 7 ++ List.replicate 8 8

def fixedDistanceLengths : List Nat := List.replicate 32 5

def lengthOrder : List Nat := [16, 17, 18, 0, 8, 7, 9, 6, 10, 5, 11, 4, 12, 3, 13, 2, 14, 1, 15]

/-- Word lengths, latest first, until there are `total` of them. -/
def codedLengths (code : Huffman) (total : Nat) :
    Nat → List Bool → List Nat → Option (List Bool × List Nat)
  | 0, _, _ => none
  | fuel + 1, bits, lengths =>
    if total < lengths.length then none
    else if lengths.length = total then some (bits, lengths)
    else do
      let (symbol, bits) ← code.next? bits
      if symbol < 16 then codedLengths code total fuel bits (symbol :: lengths)
      else if symbol = 16 then
        let last ← lengths.head?
        let (more, bits) ← takeBits 2 bits
        codedLengths code total fuel bits (List.replicate (3 + more) last ++ lengths)
      else if symbol = 17 then
        let (more, bits) ← takeBits 3 bits
        codedLengths code total fuel bits (List.replicate (3 + more) 0 ++ lengths)
      else
        let (more, bits) ← takeBits 7 bits
        codedLengths code total fuel bits (List.replicate (11 + more) 0 ++ lengths)

def ownCodes (bits : List Bool) : Option (Huffman × Huffman × List Bool) := do
  let (literalCount, bits) ← takeBits 5 bits
  let (distanceCount, bits) ← takeBits 5 bits
  let (lengthCount, bits) ← takeBits 4 bits
  let literalCount := literalCount + 257
  let distanceCount := distanceCount + 1
  if 286 < literalCount || 30 < distanceCount then none
  else
    let (given, bits) ← takeGroups 3 (lengthCount + 4) bits
    let lengthOf (symbol : Nat) : Nat := ((lengthOrder.zip given).lookup symbol).getD 0
    let code ← Huffman.ofLengths? ((List.range 19).map lengthOf)
    let total := literalCount + distanceCount
    let (bits, latestFirst) ← codedLengths code total (total + 1) bits []
    let lengths := latestFirst.reverse
    let literals ← Huffman.ofLengths? (lengths.take literalCount)
    let distances ← Huffman.ofLengths? (lengths.drop literalCount)
    return (literals, distances, bits)

/-- A stored block: its length, the complement of its length, and its bytes. -/
def storedBlock (bits : List Bool) (out : List UInt8) : Option (List Bool × List UInt8) := do
  let (size, bits) ← takeBits 16 (align bits)
  let (complement, bits) ← takeBits 16 bits
  if size + complement = 0xFFFF then
    let (bytes, bits) ← takeGroups 8 size bits
    return (bits, (bytes.map Nat.toUInt8).reverse ++ out)
  else none

def blockOf (sort : Nat) (bits : List Bool) (out : List UInt8) : Option (List Bool × List UInt8) :=
  if sort = 0 then storedBlock bits out
  else if sort = 1 then do
    let literals ← Huffman.ofLengths? fixedLiteralLengths
    let distances ← Huffman.ofLengths? fixedDistanceLengths
    codedBlock literals distances (bits.length + 1) bits out
  else if sort = 2 then do
    let (literals, distances, bits) ← ownCodes bits
    codedBlock literals distances (bits.length + 1) bits out
  else none

/-- The blocks up to the last one; no more of them than `fuel`. -/
def blocks : Nat → List Bool → List UInt8 → Option (List Bool × List UInt8)
  | 0, _, _ => none
  | fuel + 1, bits, out => do
    let (last, bits) ← takeBits 1 bits
    let (sort, bits) ← takeBits 2 bits
    let (bits, out) ← blockOf sort bits out
    if last = 1 then return (bits, out) else blocks fuel bits out

/-- The unpacked data at the start of a byte string, and the bytes after the packed data. -/
def inflate (bytes : List UInt8) : Option (List UInt8 × List UInt8) := do
  let bits := bitsOf bytes
  let (rest, out) ← blocks (bits.length + 1) bits []
  return (out.reverse, bytes.drop (bytes.length - rest.length / 8))

end Blocklist.Gzip
