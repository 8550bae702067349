/-!
Byte strings as bits, least significant bit first, and canonical prefix codes given by the length of each
symbol's word. Shorter words come first, and words of one length are in the order of their symbols.
-/

namespace Blocklist.Gzip

def byteBits (b : UInt8) : List Bool := (List.range 8).map fun i => b.toNat.testBit i

def bitsOf (bytes : List UInt8) : List Bool := bytes.flatMap byteBits

/-- The number in the next `count` bits, and the bits after them. -/
def takeBits : Nat → List Bool → Option (Nat × List Bool)
  | 0, bits => some (0, bits)
  | _ + 1, [] => none
  | count + 1, b :: bits => (takeBits count bits).map fun r => (b.toNat + 2 * r.1, r.2)

/-- The bits from the next byte boundary on. -/
def align (bits : List Bool) : List Bool := bits.drop (bits.length % 8)

/-- The next `count` numbers of `width` bits each, and the bits after them. -/
def takeGroups (width : Nat) : Nat → List Bool → Option (List Nat × List Bool)
  | 0, bits => some ([], bits)
  | count + 1, bits => do
    let (n, bits) ← takeBits width bits
    let (ns, bits) ← takeGroups width count bits
    return (n :: ns, bits)

def littleEndian : List UInt8 → Nat
  | [] => 0
  | b :: bs => b.toNat + 256 * littleEndian bs

/-- A prefix code: how many words have each length from 1 to 15, and the symbols in code order. -/
structure Huffman where
  counts : List Nat
  symbols : List Nat
  deriving Repr

namespace Huffman

def symbolsOfLength (lengths : List Nat) (length : Nat) : List Nat :=
  (lengths.zipIdx.filter fun e => e.1 == length).map (·.2)

/-- The share of all words that the given lengths use up, in parts of 32768. -/
def usedSpace (lengths : List Nat) : Nat :=
  lengths.foldr (fun l used => (if l = 0 then 0 else Nat.pow 2 (15 - l)) + used) 0

/-- The code with these word lengths; zero stands for a symbol without a word. A code of two words or
more has to be complete. -/
def ofLengths? (lengths : List Nat) : Option Huffman :=
  let perLength := ((List.range 15).map (· + 1)).map (symbolsOfLength lengths)
  let symbols := perLength.flatten
  if symbols.length ≤ 1 || usedSpace lengths = 32768 then
    some ⟨perLength.map List.length, symbols⟩
  else none

/-- The place in code order of the next word: `code` is the word so far, `first` the first word of the
length at hand, and `place` the place of that word. -/
def placeFrom : List Nat → Nat → Nat → Nat → List Bool → Option (Nat × List Bool)
  | [], _, _, _, _ => none
  | _, _, _, _, [] => none
  | count :: counts, code, first, place, bit :: bits =>
    let code := code + bit.toNat
    if code < first + count then some (place + (code - first), bits)
    else placeFrom counts (2 * code) (2 * (first + count)) (place + count) bits

def next? (h : Huffman) (bits : List Bool) : Option (Nat × List Bool) := do
  let (place, bits) ← placeFrom h.counts 0 0 0 bits
  return (← h.symbols[place]?, bits)

end Huffman

end Blocklist.Gzip
