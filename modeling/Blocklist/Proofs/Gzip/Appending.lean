import Blocklist.Gzip.Member
import Mathlib.Data.List.Basic

/-!
Bits and bytes behind packed data. What reads packed data looks at nothing behind it, and hands it back as
it was. Main statement: a member that stands at the start of a byte string is read alike whatever bytes
are put behind the string.
-/

namespace Blocklist.Gzip

section
variable {bits rest : List Bool} (more : List Bool)

theorem takeBits_append {count n : Nat} (read : takeBits count bits = some (n, rest)) :
    takeBits count (bits ++ more) = some (n, rest ++ more) := by
  induction count generalizing bits n with
  | zero =>
    cases read
    rfl
  | succ count ih =>
    cases bits with
    | nil => cases read
    | cons b bits =>
      rw [takeBits] at read
      obtain ⟨⟨m, left⟩, taken, same⟩ := Option.map_eq_some_iff.mp read
      cases same
      rw [List.cons_append, takeBits, ih taken]
      rfl

theorem takeGroups_append {width count : Nat} {ns : List Nat}
    (read : takeGroups width count bits = some (ns, rest)) :
    takeGroups width count (bits ++ more) = some (ns, rest ++ more) := by
  induction count generalizing bits ns with
  | zero =>
    cases read
    rfl
  | succ count ih =>
    rw [takeGroups] at read
    obtain ⟨⟨n, left⟩, first, read⟩ := Option.bind_eq_some_iff.mp read
    obtain ⟨⟨ns, left⟩, later, read⟩ := Option.bind_eq_some_iff.mp read
    cases read
    simp only [takeGroups, takeBits_append more first, ih later, Option.bind_eq_bind, Option.bind_some]
    rfl

theorem placeFrom_append {counts : List Nat} {code first place symbol : Nat}
    (read : Huffman.placeFrom counts code first place bits = some (symbol, rest)) :
    Huffman.placeFrom counts code first place (bits ++ more) = some (symbol, rest ++ more) := by
  induction counts generalizing bits code first place with
  | nil => cases read
  | cons count counts ih =>
    cases bits with
    | nil => cases read
    | cons bit bits =>
      rw [Huffman.placeFrom] at read
      rw [List.cons_append, Huffman.placeFrom]
      split at read
      next word =>
        cases read
        rw [if_pos word]
      next longer =>
        rw [if_neg longer]
        exact ih read

theorem next?_append {code : Huffman} {symbol : Nat} (read : code.next? bits = some (symbol, rest)) :
    code.next? (bits ++ more) = some (symbol, rest ++ more) := by
  rw [Huffman.next?] at read
  obtain ⟨⟨place, left⟩, word, read⟩ := Option.bind_eq_some_iff.mp read
  obtain ⟨s, named, read⟩ := Option.bind_eq_some_iff.mp read
  cases read
  simp only [Huffman.next?, placeFrom_append more word, named, Option.bind_eq_bind, Option.bind_some]
  rfl

theorem takeExtra_append {table : List (Nat × Nat)} {symbol n : Nat}
    (read : takeExtra table symbol bits = some (n, rest)) :
    takeExtra table symbol (bits ++ more) = some (n, rest ++ more) := by
  rw [takeExtra] at read
  obtain ⟨⟨base, extra⟩, entry, read⟩ := Option.bind_eq_some_iff.mp read
  obtain ⟨⟨m, left⟩, taken, read⟩ := Option.bind_eq_some_iff.mp read
  cases read
  simp only [takeExtra, entry, takeBits_append more taken, Option.bind_eq_bind, Option.bind_some]
  rfl

/-- More symbols may be allowed for than are there. -/
theorem codedBlock_append {literals distances : Huffman} {fuel enough : Nat} {out data : List UInt8}
    (fits : fuel ≤ enough)
    (read : codedBlock literals distances fuel bits out = some (rest, data)) :
    codedBlock literals distances enough (bits ++ more) out = some (rest ++ more, data) := by
  induction fuel generalizing bits out enough with
  | zero => cases read
  | succ fuel ih =>
    obtain ⟨enough, rfl⟩ := Nat.exists_eq_add_of_le' (Nat.le_trans (Nat.le_add_left 1 fuel) fits)
    have still : fuel ≤ enough := Nat.le_of_succ_le_succ fits
    rw [codedBlock] at read
    obtain ⟨⟨symbol, left⟩, named, read⟩ := Option.bind_eq_some_iff.mp read
    rw [codedBlock]
    simp only [next?_append more named, Option.bind_eq_bind, Option.bind_some]
    dsimp only at read
    split at read
    next literal =>
      rw [if_pos literal]
      exact ih still read
    next notLiteral =>
      rw [if_neg notLiteral]
      split at read
      next mark =>
        cases read
        rw [if_pos mark]
        rfl
      next repeated =>
        rw [if_neg repeated]
        obtain ⟨⟨count, left⟩, long, read⟩ := Option.bind_eq_some_iff.mp read
        obtain ⟨⟨symbol, left⟩, named, read⟩ := Option.bind_eq_some_iff.mp read
        obtain ⟨⟨distance, left⟩, far, read⟩ := Option.bind_eq_some_iff.mp read
        simp only [takeExtra_append more long, next?_append more named, takeExtra_append more far,
          Option.bind_some]
        exact ih still read

theorem codedLengths_append {code : Huffman} {total fuel : Nat} {lengths all : List Nat}
    (read : codedLengths code total fuel bits lengths = some (rest, all)) :
    codedLengths code total fuel (bits ++ more) lengths = some (rest ++ more, all) := by
  induction fuel generalizing bits lengths with
  | zero => cases read
  | succ fuel ih =>
    rw [codedLengths] at read ⊢
    split at read
    next => cases read
    next within =>
      rw [if_neg within]
      split at read
      next complete =>
        cases read
        rw [if_pos complete]
      next incomplete =>
        rw [if_neg incomplete]
        obtain ⟨⟨symbol, left⟩, named, read⟩ := Option.bind_eq_some_iff.mp read
        simp only [next?_append more named, Option.bind_eq_bind, Option.bind_some]
        dsimp only at read
        split at read
        next own =>
          rw [if_pos own]
          exact ih read
        next notOwn =>
          rw [if_neg notOwn]
          split at read
          next again =>
            rw [if_pos again]
            obtain ⟨last, known, read⟩ := Option.bind_eq_some_iff.mp read
            obtain ⟨⟨count, left⟩, taken, read⟩ := Option.bind_eq_some_iff.mp read
            simp only [known, takeBits_append more taken, Option.bind_some]
            exact ih read
          next notAgain =>
            rw [if_neg notAgain]
            split at read
            next few =>
              rw [if_pos few]
              obtain ⟨⟨count, left⟩, taken, read⟩ := Option.bind_eq_some_iff.mp read
              simp only [takeBits_append more taken, Option.bind_some]
              exact ih read
            next many =>
              rw [if_neg many]
              obtain ⟨⟨count, left⟩, taken, read⟩ := Option.bind_eq_some_iff.mp read
              simp only [takeBits_append more taken, Option.bind_some]
              exact ih read

theorem ownCodes_append {literals distances : Huffman}
    (read : ownCodes bits = some (literals, distances, rest)) :
    ownCodes (bits ++ more) = some (literals, distances, rest ++ more) := by
  rw [ownCodes] at read
  obtain ⟨⟨literalCount, left⟩, first, read⟩ := Option.bind_eq_some_iff.mp read
  obtain ⟨⟨distanceCount, left⟩, second, read⟩ := Option.bind_eq_some_iff.mp read
  obtain ⟨⟨lengthCount, left⟩, third, read⟩ := Option.bind_eq_some_iff.mp read
  rw [ownCodes]
  simp only [takeBits_append more first, takeBits_append more second, takeBits_append more third,
    Option.bind_eq_bind, Option.bind_some]
  dsimp only at read
  split at read
  next => cases read
  next allowed =>
    rw [if_neg allowed]
    obtain ⟨⟨given, left⟩, triples, read⟩ := Option.bind_eq_some_iff.mp read
    obtain ⟨code, built, read⟩ := Option.bind_eq_some_iff.mp read
    obtain ⟨⟨left, latestFirst⟩, coded, read⟩ := Option.bind_eq_some_iff.mp read
    obtain ⟨l, literal, read⟩ := Option.bind_eq_some_iff.mp read
    obtain ⟨d, distance, read⟩ := Option.bind_eq_some_iff.mp read
    cases read
    simp only [takeGroups_append more triples, built, codedLengths_append more coded, literal, distance,
      Option.bind_some]
    rfl

section
variable (whole : 8 ∣ more.length)
include whole

/-- Whole bytes behind the bits do not move the next byte boundary. -/
theorem align_append : align (bits ++ more) = align bits ++ more := by
  have boundary : (bits ++ more).length % 8 = bits.length % 8 := by
    rw [List.length_append]
    omega
  rw [align, boundary, List.drop_append_of_le_length (Nat.mod_le _ _), align]

theorem storedBlock_append {out data : List UInt8} (read : storedBlock bits out = some (rest, data)) :
    storedBlock (bits ++ more) out = some (rest ++ more, data) := by
  rw [storedBlock] at read
  obtain ⟨⟨size, left⟩, first, read⟩ := Option.bind_eq_some_iff.mp read
  obtain ⟨⟨complement, left⟩, second, read⟩ := Option.bind_eq_some_iff.mp read
  rw [storedBlock, align_append more whole]
  simp only [takeBits_append more first, takeBits_append more second, Option.bind_eq_bind,
    Option.bind_some]
  dsimp only at read
  split at read
  next fits =>
    obtain ⟨⟨bytes, left⟩, taken, read⟩ := Option.bind_eq_some_iff.mp read
    cases read
    simp only [if_pos fits, takeGroups_append more taken, Option.bind_some]
    rfl
  next => cases read

theorem blockOf_append {sort : Nat} {out data : List UInt8}
    (read : blockOf sort bits out = some (rest, data)) :
    blockOf sort (bits ++ more) out = some (rest ++ more, data) := by
  have longer : bits.length + 1 ≤ (bits ++ more).length + 1 := by
    rw [List.length_append]
    omega
  unfold blockOf at read ⊢
  split at read
  next stored =>
    rw [if_pos stored]
    exact storedBlock_append more whole read
  next notStored =>
    rw [if_neg notStored]
    split at read
    next fixed =>
      rw [if_pos fixed]
      obtain ⟨literals, built, read⟩ := Option.bind_eq_some_iff.mp read
      obtain ⟨distances, builtToo, read⟩ := Option.bind_eq_some_iff.mp read
      simp only [built, builtToo, Option.bind_eq_bind, Option.bind_some]
      exact codedBlock_append more longer read
    next notFixed =>
      rw [if_neg notFixed]
      split at read
      next own =>
        rw [if_pos own]
        obtain ⟨⟨literals, distances, left⟩, brought, read⟩ := Option.bind_eq_some_iff.mp read
        have fewer : left.length + 1 ≤ (left ++ more).length + 1 := by
          rw [List.length_append]
          omega
        simp only [ownCodes_append more brought, Option.bind_eq_bind, Option.bind_some]
        exact codedBlock_append more fewer read
      next => cases read

/-- More blocks may be allowed for than are there. -/
theorem blocks_append {fuel enough : Nat} {out data : List UInt8} (fits : fuel ≤ enough)
    (read : blocks fuel bits out = some (rest, data)) :
    blocks enough (bits ++ more) out = some (rest ++ more, data) := by
  induction fuel generalizing bits out enough with
  | zero => cases read
  | succ fuel ih =>
    obtain ⟨enough, rfl⟩ := Nat.exists_eq_add_of_le' (Nat.le_trans (Nat.le_add_left 1 fuel) fits)
    have still : fuel ≤ enough := Nat.le_of_succ_le_succ fits
    rw [blocks] at read
    obtain ⟨⟨last, left⟩, first, read⟩ := Option.bind_eq_some_iff.mp read
    obtain ⟨⟨sort, left⟩, second, read⟩ := Option.bind_eq_some_iff.mp read
    obtain ⟨⟨left, grown⟩, block, read⟩ := Option.bind_eq_some_iff.mp read
    rw [blocks]
    simp only [takeBits_append more first, takeBits_append more second, blockOf_append more whole block,
      Option.bind_eq_bind, Option.bind_some]
    dsimp only at read
    split at read
    next final =>
      cases read
      rw [if_pos final]
      rfl
    next further =>
      rw [if_neg further]
      exact ih still read

end

end

theorem length_bitsOf (bytes : List UInt8) : (bitsOf bytes).length = 8 * bytes.length := by
  induction bytes with
  | nil => rfl
  | cons b bytes ih =>
    have eight : (byteBits b).length = 8 := by rw [byteBits, List.length_map, List.length_range]
    rw [bitsOf, List.flatMap_cons, List.length_append, eight, ← bitsOf, ih, List.length_cons]
    omega

section
variable {bytes rest data : List UInt8} (more : List UInt8)

theorem inflate_append (read : inflate bytes = some (data, rest)) :
    inflate (bytes ++ more) = some (data, rest ++ more) := by
  have bits : bitsOf (bytes ++ more) = bitsOf bytes ++ bitsOf more := List.flatMap_append
  have whole : 8 ∣ (bitsOf more).length := ⟨more.length, length_bitsOf more⟩
  have longer : (bitsOf bytes).length + 1 ≤ (bitsOf bytes ++ bitsOf more).length + 1 := by
    rw [List.length_append]
    omega
  rw [inflate] at read
  obtain ⟨⟨left, out⟩, unpacked, read⟩ := Option.bind_eq_some_iff.mp read
  cases read
  have place : (bytes ++ more).length - (left ++ bitsOf more).length / 8 =
      bytes.length - left.length / 8 := by
    rw [List.length_append, List.length_append, length_bitsOf]
    omega
  rw [inflate, bits]
  simp only [blocks_append (bitsOf more) whole longer unpacked, Option.bind_eq_bind, Option.bind_some]
  rw [place, List.drop_append_of_le_length (Nat.sub_le _ _)]
  rfl

theorem dropBytes?_append {count : Nat} (read : dropBytes? count bytes = some rest) :
    dropBytes? count (bytes ++ more) = some (rest ++ more) := by
  unfold dropBytes? at read ⊢
  split at read
  next within =>
    cases read
    have still : count ≤ (bytes ++ more).length := by
      rw [List.length_append]
      omega
    rw [if_pos still, List.drop_append_of_le_length within]
  next => cases read

theorem skipExtra_append (read : skipExtra bytes = some rest) :
    skipExtra (bytes ++ more) = some (rest ++ more) := by
  match bytes with
  | [] => cases read
  | [_] => cases read
  | a :: b :: bytes => exact dropBytes?_append more read

/-- The zero that ends a text is in front of what is put behind. -/
theorem skipText_append (read : skipText bytes = some rest) :
    skipText (bytes ++ more) = some (rest ++ more) := by
  have inside : (bytes.takeWhile (· != 0)).length < bytes.length := by
    unfold skipText dropBytes? at read
    dsimp only at read
    split at read
    next => cases read
    next =>
      split at read
      next within => exact within
      next => cases read
  have same : (bytes ++ more).takeWhile (· != 0) = bytes.takeWhile (· != 0) := by
    rw [List.takeWhile_append, if_neg (Nat.ne_of_lt inside)]
  unfold skipText at read ⊢
  rw [same]
  dsimp only at read ⊢
  split at read
  next => cases read
  next short =>
    rw [if_neg short]
    exact dropBytes?_append more read

theorem skipHeaderSum_append {header : List UInt8}
    (read : skipHeaderSum header bytes = some rest) :
    skipHeaderSum (header ++ more) (bytes ++ more) = some (rest ++ more) := by
  match bytes with
  | [] => cases read
  | [_] => cases read
  | a :: b :: bytes =>
    have same : (header ++ more).take ((header ++ more).length - (a :: b :: bytes ++ more).length) =
        header.take (header.length - (a :: b :: bytes).length) := by
      rw [List.length_append, List.length_append, Nat.add_sub_add_right,
        List.take_append_of_le_length (Nat.sub_le _ _)]
    unfold skipHeaderSum at read ⊢
    dsimp only [List.cons_append] at read same ⊢
    rw [same]
    split at read
    next fits =>
      cases read
      rw [if_pos fits]
    next => cases read

theorem skipIf_append {flag : Bool} {step step' : List UInt8 → Option (List UInt8)}
    (leaves : ∀ {bytes rest}, step bytes = some rest → step' (bytes ++ more) = some (rest ++ more))
    (read : skipIf flag step bytes = some rest) :
    skipIf flag step' (bytes ++ more) = some (rest ++ more) := by
  unfold skipIf at read ⊢
  split at read
  next set =>
    rw [if_pos set]
    exact leaves read
  next unset =>
    cases read
    rw [if_neg unset]

theorem skipHeader_append (read : skipHeader bytes = some rest) :
    skipHeader (bytes ++ more) = some (rest ++ more) := by
  unfold skipHeader at read
  split at read
  next flags a b c d e f bytes =>
    dsimp only at read
    split at read
    next => cases read
    next known =>
      obtain ⟨_, extra, read⟩ := Option.bind_eq_some_iff.mp read
      obtain ⟨_, name, read⟩ := Option.bind_eq_some_iff.mp read
      obtain ⟨_, comment, read⟩ := Option.bind_eq_some_iff.mp read
      have further := skipIf_append more (skipExtra_append more) extra
      have named := skipIf_append more (skipText_append more) name
      have commented := skipIf_append more (skipText_append more) comment
      have summed := skipIf_append more (skipHeaderSum_append more) read
      simp only [List.cons_append] at summed ⊢
      rw [skipHeader, if_neg known]
      simp only [further, named, commented, summed, Option.bind_eq_bind, Option.bind_some]
  next => cases read

/-- A member is read alike whatever stands behind it. -/
theorem member?_append (read : member? bytes = some (data, rest)) :
    member? (bytes ++ more) = some (data, rest ++ more) := by
  rw [member?] at read
  obtain ⟨packed, header, read⟩ := Option.bind_eq_some_iff.mp read
  obtain ⟨⟨unpacked, trailer⟩, inflated, read⟩ := Option.bind_eq_some_iff.mp read
  rw [member?]
  simp only [skipHeader_append more header, inflate_append more inflated, Option.bind_eq_bind,
    Option.bind_some]
  dsimp only at read
  split at read
  next =>
    split at read
    next fits =>
      cases read
      simp only [List.cons_append, if_pos fits]
    next => cases read
  next => cases read

end

end Blocklist.Gzip
