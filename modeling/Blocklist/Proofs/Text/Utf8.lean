import Blocklist.Text.Utf8

/-!
Characters read back from their bytes. Main statements: the encoding of a text is decoded to that text, it
is the one that strings are kept in, and where decoding succeeds nothing has to be repaired.
-/

namespace Blocklist.Text

theorem between_iff (low high : UInt8) {b : UInt8} :
    (decide (low ≤ b) && decide (b ≤ high)) = true ↔
      low.toNat ≤ b.toNat ∧ b.toNat ≤ high.toNat := by
  rw [Bool.and_eq_true, decide_eq_true_eq, decide_eq_true_eq, UInt8.le_iff_toNat_le,
    UInt8.le_iff_toNat_le]

theorem not_between (low high : UInt8) {b : UInt8} (above : high.toNat < b.toNat) :
    ¬ (decide (low ≤ b) && decide (b ≤ high)) = true := by
  rw [between_iff]
  exact fun within => absurd within.2 (Nat.not_le.mpr above)

section
variable {b c d e : UInt8} (rest : List UInt8)

theorem decodeStep_one (lead : b.toNat < 0x80) :
    decodeStep b rest = (1, some (Char.ofNat b.toNat)) := by
  have ascii : b < 0x80 := lead
  unfold decodeStep
  rw [if_pos ascii]

theorem decodeStep_two (lead : 0xC2 ≤ b.toNat ∧ b.toNat ≤ 0xDF) (second : isTail c = true) :
    decodeStep b (c :: rest) =
      (2, some (Char.ofNat ((b.toNat - 0xC0) * 0x40 + tailBits c))) := by
  have ascii : ¬ b < 0x80 := Nat.not_lt.mpr (Nat.le_trans (by decide) lead.1)
  unfold decodeStep
  rw [if_neg ascii, if_pos ((between_iff 0xC2 0xDF).mpr lead)]
  exact if_pos second

theorem decodeStep_three (lead : 0xE0 ≤ b.toNat ∧ b.toNat ≤ 0xEF)
    (second : secondOfThree b c = true) (third : isTail d = true) :
    decodeStep b (c :: d :: rest) =
      (3, some (Char.ofNat ((b.toNat - 0xE0) * 0x1000 + tailBits c * 0x40 + tailBits d))) := by
  have ascii : ¬ b < 0x80 := Nat.not_lt.mpr (Nat.le_trans (by decide) lead.1)
  have two := not_between 0xC2 0xDF (Nat.lt_of_lt_of_le (by decide) lead.1)
  unfold decodeStep
  rw [if_neg ascii, if_neg two, if_pos ((between_iff 0xE0 0xEF).mpr lead)]
  exact (if_pos second).trans (if_pos third)

theorem decodeStep_four (lead : 0xF0 ≤ b.toNat ∧ b.toNat ≤ 0xF4)
    (second : secondOfFour b c = true) (third : isTail d = true) (fourth : isTail e = true) :
    decodeStep b (c :: d :: e :: rest) =
      (4, some (Char.ofNat ((b.toNat - 0xF0) * 0x40000 + tailBits c * 0x1000 +
        tailBits d * 0x40 + tailBits e))) := by
  have ascii : ¬ b < 0x80 := Nat.not_lt.mpr (Nat.le_trans (by decide) lead.1)
  have two := not_between 0xC2 0xDF (Nat.lt_of_lt_of_le (by decide) lead.1)
  have three := not_between 0xE0 0xEF (Nat.lt_of_lt_of_le (by decide) lead.1)
  unfold decodeStep
  rw [if_neg ascii, if_neg two, if_neg three, if_pos ((between_iff 0xF0 0xF4).mpr lead)]
  exact (if_pos second).trans ((if_pos third).trans (if_pos fourth))

end

theorem toNat_toUInt8 {n : Nat} (small : n < 256) : n.toUInt8.toNat = n :=
  UInt8.toNat_ofNat_of_lt' small

/-- A continuing byte carries six bits, whatever they are. -/
theorem isTail_six (k : Nat) : isTail (0x80 + k % 0x40).toUInt8 = true := by
  have below := Nat.mod_lt k (show 0 < 0x40 by decide)
  apply (between_iff _ _).mpr
  rw [toNat_toUInt8 (by omega)]
  change 0x80 ≤ 0x80 + k % 0x40 ∧ 0x80 + k % 0x40 ≤ 0xBF
  omega

theorem tailBits_six (k : Nat) : tailBits (0x80 + k % 0x40).toUInt8 = k % 0x40 := by
  have below := Nat.mod_lt k (show 0 < 0x40 by decide)
  have value : (0x80 + k % 0x40).toUInt8.toNat = 0x80 + k % 0x40 := toNat_toUInt8 (by omega)
  unfold tailBits
  omega

/-- A continuing byte may be the second one unless the first one is the lowest or the highest. -/
theorem second_of {first second : UInt8} (low high least most : UInt8) (tail : isTail second = true)
    (afterLow : first = low → least.toNat ≤ second.toNat)
    (afterHigh : first = high → second.toNat ≤ most.toNat) :
    (if first = low then decide (least ≤ second) && decide (second ≤ 0xBF)
      else if first = high then decide (0x80 ≤ second) && decide (second ≤ most)
      else isTail second) = true := by
  have bounds := (between_iff 0x80 0xBF).mp tail
  split
  next lowest => exact (between_iff least 0xBF).mpr ⟨afterLow lowest, bounds.2⟩
  next =>
    split
    next highest => exact (between_iff 0x80 most).mpr ⟨bounds.1, afterHigh highest⟩
    next => exact tail

/-- Three bytes neither spell a number that two can spell nor half of a surrogate pair. -/
theorem secondOfThree_of {n : Nat} (least : 0x800 ≤ n) (most : n < 0x10000)
    (whole : n < 0xD800 ∨ 0xDFFF < n) :
    secondOfThree (0xE0 + n / 0x1000).toUInt8 (0x80 + n / 0x40 % 0x40).toUInt8 = true := by
  have first : (0xE0 + n / 0x1000).toUInt8.toNat = 0xE0 + n / 0x1000 := toNat_toUInt8 (by omega)
  have second : (0x80 + n / 0x40 % 0x40).toUInt8.toNat = 0x80 + n / 0x40 % 0x40 :=
    toNat_toUInt8 (by omega)
  refine second_of 0xE0 0xED 0xA0 0x9F (isTail_six (n / 0x40)) ?_ ?_
  · intro lowest
    have same : 0xE0 + n / 0x1000 = 0xE0 := first.symm.trans (congrArg UInt8.toNat lowest)
    change 0xA0 ≤ _
    omega
  · intro highest
    have same : 0xE0 + n / 0x1000 = 0xED := first.symm.trans (congrArg UInt8.toNat highest)
    change _ ≤ 0x9F
    omega

/-- Four bytes neither spell a number that three can spell nor one beyond the last character. -/
theorem secondOfFour_of {n : Nat} (least : 0x10000 ≤ n) (most : n < 0x110000) :
    secondOfFour (0xF0 + n / 0x40000).toUInt8 (0x80 + n / 0x1000 % 0x40).toUInt8 = true := by
  have first : (0xF0 + n / 0x40000).toUInt8.toNat = 0xF0 + n / 0x40000 := toNat_toUInt8 (by omega)
  have second : (0x80 + n / 0x1000 % 0x40).toUInt8.toNat = 0x80 + n / 0x1000 % 0x40 :=
    toNat_toUInt8 (by omega)
  refine second_of 0xF0 0xF4 0x90 0x8F (isTail_six (n / 0x1000)) ?_ ?_
  · intro lowest
    have same : 0xF0 + n / 0x40000 = 0xF0 := first.symm.trans (congrArg UInt8.toNat lowest)
    change 0x90 ≤ _
    omega
  · intro highest
    have same : 0xF0 + n / 0x40000 = 0xF4 := first.symm.trans (congrArg UInt8.toNat highest)
    change _ ≤ 0x8F
    omega

/-- A character is read back from its own bytes, whatever follows them. -/
theorem decodeStep_encodeChar (c : Char) :
    ∃ b tail, encodeChar c = b :: tail ∧
      ∀ rest, decodeStep b (tail ++ rest) = (tail.length + 1, some c) := by
  have valid : c.toNat < 0xD800 ∨ 0xDFFF < c.toNat ∧ c.toNat < 0x110000 := c.valid
  have back : ∀ m, m = c.toNat → Char.ofNat m = c := by
    rintro m rfl
    exact Char.ofNat_toNat c
  unfold encodeChar
  generalize c.toNat = n at valid back
  dsimp only
  split
  next small =>
    have first : n.toUInt8.toNat = n := toNat_toUInt8 (by omega)
    refine ⟨_, _, rfl, fun rest => ?_⟩
    rw [List.nil_append, decodeStep_one rest (by omega), back _ first]
    rfl
  next =>
  split
  next =>
    have first : (0xC0 + n / 0x40).toUInt8.toNat = 0xC0 + n / 0x40 := toNat_toUInt8 (by omega)
    refine ⟨_, _, rfl, fun rest => ?_⟩
    rw [List.singleton_append, decodeStep_two rest (by omega) (isTail_six n), first, tailBits_six,
      back _ (by omega)]
    rfl
  next =>
  split
  next =>
    have first : (0xE0 + n / 0x1000).toUInt8.toNat = 0xE0 + n / 0x1000 := toNat_toUInt8 (by omega)
    have second := secondOfThree_of (n := n) (by omega) (by omega) (by omega)
    refine ⟨_, _, rfl, fun rest => ?_⟩
    rw [List.cons_append, List.singleton_append,
      decodeStep_three rest (by omega) second (isTail_six n), first, tailBits_six, tailBits_six,
      back _ (by omega)]
    rfl
  next =>
    have first : (0xF0 + n / 0x40000).toUInt8.toNat = 0xF0 + n / 0x40000 :=
      toNat_toUInt8 (by omega)
    have second := secondOfFour_of (n := n) (by omega) (by omega)
    refine ⟨_, _, rfl, fun rest => ?_⟩
    rw [List.cons_append, List.cons_append, List.singleton_append,
      decodeStep_four rest (by omega) second (isTail_six _) (isTail_six n), first, tailBits_six,
      tailBits_six, tailBits_six, back _ (by omega)]
    rfl

theorem decode?_encodeChar (c : Char) (bytes : List UInt8) :
    decode? (encodeChar c ++ bytes) = (decode? bytes).map (c :: ·) := by
  obtain ⟨b, tail, spelled, step⟩ := decodeStep_encodeChar c
  rw [spelled, List.cons_append, decode?, step]
  dsimp only
  rw [Nat.add_sub_cancel, List.drop_left]

theorem decode?_encode (cs : List Char) : decode? (encode cs) = some cs := by
  induction cs with
  | nil => rw [encode, List.flatMap_nil, decode?]
  | cons c cs ih =>
    rw [encode, List.flatMap_cons, ← encode, decode?_encodeChar, ih, Option.map_some]

/-- Where every byte belongs to a character there is nothing to repair. -/
theorem repair_of_decode? {bytes : List UInt8} {cs : List Char} (decoded : decode? bytes = some cs) :
    repair bytes = cs := by
  fun_induction decode? bytes generalizing cs
  case case1 =>
    rw [repair]
    exact Option.some.inj decoded
  case case2 b rest step c read ih =>
    obtain ⟨later, found, rfl⟩ := Option.map_eq_some_iff.mp decoded
    rw [repair, ih found]
    exact congrArg (Option.getD · replacement :: later) read
  case case3 => cases decoded

theorem encodeChar_eq (c : Char) : encodeChar c = String.utf8EncodeChar c := by
  have limit : c.val.toNat < 0x110000 := by
    rcases c.valid with low | high
    · exact Nat.lt_trans low (by decide)
    · exact high.2
  unfold encodeChar String.utf8EncodeChar Char.toNat
  generalize c.val.toNat = n at limit
  dsimp only
  by_cases one : n < 0x80
  · rw [if_pos one, if_pos (show n ≤ 127 by omega)]
  by_cases two : n < 0x800
  · have lead : 0xC0 + n / 0x40 = n / 64 % 32 + 192 := by omega
    rw [if_neg one, if_pos two, if_neg (show ¬ n ≤ 127 by omega), if_pos (show n ≤ 2047 by omega),
      lead, Nat.add_comm 0x80]
  by_cases three : n < 0x10000
  · have lead : 0xE0 + n / 0x1000 = n / 4096 % 16 + 224 := by omega
    rw [if_neg one, if_neg two, if_pos three, if_neg (show ¬ n ≤ 127 by omega),
      if_neg (show ¬ n ≤ 2047 by omega), if_pos (show n ≤ 65535 by omega), lead,
      Nat.add_comm 0x80, Nat.add_comm 0x80]
  · have lead : 0xF0 + n / 0x40000 = n / 262144 % 8 + 240 := by omega
    rw [if_neg one, if_neg two, if_neg three, if_neg (show ¬ n ≤ 127 by omega),
      if_neg (show ¬ n ≤ 2047 by omega), if_neg (show ¬ n ≤ 65535 by omega), lead,
      Nat.add_comm 0x80, Nat.add_comm 0x80, Nat.add_comm 0x80]

/-- The bytes of a text are those that a string keeps. -/
theorem encode_toList (s : String) : encode s.toList = s.toUTF8.data.toList := by
  have encoded : s.toUTF8 = s.toList.utf8Encode := String.utf8Encode_toList.symm
  rw [encoded, List.utf8Encode, List.toList_data_toByteArray, encode, funext encodeChar_eq]

end Blocklist.Text
