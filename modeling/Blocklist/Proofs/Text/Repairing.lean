import Blocklist.Proofs.Text.Lines
import Blocklist.Proofs.Text.Utf8

/-!
Broken bytes and line feeds. A byte that continues no character ends whatever is broken in front of it, and
a line feed is spelled by its own byte only. Main statements: the lines of a repaired text are the repaired
lines of its bytes, and bytes that are put behind the bytes of a text are repaired on their own.
-/

namespace Blocklist.Text

section
variable {first second : UInt8}

/-- What may be the second byte of a character continues one, and after the lowest first byte it is at
least so high that fewer bytes could not spell the character. -/
theorem of_second (low high least most : UInt8) (above : 0x80 ≤ least.toNat)
    (below : most.toNat ≤ 0xBF)
    (allowed : (if first = low then decide (least ≤ second) && decide (second ≤ 0xBF)
      else if first = high then decide (0x80 ≤ second) && decide (second ≤ most)
      else isTail second) = true) :
    isTail second = true ∧ (first = low → least.toNat ≤ second.toNat) := by
  split at allowed
  next =>
    obtain ⟨lower, upper⟩ := (between_iff least 0xBF).mp allowed
    exact ⟨(between_iff 0x80 0xBF).mpr ⟨above.trans lower, upper⟩, fun _ => lower⟩
  next other =>
    refine ⟨?_, fun lowest => absurd lowest other⟩
    split at allowed
    next =>
      obtain ⟨lower, upper⟩ := (between_iff 0x80 most).mp allowed
      exact (between_iff 0x80 0xBF).mpr ⟨lower, upper.trans below⟩
    next => exact allowed

theorem of_secondOfThree (allowed : secondOfThree first second = true) :
    isTail second = true ∧ (first = 0xE0 → 0xA0 ≤ second.toNat) :=
  of_second 0xE0 0xED 0xA0 0x9F (by decide) (by decide) allowed

theorem of_secondOfFour (allowed : secondOfFour first second = true) :
    isTail second = true ∧ (first = 0xF0 → 0x90 ≤ second.toNat) :=
  of_second 0xF0 0xF4 0x90 0x8F (by decide) (by decide) allowed

end

/-- What is decoded together ends before a byte that continues nothing, whether or not it is broken. -/
theorem decodeStep_append {x : UInt8} (starts : isTail x = false) (b : UInt8)
    (rest after : List UInt8) : decodeStep b (rest ++ x :: after) = decodeStep b rest := by
  have notTail : ¬isTail x = true := Bool.eq_false_iff.mp starts
  have three : secondOfThree b x = false :=
    Bool.eq_false_iff.mpr fun allowed => notTail (of_secondOfThree allowed).1
  have four : secondOfFour b x = false :=
    Bool.eq_false_iff.mpr fun allowed => notTail (of_secondOfFour allowed).1
  -- For each kind of first byte, the bytes that are there may be too few; then `x` is no help.
  unfold decodeStep
  split
  · rfl
  split
  · match rest with
    | [] => simp only [List.nil_append, starts, Bool.false_eq_true, if_false]
    | c :: rest => rfl
  split
  · match rest with
    | [] => simp only [List.nil_append, three, Bool.false_eq_true, if_false]
    | [c] => simp only [List.cons_append, List.nil_append, starts, Bool.false_eq_true, if_false]
    | c :: d :: rest => rfl
  split
  · match rest with
    | [] => simp only [List.nil_append, four, Bool.false_eq_true, if_false]
    | [c] => simp only [List.cons_append, List.nil_append, starts, Bool.false_eq_true, if_false]
    | [c, d] => simp only [List.cons_append, List.nil_append, starts, Bool.false_eq_true, if_false]
    | c :: d :: e :: rest => rfl
  · rfl

theorem decodeStep_within (b : UInt8) (rest : List UInt8) :
    (decodeStep b rest).1 - 1 ≤ rest.length := by
  fun_cases decodeStep b rest <;> simp

/-- More bytes behind change a step only where all the bytes that are there begin a character and do not
complete it. -/
theorem decodeStep_extended (b : UInt8) (rest more : List UInt8) :
    decodeStep b (rest ++ more) = decodeStep b rest ∨
      (decodeStep b rest).2 = none ∧ (decodeStep b rest).1 - 1 = rest.length := by
  unfold decodeStep
  split
  · exact .inl rfl
  split
  · match rest with
    | [] => exact .inr ⟨rfl, rfl⟩
    | c :: rest => exact .inl rfl
  split
  · match rest with
    | [] => exact .inr ⟨rfl, rfl⟩
    | [c] =>
      by_cases second : secondOfThree b c = true
      · exact .inr (by simp only [second, if_true, List.length_singleton, and_self])
      · exact .inl (by simp only [List.singleton_append, if_neg second])
    | c :: d :: rest => exact .inl rfl
  split
  · match rest with
    | [] => exact .inr ⟨rfl, rfl⟩
    | [c] =>
      by_cases second : secondOfFour b c = true
      · exact .inr (by simp only [second, if_true, List.length_singleton, and_self])
      · exact .inl (by simp only [List.singleton_append, if_neg second])
    | [c, d] =>
      by_cases second : secondOfFour b c = true
      · by_cases third : isTail d = true
        · exact .inr (by simp only [second, third, if_true, List.length_cons, List.length_nil, and_self])
        · exact .inl (by simp only [List.cons_append, if_neg third])
      · exact .inl (by simp only [List.cons_append, if_neg second])
    | c :: d :: e :: rest => exact .inl rfl
  · exact .inl rfl

/-- Two or more bytes do not spell what one byte can spell. -/
theorem decodeStep_high {b : UInt8} {rest : List UInt8} {c : Char} (lead : ¬b < 0x80)
    (read : (decodeStep b rest).2 = some c) : ∃ n, 0x80 ≤ n ∧ c = Char.ofNat n := by
  revert read
  fun_cases decodeStep b rest <;> intro read <;>
    simp only [Option.some.injEq, reduceCtorEq] at read
  case case1 ascii => exact absurd ascii lead
  case case2 _ two _ _ _ =>
    have bounds := (between_iff 0xC2 0xDF).mp two
    change 0xC2 ≤ b.toNat ∧ _ at bounds
    exact ⟨_, by omega, read.symm⟩
  case case5 _ _ three second allowed _ _ _ =>
    have bounds := (between_iff 0xE0 0xEF).mp three
    change 0xE0 ≤ b.toNat ∧ _ at bounds
    have least : b.toNat = 0xE0 → 0xA0 ≤ second.toNat := fun lowest =>
      (of_secondOfThree allowed).2 (UInt8.toNat_inj.mp lowest)
    unfold tailBits at read
    exact ⟨_, by omega, read.symm⟩
  case case10 _ _ _ four second allowed _ _ _ _ _ =>
    have bounds := (between_iff 0xF0 0xF4).mp four
    change 0xF0 ≤ b.toNat ∧ _ at bounds
    have least : b.toNat = 0xF0 → 0x90 ≤ second.toNat := fun lowest =>
      (of_secondOfFour allowed).2 (UInt8.toNat_inj.mp lowest)
    unfold tailBits at read
    exact ⟨_, by omega, read.symm⟩

theorem ofNat_eq_feed {n : Nat} (same : Char.ofNat n = '\n') : n = 0x0A := by
  by_cases valid : n.isValidChar
  · rw [Char.ofNat, dif_pos valid] at same
    exact congrArg Char.toNat same
  · rw [Char.ofNat, dif_neg valid] at same
    cases same

theorem eq_feed_of_decodeStep {b : UInt8} {rest : List UInt8}
    (read : (decodeStep b rest).2 = some '\n') : b = 0x0A := by
  by_cases ascii : b < 0x80
  · rw [decodeStep_one rest ascii, Option.some.injEq] at read
    exact UInt8.toNat_inj.mp (ofNat_eq_feed read)
  · obtain ⟨n, high, same⟩ := decodeStep_high ascii read
    have value := ofNat_eq_feed same.symm
    omega

theorem repair_eq_nil_iff {bytes : List UInt8} : repair bytes = [] ↔ bytes = [] := by
  cases bytes with
  | nil => exact iff_of_true (by rw [repair]) rfl
  | cons b bytes =>
    rw [repair]
    exact iff_of_false (List.cons_ne_nil _ _) (List.cons_ne_nil _ _)

/-- Repairing starts afresh at a byte that continues nothing. -/
theorem repair_append {x : UInt8} (starts : isTail x = false) (before after : List UInt8) :
    repair (before ++ x :: after) = repair before ++ repair (x :: after) := by
  fun_induction repair before with
  | case1 => rfl
  | case2 b rest step ih =>
    rw [List.cons_append, repair, decodeStep_append starts,
      List.drop_append_of_le_length (decodeStep_within b rest), ih]
    rfl

/-- A text is over where its bytes are over, whatever bytes follow. -/
theorem repair_append_of_decode? {bytes : List UInt8} {cs : List Char}
    (decoded : decode? bytes = some cs) (more : List UInt8) :
    repair (bytes ++ more) = cs ++ repair more := by
  fun_induction decode? bytes generalizing cs
  case case1 =>
    cases decoded
    rfl
  case case2 b rest step c read ih =>
    obtain ⟨later, found, rfl⟩ := Option.map_eq_some_iff.mp decoded
    have same : decodeStep b (rest ++ more) = step := by
      rcases decodeStep_extended b rest more with same | ⟨broken, -⟩
      · exact same
      · cases read.symm.trans broken
    rw [List.cons_append, repair, same, List.drop_append_of_le_length (decodeStep_within b rest),
      ih found]
    exact congrArg (Option.getD · replacement :: (later ++ repair more)) read
  case case3 => cases decoded

/-- Characters do not get fewer when bytes are put behind. -/
theorem length_repair_le (bytes more : List UInt8) :
    (repair bytes).length ≤ (repair (bytes ++ more)).length := by
  fun_induction repair bytes with
  | case1 => exact Nat.zero_le _
  | case2 b rest step ih =>
    rw [List.cons_append, repair, List.length_cons, List.length_cons]
    apply Nat.succ_le_succ
    rcases decodeStep_extended b rest more with same | ⟨-, all⟩
    · rw [same, List.drop_append_of_le_length (decodeStep_within b rest)]
      exact ih
    · rw [show step.1 - 1 = rest.length from all, List.drop_length, repair]
      exact Nat.zero_le _

/-- A byte that continues nothing adds a character. -/
theorem length_repair_lt {more : List UInt8} {x : UInt8} (present : x ∈ more)
    (starts : isTail x = false) (bytes : List UInt8) :
    (repair bytes).length < (repair (bytes ++ more)).length := by
  obtain ⟨before, after, rfl⟩ := List.append_of_mem present
  have shorter := length_repair_le bytes before
  rw [← List.append_assoc, repair_append starts, List.length_append, repair, List.length_cons]
  omega

theorem repair_append_feed (before after : List UInt8) :
    repair (before ++ 0x0A :: after) = repair before ++ '\n' :: repair after := by
  have feed : repair (0x0A :: after) = '\n' :: repair after := by
    rw [repair]
    rfl
  rw [repair_append (by decide), feed]

theorem feed_not_mem_repair {bytes : List UInt8} (absent : 0x0A ∉ bytes) :
    '\n' ∉ repair bytes := by
  fun_induction repair bytes with
  | case1 => exact List.not_mem_nil
  | case2 b rest step ih =>
    rw [List.mem_cons, not_or] at absent ⊢
    refine ⟨fun same => ?_, ih fun later => absent.2 (List.mem_of_mem_drop later)⟩
    cases read : step.2 with
    | none =>
      rw [read] at same
      cases same
    | some c =>
      rw [read, Option.getD_some] at same
      rw [← same] at read
      exact absent.1 (eq_feed_of_decodeStep read).symm

/-- The lines of a repaired text are those of its bytes, each repaired on its own. -/
theorem splitAt_repair (bytes : List UInt8) :
    splitAt '\n' (repair bytes) = (bytes.splitOn 0x0A).map repair := by
  induction size : bytes.length using Nat.strong_induction_on generalizing bytes with
  | _ count ih =>
    by_cases present : 0x0A ∈ bytes
    · obtain ⟨line, later, rfl, absent⟩ := List.eq_append_cons_of_mem present
      have shorter : later.length < count := by
        rw [← size, List.length_append, List.length_cons]
        omega
      calc
        splitAt '\n' (repair (line ++ 0x0A :: later))
        _ = splitAt '\n' (repair line) ++ splitAt '\n' (repair later) := by
          rw [repair_append_feed, splitAt_append]
        _ = repair line :: (later.splitOn 0x0A).map repair := by
          rw [splitAt_single (feed_not_mem_repair absent), ih later.length shorter later rfl,
            List.singleton_append]
        _ = ((line ++ 0x0A :: later).splitOn 0x0A).map repair := by
          rw [List.splitOn_append_cons_self_of_not_mem absent, List.map_cons]
    · rw [splitAt_single (feed_not_mem_repair present), List.splitOn_eq_singleton present,
        List.map_singleton]

end Blocklist.Text
