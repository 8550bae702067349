import Blocklist.Text.Basic

/-!
Numbers read back from their digits. Main statements: the value of the decimal digits of a number is the
number, digits are found in front of anything that is no digit, and so it is with hexadecimal digits.
-/

namespace Blocklist.Text

theorem digits_append {ds rest : List Char} (all : ∀ c ∈ ds, c.isDigit = true)
    (stop : digits rest = []) : digits (ds ++ rest) = ds := by
  rw [digits, List.takeWhile_append_of_pos all, ← digits, stop, List.append_nil]

theorem isBlank_of_isDigit {c : Char} (digit : c.isDigit = true) : isBlank c = false := by
  simp only [Char.isDigit, Bool.and_eq_true, decide_eq_true_eq, ge_iff_le] at digit
  have low : 48 ≤ c.toNat := digit.1
  have high : c.toNat ≤ 57 := digit.2
  simp only [isBlank, Bool.or_eq_false_iff, Bool.and_eq_false_iff, decide_eq_false_iff_not,
    beq_eq_false_iff_ne]
  omega

theorem digitsValue_concat (ds : List Char) (d : Char) :
    digitsValue (ds ++ [d]) = 10 * digitsValue ds + (d.toNat - 48) := by
  simp only [digitsValue, List.foldl_append, List.foldl_cons, List.foldl_nil]

theorem digitsValue_natText (n : Nat) : digitsValue (natText n) = n := Nat.ofDigitChars_ten_toDigits

theorem isDigit_natText (n : Nat) : ∀ c ∈ natText n, c.isDigit = true :=
  fun _ member => Nat.isDigit_of_mem_toDigits (by decide) (by decide) member

theorem natText_ne_nil (n : Nat) : natText n ≠ [] := Nat.toDigits_ne_nil

/-- Only zero is written with a zero in front. -/
theorem head?_natText {n : Nat} (positive : 0 < n) : (natText n).head? ≠ some '0' := by
  induction n using Nat.strongRecOn with
  | ind n ih =>
    rw [natText, Nat.toDigits_eq_if (by decide)]
    by_cases small : n < 10
    · rw [if_pos small, List.head?_cons]
      intro zero
      have nothing : n = 0 := Nat.digitChar_eq_zero.mp (Option.some.inj zero)
      omega
    · have earlier := ih (n / 10) (by omega) (by omega)
      rw [if_neg small, List.head?_append, ← natText]
      cases first : (natText (n / 10)).head? with
      | none => exact absurd (List.head?_eq_none_iff.mp first) (natText_ne_nil _)
      | some d =>
        rw [first] at earlier
        rw [Option.some_or]
        exact earlier

theorem digitsValue_zeros (count : Nat) (ds : List Char) :
    digitsValue (List.replicate count '0' ++ ds) = digitsValue ds := by
  change Nat.ofDigitChars 10 _ 0 = Nat.ofDigitChars 10 _ 0
  rw [Nat.ofDigitChars_append, Nat.ofDigitChars_replicate_zero, Nat.mul_zero]

theorem isDigit_digit {k : Nat} (small : k < 10) : (Char.ofNat (48 + k)).isDigit = true := by
  revert small
  revert k
  decide

theorem toNat_digit {k : Nat} (small : k < 10) : (Char.ofNat (48 + k)).toNat - 48 = k := by
  revert small
  revert k
  decide

theorem length_fixedDigits (width n : Nat) : (fixedDigits width n).length = width := by
  induction width generalizing n with
  | zero => rfl
  | succ width ih => rw [fixedDigits, List.length_append, ih, List.length_singleton]

theorem isDigit_fixedDigits (width n : Nat) : ∀ c ∈ fixedDigits width n, c.isDigit = true := by
  induction width generalizing n with
  | zero => simp [fixedDigits]
  | succ width ih =>
    intro c member
    rcases List.mem_append.mp member with earlier | last
    · exact ih (n / 10) c earlier
    · rw [List.mem_singleton.mp last]
      exact isDigit_digit (Nat.mod_lt _ (by decide))

theorem digitsValue_fixedDigits {width n : Nat} (fits : n < Nat.pow 10 width) :
    digitsValue (fixedDigits width n) = n := by
  induction width generalizing n with
  | zero =>
    have nothing : n = 0 := Nat.lt_one_iff.mp fits
    rw [nothing]
    rfl
  | succ width ih =>
    have shorter : n / 10 < Nat.pow 10 width := by
      have bound : n < Nat.pow 10 width * 10 := fits
      omega
    rw [fixedDigits, digitsValue_concat, ih shorter, toNat_digit (Nat.mod_lt _ (by decide))]
    omega

theorem hexValue?_hexDigit {k : Nat} (small : k < 16) : hexValue? (hexDigit k) = some k := by
  revert small
  revert k
  decide

end Blocklist.Text
