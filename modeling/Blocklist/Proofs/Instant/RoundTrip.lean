import Blocklist.Instant.Text
import Blocklist.Proofs.Text.Digits

/-!
Instants read back from their text. Main statement: the text that is written for an instant names that
instant, leap seconds and years of more or fewer than four digits included.
-/

namespace Blocklist.Instant

open Text

variable {rest : List Char}

theorem trimLeft_cons {c : Char} (visible : isBlank c = false) :
    trimLeft (c :: rest) = c :: rest :=
  List.dropWhile_cons_of_neg (by simp [visible])

theorem trimLeft_digits {ds : List Char} (all : ∀ c ∈ ds, c.isDigit = true) (filled : ds ≠ []) :
    trimLeft (ds ++ rest) = ds ++ rest := by
  cases ds with
  | nil => exact absurd rfl filled
  | cons d ds => exact trimLeft_cons (isBlank_of_isDigit (all d List.mem_cons_self))

/-- A number in as many digits as may be read. -/
theorem readNumber_fixedDigits {width n : Nat} (digit : 0 < width) (fits : n < Nat.pow 10 width)
    (stop : digits rest = []) : readNumber width (fixedDigits width n ++ rest) = some (n, rest) := by
  have all := isDigit_fixedDigits width n
  have length := length_fixedDigits width n
  have filled : fixedDigits width n ≠ [] := by
    rw [← List.length_pos_iff, length]
    exact digit
  have taken : (fixedDigits width n).take width = fixedDigits width n :=
    List.take_of_length_le (Nat.le_of_eq length)
  simp only [readNumber]
  rw [trimLeft_digits all filled, digits_append all stop, taken, if_neg (by simpa using filled),
    digitsValue_fixedDigits fits, List.drop_left]

theorem readMark_cons {mark : Char} (visible : isBlank mark = false) :
    readMark mark (mark :: rest) = some rest := by
  rw [readMark, trimLeft_cons visible]
  exact if_pos rfl

/-- Without a sign, a year is a number of four digits. -/
theorem readYear_digits {ds : List Char} (all : ∀ c ∈ ds, c.isDigit = true) (filled : ds ≠ []) :
    readYear (ds ++ rest) = (readNumber 4 (ds ++ rest)).map fun r => ((r.1 : Int), r.2) := by
  cases ds with
  | nil => exact absurd rfl filled
  | cons d ds =>
    have digit := all d List.mem_cons_self
    unfold readYear
    rw [trimLeft_digits all filled, List.cons_append]
    split
    next minus => cases minus; cases digit
    next plus => cases plus; cases digit
    next => rfl

/-- After a sign, a year has any number of digits. -/
theorem readYear_signed {n zeros : Nat} (stop : digits rest = []) :
    readYear ('-' :: (List.replicate zeros '0' ++ natText n) ++ rest) = some (-(n : Int), rest) ∧
      readYear ('+' :: (List.replicate zeros '0' ++ natText n) ++ rest) = some ((n : Int), rest) := by
  have all : ∀ c ∈ List.replicate zeros '0' ++ natText n, c.isDigit = true := by
    intro c member
    rcases List.mem_append.mp member with zero | digit
    · rw [List.eq_of_mem_replicate zero]
      rfl
    · exact isDigit_natText n c digit
  have found := digits_append all stop
  have filled : (List.replicate zeros '0' ++ natText n).isEmpty = false := by
    simp [natText_ne_nil n]
  have value : digitsValue (List.replicate zeros '0' ++ natText n) = n := by
    rw [digitsValue_zeros, digitsValue_natText]
  unfold readYear
  constructor
  · rw [List.cons_append, trimLeft_cons (by decide)]
    simp only [found, filled, value, List.drop_left, Bool.false_eq_true, if_false, Int.neg_one_mul]
  · rw [List.cons_append, trimLeft_cons (by decide)]
    simp only [found, filled, value, List.drop_left, Bool.false_eq_true, if_false, Int.one_mul]

theorem readYear_yearText (year : Int) (stop : digits rest = []) :
    readYear (yearText year ++ rest) = some (year, rest) := by
  unfold yearText
  by_cases short : (0 ≤ year && year ≤ 9999) = true
  · rw [if_pos short]
    rw [Bool.and_eq_true, decide_eq_true_eq, decide_eq_true_eq] at short
    have four : Nat.pow 10 4 = 10000 := rfl
    have fits : year.toNat < Nat.pow 10 4 := by omega
    have filled : fixedDigits 4 year.toNat ≠ [] := by
      rw [← List.length_pos_iff, length_fixedDigits]
      decide
    rw [readYear_digits (isDigit_fixedDigits _ _) filled, readNumber_fixedDigits (by decide) fits stop,
      Option.map_some, Int.toNat_of_nonneg short.1]
  · rw [if_neg short]
    rw [Bool.and_eq_true, decide_eq_true_eq, decide_eq_true_eq] at short
    by_cases before : year < 0
    · have value : -(year.natAbs : Int) = year := by omega
      simp only [if_pos before, List.cons_append]
      rw [← List.cons_append, (readYear_signed stop).1, value]
    · have value : (year.natAbs : Int) = year := by omega
      simp only [if_neg before, List.cons_append]
      rw [← List.cons_append, (readYear_signed stop).2, value]

theorem readFraction_fixedDigits {width n : Nat} (digit : 0 < width) (atMost : width ≤ 9)
    (fits : n < Nat.pow 10 width) (stop : digits rest = []) :
    readFraction ('.' :: fixedDigits width n ++ rest) = some (n * Nat.pow 10 (9 - width), rest) := by
  have length := length_fixedDigits width n
  have found := digits_append (isDigit_fixedDigits width n) stop
  have filled : (fixedDigits width n).isEmpty = false := by
    rw [List.isEmpty_eq_false_iff, ← List.length_pos_iff, length]
    exact digit
  have taken : (fixedDigits width n).take 9 = fixedDigits width n :=
    List.take_of_length_le (Nat.le_trans (Nat.le_of_eq length) atMost)
  rw [List.cons_append, readFraction]
  simp only [found, filled, taken, digitsValue_fixedDigits fits, Bool.false_eq_true, if_false,
    length]
  rw [List.drop_left' length]

/-- As many digits as are written lose nothing of the fraction. -/
theorem readFraction_fractionText {nano : Nat} (fits : nano ≤ 999999999) :
    readFraction (fractionText nano ++ ['Z']) = some (nano, ['Z']) := by
  have stop : digits ['Z'] = [] := rfl
  unfold fractionText
  by_cases whole : nano = 0
  · rw [if_pos whole, whole]
    rfl
  · rw [if_neg whole]
    by_cases milli : nano % 1000000 = 0
    · have few : nano / 1000000 < Nat.pow 10 3 := by
        show nano / 1000000 < 1000
        omega
      have exact_ : nano / 1000000 * 1000000 = nano :=
        Nat.div_mul_cancel (Nat.dvd_of_mod_eq_zero milli)
      rw [if_pos milli, readFraction_fixedDigits (by decide) (by decide) few stop]
      exact congrArg (fun n => some (n, ['Z'])) exact_
    · rw [if_neg milli]
      by_cases micro : nano % 1000 = 0
      · have few : nano / 1000 < Nat.pow 10 6 := by
          show nano / 1000 < 1000000
          omega
        have exact_ : nano / 1000 * 1000 = nano :=
          Nat.div_mul_cancel (Nat.dvd_of_mod_eq_zero micro)
        rw [if_pos micro, readFraction_fixedDigits (by decide) (by decide) few stop]
        exact congrArg (fun n => some (n, ['Z'])) exact_
      · have few : nano < Nat.pow 10 9 := Nat.lt_succ_of_le fits
        rw [if_neg micro, readFraction_fixedDigits (by decide) (by decide) few stop]
        exact congrArg (fun n => some (n, ['Z'])) (Nat.mul_one nano)

theorem digits_fractionText (nano : Nat) : digits (fractionText nano ++ ['Z']) = [] := by
  unfold fractionText
  split
  · rfl
  · split
    · rfl
    · split <;> rfl

theorem ofFields?_date (d : Date) : Date.ofFields? d.year d.month d.day = some d :=
  dif_pos ⟨d.year_range, d.month_range, d.day_range⟩

theorem ofFields?_eq (t : Instant) :
    ofFields? t.date t.hour t.minute t.second t.nano = some t :=
  dif_pos ⟨t.hour_range, t.minute_range, t.second_range, t.nano_range⟩

theorem minusMinutes?_zero (t : Instant) : t.minusMinutes? 0 = some t := by
  have hour := t.hour_range
  have minute := t.minute_range
  have total : ((t.hour : Int) * 60 + t.minute - 0).toNat = t.hour * 60 + t.minute := by omega
  have hours : (t.hour * 60 + t.minute) / 60 = t.hour := by omega
  have minutes : (t.hour * 60 + t.minute) % 60 = t.minute := by omega
  simp only [minusMinutes?]
  rw [if_neg (by omega), if_neg (by omega), Option.bind_some, total, hours, minutes]
  exact ofFields?_eq t

theorem daysInMonth_le (year : Int) (month : Nat) : daysInMonth year month ≤ 31 := by
  unfold daysInMonth
  split
  · split <;> decide
  · split <;> decide

theorem read?_write (t : Instant) : read? t.write = some t := by
  obtain ⟨-, lastMonth⟩ := t.date.month_range
  obtain ⟨-, lastDay⟩ := t.date.day_range
  have longest := daysInMonth_le t.date.year t.date.month
  have hours := t.hour_range
  have minutes := t.minute_range
  have seconds := t.second_range
  have two : Nat.pow 10 2 = 100 := rfl
  have zone : readOffset (trimLeft ['Z']) = some (0, []) := rfl
  have next : ∀ {α β : Type} (a : α) (f : α → Option β), (some a >>= f) = f a := fun _ _ => rfl
  unfold write read?
  simp only [List.append_assoc, List.cons_append]
  rw [readYear_yearText _ rfl, next, readMark_cons (by decide), next,
    readNumber_fixedDigits (by decide) (by omega) rfl, next, readMark_cons (by decide), next,
    readNumber_fixedDigits (by decide) (by omega) rfl, next, readDayEnd, next,
    readNumber_fixedDigits (by decide) (by omega) rfl, next, readMark_cons (by decide), next,
    readNumber_fixedDigits (by decide) (by omega) rfl, next, readMark_cons (by decide), next,
    readNumber_fixedDigits (by decide) (by omega) (digits_fractionText t.nano), next,
    readFraction_fractionText t.nano_range, next, zone, next]
  dsimp only
  rw [if_neg (by decide), ofFields?_date, next, ofFields?_eq, next]
  exact minusMinutes?_zero t

end Blocklist.Instant
