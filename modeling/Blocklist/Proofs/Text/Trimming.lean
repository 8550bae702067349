import Blocklist.Text.Basic
import Mathlib.Data.List.DropRight

/-!
Trimming. A text is trimmed when a blank neither begins nor ends it. Main statements: trimming gives a
trimmed text and leaves a trimmed one alone, and blanks at either end do not change what it gives.
-/

namespace Blocklist.Text

theorem trimRight_eq_rdropWhile (cs : List Char) : trimRight cs = cs.rdropWhile isBlank := rfl

/-- Dropping trailing blanks uncovers no leading ones. -/
theorem trimLeft_trimRight {cs : List Char} (clean : trimLeft cs = cs) :
    trimLeft (trimRight cs) = trimRight cs := by
  have first : ∀ inside : 0 < cs.length, ¬isBlank cs[0] = true := List.dropWhile_eq_self_iff.mp clean
  rw [trimRight_eq_rdropWhile]
  apply List.dropWhile_eq_self_iff.mpr
  intro inside
  have shorter := List.rdropWhile_prefix isBlank (l := cs)
  have longer : 0 < cs.length := Nat.lt_of_lt_of_le inside shorter.length_le
  rw [shorter.getElem inside]
  exact first longer

theorem trim_trim (cs : List Char) : trim (trim cs) = trim cs := by
  have clean : trimLeft (trimLeft cs) = trimLeft cs := List.dropWhile_idempotent isBlank _
  calc
    trim (trim cs) = trimRight (trimLeft (trimRight (trimLeft cs))) := rfl
    _ = trimRight (trimRight (trimLeft cs)) := by rw [trimLeft_trimRight clean]
    _ = trimRight (trimLeft cs) := List.rdropWhile_idempotent isBlank _

theorem length_trimRight_le (cs : List Char) : (trimRight cs).length ≤ cs.length :=
  (List.rdropWhile_prefix isBlank (l := cs)).length_le

theorem length_trim_le (cs : List Char) : (trim cs).length ≤ cs.length :=
  calc
    (trim cs).length ≤ (trimLeft cs).length := length_trimRight_le (trimLeft cs)
    _ ≤ cs.length := (List.dropWhile_suffix isBlank).length_le

theorem trim_eq_nil_iff (cs : List Char) : trim cs = [] ↔ ∀ c ∈ cs, isBlank c = true := by
  rw [trim, trimRight_eq_rdropWhile, List.rdropWhile_eq_nil_iff, ← List.dropWhile_eq_nil_iff,
    trimLeft, List.dropWhile_idempotent, List.dropWhile_eq_nil_iff]

section
variable {before after : List Char}

theorem trimRight_append (cs : List Char) (blank : ∀ c ∈ after, isBlank c = true) :
    trimRight (cs ++ after) = trimRight cs := by
  have turned : ∀ c ∈ after.reverse, isBlank c = true := fun c member =>
    blank c (List.mem_reverse.mp member)
  rw [trimRight, trimRight, List.reverse_append, List.dropWhile_append_of_pos turned]

theorem trim_append (cs : List Char) (blank : ∀ c ∈ after, isBlank c = true) :
    trim (cs ++ after) = trim cs := by
  rw [trim, trim, trimLeft, trimLeft, List.dropWhile_append]
  cases visible : cs.dropWhile isBlank with
  | nil =>
    have nothing : after.dropWhile isBlank = [] := List.dropWhile_eq_nil_iff.mpr blank
    rw [List.isEmpty_nil, if_pos rfl, nothing]
  | cons c rest =>
    rw [List.isEmpty_cons, if_neg (by decide)]
    exact trimRight_append (c :: rest) blank

/-- Blanks at either end of a text do not change what is left of it. -/
theorem trim_padded (cs : List Char) (blank : ∀ c ∈ before, isBlank c = true)
    (blankToo : ∀ c ∈ after, isBlank c = true) : trim (before ++ (cs ++ after)) = trim cs := by
  have left : trim (before ++ (cs ++ after)) = trim (cs ++ after) := by
    rw [trim, trim, trimLeft, trimLeft, List.dropWhile_append_of_pos blank]
  rw [left, trim_append cs blankToo]

end

/-- Trimming keeps a first character that is not blank. -/
theorem trim_cons {c : Char} (visible : isBlank c = false) (cs : List Char) :
    ∃ rest, trim (c :: cs) = c :: rest := by
  have left : trimLeft (c :: cs) = c :: cs := by
    rw [trimLeft, List.dropWhile_cons_of_neg (by simp [visible])]
  have starts : trimRight (c :: cs) <+: c :: cs := List.rdropWhile_prefix isBlank (l := c :: cs)
  rw [trim, left]
  cases kept : trimRight (c :: cs) with
  | nil =>
    have all := List.rdropWhile_eq_nil_iff.mp kept c List.mem_cons_self
    rw [visible] at all
    cases all
  | cons d rest =>
    rw [kept] at starts
    obtain ⟨rfl, -⟩ := List.cons_prefix_cons.mp starts
    exact ⟨rest, rfl⟩

end Blocklist.Text
