import Blocklist.Proofs.Text.Trimming
import Blocklist.Text.Basic

/-!
Pieces between separators, and lines. Main statements: the two sides of a separator are cut each on its
own, and lines written one after the other are read back, but for a carriage return at the end of one.
-/

namespace Blocklist.Text

theorem splitAt_ne_nil (sep : Char) (cs : List Char) : splitAt sep cs ≠ [] := by
  cases cs with
  | nil => simp [splitAt]
  | cons c cs =>
    rw [splitAt]
    split
    · simp
    · split <;> simp

theorem splitAt_eq_cons (sep : Char) (cs : List Char) :
    ∃ piece pieces, splitAt sep cs = piece :: pieces :=
  List.exists_cons_of_ne_nil (splitAt_ne_nil sep cs)

theorem splitAt_cons_of_ne {c : Char} {cs piece : List Char} {pieces : List (List Char)}
    (other : c ≠ sep) (cut : splitAt sep cs = piece :: pieces) :
    splitAt sep (c :: cs) = (c :: piece) :: pieces := by
  rw [splitAt, if_neg other, cut]

theorem splitAt_append (sep : Char) (before after : List Char) :
    splitAt sep (before ++ sep :: after) = splitAt sep before ++ splitAt sep after := by
  induction before with
  | nil => rw [List.nil_append, splitAt, splitAt, if_pos rfl, List.singleton_append]
  | cons c before ih =>
    rw [List.cons_append, splitAt, splitAt, ih]
    by_cases here : c = sep
    · rw [if_pos here, if_pos here, List.cons_append]
    · obtain ⟨piece, pieces, cut⟩ := splitAt_eq_cons sep before
      rw [if_neg here, if_neg here, cut]
      rfl

theorem splitAt_single {sep : Char} {piece : List Char} (single : sep ∉ piece) :
    splitAt sep piece = [piece] := by
  induction piece with
  | nil => rfl
  | cons c piece ih =>
    rw [List.mem_cons, not_or] at single
    rw [splitAt, if_neg (Ne.symm single.1), ih single.2]

theorem splitAt_flatMap (sep : Char) (written : List (List Char)) :
    splitAt sep (written.flatMap fun line => line ++ [sep]) =
      written.flatMap (splitAt sep) ++ [[]] := by
  induction written with
  | nil => rfl
  | cons line written ih =>
    rw [List.flatMap_cons, List.flatMap_cons, List.append_assoc, List.singleton_append,
      splitAt_append, ih, List.append_assoc]

theorem mem_joinWith {sep : List Char} {pieces : List (List Char)} {c : Char}
    (member : c ∈ joinWith sep pieces) : c ∈ sep ∨ ∃ piece ∈ pieces, c ∈ piece := by
  induction pieces with
  | nil => cases member
  | cons piece pieces ih =>
    cases pieces with
    | nil => exact .inr ⟨piece, List.mem_cons_self, member⟩
    | cons next pieces =>
      rw [joinWith, List.mem_append, List.mem_append] at member
      · rcases member with (first | between) | later
        · exact .inr ⟨piece, List.mem_cons_self, first⟩
        · exact .inl between
        · rcases ih later with between | ⟨other, listed, within⟩
          · exact .inl between
          · exact .inr ⟨other, List.mem_cons_of_mem piece listed, within⟩
      · exact List.cons_ne_nil next pieces

theorem occursIn_append (before pattern after : List Char) :
    occursIn pattern (before ++ (pattern ++ after)) = true := by
  induction before with
  | nil =>
    have starts : pattern.isPrefixOf (pattern ++ after) = true :=
      List.isPrefixOf_iff_prefix.mpr (List.prefix_append pattern after)
    cases spelled : pattern ++ after with
    | nil =>
      rw [List.append_eq_nil_iff] at spelled
      rw [spelled.1]
      rfl
    | cons c cs =>
      rw [spelled] at starts
      rw [List.nil_append, occursIn, starts, Bool.true_or]
  | cons c before ih => rw [List.cons_append, occursIn, ih, Bool.or_true]

/-- Lines written one after the other are read back, but for carriage returns at their ends. -/
theorem lines_flatMap {written : List (List Char)} (oneLine : ∀ line ∈ written, '\n' ∉ line) :
    lines (written.flatMap fun line => line ++ ['\n']) = written.map dropReturn := by
  induction written with
  | nil => rfl
  | cons line written ih =>
    rw [List.forall_mem_cons] at oneLine
    have later := ih oneLine.2
    rw [lines] at later ⊢
    rw [List.flatMap_cons, List.append_assoc, List.singleton_append, splitAt_append,
      splitAt_single oneLine.1, List.singleton_append, List.map_cons, ← later]
    obtain ⟨piece, pieces, cut⟩ :=
      splitAt_eq_cons '\n' (written.flatMap fun line => line ++ ['\n'])
    rw [cut]
    rfl

/-- A carriage return at the end is dropped, and nothing else is. -/
theorem dropReturn_cases (cs : List Char) : dropReturn cs = cs ∨ cs = dropReturn cs ++ ['\r'] := by
  unfold dropReturn
  split
  next rest ends =>
    right
    rw [← List.reverse_cons, ← ends, List.reverse_reverse]
  next => exact .inl rfl

theorem trim_dropReturn (cs : List Char) : trim (dropReturn cs) = trim cs := by
  rcases dropReturn_cases cs with same | ended
  · rw [same]
  · have blank : ∀ c ∈ ['\r'], isBlank c = true := List.forall_mem_singleton.mpr rfl
    rw [ended, trim_append _ blank, ← ended]

theorem dropReturn_of_trim {cs : List Char} (trimmed : trim cs = cs) : dropReturn cs = cs := by
  rcases dropReturn_cases cs with same | ended
  · exact same
  · -- A carriage return is blank, so trimming would drop it.
    have shorter := length_trim_le (dropReturn cs)
    have longer := congrArg List.length ended
    rw [trim_dropReturn, trimmed] at shorter
    rw [List.length_append, List.length_singleton] at longer
    omega

theorem dropReturn_cons {c : Char} (other : c ≠ '\r') (cs : List Char) :
    ∃ rest, dropReturn (c :: cs) = c :: rest := by
  rcases dropReturn_cases (c :: cs) with same | ended
  · exact ⟨cs, same⟩
  · cases kept : dropReturn (c :: cs) with
    | nil =>
      rw [kept, List.nil_append, List.cons.injEq] at ended
      exact absurd ended.1 other
    | cons d rest =>
      rw [kept, List.cons_append, List.cons.injEq] at ended
      exact ⟨rest, by rw [ended.1]⟩

/-- What is read from the lines of a text is what is read from its pieces, as long as nothing is read from
an empty one and no carriage return at an end counts. -/
theorem filterMap_lines {α : Type} {read : List Char → Option α} (nothing : read [] = none)
    (ended : ∀ cs, read (dropReturn cs) = read cs) (cs : List Char) :
    (lines cs).filterMap read = (splitAt '\n' cs).filterMap read := by
  rw [lines]
  induction splitAt '\n' cs with
  | nil => rfl
  | cons piece pieces ih =>
    cases pieces with
    | nil =>
      cases piece with
      | nil => rw [List.filterMap_cons_none nothing]; rfl
      | cons c piece => rfl
    | cons next pieces =>
      rw [linesOfPieces, List.filterMap_cons, List.filterMap_cons, ended, ih]
      exact List.cons_ne_nil next pieces

end Blocklist.Text
