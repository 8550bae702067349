import Blocklist.Proofs.Intake.Pieces

/-!
How a list is laid out. Lines may end in a line feed or in a carriage return and a line feed, the last one
in neither; blanks may stand around them, and blank lines, comments and section headers between them.
Main statement: nothing of that shows in what taking the list in gives.
-/

namespace Blocklist

/-- What a line ends in. -/
inductive LineEnd where
  | feed
  | returnFeed

namespace LineEnd

/-- What stands between the line and the line feed. -/
def mark : LineEnd → List Char
  | feed => []
  | returnFeed => ['\r']

theorem mark_isBlank (ending : LineEnd) : ∀ c ∈ ending.mark, Text.isBlank c = true := by
  cases ending with
  | feed => exact List.forall_mem_nil _
  | returnFeed => exact List.forall_mem_singleton.mpr rfl

theorem feed_not_mem_mark (ending : LineEnd) : '\n' ∉ ending.mark := by
  cases ending <;> decide

end LineEnd

namespace Layout

/-- Holds of blanks that stay on one line. -/
def IsPadding (cs : List Char) : Prop := ∀ c ∈ cs, Text.isBlank c = true ∧ c ≠ '\n'

/-- Holds of a line that is blank, a comment or a section header. -/
def IsNoise (line : List Char) : Prop := ∀ c ∈ (Text.trim line).head?, c = '!' ∨ c = '['

instance (cs : List Char) : Decidable (IsPadding cs) := List.decidableBAll _ cs

instance (line : List Char) : Decidable (IsNoise line) :=
  Option.decidableForallMem (Text.trim line).head?

/-- Holds of lines and the same lines with blanks around them and noise between them. -/
inductive Dressed : List (List Char) → List (List Char) → Prop where
  | nil : Dressed [] []
  | line {lines dressed : List (List Char)} (before line after : List Char)
    (padding : IsPadding before) (paddingToo : IsPadding after) (rest : Dressed lines dressed) :
    Dressed (line :: lines) ((before ++ (line ++ after)) :: dressed)
  | noise {lines dressed : List (List Char)} (line : List Char) (single : '\n' ∉ line)
    (noise : IsNoise line) (rest : Dressed lines dressed) : Dressed lines (line :: dressed)

/-- Lines with their ends as one text; the last line has its end only where the text is closed. -/
def text (closed : Bool) : List (List Char × LineEnd) → List Char
  | [] => []
  | [(line, ending)] => if closed then line ++ ending.mark ++ ['\n'] else line
  | (line, ending) :: next :: rest => line ++ ending.mark ++ '\n' :: text closed (next :: rest)

variable {lines dressed : List (List Char)}

/-- Dressing puts no line feed into a line. -/
theorem Dressed.single (layout : Dressed lines dressed) (single : ∀ line ∈ lines, '\n' ∉ line) :
    ∀ line ∈ dressed, '\n' ∉ line := by
  induction layout with
  | nil => exact single
  | line before line after padding paddingToo rest ih =>
    rw [List.forall_mem_cons] at single ⊢
    refine ⟨?_, ih single.2⟩
    rw [List.mem_append, List.mem_append]
    rintro (inside | inside | inside)
    · exact (padding '\n' inside).2 rfl
    · exact single.1 inside
    · exact (paddingToo '\n' inside).2 rfl
  | noise line oneLine noise rest ih =>
    rw [List.forall_mem_cons]
    exact ⟨oneLine, ih single⟩

end Layout

namespace Intake

open Layout

section
variable (source : Source) (now : Instant)

theorem candidate?_padded {before after : List Char} (line : List Char) (padding : IsPadding before)
    (paddingToo : IsPadding after) :
    candidate? source now (before ++ (line ++ after)) = candidate? source now line :=
  candidate?_congr source now
    (Text.trim_padded line (fun c member => (padding c member).1) fun c member => (paddingToo c member).1)

theorem candidate?_noise {line : List Char} (noise : IsNoise line) :
    candidate? source now line = none := by
  have plain : Rule.isRuleLine (Text.trim line) = false := by
    unfold IsNoise at noise
    cases left : Text.trim line with
    | nil => rfl
    | cons c rest =>
      rw [left, List.head?_cons] at noise
      rcases noise c rfl with rfl | rfl
      · rfl
      · rfl
  rw [candidate?, Rule.classify, plain, if_neg (by decide), Option.map_none]

/-- Blanks around lines and noise between them give no candidates and take none away. -/
theorem filterMap_dressed {lines dressed : List (List Char)} (layout : Dressed lines dressed) :
    dressed.filterMap (candidate? source now) = lines.filterMap (candidate? source now) := by
  induction layout with
  | nil => rfl
  | line before line after padding paddingToo rest ih =>
    rw [List.filterMap_cons, List.filterMap_cons, ih,
      candidate?_padded source now line padding paddingToo]
  | noise line single noise rest ih =>
    rw [List.filterMap_cons_none (candidate?_noise source now noise), ih]

theorem candidates_single {line : List Char} (single : '\n' ∉ line) :
    candidates source now line = [line].filterMap (candidate? source now) := by
  rw [candidates_eq_pieces, Text.splitAt_single single]

/-- Lines with line feeds between them have the candidates of each. -/
theorem candidates_lines {lines : List (List Char)} (single : ∀ line ∈ lines, '\n' ∉ line) :
    candidates source now (Text.joinWith ['\n'] lines) =
      lines.filterMap (candidate? source now) := by
  have each : lines.flatMap (candidates source now) =
      lines.flatMap fun line => [line].filterMap (candidate? source now) :=
    List.flatMap_congr fun line member => candidates_single source now (single line member)
  rw [candidates_joinWith, each, ← List.filterMap_flatMap, List.flatMap_singleton']

theorem candidates_ended {line : List Char} (ending : LineEnd) (single : '\n' ∉ line) :
    candidates source now (line ++ ending.mark) = [line].filterMap (candidate? source now) := by
  have oneLine : '\n' ∉ line ++ ending.mark := by
    rw [List.mem_append, not_or]
    exact ⟨single, ending.feed_not_mem_mark⟩
  have same : candidate? source now (line ++ ending.mark) = candidate? source now line :=
    candidate?_congr source now (Text.trim_append line ending.mark_isBlank)
  rw [candidates_single source now oneLine, List.filterMap_cons, List.filterMap_cons, same]

/-- The candidates of a text are those of the lines that it was made of, whatever their ends. -/
theorem candidates_text (closed : Bool) {written : List (List Char × LineEnd)}
    (single : ∀ line ∈ written.map Prod.fst, '\n' ∉ line) :
    candidates source now (text closed written) =
      (written.map Prod.fst).filterMap (candidate? source now) := by
  induction written with
  | nil => rfl
  | cons first rest ih =>
    obtain ⟨line, ending⟩ := first
    rw [List.map_cons, List.forall_mem_cons] at single
    cases rest with
    | nil =>
      cases closed with
      | true =>
        have nothing : candidates source now [] = [] := rfl
        rw [text, if_pos rfl, candidates_append, candidates_ended source now ending single.1, nothing,
          List.append_nil]
        rfl
      | false => exact candidates_single source now single.1
    | cons next rest =>
      rw [text, candidates_append, candidates_ended source now ending single.1, ih single.2,
        ← List.filterMap_append]
      rfl

end

/-- What taking in a list gives does not depend on how its lines end, on blanks around them, or on blank
lines, comments and section headers between them. -/
theorem takeBody_dressed {σ : Type} [RecordStore σ] (source : Source) (now : Instant) (seen : Names)
    (store : σ) (closed : Bool) {lines : List (List Char)} {written : List (List Char × LineEnd)}
    (single : ∀ line ∈ lines, '\n' ∉ line) (layout : Dressed lines (written.map Prod.fst)) :
    takeBody source now (text closed written) seen store =
      takeBody source now (Text.joinWith ['\n'] lines) seen store := by
  have same : candidates source now (text closed written) =
      candidates source now (Text.joinWith ['\n'] lines) := by
    rw [candidates_text source now closed (layout.single single), filterMap_dressed source now layout,
      candidates_lines source now single]
  rw [takeBody, takeBody, same]

/-- Two rules between blanks, a header, a comment and blank lines, with both ends of lines. -/
def dressedLines : List (List Char × LineEnd) :=
  [("[Adblock Plus]".toList, .returnFeed), ("\t||a.com^\u3000".toList, .returnFeed),
    ("\u0085".toList, .feed), (" ! more".toList, .returnFeed), ("\u00a0||b.com^".toList, .returnFeed)]

theorem takeBody_dressed_twoRules :
    (∀ line ∈ ["||a.com^".toList, "||b.com^".toList], '\n' ∉ line) ∧
      Dressed ["||a.com^".toList, "||b.com^".toList] (dressedLines.map Prod.fst) ∧
      (takeBody (.ofCategory "ads" .advertising) (Date.sampled 0).start (text false dressedLines) .empty
        ({} : Store)).outcome = .ok (2, ⟨2, 0, 0, 0⟩) := by
  have single : ∀ line ∈ ["||a.com^".toList, "||b.com^".toList], '\n' ∉ line := by decide
  have layout : Dressed ["||a.com^".toList, "||b.com^".toList] (dressedLines.map Prod.fst) := by
    refine .noise _ (by decide) (by decide) ?_
    refine .line ['\t'] _ ['\u3000'] (by decide) (by decide) ?_
    refine .noise _ (by decide) (by decide) ?_
    refine .noise _ (by decide) (by decide) ?_
    exact .line ['\u00a0'] _ [] (by decide) (by decide) .nil
  refine ⟨single, layout, ?_⟩
  rw [takeBody_dressed _ _ _ _ false single layout]
  decide +kernel

end Intake

end Blocklist
