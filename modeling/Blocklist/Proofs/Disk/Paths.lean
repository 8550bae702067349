import Blocklist.Disk.Basic
import Blocklist.Proofs.Text.Lines

/-!
Paths put together from a directory and a name. Main statement: the parts of such a path are those of the
directory and then the name, however the directory is written.
-/

namespace Blocklist.Path

/-- Holds of a text that is one part of a path and leads somewhere. -/
structure IsPart (name : String) : Prop where
  filled : name ≠ ""
  moves : name ≠ "."
  whole : '/' ∉ name.toList

theorem segments_append (before after : String) :
    segments (before ++ "/" ++ after) = segments before ++ segments after := by
  have spelled : (before ++ "/" ++ after).toList = before.toList ++ '/' :: after.toList := by
    rw [String.toList_append, String.toList_append, List.append_assoc]
    rfl
  rw [segments, spelled, Text.splitAt_append, List.map_append]
  rfl

theorem parts_append (before after : String) :
    parts (before ++ "/" ++ after) = parts before ++ parts after := by
  rw [parts, segments_append, List.filter_append]
  rfl

section
variable {name : String} (part : IsPart name)
include part

theorem IsPart.parts_eq : parts name = [name] := by
  rw [parts, segments, Text.splitAt_single part.whole, List.map_singleton, String.ofList_toList,
    List.filter_cons_of_pos (by simp [part.filled, part.moves]), List.filter_nil]

theorem IsPart.not_absolute : isAbsolute name = false := by
  rw [isAbsolute, beq_eq_false_iff_ne]
  exact fun slash => part.whole (List.mem_of_head? slash)

/-- A joined path is the name alone, or the directory's path, a slash in between and the name. -/
theorem join_cases (directory : String) :
    (directory = "" ∧ join directory name = name) ∨
      (directory ≠ "" ∧ ∃ before, parts before = parts directory ∧
        (directory = before ∨ directory = before ++ "/") ∧
        join directory name = before ++ "/" ++ name) := by
  rw [join, part.not_absolute, Bool.false_or]
  by_cases empty : directory = ""
  · exact .inl ⟨empty, if_pos (String.isEmpty_iff.mpr empty)⟩
  · have filled : ¬directory.isEmpty = true := fun blank => empty (String.isEmpty_iff.mp blank)
    refine .inr ⟨empty, ?_⟩
    rw [if_neg filled]
    by_cases closed : (directory.toList.getLast? == some '/') = true
    · obtain ⟨chars, spelled⟩ := List.getLast?_eq_some_iff.mp (eq_of_beq closed)
      have same : directory = String.ofList chars ++ "/" := by
        rw [← String.toList_inj, spelled, String.toList_append, String.toList_ofList]
        rfl
      have again := parts_append (String.ofList chars) ""
      rw [String.append_empty, ← same] at again
      refine ⟨String.ofList chars, ?_, .inr same, ?_⟩
      · rw [again]
        exact (List.append_nil _).symm
      · rw [if_pos closed, ← same]
    · exact ⟨directory, rfl, .inl rfl, if_neg closed⟩

theorem parts_join (directory : String) :
    parts (join directory name) = parts directory ++ [name] := by
  rcases join_cases part directory with ⟨rfl, joined⟩ | ⟨-, before, same, -, joined⟩
  · rw [joined, part.parts_eq]
    rfl
  · rw [joined, parts_append, part.parts_eq, same]

theorem isAbsolute_join (directory : String) :
    isAbsolute (join directory name) = isAbsolute directory := by
  rcases join_cases part directory with ⟨rfl, joined⟩ | ⟨filled, before, -, either, joined⟩
  · rw [joined, part.not_absolute]
    rfl
  · rw [joined, isAbsolute, isAbsolute, String.toList_append, String.toList_append]
    rcases either with rfl | rfl
    · have present : directory.toList ≠ [] := fun none => filled (String.toList_eq_nil_iff.mp none)
      rw [List.append_assoc, List.head?_append_of_ne_nil _ present]
    · rw [String.toList_append, List.head?_append_of_ne_nil]
      simp

/-- A joined path names a file, as its last part is a name. -/
theorem endsInDirectory_join (named : name ≠ "..") (directory : String) :
    endsInDirectory (join directory name) = false := by
  have alone : segments name = [name] := by
    rw [segments, Text.splitAt_single part.whole, List.map_singleton, String.ofList_toList]
  have last : (segments (join directory name)).getLast? = some name := by
    rcases join_cases part directory with ⟨-, joined⟩ | ⟨-, before, -, -, joined⟩
    · rw [joined, alone]
      rfl
    · rw [joined, segments_append, alone, List.getLast?_concat]
  rw [endsInDirectory, last]
  simp [part.filled, part.moves, named]

theorem join_eq_append (directory : String) : ∃ rest, join directory name = directory ++ rest := by
  rcases join_cases part directory with ⟨rfl, joined⟩ | ⟨-, before, -, rfl | rfl, joined⟩
  · exact ⟨name, joined.trans (String.empty_append).symm⟩
  · exact ⟨"/" ++ name, joined.trans (String.append_assoc ..)⟩
  · exact ⟨name, joined⟩

/-- What leads to a directory is no longer than what leads to a file in it. -/
theorem isUsable_of_join {directory : String} (filled : directory ≠ "")
    (usable : isUsable (join directory name) = true) : isUsable directory = true := by
  obtain ⟨rest, joined⟩ := join_eq_append part directory
  rw [joined] at usable
  simp only [isUsable, Bool.and_eq_true, Bool.not_eq_true', decide_eq_true_eq,
    String.utf8ByteSize_append, String.toList_append, List.contains_eq_mem,
    decide_eq_false_iff_not, List.mem_append, not_or] at usable ⊢
  refine ⟨⟨?_, by omega⟩, usable.2.1⟩
  rw [← Bool.not_eq_true, String.isEmpty_iff]
  exact filled

end

end Blocklist.Path
