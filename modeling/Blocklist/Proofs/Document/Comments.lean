import Blocklist.Proofs.Document.Rereading
import Blocklist.Proofs.Text.Marks

/-!
Comments in the head of a document. Main statement: every line of a head begins as comments do exactly if
each line feed in the texts of its entries is directly followed by what a comment begins with.
-/

namespace Blocklist

namespace Document

variable (m : Metadata) (f : Format)

theorem not_mem_commentMark : '\n' ∉ f.commentMark.toList := by cases f <;> decide

/-- The lines of a head, with the empty piece behind the last one. -/
theorem splitAt_head :
    Text.splitAt '\n' (head m f).toList =
      (entries m).flatMap (fun e => Text.splitAt '\n' (comment f e.1 e.2).toList) ++
        (if f = .unbound then ["server:".toList] else []) ++ [[]] := by
  have closing : (if f = .unbound then ["server:"] else []).flatMap
      (fun line => Text.splitAt '\n' line.toList) =
        if f = .unbound then ["server:".toList] else [] := by
    split
    · rw [List.flatMap_singleton, Text.splitAt_single (by decide)]
    · rfl
  rw [head, toList_unlines, Text.splitAt_flatMap, List.flatMap_map, headLines_eq, List.flatMap_append,
    List.flatMap_map, closing]

/-- A comment has more lines than one if there are line feeds in its value. These lines are comments, too, if
the mark stands behind each line feed. -/
theorem marked_comment {label : String} (oneLine : '\n' ∉ label.toList) (value : String) :
    (∀ line ∈ Text.splitAt '\n' (comment f label value).toList, f.commentMark.toList <+: line) ↔
      Text.Followed f.commentMark.toList '\n' value.toList := by
  have front : '\n' ∉ (f.commentMark ++ " " ++ label ++ ": ").toList := by
    simp only [String.toList_append, List.mem_append, not_or]
    exact ⟨⟨⟨not_mem_commentMark f, by decide⟩, oneLine⟩, by decide⟩
  have starts : f.commentMark.toList <+: (comment f label value).toList := by
    simp only [comment, String.toList_append, List.append_assoc]
    exact List.prefix_append _ _
  rw [Text.marked_splitAt (not_mem_commentMark f), and_iff_right starts, comment,
    String.toList_append, Text.followed_append front]

/-- A head has comments only, apart from the line that opens the section of the unbound format, exactly if
the mark of comments stands behind each line feed in the texts of the entries. -/
theorem marked_head_iff :
    ∃ lines, Text.splitAt '\n' (head m f).toList =
        lines ++ (if f = .unbound then ["server:".toList] else []) ++ [[]] ∧
      ((∀ line ∈ lines, f.commentMark.toList <+: line) ↔
        ∀ text ∈ m.texts, Text.Followed f.commentMark.toList '\n' text.toList) := by
  refine ⟨_, splitAt_head m f, ?_⟩
  have counts : ∀ count ∈ m.stats.toList.flatMap fun s =>
      [toString s.totalRules, toString s.blockingRules, toString s.unblockingRules],
        Text.Followed f.commentMark.toList '\n' count.toList := by
    intro count member
    obtain ⟨s, -, listed⟩ := List.mem_flatMap.mp member
    apply Text.followed_of_not_mem
    simp only [List.mem_cons, List.not_mem_nil, or_false] at listed
    rcases listed with rfl | rfl | rfl <;> exact not_mem_toString _
  calc
    _ ↔ ∀ e ∈ entries m, ∀ line ∈ Text.splitAt '\n' (comment f e.1 e.2).toList,
        f.commentMark.toList <+: line := List.forall_mem_flatMap
    _ ↔ ∀ e ∈ entries m, Text.Followed f.commentMark.toList '\n' e.2.toList :=
      forall₂_congr fun e member => marked_comment f (not_mem_label e member) e.2
    _ ↔ ∀ value ∈ (entries m).map Prod.snd, Text.Followed f.commentMark.toList '\n' value.toList := by
      rw [List.forall_mem_map]
    _ ↔ _ := by
      rw [map_snd_entries, List.forall_mem_append]
      exact and_iff_left counts

/-- Entries whose title goes on in a second line. -/
def wrapped : MetadataOverrides := { title := some "Hosts\n0.0.0.0 example.com" }

/-- The second line of the title blocks a host. -/
theorem head_wrapped :
    ∃ line ∈ Text.splitAt '\n' (head (wrapped.resolve "2024-02-01") .hosts).toList,
      Format.hosts.blockingLine "example.com" = some (String.ofList line) ∧
        ¬Format.hosts.commentMark.toList <+: line ∧ line ≠ "server:".toList := by
  refine ⟨"0.0.0.0 example.com".toList, ?_, by decide, by decide, by decide⟩
  have title : "0.0.0.0 example.com".toList ∈
      Text.splitAt '\n' (comment .hosts "Title" "Hosts\n0.0.0.0 example.com").toList := by
    decide +kernel
  rw [splitAt_head]
  apply List.mem_append_left
  apply List.mem_append_left
  exact List.mem_flatMap_of_mem List.mem_cons_self title

end Document

end Blocklist
