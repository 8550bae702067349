import Blocklist.Proofs.Text.Lines

/-!
Marks at the beginnings of lines. Main statement: a mark begins every piece of a text exactly if it begins
the text and stands behind every separator in it.
-/

namespace Blocklist.Text

/-- Holds when the mark stands directly behind each separator. -/
def Followed (mark : List Char) (sep : Char) (cs : List Char) : Prop :=
  ∀ before after, cs = before ++ sep :: after → mark <+: after

section
variable {mark : List Char} {sep : Char}

theorem followed_of_not_mem {cs : List Char} (absent : sep ∉ cs) : Followed mark sep cs := by
  rintro before after rfl
  exact absurd (List.mem_append_right before List.mem_cons_self) absent

theorem followed_cons {c : Char} {cs : List Char} :
    Followed mark sep (c :: cs) ↔ (c = sep → mark <+: cs) ∧ Followed mark sep cs := by
  constructor
  · intro followed
    refine ⟨?_, ?_⟩
    · rintro rfl
      exact followed [] cs rfl
    · rintro before after rfl
      exact followed (c :: before) after rfl
  · rintro ⟨first, later⟩ before after split
    cases before with
    | nil =>
      obtain ⟨rfl, rfl⟩ := List.cons.inj split
      exact first rfl
    | cons d before => exact later before after (List.cons.inj split).2

theorem followed_append {front cs : List Char} (absent : sep ∉ front) :
    Followed mark sep (front ++ cs) ↔ Followed mark sep cs := by
  induction front with
  | nil => rfl
  | cons c front ih =>
    rw [List.mem_cons, not_or] at absent
    rw [List.cons_append, followed_cons, ih absent.2]
    exact and_iff_right fun same => absurd same.symm absent.1

section
variable (whole : sep ∉ mark)
include whole

/-- A mark without separators begins the first piece exactly if it begins the text. -/
theorem mark_head_splitAt {cs piece : List Char} {pieces : List (List Char)}
    (cut : splitAt sep cs = piece :: pieces) : mark <+: piece ↔ mark <+: cs := by
  induction cs generalizing mark piece pieces with
  | nil =>
    cases cut
    rfl
  | cons c cs ih =>
    cases mark with
    | nil => exact iff_of_true List.nil_prefix List.nil_prefix
    | cons d mark =>
      rw [List.mem_cons, not_or] at whole
      by_cases same : c = sep
      · rw [splitAt, if_pos same] at cut
        cases cut
        refine iff_of_false (fun starts => ?_) (fun starts => ?_)
        · cases List.prefix_nil.mp starts
        · exact whole.1 ((List.cons_prefix_cons.mp starts).1.trans same).symm
      · obtain ⟨first, others, rest⟩ := splitAt_eq_cons sep cs
        rw [splitAt_cons_of_ne same rest] at cut
        cases cut
        rw [List.cons_prefix_cons, List.cons_prefix_cons, ih whole.2 rest]

theorem marked_tail_splitAt {cs piece : List Char} {pieces : List (List Char)}
    (cut : splitAt sep cs = piece :: pieces) :
    (∀ later ∈ pieces, mark <+: later) ↔ Followed mark sep cs := by
  induction cs generalizing piece pieces with
  | nil =>
    cases cut
    exact iff_of_true (by simp) (followed_of_not_mem List.not_mem_nil)
  | cons c cs ih =>
    obtain ⟨first, others, rest⟩ := splitAt_eq_cons sep cs
    rw [followed_cons, ← ih rest]
    by_cases same : c = sep
    · rw [splitAt, if_pos same, rest] at cut
      cases cut
      rw [List.forall_mem_cons, mark_head_splitAt whole rest]
      exact and_congr_left fun _ => ⟨fun starts _ => starts, fun starts => starts same⟩
    · rw [splitAt_cons_of_ne same rest] at cut
      cases cut
      exact (and_iff_right fun equal => absurd equal same).symm

theorem marked_splitAt (cs : List Char) :
    (∀ piece ∈ splitAt sep cs, mark <+: piece) ↔ mark <+: cs ∧ Followed mark sep cs := by
  obtain ⟨piece, pieces, cut⟩ := splitAt_eq_cons sep cs
  rw [cut, List.forall_mem_cons, mark_head_splitAt whole cut, marked_tail_splitAt whole cut]

end

end

end Blocklist.Text
