import Blocklist.Proofs.Text.Lines

/-!
Texts cut at a separator: at the first one, at the last one, or at each. Main statements: what was joined
is cut into the same parts again, and what was cut is joined to the same text.
-/

namespace Blocklist.Text

variable {sep : Char}

theorem splitAt_eq_splitOn (sep : Char) (cs : List Char) : splitAt sep cs = cs.splitOn sep := by
  induction cs with
  | nil => rfl
  | cons c cs ih =>
    rw [List.splitOn, List.splitOnP_cons_eq_if_modifyHead, ← List.splitOn, ← ih]
    by_cases same : c = sep
    · rw [splitAt, if_pos same, if_pos (beq_iff_eq.mpr same)]
    · obtain ⟨piece, pieces, cut⟩ := splitAt_eq_cons sep cs
      rw [splitAt_cons_of_ne same cut, cut, if_neg (mt beq_iff_eq.mp same)]
      rfl

theorem joinWith_eq_intercalate (between : List Char) (pieces : List (List Char)) :
    joinWith between pieces = between.intercalate pieces := by
  induction pieces with
  | nil => rfl
  | cons piece pieces ih =>
    cases pieces with
    | nil => exact List.intercalate_singleton.symm
    | cons next pieces =>
      rw [joinWith, ih, List.intercalate_cons_cons]
      exact List.cons_ne_nil next pieces

theorem joinWith_splitAt (sep : Char) (cs : List Char) : joinWith [sep] (splitAt sep cs) = cs := by
  rw [joinWith_eq_intercalate, splitAt_eq_splitOn, List.intercalate_splitOn]

theorem splitAt_joinWith {pieces : List (List Char)} (some : pieces ≠ [])
    (single : ∀ piece ∈ pieces, sep ∉ piece) : splitAt sep (joinWith [sep] pieces) = pieces := by
  rw [joinWith_eq_intercalate, splitAt_eq_splitOn, List.splitOn_intercalate sep single some]

theorem not_mem_of_mem_splitAt {cs piece : List Char} (listed : piece ∈ splitAt sep cs) :
    sep ∉ piece := by
  induction cs generalizing piece with
  | nil =>
    rw [List.mem_singleton.mp listed]
    exact List.not_mem_nil
  | cons c cs ih =>
    obtain ⟨first, others, cut⟩ := splitAt_eq_cons sep cs
    by_cases same : c = sep
    · rw [splitAt, if_pos same, List.mem_cons] at listed
      rcases listed with rfl | later
      · exact List.not_mem_nil
      · exact ih later
    · rw [splitAt_cons_of_ne same cut, List.mem_cons] at listed
      rw [cut] at ih
      rcases listed with rfl | later
      · rw [List.mem_cons, not_or]
        exact ⟨Ne.symm same, ih List.mem_cons_self⟩
      · exact ih (List.mem_cons_of_mem first later)

theorem mem_joinWith_of_mem {between piece : List Char} {pieces : List (List Char)} {c : Char}
    (listed : piece ∈ pieces) (within : c ∈ piece) : c ∈ joinWith between pieces := by
  induction pieces with
  | nil => cases listed
  | cons first pieces ih =>
    cases pieces with
    | nil =>
      rw [List.mem_singleton.mp listed] at within
      exact within
    | cons next pieces =>
      rw [joinWith, List.mem_append]
      · rcases List.mem_cons.mp listed with rfl | later
        · exact .inl (List.mem_append_left between within)
        · exact .inr (ih later)
      · exact List.cons_ne_nil next pieces

/-- The pieces have no other characters than the text. -/
theorem mem_of_mem_splitAt {cs piece : List Char} {c : Char} (listed : piece ∈ splitAt sep cs)
    (within : c ∈ piece) : c ∈ cs := by
  rw [← joinWith_splitAt sep cs]
  exact mem_joinWith_of_mem listed within

section
variable {before after : List Char}

theorem splitOnce_append (absent : sep ∉ before) :
    splitOnce sep (before ++ sep :: after) = some (before, after) := by
  induction before with
  | nil => rw [List.nil_append, splitOnce, if_pos rfl]
  | cons c before ih =>
    rw [List.mem_cons, not_or] at absent
    rw [List.cons_append, splitOnce, if_neg (Ne.symm absent.1), ih absent.2]
    rfl

theorem splitOnce_of_not_mem {cs : List Char} (absent : sep ∉ cs) : splitOnce sep cs = none := by
  induction cs with
  | nil => rfl
  | cons c cs ih =>
    rw [List.mem_cons, not_or] at absent
    rw [splitOnce, if_neg (Ne.symm absent.1), ih absent.2]
    rfl

theorem afterLast_of_not_mem {cs : List Char} (absent : sep ∉ cs) : afterLast sep cs = none := by
  induction cs with
  | nil => rfl
  | cons c cs ih =>
    rw [List.mem_cons, not_or] at absent
    rw [afterLast, ih absent.2]
    exact if_neg (Ne.symm absent.1)

theorem afterLast_append (absent : sep ∉ after) :
    afterLast sep (before ++ sep :: after) = some after := by
  induction before with
  | nil =>
    rw [List.nil_append, afterLast, afterLast_of_not_mem absent]
    exact if_pos rfl
  | cons c before ih => rw [List.cons_append, afterLast, ih]

end

theorem exists_append_last {cs : List Char} (member : sep ∈ cs) :
    ∃ before after, cs = before ++ sep :: after ∧ sep ∉ after := by
  obtain ⟨after, before, shape, absent⟩ :=
    List.eq_append_cons_of_mem (List.mem_reverse.mpr member)
  refine ⟨before.reverse, after.reverse, ?_, mt List.mem_reverse.mp absent⟩
  rw [← List.reverse_reverse cs, shape, List.reverse_append, List.reverse_cons, List.append_assoc,
    List.singleton_append]

end Blocklist.Text
