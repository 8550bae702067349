import Mathlib.Data.List.Basic
import Mathlib.Data.List.Induction

/-!
Texts without repetitions, each where it first came. Main statements: they stand in the order in which
they first came, and texts in another order are the same texts without repetitions.
-/

namespace Blocklist

variable (texts : List String)

theorem eraseDups_concat (text : String) :
    (texts ++ [text]).eraseDups =
      if text ∈ texts then texts.eraseDups else texts.eraseDups ++ [text] := by
  rw [List.eraseDups_append]
  split
  next seen =>
    have nothing : [text].removeAll texts = [] := by simp [List.removeAll, seen]
    rw [nothing, List.eraseDups_nil, List.append_nil]
  next new =>
    have still : [text].removeAll texts = [text] := by simp [List.removeAll, new]
    rw [still]
    rfl

/-- Without repetitions, texts stand in the order in which they first came. -/
theorem pairwise_idxOf_eraseDups :
    texts.eraseDups.Pairwise fun a b => texts.idxOf a < texts.idxOf b := by
  -- From the end, since positions in a list stay when more texts follow.
  induction texts using List.reverseRecOn with
  | nil => exact List.Pairwise.nil
  | append_singleton texts text ih =>
    have stays : ∀ a ∈ texts.eraseDups, (texts ++ [text]).idxOf a = texts.idxOf a :=
      fun a member => List.idxOf_append_of_mem (List.mem_eraseDups.mp member)
    have earlier : texts.eraseDups.Pairwise fun a b =>
        (texts ++ [text]).idxOf a < (texts ++ [text]).idxOf b := by
      refine ih.imp_of_mem ?_
      intro a b aMember bMember before
      rw [stays a aMember, stays b bMember]
      exact before
    rw [eraseDups_concat]
    split
    next => exact earlier
    next new =>
      refine List.pairwise_append.mpr ⟨earlier, List.pairwise_singleton _ _, ?_⟩
      intro a member b here
      rw [List.mem_singleton.mp here, stays a member, List.idxOf_append_of_notMem new]
      exact Nat.lt_of_lt_of_le (List.idxOf_lt_length_of_mem (List.mem_eraseDups.mp member))
        (Nat.le_add_right _ _)

theorem nodup_eraseDups : texts.eraseDups.Nodup := by
  refine (pairwise_idxOf_eraseDups texts).imp ?_
  rintro a b before rfl
  exact Nat.lt_irrefl _ before

theorem eraseDups_append_of_subset {more : List String} (within : more ⊆ texts) :
    (texts ++ more).eraseDups = texts.eraseDups := by
  have nothing : more.removeAll texts = [] := by
    rw [List.removeAll, List.filter_eq_nil_iff]
    intro text member
    simpa using within member
  rw [List.eraseDups_append, nothing, List.eraseDups_nil, List.append_nil]

theorem perm_eraseDups {others : List String} (reordered : others.Perm texts) :
    others.eraseDups.Perm texts.eraseDups := by
  refine (List.perm_ext_iff_of_nodup (nodup_eraseDups others) (nodup_eraseDups texts)).mpr ?_
  intro text
  rw [List.mem_eraseDups, List.mem_eraseDups]
  exact reordered.mem_iff

/-- A list that gains texts gains those that it lacked, each once. -/
theorem length_eq_add_new {before after : List String} (nodupBefore : before.Nodup)
    (nodupAfter : after.Nodup) (union : ∀ text, text ∈ after ↔ text ∈ before ∨ text ∈ texts) :
    after.length = before.length + (texts.filter fun text => text ∉ before).eraseDups.length := by
  have new : ∀ text, text ∈ (texts.filter fun text => text ∉ before).eraseDups ↔
      text ∈ texts ∧ text ∉ before := by
    intro text
    rw [List.mem_eraseDups, List.mem_filter, decide_eq_true_eq]
  have apart : (before ++ (texts.filter fun text => text ∉ before).eraseDups).Nodup := by
    refine List.nodup_append.mpr ⟨nodupBefore, nodup_eraseDups _, ?_⟩
    rintro a old b added rfl
    exact ((new a).mp added).2 old
  have same : after.Perm (before ++ (texts.filter fun text => text ∉ before).eraseDups) := by
    refine (List.perm_ext_iff_of_nodup nodupAfter apart).mpr ?_
    intro text
    rw [union, List.mem_append, new]
    by_cases old : text ∈ before <;> simp [old]
  rw [same.length_eq, List.length_append]

end Blocklist
