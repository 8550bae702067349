import Blocklist.Names
import Blocklist.Proofs.Text.Repetitions
import Mathlib.Data.List.Sort

/-!
Sets of names. Main statements: sets with the same members are equal, so that neither the order of
insertions nor a repetition shows, and a set grows by at most the number of names put in.
-/

namespace Blocklist.Names

variable {s t : Names}

theorem eq_of_mem_iff (same : ∀ name, name ∈ s ↔ name ∈ t) : s = t := by
  obtain ⟨names, sorted⟩ := s
  obtain ⟨names', sorted'⟩ := t
  have equal : names = names' := by
    refine (List.perm_ext_iff_of_nodup ?_ ?_).mpr same |>.eq_of_pairwise ?_ sorted sorted'
    · exact sorted.imp String.ne_of_lt
    · exact sorted'.imp String.ne_of_lt
    · exact fun a b _ _ before after => absurd after (String.lt_asymm before)
  subst equal
  rfl

theorem union_eq_self (within : ∀ name ∈ t, name ∈ s) : s.union t = s := by
  apply eq_of_mem_iff
  intro name
  rw [mem_union]
  exact ⟨fun member => member.elim (within name) id, Or.inr⟩

theorem mem_gathered {α : Type} {f : α → Names} {x : α} {xs : List α} {name : String} :
    name ∈ (f x).insertAll (xs.flatMap fun y => (f y).toList) ↔ ∃ y ∈ x :: xs, name ∈ f y := by
  rw [mem_insertAll, List.mem_flatMap, List.exists_mem_cons_iff, or_comm]
  rfl

/-- Sets gathered from the same parts are equal, in whatever order and however often each part comes. -/
theorem gathered_eq {α : Type} {f : α → Names} {x y : α} {xs ys : List α}
    (into : ∀ z ∈ x :: xs, ∃ w ∈ y :: ys, f w = f z) (back : ∀ w ∈ y :: ys, ∃ z ∈ x :: xs, f z = f w) :
    (f x).insertAll (xs.flatMap fun z => (f z).toList) =
      (f y).insertAll (ys.flatMap fun w => (f w).toList) := by
  apply eq_of_mem_iff
  intro name
  rw [mem_gathered, mem_gathered]
  constructor
  · rintro ⟨z, listed, named⟩
    obtain ⟨w, other, same⟩ := into z listed
    exact ⟨w, other, same ▸ named⟩
  · rintro ⟨w, listed, named⟩
    obtain ⟨z, other, same⟩ := back w listed
    exact ⟨z, other, same ▸ named⟩

theorem size_ofList (names : List String) : (ofList names).size = names.eraseDups.length := by
  have distinct : (ofList names).toList.Nodup := (ofList names).sorted.imp String.ne_of_lt
  refine ((List.perm_ext_iff_of_nodup distinct (nodup_eraseDups names)).mpr ?_).length_eq
  intro name
  rw [List.mem_eraseDups, ← mem_def, mem_ofList]

theorem length_insertName_le (name : String) (xs : List String) :
    (insertName name xs).length ≤ xs.length + 1 := by
  induction xs with
  | nil => exact Nat.le_refl 1
  | cons x xs ih =>
    unfold insertName
    split
    · exact Nat.le_refl _
    · split
      · exact Nat.le_succ _
      · exact Nat.succ_le_succ ih

theorem size_insertAll_le (s : Names) (names : List String) :
    (s.insertAll names).size ≤ s.size + names.length := by
  induction names generalizing s with
  | nil => exact Nat.le_refl _
  | cons name names ih =>
    calc
      ((s.insert name).insertAll names).size ≤ (s.insert name).size + names.length := ih _
      _ ≤ s.size + 1 + names.length :=
        Nat.add_le_add_right (length_insertName_le name s.toList) names.length
      _ = s.size + (name :: names).length := by rw [List.length_cons, Nat.add_assoc, Nat.add_comm 1]

end Blocklist.Names
