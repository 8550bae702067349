import Blocklist.Store.Selection
import Mathlib.Data.List.Sort

/-!
The order in which chosen records are listed. Main statement: a record never stands before one of higher
rank, and records of one rank stand in the order in which they were stored.
-/

namespace Blocklist.Selection

theorem choose_default (records : List Record) : ({} : Selection).choose records = records := by
  have all : ∀ r ∈ records, ({} : Selection).accepts r = true := fun _ _ => rfl
  exact List.filter_eq_self.mpr all

variable (selection : Selection)

theorem ranksBefore_iff (a b : Record) : ranksBefore a b = true ↔ b.priority ≤ a.priority := by
  simp [ranksBefore]

theorem ranksBefore_trans (a b c : Record) (first : ranksBefore a b = true)
    (second : ranksBefore b c = true) : ranksBefore a c = true := by
  rw [ranksBefore_iff] at first second ⊢
  exact Int32.le_trans second first

theorem ranksBefore_total (a b : Record) : (ranksBefore a b || ranksBefore b a) = true := by
  rw [Bool.or_eq_true, ranksBefore_iff, ranksBefore_iff]
  exact Int32.le_total _ _

theorem chooseRanked_perm (records : List Record) :
    (selection.chooseRanked records).Perm (selection.choose records) :=
  List.mergeSort_perm _ _

theorem pairwise_chooseRanked (records : List Record) :
    (selection.chooseRanked records).Pairwise fun a b => b.priority ≤ a.priority := by
  have sorted := List.pairwise_mergeSort ranksBefore_trans ranksBefore_total
    (selection.choose records)
  exact sorted.imp (fun {a b} before => (ranksBefore_iff a b).mp before)

/-- Ranking leaves the records of any one rank as they were. -/
theorem filter_chooseRanked (records : List Record) (rank : Priority) :
    (selection.chooseRanked records).filter (fun r => r.priority = rank) =
      (selection.choose records).filter (fun r => r.priority = rank) := by
  have level : ((selection.choose records).filter fun r => r.priority = rank).Pairwise
      fun a b => ranksBefore a b = true := by
    apply List.pairwise_of_forall_mem_list
    intro a aMember b bMember
    have aRank : a.priority = rank := by simpa using (List.mem_filter.mp aMember).2
    have bRank : b.priority = rank := by simpa using (List.mem_filter.mp bMember).2
    rw [ranksBefore_iff, aRank, bRank]
    exact Int32.le_refl _
  -- What is in order already stays so, and nothing is lost: both have the same length.
  have kept := (List.sublist_mergeSort ranksBefore_trans ranksBefore_total level
    List.filter_sublist).filter fun r => r.priority = rank
  rw [List.filter_filter] at kept
  simp only [Bool.and_self] at kept
  have count := ((selection.chooseRanked_perm records).filter fun r => r.priority = rank).length_eq
  exact (kept.eq_of_length count.symm).symm

/-- What holds of any two stored records in their order holds of two chosen ones of one rank. -/
theorem pairwise_chooseRanked_tie {records : List Record} {before : Record → Record → Prop}
    (ordered : records.Pairwise before) :
    (selection.chooseRanked records).Pairwise fun a b => a.priority = b.priority → before a b := by
  rw [List.pairwise_iff_forall_sublist]
  intro a b pair tie
  have level := pair.filter fun r => r.priority = b.priority
  rw [selection.filter_chooseRanked records b.priority] at level
  have both : [a, b].filter (fun r => r.priority = b.priority) = [a, b] := by simp [tie]
  rw [both] at level
  have stored : [a, b].Sublist records :=
    level.trans (List.filter_sublist.trans List.filter_sublist)
  exact List.pairwise_iff_forall_sublist.mp ordered stored

end Blocklist.Selection
