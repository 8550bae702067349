import Blocklist.Proofs.Intake.Growth
import Blocklist.Proofs.Store.Agreement
import Blocklist.Proofs.Store.Ranking

/-!
Which records are chosen, and in which order. Main statement: the choice from a store is the one list that
has the stored records which meet every criterion, each once, by rank, and those of one rank in store
order.
-/

namespace Blocklist

namespace Selection

variable {selection : Selection} {r : Record} {records : List Record}

/-- Holds of a record that meets each criterion that is given. -/
structure Meets (selection : Selection) (r : Record) : Prop where
  category : selection.categories ≠ [] → r.category ∈ selection.categories
  allowed : r.category ∉ selection.excluded
  priority : ∀ least, selection.minPriority = some least → least ≤ r.priority
  tag : selection.tags ≠ [] → ∃ tag ∈ selection.tags, tag ∈ r.tags

theorem reaches_iff {priority : Priority} :
    selection.reaches priority = true ↔
      ∀ least, selection.minPriority = some least → least ≤ priority := by
  unfold reaches
  cases selection.minPriority with
  | none => simp
  | some least => simp

theorem accepts_iff : selection.accepts r = true ↔ selection.Meets r := by
  have given : ∀ {α : Type} (xs : List α) (p : Prop), (xs.isEmpty = true ∨ p) ↔ (xs ≠ [] → p) := by
    intro α xs p
    rw [List.isEmpty_iff, or_iff_not_imp_left]
  simp only [accepts, Bool.and_eq_true, Bool.or_eq_true, Bool.not_eq_true', reaches_iff, given,
    List.contains_eq_mem, decide_eq_true_eq, decide_eq_false_iff_not, List.any_eq_true,
    Names.contains_eq_true_iff]
  constructor
  · rintro ⟨⟨⟨category, allowed⟩, priority⟩, tag⟩
    exact ⟨category, allowed, priority, tag⟩
  · rintro ⟨category, allowed, priority, tag⟩
    exact ⟨⟨⟨category, allowed⟩, priority⟩, tag⟩

instance (selection : Selection) (r : Record) : Decidable (selection.Meets r) :=
  decidable_of_iff _ accepts_iff

/-- Holds of the list of those records that meet every criterion, by rank and then as they are stored. -/
structure Lists (selection : Selection) (records chosen : List Record) : Prop where
  mem : ∀ r, r ∈ chosen ↔ r ∈ records ∧ selection.Meets r
  once : (chosen.map Record.hash).Nodup
  ranked : chosen.Pairwise fun a b => b.priority ≤ a.priority
  stored : ∀ rank, (chosen.filter fun r => r.priority = rank) =
    records.filter fun r => r.priority = rank ∧ selection.Meets r

theorem mem_chooseRanked : r ∈ selection.chooseRanked records ↔ r ∈ records ∧ selection.Meets r := by
  rw [(selection.chooseRanked_perm records).mem_iff, choose, List.mem_filter, accepts_iff]

theorem lists_chooseRanked (distinct : (records.map Record.hash).Nodup) :
    selection.Lists records (selection.chooseRanked records) where
  mem _ := mem_chooseRanked
  once := by
    have chosen : ((selection.choose records).map Record.hash).Nodup :=
      distinct.sublist (List.filter_sublist.map Record.hash)
    exact ((selection.chooseRanked_perm records).map Record.hash).nodup_iff.mpr chosen
  ranked := selection.pairwise_chooseRanked records
  stored rank := by
    rw [selection.filter_chooseRanked records rank, choose, List.filter_filter]
    refine List.filter_congr fun r _ => ?_
    rw [Bool.eq_iff_iff, Bool.and_eq_true, decide_eq_true_iff, decide_eq_true_iff, accepts_iff]

theorem le_of_ranked {first : Record} {rest : List Record}
    (ranked : (first :: rest).Pairwise fun a b => b.priority ≤ a.priority)
    (member : r ∈ first :: rest) : r.priority ≤ first.priority := by
  rcases List.mem_cons.mp member with rfl | later
  · exact Int32.le_refl _
  · exact List.rel_of_pairwise_cons ranked later

section
variable {chosen others : List Record}

theorem mem_iff_of_ranks
    (same : ∀ rank, (chosen.filter fun r => r.priority = rank) =
      others.filter fun r => r.priority = rank) (r : Record) : r ∈ chosen ↔ r ∈ others := by
  have level : (r ∈ chosen.filter fun x => x.priority = r.priority) ↔
      r ∈ others.filter fun x => x.priority = r.priority := by rw [same]
  simpa using level

/-- Lists by rank that are the same within each rank are the same. -/
theorem eq_of_ranks (ranked : chosen.Pairwise fun a b => b.priority ≤ a.priority)
    (rankedToo : others.Pairwise fun a b => b.priority ≤ a.priority)
    (same : ∀ rank, (chosen.filter fun r => r.priority = rank) =
      others.filter fun r => r.priority = rank) : chosen = others := by
  induction chosen generalizing others with
  | nil =>
    have nothing : ∀ r, r ∉ others := fun r => by simpa using (mem_iff_of_ranks same r).not
    exact (List.eq_nil_iff_forall_not_mem.mpr nothing).symm
  | cons first rest ih =>
    cases others with
    | nil =>
      have impossible := (mem_iff_of_ranks same first).mp List.mem_cons_self
      exact absurd impossible List.not_mem_nil
    | cons other others =>
      -- Whatever stands first ranks as high as all the rest, so these two are of one rank.
      have level : other.priority = first.priority := Int32.le_antisymm
        (le_of_ranked ranked ((mem_iff_of_ranks same other).mpr List.mem_cons_self))
        (le_of_ranked rankedToo ((mem_iff_of_ranks same first).mp List.mem_cons_self))
      have heads := same first.priority
      rw [List.filter_cons_of_pos (by simp), List.filter_cons_of_pos (by simp [level])] at heads
      obtain rfl : first = other := (List.cons.inj heads).1
      congr 1
      refine ih ranked.of_cons rankedToo.of_cons fun rank => ?_
      have whole := same rank
      by_cases here : first.priority = rank
      · rw [List.filter_cons_of_pos (by simp [here]), List.filter_cons_of_pos (by simp [here])]
          at whole
        exact (List.cons.inj whole).2
      · rwa [List.filter_cons_of_neg (by simp [here]), List.filter_cons_of_neg (by simp [here])]
          at whole

end

theorem Lists.unique {chosen others : List Record} (lists : selection.Lists records chosen)
    (too : selection.Lists records others) : others = chosen := by
  refine eq_of_ranks too.ranked lists.ranked fun rank => ?_
  rw [too.stored rank, lists.stored rank]

end Selection

namespace FileStore

variable {δ : Type} [Disk δ] {s : FileStore δ}

theorem backed_memory (s : FileStore δ) : Backed.memory s = s.memory := rfl

theorem reachable_of_openAt {path : String} {disk : δ} (opened : openAt path disk = .ok s) :
    s.memory.Reachable := by
  rw [openAt_ok opened]
  exact Store.reachable_ofRecords _

theorem reachable_performAll (reachable : s.memory.Reachable) (requests : List Request) :
    (s.performAll requests).memory.Reachable := by
  obtain ⟨changes, made⟩ := s.memory_performAll requests
  rw [made]
  exact reachable.changeAll changes

end FileStore

namespace Selection

/-- A store lists each record that meets every criterion once, by rank and then as it is stored, and no
other list does. -/
theorem chooseRanked_exact {σ : Type} [RecordStore σ] [Backed σ] (store : σ)
    (reachable : (Backed.memory store).Reachable) (selection : Selection) :
    selection.Lists (RecordStore.records store)
        (selection.chooseRanked (RecordStore.records store)) ∧
      ∀ others, selection.Lists (RecordStore.records store) others →
        others = selection.chooseRanked (RecordStore.records store) := by
  have distinct : ((RecordStore.records store).map Record.hash).Nodup := by
    rw [Backed.records_eq]
    exact reachable.wellFormed.tracks.nodup
  have lists := selection.lists_chooseRanked distinct
  exact ⟨lists, fun others too => lists.unique too⟩

/-- A store in a file that still has its records after a write has failed. -/
def keptFile : FileStore Slate :=
  FileStore.sampledFile.performAll [.upsertMany
    [.sampled "||a.com^" .privacy 0, .sampled "||b.com^" .tracking 0, .sampled "||c.com^" .privacy 1,
      .sampled "||d.com^" .advertising 1], .clear]

theorem chooseRanked_exact_keptFile :
    (Backed.memory keptFile).Reachable ∧
      let chosen := ({ excluded := [.advertising] } : Selection).chooseRanked
        (RecordStore.records keptFile)
      chosen.Pairwise (fun a b => b.priority ≤ a.priority) ∧
        (chosen.filter fun r => r.priority = 15).map Record.raw = ["||a.com^", "||c.com^"] := by
  have opened : FileStore.openAt "rules.json" FileStore.sampledFile.disk = .ok FileStore.sampledFile :=
    rfl
  have start : FileStore.sampledFile.memory.Reachable := FileStore.reachable_of_openAt opened
  have reachable : (Backed.memory keptFile).Reachable := by
    rw [FileStore.backed_memory, keptFile]
    exact FileStore.reachable_performAll start _
  obtain ⟨lists, -⟩ := chooseRanked_exact keptFile reachable { excluded := [.advertising] }
  refine ⟨reachable, lists.ranked, ?_⟩
  rw [lists.stored 15]
  decide +kernel

end Selection

end Blocklist
