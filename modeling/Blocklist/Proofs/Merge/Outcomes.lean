import Blocklist.Proofs.Merge.History
import Blocklist.Proofs.Merge.Sightings

/-!
What sightings come to, and what is counted of them. Main statements: every sighting is counted once; where
no sighting is custom, one is counted as inserted for each text that is new to the list; and where each
record has its text as its only spelling, no sighting adds one.
-/

namespace Blocklist

namespace MergeCounts

theorem foldl_record (counts : MergeCounts) (outcomes : List MergeOutcome) :
    outcomes.foldl record counts =
      ⟨counts.inserted + outcomes.count .inserted, counts.overwritten + outcomes.count .overwritten,
        counts.merged + (outcomes.count (.merged false) + outcomes.count (.merged true)),
        counts.variantsAdded + outcomes.count (.merged true)⟩ := by
  induction outcomes generalizing counts with
  | nil => rfl
  | cons outcome outcomes ih =>
    rw [List.foldl_cons, ih, record.eq_def]
    rcases outcome with _ | _ | _ | _ <;> simp <;> omega

theorem ofOutcomes_eq (outcomes : List MergeOutcome) :
    ofOutcomes outcomes =
      ⟨outcomes.count .inserted, outcomes.count .overwritten,
        outcomes.count (.merged false) + outcomes.count (.merged true),
        outcomes.count (.merged true)⟩ := by
  rw [ofOutcomes, foldl_record]
  simp only [Nat.zero_add]

theorem ofOutcomes_append (earlier later : List MergeOutcome) :
    ofOutcomes (earlier ++ later) = (ofOutcomes earlier).add (ofOutcomes later) := by
  simp only [ofOutcomes_eq, List.count_append, add, mk.injEq, true_and, and_true]
  omega

/-- Every outcome is counted once. -/
theorem total_ofOutcomes (outcomes : List MergeOutcome) :
    (ofOutcomes outcomes).total = outcomes.length := by
  induction outcomes with
  | nil => rfl
  | cons outcome outcomes ih =>
    rw [total, ofOutcomes_eq] at ih ⊢
    rcases outcome with _ | _ | _ | _ <;> simp at ih ⊢ <;> omega

theorem variantsAdded_le_merged (outcomes : List MergeOutcome) :
    (ofOutcomes outcomes).variantsAdded ≤ (ofOutcomes outcomes).merged := by
  rw [ofOutcomes_eq]
  exact Nat.le_add_left _ _

end MergeCounts

namespace Record

/-- What a sighting comes to, given the record that is listed under its text. -/
def outcomeIn (records : List Record) (sighting : Record × Instant) : MergeOutcome :=
  (sighting.1.merge (records.find? fun r => r.raw = sighting.1.raw) sighting.2).2

/-- What sightings come to, one after the other. -/
def outcomesIn : List Record → List (Record × Instant) → List MergeOutcome
  | _, [] => []
  | records, sighting :: rest =>
    outcomeIn records sighting :: outcomesIn (sightIn records sighting) rest

/-- Holds of records whose only spelling is their text. -/
def SpelledOnce (r : Record) : Prop := r.variants.map Variant.text = [r.raw]

theorem sightAll_append (records : List Record) (earlier later : List (Record × Instant)) :
    sightAll records (earlier ++ later) = sightAll (sightAll records earlier) later :=
  List.foldl_append

theorem outcomesIn_append (records : List Record) (earlier later : List (Record × Instant)) :
    outcomesIn records (earlier ++ later) =
      outcomesIn records earlier ++ outcomesIn (sightAll records earlier) later := by
  induction earlier generalizing records with
  | nil => rfl
  | cons sighting rest ih =>
    simp only [List.cons_append, outcomesIn, ih]
    rfl

section
variable {records : List Record} {candidate : Record} {now : Instant}

theorem listed_iff {text : String} :
    (records.find? fun r => r.raw = text).isSome ↔ text ∈ records.map raw := by
  rw [List.find?_isSome, List.mem_map]
  simp only [decide_eq_true_eq]

/-- Only a sighting of a new text that is not custom is an insertion. -/
theorem outcomeIn_eq_inserted_iff :
    outcomeIn records (candidate, now) = .inserted ↔
      candidate.category ≠ .custom ∧ candidate.raw ∉ records.map raw := by
  rw [← listed_iff]
  unfold outcomeIn merge
  by_cases custom : candidate.category = .custom
  · simp [custom]
  · rw [if_neg custom]
    cases records.find? fun r => r.raw = candidate.raw with
    | none => simp [custom]
    | some known => simp

theorem length_sightIn (keyed : ∀ x ∈ records, x.hash = candidate.hash ↔ x.raw = candidate.raw) :
    (sightIn records (candidate, now)).length =
      records.length + if candidate.raw ∈ records.map raw then 0 else 1 := by
  have lengths := congrArg List.length (map_raw_sightIn now keyed)
  rw [List.length_map] at lengths
  rw [lengths]
  split
  · rw [List.length_map, Nat.add_zero]
  · rw [List.length_append, List.length_map, List.length_singleton]

variable (now) in
/-- A record with its text as its only spelling gains none from a sighting of its text. -/
theorem spelledOnce_resighted (once : ∀ r ∈ records, r.SpelledOnce) (built : candidate.IsCandidate) :
    (resighted records candidate now).SpelledOnce ∧
      outcomeIn records (candidate, now) ≠ .merged true := by
  have own : candidate.SpelledOnce := by
    obtain ⟨v, only, text⟩ := built.variants
    rw [SpelledOnce, only, List.map_singleton, text]
  unfold resighted outcomeIn merge
  split
  · exact ⟨own, by simp⟩
  · cases found : records.find? fun r => r.raw = candidate.raw with
    | none => exact ⟨own, by simp⟩
    | some known =>
      have same : known.raw = candidate.raw := by simpa using List.find?_some found
      have spelling := once known (List.mem_of_find?_eq_some found)
      have spelled : known.hasVariant candidate.raw = true := by
        rw [hasVariant_iff, spelling, ← same]
        exact List.mem_singleton_self _
      simp only [absorb, spelled]
      exact ⟨spelling, by simp⟩

end

section
variable {records : List Record} (sightings : List (Record × Instant))

theorem count_inserted_cons (candidate : Record) (now : Instant) :
    (outcomesIn records ((candidate, now) :: sightings)).count .inserted =
      (outcomesIn (sightIn records (candidate, now)) sightings).count .inserted +
        if outcomeIn records (candidate, now) = .inserted then 1 else 0 := by
  simp only [outcomesIn, List.count_cons, beq_iff_eq]

/-- What is counted as inserted makes the list longer. -/
theorem count_inserted_le (keyed : Keyed (records ++ sightings.map Prod.fst)) :
    records.length + (outcomesIn records sightings).count .inserted ≤
      (sightAll records sightings).length := by
  induction sightings generalizing records with
  | nil => exact Nat.le_refl _
  | cons sighting rest ih =>
    obtain ⟨candidate, now⟩ := sighting
    rw [List.map_cons] at keyed
    have still : Keyed (sightIn records (candidate, now) ++ rest.map Prod.fst) :=
      keyed_sightIn now keyed
    have later := ih still
    have longer : (sightIn records (candidate, now)).length =
        records.length + if candidate.raw ∈ records.map raw then 0 else 1 := length_sightIn keyed.head
    have counted : (if outcomeIn records (candidate, now) = .inserted then 1 else 0) ≤
        if candidate.raw ∈ records.map raw then 0 else 1 := by
      split
      next inserted => rw [if_neg (outcomeIn_eq_inserted_iff.mp inserted).2]
      next => exact Nat.zero_le _
    have all : sightAll records ((candidate, now) :: rest) =
        sightAll (sightIn records (candidate, now)) rest := rfl
    rw [all, count_inserted_cons]
    omega

/-- Where no sighting is custom, just the insertions make the list longer. -/
theorem count_inserted_of_plain (keyed : Keyed (records ++ sightings.map Prod.fst))
    (plain : ∀ s ∈ sightings, s.1.category ≠ .custom) :
    (sightAll records sightings).length =
      records.length + (outcomesIn records sightings).count .inserted := by
  induction sightings generalizing records with
  | nil => rfl
  | cons sighting rest ih =>
    obtain ⟨candidate, now⟩ := sighting
    rw [List.map_cons] at keyed
    rw [List.forall_mem_cons] at plain
    have longer : (sightIn records (candidate, now)).length =
        records.length + if candidate.raw ∈ records.map raw then 0 else 1 := length_sightIn keyed.head
    have counted : (if candidate.raw ∈ records.map raw then 0 else 1) =
        if outcomeIn records (candidate, now) = .inserted then 1 else 0 := by
      by_cases listed : candidate.raw ∈ records.map raw
      · rw [if_pos listed, if_neg (fun inserted => (outcomeIn_eq_inserted_iff.mp inserted).2 listed)]
      · rw [if_neg listed, if_pos (outcomeIn_eq_inserted_iff.mpr ⟨plain.1, listed⟩)]
    calc
      (sightAll records ((candidate, now) :: rest)).length =
          (sightIn records (candidate, now)).length +
            (outcomesIn (sightIn records (candidate, now)) rest).count .inserted :=
        ih (keyed_sightIn now keyed) plain.2
      _ = records.length + (outcomesIn records ((candidate, now) :: rest)).count .inserted := by
        rw [longer, counted, count_inserted_cons]
        omega

theorem spelledOnce_sightAll (once : ∀ r ∈ records, r.SpelledOnce)
    (built : ∀ s ∈ sightings, s.1.IsCandidate) :
    (∀ r ∈ sightAll records sightings, r.SpelledOnce) ∧
      (outcomesIn records sightings).count (.merged true) = 0 := by
  induction sightings generalizing records with
  | nil => exact ⟨once, rfl⟩
  | cons sighting rest ih =>
    obtain ⟨candidate, now⟩ := sighting
    rw [List.forall_mem_cons] at built
    obtain ⟨new, outcome⟩ := spelledOnce_resighted now once built.1
    have still : ∀ r ∈ sightIn records (candidate, now), r.SpelledOnce := by
      intro r member
      rcases mem_sightIn now member with made | old
      · rw [made]
        exact new
      · exact once r old
    obtain ⟨later, none⟩ := ih still built.2
    refine ⟨later, ?_⟩
    rw [outcomesIn, List.count_cons, none, if_neg (by simpa using outcome)]

end

end Record

namespace Store

variable {s : Store}

/-- Merging candidates at once comes to what the list of records alone tells. -/
theorem sightEach_outcomes (sightings : List (Record × Instant)) (exact : s.Exact)
    (keyed : Record.Keyed (s.records ++ sightings.map Prod.fst)) :
    (s.sightEach sightings).1 = Record.outcomesIn s.records sightings := by
  induction sightings generalizing s with
  | nil => rfl
  | cons sighting rest ih =>
    obtain ⟨candidate, now⟩ := sighting
    rw [List.map_cons] at keyed
    obtain ⟨listed, stillExact⟩ := sight_exact now exact keyed.head
    have later := ih stillExact (keyed_sight now exact.toWellFormed keyed)
    rw [listed] at later
    have here : (s.sight candidate now).1 = Record.outcomeIn s.records (candidate, now) := by
      rw [sight, exact.finds, Record.outcomeIn]
    rw [sightEach, Record.outcomesIn, here, later]

end Store

namespace Batch

theorem length_mergeEach {σ : Type} [RecordStore σ] (b : Batch) (store : σ)
    (sightings : List (Record × Instant)) : (b.mergeEach store sightings).1.length = sightings.length := by
  induction sightings generalizing b with
  | nil => rfl
  | cons sighting rest ih =>
    rw [mergeEach, List.length_cons, ih, List.length_cons]

/-- Over an exact store a batch counts what the list of records alone tells. -/
theorem counts_mergeEach {s : Store} (sightings : List (Record × Instant)) (exact : s.Exact)
    (keyed : Record.Keyed (s.records ++ sightings.map Prod.fst)) :
    (({} : Batch).mergeEach s sightings).2.counts =
      MergeCounts.ofOutcomes (Record.outcomesIn s.records sightings) := by
  obtain ⟨outcomes, -⟩ := (represents_empty exact.toWellFormed).mergeEach sightings keyed
  rw [mergeEach_counts, outcomes, Store.sightEach_outcomes sightings exact keyed]
  rfl

end Batch

end Blocklist
