import Blocklist.Proofs.Intake.Growth
import Blocklist.Proofs.Merge.Outcomes
import Blocklist.Proofs.Merge.Pending
import Blocklist.Proofs.Store.Requests

/-!
The order in a batch. A slot is found under the fingerprint of the candidate and filed under that of the
merged record, which may be the candidate, the record of the slot, or one that the store has for the
candidate's text. Main statement: over a store whose records carry the fingerprints of their texts these
agree, so that at every point each fingerprint that came has one slot, in the order in which they came,
every candidate is counted once, and a flush writes each of the fingerprints once.
-/

namespace Blocklist

theorem MergeCounts.total_record (counts : MergeCounts) (outcome : MergeOutcome) :
    (counts.record outcome).total = counts.total + 1 := by
  cases outcome with
  | inserted | overwritten | merged =>
    simp only [record, total]
    omega

namespace Record

variable {xs rs : List Record}

/-- Records that are placed take the places of their fingerprints, and new fingerprints go to the end. -/
theorem map_hash_placeAll (distinct : (rs.map hash).Nodup) :
    (placeAll xs rs).map hash = xs.map hash ++ (rs.map hash).filter fun h => h ∉ xs.map hash := by
  induction rs generalizing xs with
  | nil => simp
  | cons r rs ih =>
    rw [List.map_cons, List.nodup_cons] at distinct
    rw [placeAll_cons, ih distinct.2, map_hash_placeIn, List.map_cons]
    by_cases known : r.hash ∈ xs.map hash
    · rw [if_pos known, List.filter_cons_of_neg (by simpa using known)]
    · have others : ((rs.map hash).filter fun h => h ∉ xs.map hash ++ [r.hash]) =
          (rs.map hash).filter fun h => h ∉ xs.map hash := by
        apply List.filter_congr
        intro h member
        have other : h ≠ r.hash := fun same => distinct.1 (same ▸ member)
        simp [other]
      rw [if_neg known, others, List.filter_cons_of_pos (by simpa using known), List.append_assoc,
        List.singleton_append]

theorem find?_hash_placeAll (distinct : (rs.map hash).Nodup) (h : String) :
    ((placeAll xs rs).find? fun r => r.hash = h) =
      (rs.find? fun r => r.hash = h).or (xs.find? fun r => r.hash = h) := by
  induction rs generalizing xs with
  | nil => simp
  | cons r rs ih =>
    rw [List.map_cons, List.nodup_cons] at distinct
    rw [placeAll_cons, ih distinct.2, find?_hash_placeIn, List.find?_cons]
    by_cases here : h = r.hash
    · have none : (rs.find? fun x => x.hash = h) = none := by
        rw [List.find?_eq_none]
        intro x member same
        exact distinct.1 (List.mem_map.mpr ⟨x, member, by simpa [here] using same⟩)
      rw [if_pos here, none]
      simp [here]
    · rw [if_neg here]
      simp [Ne.symm here]

end Record

namespace Batch

/-- Holds of a batch that has a slot for each of the fingerprints that came. -/
structure Waits (hashes : List String) (b : Batch) : Prop where
  distinct : (b.records.map Record.hash).Nodup
  /-- The index leads from these fingerprints, and from no other, to the slots. -/
  positions : ∀ hash i, b.byHash.find? hash = some i ↔ ∃ r, b.records[i]? = some r ∧ r.hash = hash
  inRange : ∀ hash i, b.byHash.find? hash = some i → i < b.records.length
  /-- The slots are in the order in which their fingerprints first came. -/
  order : b.records.map Record.hash = hashes.eraseDups
  counted : b.counts.total = hashes.length

/-- Holds of a batch that, written over these records, has left those: each of its fingerprints once, at its
place or behind them, and with the record that waited. -/
structure Written (b : Batch) (before after : List Record) : Prop where
  once : (after.map Record.hash).Nodup
  listed : after.map Record.hash = before.map Record.hash ++
    (b.records.map Record.hash).filter fun hash => hash ∉ before.map Record.hash
  found : ∀ hash, (after.find? fun r => r.hash = hash) =
    (b.records.find? fun r => r.hash = hash).or (before.find? fun r => r.hash = hash)

/-- What a flush comes to: all that waits is written, or the store refuses it and has the records that it
had. -/
structure Flushed {σ : Type} [RecordStore σ] (b : Batch) (store : σ)
    (flushed : Except Error MergeCounts × σ) : Prop where
  written : ∀ counts, flushed.1 = .ok counts →
    counts = b.counts ∧ b.Written (RecordStore.records store) (RecordStore.records flushed.2)
  refused : ∀ e, flushed.1 = .error e → (RecordStore.upsertMany store b.records).1 = .error e ∧
    RecordStore.records flushed.2 = RecordStore.records store

theorem waits_of_tracks {b : Batch} {hashes : List String} (tracks : b.byHash.Tracks b.records)
    (order : b.records.map Record.hash = hashes.eraseDups) (counted : b.counts.total = hashes.length) :
    b.Waits hashes where
  distinct := tracks.nodup
  positions := tracks
  inRange hash i found := by
    obtain ⟨r, position, -⟩ := (tracks hash i).mp found
    exact (List.getElem?_eq_some_iff.mp position).1
  order := order
  counted := counted

theorem waits_empty : ({} : Batch).Waits [] := waits_of_tracks Index.Tracks.empty rfl rfl

section
variable {s : Store} {b : Batch} {hashes : List String} (wellFormed : s.WellFormed)
  (fingerprinted : Record.Fingerprinted s.records) (waits : b.Waits hashes)
include wellFormed fingerprinted waits

/-- One candidate: its fingerprint has a slot then, an old or a new one. -/
theorem Waits.merge {candidate : Record} (now : Instant)
    (own : candidate.hash = fingerprint candidate.raw) :
    (b.merge s candidate now).2.Waits (hashes ++ [candidate.hash]) := by
  obtain ⟨key, placed, tracks⟩ := merge_placed wellFormed fingerprinted now waits.positions own
  refine waits_of_tracks tracks ?_ ?_
  · rw [placed, Record.map_hash_placeIn, key, waits.order, eraseDups_concat]
    simp only [List.mem_eraseDups]
  · rw [merge_counts, MergeCounts.total_record, waits.counted, List.length_append,
      List.length_singleton]

theorem Waits.mergeEach (sightings : List (Record × Instant))
    (own : Record.Fingerprinted (sightings.map Prod.fst)) :
    (b.mergeEach s sightings).2.Waits (hashes ++ sightings.map fun x => x.1.hash) := by
  induction sightings generalizing b hashes with
  | nil =>
    rw [List.map_nil, List.append_nil]
    exact waits
  | cons sighting rest ih =>
    rw [List.map_cons, Record.Fingerprinted, List.forall_mem_cons] at own
    have later := ih (waits.merge wellFormed fingerprinted sighting.2 own.1) own.2
    rw [List.append_assoc, List.singleton_append] at later
    exact later

end

section
variable {σ : Type} [RecordStore σ] [Backed σ] {store : σ}

theorem mergeEach_memory (b : Batch) (store : σ) (sightings : List (Record × Instant)) :
    b.mergeEach store sightings = b.mergeEach (Backed.memory store) sightings := by
  induction sightings generalizing b with
  | nil => rfl
  | cons sighting rest ih => simp only [mergeEach, merge_memory b store, ih]

/-- Distinct slots are written as they wait. -/
theorem flushed_of_distinct {b : Batch} (wellFormed : (Backed.memory store).WellFormed)
    (distinct : (b.records.map Record.hash).Nodup) : b.Flushed store (b.flush store) where
  written counts done := by
    have made := b.memory_flush store
    rw [done, flush_eq] at made
    have placed : RecordStore.records (b.flush store).2 =
        Record.placeAll (RecordStore.records store) b.records := by
      rw [Backed.records_eq, Backed.records_eq, made, Store.records_upsertMany wellFormed]
    refine ⟨counts_of_flush done, ?_, ?_, ?_⟩
    · rw [Backed.records_eq, made]
      exact (wellFormed.upsertMany b.records).tracks.nodup
    · rw [placed, Record.map_hash_placeAll distinct]
    · intro hash
      rw [placed, Record.find?_hash_placeAll distinct]
  refused e broken := by
    have made := b.memory_flush store
    rw [broken] at made
    constructor
    · rcases b.flush_cases store with ⟨-, flushed⟩ | ⟨after, -, flushed⟩ | ⟨other, after, refused, flushed⟩
      · rw [flushed] at broken
        cases broken
      · rw [flushed] at broken
        cases broken
      · rw [flushed] at broken
        rw [refused, Except.error.inj broken]
    · rw [Backed.records_eq, Backed.records_eq]
      rcases made with kept | rebuilt
      · rw [kept]
      · rw [rebuilt, Store.records_ofRecords wellFormed]

/-- Over a store whose records carry the fingerprints of their texts, a batch keeps one slot for each
fingerprint at every point of the sightings, and a flush writes each of them once. -/
theorem waits_mergeEach (store : σ) (wellFormed : (Backed.memory store).WellFormed)
    (fingerprinted : Record.Fingerprinted (RecordStore.records store))
    (sightings : List (Record × Instant)) (own : Record.Fingerprinted (sightings.map Prod.fst)) :
    (∀ n, (({} : Batch).mergeEach store (sightings.take n)).2.Waits
        ((sightings.take n).map fun x => x.1.hash)) ∧
      (({} : Batch).mergeEach store sightings).2.Flushed store
        ((({} : Batch).mergeEach store sightings).2.flush store) := by
  rw [Backed.records_eq] at fingerprinted
  have atEvery : ∀ n, (({} : Batch).mergeEach store (sightings.take n)).2.Waits
      ((sightings.take n).map fun x => x.1.hash) := by
    intro n
    have within : Record.Fingerprinted ((sightings.take n).map Prod.fst) := by
      intro r member
      rw [List.map_take] at member
      exact own r (List.mem_of_mem_take member)
    rw [mergeEach_memory]
    exact waits_empty.mergeEach wellFormed fingerprinted _ within
  have atEnd := atEvery sightings.length
  rw [List.take_length] at atEnd
  exact ⟨atEvery, flushed_of_distinct wellFormed atEnd.distinct⟩

/-- A text with a blank at its end, which its fingerprint does not tell, a new text, and the first text as
it is stored. -/
def blankEndedSightings : List (Record × Instant) :=
  [.sampled "||a.com^ " .privacy 1, .sampled "||b.com^" .privacy 1,
    .sampled "||a.com^" .custom 2].map fun r => (r, r.added)

theorem waits_mergeEach_blankEnded :
    sampledStore.WellFormed ∧ Record.Fingerprinted sampledStore.records ∧
      Record.Fingerprinted (blankEndedSightings.map Prod.fst) ∧
      (({} : Batch).mergeEach sampledStore blankEndedSightings).2.records.map Record.hash =
        [fingerprint "||a.com^", fingerprint "||b.com^"] ∧
      (({} : Batch).mergeEach sampledStore blankEndedSightings).2.counts.total = 3 := by
  have wellFormed : sampledStore.WellFormed := Store.wellFormed_empty.upsert _
  have fingerprinted : Record.Fingerprinted sampledStore.records := List.forall_mem_singleton.mpr rfl
  have own : Record.Fingerprinted (blankEndedSightings.map Prod.fst) :=
    List.forall_mem_cons.mpr ⟨rfl, List.forall_mem_cons.mpr ⟨rfl, List.forall_mem_singleton.mpr rfl⟩⟩
  obtain ⟨atEvery, -⟩ :=
    waits_mergeEach sampledStore wellFormed fingerprinted blankEndedSightings own
  have atEnd := atEvery 3
  have all : blankEndedSightings.take 3 = blankEndedSightings := rfl
  have came : (blankEndedSightings.map fun x => x.1.hash).eraseDups =
      [fingerprint "||a.com^", fingerprint "||b.com^"] := by decide +kernel
  rw [all] at atEnd
  exact ⟨wellFormed, fingerprinted, own, atEnd.order.trans came, atEnd.counted⟩

end

end Batch

end Blocklist
