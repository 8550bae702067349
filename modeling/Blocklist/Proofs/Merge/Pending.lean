import Blocklist.Proofs.Fingerprint
import Blocklist.Proofs.Merge.History
import Blocklist.Proofs.Store.Lookups
import Blocklist.Proofs.Merge.Batching

/-!
What waits in a batch over a store whose records carry the fingerprints of their texts. A candidate finds
the pending record of its fingerprint; only where none is pending yet does it look its text up in the
store. Main statement: the pending record of a fingerprint is what its sightings make of the record that
the text of the first of them leads to.
-/

namespace Blocklist

theorem Record.merge_hash {candidate : Record} {existing : Option Record} (now : Instant)
    (same : ∀ known, existing = some known → known.hash = candidate.hash) :
    (candidate.merge existing now).1.hash = candidate.hash := by
  unfold merge
  split
  · rfl
  · cases existing with
    | none => rfl
    | some known => exact same known rfl

namespace Batch

variable {b : Batch} {s : Store} {candidate : Record}

theorem known_eq_find?_hash {σ : Type} [RecordStore σ] (store : σ) (candidate : Record)
    (tracks : b.byHash.Tracks b.records) :
    b.known store candidate =
      (b.records.find? fun r => r.hash = candidate.hash).or
        (RecordStore.findByRaw store candidate.raw) := by
  rw [← tracks.bind_find?]
  cases found : b.byHash.find? candidate.hash with
  | none => simp only [known, found, Option.bind_none, Option.none_or]
  | some i =>
    obtain ⟨p, position, -⟩ := (tracks candidate.hash i).mp found
    simp only [known, found, Option.bind_some, position, Option.some_or]

section
variable (wellFormed : s.WellFormed) (fingerprinted : Record.Fingerprinted s.records)
include wellFormed fingerprinted

/-- Whatever is known about a candidate has the candidate's fingerprint. -/
theorem hash_of_known {known : Record} (tracks : b.byHash.Tracks b.records)
    (own : candidate.hash = fingerprint candidate.raw) (found : b.known s candidate = some known) :
    known.hash = candidate.hash := by
  rw [known_eq_find?_hash s candidate tracks] at found
  rcases Option.or_eq_some_iff.mp found with pending | ⟨-, stored⟩
  · simpa using List.find?_some pending
  · obtain ⟨member, text⟩ := Store.mem_of_findByRaw wellFormed stored
    rw [fingerprinted known member, text, own]

/-- A candidate is merged at the place of its fingerprint. -/
theorem merge_placed (now : Instant) (tracks : b.byHash.Tracks b.records)
    (own : candidate.hash = fingerprint candidate.raw) :
    (candidate.merge (b.known s candidate) now).1.hash = candidate.hash ∧
      (b.merge s candidate now).2.records =
        Record.placeIn (candidate.merge (b.known s candidate) now).1 b.records ∧
      (b.merge s candidate now).2.byHash.Tracks (b.merge s candidate now).2.records := by
  have key : (candidate.merge (b.known s candidate) now).1.hash = candidate.hash :=
    Record.merge_hash now fun _ found => hash_of_known wellFormed fingerprinted tracks own found
  exact ⟨key, merge_records now tracks key⟩

theorem tracks_mergeEach (tracks : b.byHash.Tracks b.records) (sightings : List (Record × Instant))
    (own : Record.Fingerprinted (sightings.map Prod.fst)) :
    (b.mergeEach s sightings).2.byHash.Tracks (b.mergeEach s sightings).2.records := by
  induction sightings generalizing b with
  | nil => exact tracks
  | cons sighting rest ih =>
    rw [List.map_cons, Record.Fingerprinted, List.forall_mem_cons] at own
    exact ih (merge_placed wellFormed fingerprinted sighting.2 tracks own.1).2.2 own.2

/-- The pending record of a fingerprint is what the sightings of that fingerprint make of the one that
was pending before, or else of the stored record that the first of their texts leads to. -/
theorem find?_mergeEach (tracks : b.byHash.Tracks b.records) (sightings : List (Record × Instant))
    (own : Record.Fingerprinted (sightings.map Prod.fst)) (hash : String) :
    ((b.mergeEach s sightings).2.records.find? fun r => r.hash = hash) =
      Record.mergeAll
        ((b.records.find? fun r => r.hash = hash).or
          ((sightings.find? fun x => x.1.hash = hash).bind fun first => s.findByRaw first.1.raw))
        (sightings.filter fun x => x.1.hash = hash) := by
  induction sightings generalizing b with
  | nil => simp [mergeEach, Record.mergeAll]
  | cons sighting rest ih =>
    obtain ⟨candidate, now⟩ := sighting
    rw [List.map_cons, Record.Fingerprinted, List.forall_mem_cons] at own
    obtain ⟨key, placed, still⟩ := merge_placed wellFormed fingerprinted now tracks own.1
    have later := ih still own.2
    rw [placed, Record.find?_hash_placeIn, key] at later
    rw [mergeEach, later]
    by_cases here : hash = candidate.hash
    · have known := known_eq_find?_hash s candidate tracks
      subst here
      simp only [if_true, Option.some_or, List.find?_cons, List.filter_cons, decide_true,
        Option.bind_some, Record.mergeAll_cons, known]
      rfl
    · simp only [if_neg here, List.find?_cons, List.filter_cons, decide_eq_false (Ne.symm here),
        Bool.false_eq_true, if_false]

end

end Batch

end Blocklist
