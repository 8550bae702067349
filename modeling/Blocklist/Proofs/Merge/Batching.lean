import Blocklist.Merge
import Blocklist.Proofs.Record.Candidate
import Blocklist.Proofs.Store.Changes

/-!
Merging a batch against a store that stays stale until the flush does what merging every candidate into
the store at once does. The invariant between the two: the stale store with the pending records placed in
it has the records of the store that is kept up to date, and a text leads to the pending record with that
text, or else to where it leads in the stale store.
-/

namespace Blocklist

def MergeCounts.ofOutcomes (outcomes : List MergeOutcome) : MergeCounts :=
  outcomes.foldl MergeCounts.record {}

/-- Merges candidates, each at its time, over one batch: the outcomes and the batch. -/
def Batch.mergeEach {σ : Type} [RecordStore σ] (b : Batch) (store : σ) :
    List (Record × Instant) → List MergeOutcome × Batch
  | [] => ([], b)
  | (candidate, now) :: rest =>
    let merged := b.merge store candidate now
    let later := mergeEach merged.2 store rest
    (merged.1 :: later.1, later.2)

namespace Store

/-- Merges a candidate into a store at once: looks its text up, merges, and puts the result in. -/
def sight (s : Store) (candidate : Record) (now : Instant) : MergeOutcome × Store :=
  let merged := candidate.merge (s.findByRaw candidate.raw) now
  (merged.2, s.upsert merged.1)

/-- Merges candidates, each at its time, into a store at once: the outcomes and the store. -/
def sightEach (s : Store) : List (Record × Instant) → List MergeOutcome × Store
  | [] => ([], s)
  | (candidate, now) :: rest =>
    let seen := s.sight candidate now
    let later := sightEach seen.2 rest
    (seen.1 :: later.1, later.2)

end Store

/-- A merge keeps fingerprint and text when what is known has both of them too. -/
theorem Record.merge_key {candidate : Record} {existing : Option Record} (now : Instant)
    (same : ∀ known, existing = some known →
      known.hash = candidate.hash ∧ known.raw = candidate.raw) :
    (candidate.merge existing now).1.hash = candidate.hash ∧
      (candidate.merge existing now).1.raw = candidate.raw := by
  unfold merge
  split
  · exact ⟨rfl, rfl⟩
  · cases existing with
    | none => exact ⟨rfl, rfl⟩
    | some known => exact same known rfl

namespace Store

variable {s : Store} {candidate : Record} (now : Instant)

/-- The record that a sighting puts in. -/
def sighted (s : Store) (candidate : Record) (now : Instant) : Record :=
  (candidate.merge (s.findByRaw candidate.raw) now).1

theorem sight_snd : (s.sight candidate now).2 = s.upsert (s.sighted candidate now) := rfl

theorem sighted_key (wellFormed : s.WellFormed)
    (keyed : ∀ x ∈ s.records, x.hash = candidate.hash ↔ x.raw = candidate.raw) :
    (s.sighted candidate now).hash = candidate.hash ∧
      (s.sighted candidate now).raw = candidate.raw := by
  apply Record.merge_key
  intro known found
  obtain ⟨member, text⟩ := mem_of_findByRaw wellFormed found
  exact ⟨(keyed known member).mpr text, text⟩

theorem keyed_sight {rest : List Record} (wellFormed : s.WellFormed)
    (keyed : Record.Keyed (s.records ++ candidate :: rest)) :
    Record.Keyed ((s.sight candidate now).2.records ++ rest) := by
  have key := sighted_key now wellFormed keyed.head
  rw [sight_snd, records_upsert wellFormed]
  exact keyed.placeIn key.1 key.2

end Store

namespace Batch

section
variable {σ : Type} [RecordStore σ] (b : Batch) (store : σ) (candidate : Record) (now : Instant)

theorem merge_outcome :
    (b.merge store candidate now).1 = (candidate.merge (b.known store candidate) now).2 := by
  unfold merge
  cases b.byHash.find? candidate.hash <;> rfl

theorem merge_counts :
    (b.merge store candidate now).2.counts =
      b.counts.record (candidate.merge (b.known store candidate) now).2 := by
  unfold merge
  cases b.byHash.find? candidate.hash <;> rfl

variable {b store candidate}

theorem merge_records (tracks : b.byHash.Tracks b.records)
    (same : (candidate.merge (b.known store candidate) now).1.hash = candidate.hash) :
    (b.merge store candidate now).2.records =
        Record.placeIn (candidate.merge (b.known store candidate) now).1 b.records ∧
      (b.merge store candidate now).2.byHash.Tracks (b.merge store candidate now).2.records := by
  cases found : b.byHash.find? candidate.hash with
  | none =>
    have absent := same ▸ found
    have result : (b.merge store candidate now).2 = {
        records := b.records ++ [(candidate.merge (b.known store candidate) now).1]
        byHash := b.byHash.insert (candidate.merge (b.known store candidate) now).1.hash
          b.records.length
        counts := b.counts.record (candidate.merge (b.known store candidate) now).2 } := by
      simp only [merge, found]
    rw [result]
    exact ⟨(tracks.placeIn_of_none absent).symm, tracks.append absent⟩
  | some i =>
    obtain ⟨old, position, key⟩ := (tracks candidate.hash i).mp found
    have result : (b.merge store candidate now).2 = { b with
        records := b.records.set i (candidate.merge (b.known store candidate) now).1
        counts := b.counts.record (candidate.merge (b.known store candidate) now).2 } := by
      simp only [merge, found]
    rw [result]
    exact ⟨(tracks.placeIn_of_some (same ▸ found)).symm,
      tracks.set position (key.trans same.symm)⟩

/-- What is known about a candidate is the pending record with its text, or else the stored one. -/
theorem known_eq_find? (tracks : b.byHash.Tracks b.records)
    (keyed : ∀ r ∈ b.records, r.hash = candidate.hash ↔ r.raw = candidate.raw) :
    b.known store candidate =
      (b.records.find? fun r => r.raw = candidate.raw).or
        (RecordStore.findByRaw store candidate.raw) := by
  cases found : b.byHash.find? candidate.hash with
  | none =>
    have absent := tracks.not_mem_of_none found
    have nothing : (b.records.find? fun r => r.raw = candidate.raw) = none := by
      rw [List.find?_eq_none]
      intro r member equal
      apply absent
      rw [← (keyed r member).mpr (by simpa using equal)]
      exact List.mem_map_of_mem member
    simp only [known, found, nothing, Option.none_or]
  | some i =>
    obtain ⟨p, position, key⟩ := (tracks candidate.hash i).mp found
    have member : p ∈ b.records := List.mem_of_getElem? position
    have pending : (b.records.find? fun r => r.raw = candidate.raw) = some p := by
      cases search : b.records.find? fun r => r.raw = candidate.raw with
      | none =>
        rw [List.find?_eq_none] at search
        exact absurd ((keyed p member).mp key) (by simpa using search p member)
      | some q =>
        have equal : q.raw = candidate.raw := by simpa using List.find?_some search
        have inside := List.mem_of_find?_eq_some search
        have keys : q.hash = p.hash := ((keyed q inside).mpr equal).trans key.symm
        rw [List.inj_on_of_nodup_map tracks.nodup inside member keys]
    simp only [known, found, position, pending, Option.some_or]

end

/-- Holds of a batch over a stale store that together stand for a store that is up to date. -/
structure Represents (b : Batch) (stale current : Store) : Prop where
  tracks : b.byHash.Tracks b.records
  wellFormed : current.WellFormed
  records : current.records = Record.placeAll stale.records b.records
  included : b.records ⊆ current.records
  kept : ∀ x ∈ stale.records, ∃ y ∈ current.records, y.hash = x.hash ∧ y.raw = x.raw
  finds : ∀ text, current.findByRaw text =
    (b.records.find? fun r => r.raw = text).or (stale.findByRaw text)

theorem represents_empty {s : Store} (wellFormed : s.WellFormed) : Represents {} s s where
  tracks := Index.Tracks.empty
  wellFormed := wellFormed
  records := rfl
  included := List.nil_subset _
  kept := fun x member => ⟨x, member, rfl, rfl⟩
  finds := by simp

namespace Represents

variable {b : Batch} {stale current : Store} {candidate : Record}

/-- One candidate: the batch and the store that is up to date come to the same record. -/
theorem merged_eq (represents : Represents b stale current) (now : Instant)
    (keyed : ∀ x ∈ current.records, x.hash = candidate.hash ↔ x.raw = candidate.raw) :
    candidate.merge (b.known stale candidate) now =
      candidate.merge (current.findByRaw candidate.raw) now := by
  have pending := fun r member => keyed r (represents.included member)
  rw [known_eq_find? represents.tracks pending, represents.finds]
  rfl

theorem merge (represents : Represents b stale current) (now : Instant)
    (keyed : ∀ x ∈ current.records, x.hash = candidate.hash ↔ x.raw = candidate.raw) :
    Represents (b.merge stale candidate now).2 stale (current.sight candidate now).2 := by
  have merged : (candidate.merge (b.known stale candidate) now).1 = current.sighted candidate now :=
    congrArg Prod.fst (represents.merged_eq now keyed)
  have key := Store.sighted_key now represents.wellFormed keyed
  have stillKeyed : ∀ x ∈ current.records, x.hash = (current.sighted candidate now).hash ↔
      x.raw = (current.sighted candidate now).raw := by
    rw [key.1, key.2]
    exact keyed
  obtain ⟨placed, follows⟩ := merge_records now represents.tracks (merged ▸ key.1)
  rw [merged] at placed
  have stored : (current.sight candidate now).2.records =
      Record.placeIn (current.sighted candidate now) current.records :=
    Store.records_upsert represents.wellFormed _
  have distinct := represents.wellFormed.tracks.nodup
  -- Both sides placed the same record, one among the pending records and one among all of them.
  refine ⟨follows, represents.wellFormed.upsert _, ?_, ?_, ?_, ?_⟩
  · rw [stored, placed, represents.records, Record.placeAll_placeIn represents.tracks.nodup]
  · rw [stored, placed]
    intro x member
    rw [Record.mem_placeIn distinct]
    rw [Record.mem_placeIn represents.tracks.nodup] at member
    exact member.imp_right (And.imp_left (fun old => represents.included old))
  · intro x member
    obtain ⟨y, stays, sameHash, sameText⟩ := represents.kept x member
    rw [stored]
    by_cases replaced : y.hash = (current.sighted candidate now).hash
    · refine ⟨_, (Record.mem_placeIn distinct).mpr (Or.inl rfl), ?_, ?_⟩
      · rw [← replaced, sameHash]
      · rw [← (stillKeyed y stays).mp replaced, sameText]
    · have present := (Record.mem_placeIn distinct).mpr (Or.inr ⟨stays, replaced⟩)
      exact ⟨y, present, sameHash, sameText⟩
  · intro text
    rw [Store.sight_snd, Store.findByRaw_upsert_of_keyed represents.wellFormed _ stillKeyed, placed,
      Record.find?_raw_placeIn (fun x member => stillKeyed x (represents.included member)),
      represents.finds]
    split
    · rfl
    · rfl

/-- Candidates in order: the outcomes agree, and the batch stands for the other store at the end too. -/
theorem mergeEach (represents : Represents b stale current) (sightings : List (Record × Instant))
    (keyed : Record.Keyed (current.records ++ sightings.map Prod.fst)) :
    (b.mergeEach stale sightings).1 = (current.sightEach sightings).1 ∧
      Represents (b.mergeEach stale sightings).2 stale (current.sightEach sightings).2 := by
  induction sightings generalizing b current with
  | nil => exact ⟨rfl, represents⟩
  | cons sighting rest ih =>
    obtain ⟨candidate, now⟩ := sighting
    rw [List.map_cons] at keyed
    have here : ∀ x ∈ current.records, x.hash = candidate.hash ↔ x.raw = candidate.raw := keyed.head
    have outcome : (b.merge stale candidate now).1 = (current.sight candidate now).1 := by
      rw [merge_outcome, represents.merged_eq now here]
      rfl
    obtain ⟨outcomes, final⟩ := ih (represents.merge now here)
      (Store.keyed_sight now represents.wellFormed keyed)
    refine ⟨?_, final⟩
    simp only [Batch.mergeEach, Store.sightEach, outcome, outcomes]

theorem keyed (represents : Represents b stale current) (keyed : Record.Keyed current.records) :
    Record.Keyed (stale.records ++ b.records) := by
  apply keyed.of_keys
  intro x member
  rcases List.mem_append.mp member with stored | pending
  · exact represents.kept x stored
  · exact ⟨x, represents.included pending, rfl, rfl⟩

end Represents

theorem flush_eq (b : Batch) (s : Store) : b.flush s = (.ok b.counts, s.upsertMany b.records) := by
  unfold flush
  split
  next nothing => rw [List.isEmpty_iff.mp nothing]; rfl
  next => rfl

theorem mergeEach_counts {σ : Type} [RecordStore σ] (b : Batch) (store : σ)
    (sightings : List (Record × Instant)) :
    (b.mergeEach store sightings).2.counts =
      (b.mergeEach store sightings).1.foldl MergeCounts.record b.counts := by
  induction sightings generalizing b with
  | nil => rfl
  | cons sighting rest ih =>
    simp only [mergeEach, List.foldl_cons, ih, merge_counts, merge_outcome]

/-- A batch over a stale store and its flush do what merging every candidate at once does: the same
outcomes, the same counts, and the same records in the same order. -/
theorem flush_mergeEach (s : Store) (reachable : s.Reachable) (sightings : List (Record × Instant))
    (keyed : Record.Keyed (s.records ++ sightings.map Prod.fst)) :
    ((({} : Batch).mergeEach s sightings).1 = (s.sightEach sightings).1) ∧
      (((({} : Batch).mergeEach s sightings).2.flush s).1 =
        .ok (MergeCounts.ofOutcomes (s.sightEach sightings).1)) ∧
      (((({} : Batch).mergeEach s sightings).2.flush s).2.records =
        (s.sightEach sightings).2.records) := by
  have wellFormed := reachable.wellFormed
  obtain ⟨outcomes, represents⟩ := (represents_empty wellFormed).mergeEach sightings keyed
  refine ⟨outcomes, ?_, ?_⟩
  · rw [flush_eq, mergeEach_counts, outcomes]
    rfl
  · rw [flush_eq, Store.records_upsertMany wellFormed, represents.records]

/-- A store with one rule. -/
def sampledStore : Store := ({} : Store).upsert (Record.sampled "||a.com^" .advertising 0)

/-- Its rule again, then a new one, then its rule in one's own list. -/
def sampledSightings : List (Record × Instant) :=
  [.sampled "||a.com^" .privacy 1, .sampled "||b.com^" .privacy 1,
    .sampled "||a.com^" .custom 2].map fun r => (r, r.added)

theorem flush_mergeEach_sampled :
    sampledStore.Reachable ∧
      Record.Keyed (sampledStore.records ++ sampledSightings.map Prod.fst) ∧
      (({} : Batch).mergeEach sampledStore sampledSightings).1 =
        (sampledStore.sightEach sampledSightings).1 ∧
      ((({} : Batch).mergeEach sampledStore sampledSightings).2.flush sampledStore).1 =
        .ok (MergeCounts.ofOutcomes (sampledStore.sightEach sampledSightings).1) ∧
      ((({} : Batch).mergeEach sampledStore sampledSightings).2.flush sampledStore).2.records =
        (sampledStore.sightEach sampledSightings).2.records := by
  have reachable : sampledStore.Reachable :=
    ⟨[.upsert (Record.sampled "||a.com^" .advertising 0)], rfl⟩
  have keyed : Record.Keyed (sampledStore.records ++ sampledSightings.map Prod.fst) := by
    decide +kernel
  exact ⟨reachable, keyed, flush_mergeEach sampledStore reachable sampledSightings keyed⟩

end Batch

end Blocklist
