import Blocklist.Proofs.Fingerprint
import Blocklist.Proofs.Merge.Batching
import Blocklist.Proofs.Merge.History
import Blocklist.Proofs.Text.Repetitions

/-!
Sightings seen on the list of records alone: the record of the candidate's text is merged with the
candidate and keeps its place, and a new text goes to the end. Main statements: where every text leads to
its record, flushing a batch gives the list that the sightings give one by one, the texts are listed in
the order in which they first came, and the record of a text is what the sightings of that text make of
the one before.
-/

namespace Blocklist

namespace Record

/-- What a sighting makes of the record that is listed under the candidate's text. -/
def resighted (records : List Record) (candidate : Record) (now : Instant) : Record :=
  (candidate.merge (records.find? fun r => r.raw = candidate.raw) now).1

/-- The records after a sighting. -/
def sightIn (records : List Record) (sighting : Record × Instant) : List Record :=
  placeIn (resighted records sighting.1 sighting.2) records

/-- The records after sightings, one after the other. -/
def sightAll (records : List Record) (sightings : List (Record × Instant)) : List Record :=
  sightings.foldl sightIn records

section
variable {records : List Record} {candidate : Record} (now : Instant)

theorem resighted_key (keyed : ∀ x ∈ records, x.hash = candidate.hash ↔ x.raw = candidate.raw) :
    (resighted records candidate now).hash = candidate.hash ∧
      (resighted records candidate now).raw = candidate.raw := by
  apply merge_key
  intro known found
  have text : known.raw = candidate.raw := by simpa using List.find?_some found
  exact ⟨(keyed known (List.mem_of_find?_eq_some found)).mpr text, text⟩

theorem mem_sightIn {x : Record} (member : x ∈ sightIn records (candidate, now)) :
    x = resighted records candidate now ∨ x ∈ records :=
  List.mem_cons.mp (placeIn_subset _ _ member)

theorem keyed_sightIn {rest : List Record} (keyed : Keyed (records ++ candidate :: rest)) :
    Keyed (sightIn records (candidate, now) ++ rest) := by
  have key := resighted_key now keyed.head
  exact keyed.placeIn key.1 key.2

theorem map_raw_sightIn (keyed : ∀ x ∈ records, x.hash = candidate.hash ↔ x.raw = candidate.raw) :
    (sightIn records (candidate, now)).map raw =
      if candidate.raw ∈ records.map raw then records.map raw
      else records.map raw ++ [candidate.raw] := by
  have key := resighted_key now keyed
  rw [sightIn, map_raw_placeIn (by rw [key.1, key.2]; exact keyed), key.2]

theorem fingerprinted_sightIn (keyed : ∀ x ∈ records, x.hash = candidate.hash ↔ x.raw = candidate.raw)
    (listed : Fingerprinted records) (new : candidate.hash = fingerprint candidate.raw) :
    Fingerprinted (sightIn records (candidate, now)) := by
  have key := resighted_key now keyed
  intro x member
  rcases mem_sightIn now member with made | old
  · rw [made, key.1, key.2, new]
  · exact listed x old

end

section
variable {records : List Record} (sightings : List (Record × Instant))

/-- After sightings, the texts are listed in the order in which they first came. -/
theorem map_raw_sightAll {texts : List String}
    (keyed : Keyed (records ++ sightings.map Prod.fst))
    (listed : records.map raw = texts.eraseDups) :
    (sightAll records sightings).map raw =
      (texts ++ sightings.map fun s => s.1.raw).eraseDups := by
  induction sightings generalizing records texts with
  | nil => simpa [sightAll] using listed
  | cons sighting rest ih =>
    obtain ⟨candidate, now⟩ := sighting
    rw [List.map_cons] at keyed
    have step :
        (sightIn records (candidate, now)).map raw = (texts ++ [candidate.raw]).eraseDups := by
      rw [map_raw_sightIn now keyed.head, eraseDups_concat, listed]
      simp only [List.mem_eraseDups]
    have later := ih (keyed_sightIn now keyed) step
    rw [List.append_assoc, List.singleton_append] at later
    exact later

/-- Only the sightings of its own text make a record what it is. -/
theorem find?_raw_sightAll (keyed : Keyed (records ++ sightings.map Prod.fst)) (text : String) :
    ((sightAll records sightings).find? fun r => r.raw = text) =
      mergeAll (records.find? fun r => r.raw = text)
        (sightings.filter fun s => s.1.raw = text) := by
  induction sightings generalizing records with
  | nil => rfl
  | cons sighting rest ih =>
    obtain ⟨candidate, now⟩ := sighting
    rw [List.map_cons] at keyed
    have key := resighted_key now keyed.head
    have step : ((sightIn records (candidate, now)).find? fun r => r.raw = text) =
        if text = candidate.raw then some (resighted records candidate now)
        else records.find? fun r => r.raw = text := by
      rw [sightIn, find?_raw_placeIn (by rw [key.1, key.2]; exact keyed.head), key.2]
    have later := ih (keyed_sightIn now keyed)
    rw [step] at later
    by_cases here : text = candidate.raw
    · subst here
      rw [if_pos rfl] at later
      rw [List.filter_cons_of_pos (by simp), mergeAll_cons]
      exact later
    · rw [if_neg here] at later
      rw [List.filter_cons_of_neg (by simpa using Ne.symm here)]
      exact later

theorem fingerprinted_sightAll (keyed : Keyed (records ++ sightings.map Prod.fst))
    (listed : Fingerprinted records) (new : Fingerprinted (sightings.map Prod.fst)) :
    Fingerprinted (sightAll records sightings) := by
  induction sightings generalizing records with
  | nil => exact listed
  | cons sighting rest ih =>
    obtain ⟨candidate, now⟩ := sighting
    rw [List.map_cons] at keyed new
    apply ih (keyed_sightIn now keyed)
    · exact fingerprinted_sightIn now keyed.head listed (new candidate List.mem_cons_self)
    · exact fun r member => new r (List.mem_cons_of_mem _ member)

end

end Record

namespace Store

variable {s : Store}

theorem sight_exact {candidate : Record} (now : Instant) (exact : s.Exact)
    (keyed : ∀ x ∈ s.records, x.hash = candidate.hash ↔ x.raw = candidate.raw) :
    (s.sight candidate now).2.records = Record.sightIn s.records (candidate, now) ∧
      (s.sight candidate now).2.Exact := by
  have key := sighted_key now exact.toWellFormed keyed
  have same : s.sighted candidate now = Record.resighted s.records candidate now := by
    rw [sighted, exact.finds, Record.resighted]
  rw [sight_snd]
  constructor
  · rw [records_upsert exact.toWellFormed, same, Record.sightIn]
  · apply exact.upsert
    rw [key.1, key.2]
    exact keyed

theorem sightEach_exact (sightings : List (Record × Instant)) (exact : s.Exact)
    (keyed : Record.Keyed (s.records ++ sightings.map Prod.fst)) :
    (s.sightEach sightings).2.records = Record.sightAll s.records sightings ∧
      (s.sightEach sightings).2.Exact ∧ Record.Keyed (s.sightEach sightings).2.records := by
  induction sightings generalizing s with
  | nil => exact ⟨rfl, exact, keyed.mono (by simp [sightEach])⟩
  | cons sighting rest ih =>
    obtain ⟨candidate, now⟩ := sighting
    rw [List.map_cons] at keyed
    obtain ⟨listed, stillExact⟩ := sight_exact now exact keyed.head
    have later := ih stillExact (keyed_sight now exact.toWellFormed keyed)
    rw [listed] at later
    exact later

end Store

namespace Batch

/-- Flushing a batch gives the list that the sightings give one by one, and every text leads to its
record in the flushed store too. -/
theorem flush_exact {s : Store} (sightings : List (Record × Instant)) (exact : s.Exact)
    (keyed : Record.Keyed (s.records ++ sightings.map Prod.fst)) :
    ((({} : Batch).mergeEach s sightings).2.flush s).2.records =
        Record.sightAll s.records sightings ∧
      ((({} : Batch).mergeEach s sightings).2.flush s).2.Exact := by
  obtain ⟨-, represents⟩ := (represents_empty exact.toWellFormed).mergeEach sightings keyed
  obtain ⟨listed, -, stillKeyed⟩ := Store.sightEach_exact sightings exact keyed
  rw [flush_eq]
  constructor
  · rw [Store.records_upsertMany exact.toWellFormed, ← represents.records, listed]
  · exact exact.upsertMany (represents.keyed stillKeyed)

end Batch

end Blocklist
