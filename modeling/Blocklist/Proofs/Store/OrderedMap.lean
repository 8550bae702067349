import Blocklist.Proofs.Store.Lookups
import Blocklist.Proofs.Store.Ranking
import Blocklist.Proofs.Text.Repetitions

/-!
A store in memory as a map from fingerprints to records that keeps the order of its keys. What the map
holds is told from the events since the store was last emptied: its keys are the fingerprints put in, as
they first came, and each has its latest record with the spellings added to it since. Main statement:
after any changes, every answer of a store is the answer of this map.
-/

namespace Blocklist.Store

/-- What happens to one fingerprint of a store. -/
inductive Event where
  | put (r : Record)
  | spell (hash : String) (v : Variant)

namespace Event

/-- The record that an event puts in. -/
def record? : Event → Option Record
  | put r => some r
  | spell _ _ => none

/-- The fingerprints put in, each where it first came. -/
def keys (events : List Event) : List String :=
  ((events.filterMap record?).map Record.hash).eraseDups

/-- The latest record of a fingerprint and the spellings offered to it since, after one more event. -/
def follow (hash : String) (known : Option (Record × List Variant)) :
    Event → Option (Record × List Variant)
  | put r => if r.hash = hash then some (r, []) else known
  | spell other v => if other = hash then known.map fun k => (k.1, k.2 ++ [v]) else known

/-- The latest record of a fingerprint and the spellings offered to it since, in their order. -/
def latest (hash : String) (events : List Event) : Option (Record × List Variant) :=
  events.foldl (follow hash) none

/-- What a fingerprint leads to: its latest record with the spellings that were added since. -/
def value (events : List Event) (hash : String) : Option Record :=
  (latest hash events).map fun known => known.2.foldl Record.spell known.1

variable (events : List Event) (r : Record) (hash other : String) (v : Variant)

theorem keys_put :
    keys (events ++ [put r]) =
      if r.hash ∈ keys events then keys events else keys events ++ [r.hash] := by
  simp only [keys, List.filterMap_append, List.filterMap_cons, List.filterMap_nil, record?,
    List.map_append, List.map_cons, List.map_nil, eraseDups_concat, List.mem_eraseDups]

theorem keys_spell : keys (events ++ [spell hash v]) = keys events := by
  simp only [keys, List.filterMap_append, List.filterMap_cons, List.filterMap_nil, record?,
    List.append_nil]

theorem value_put :
    value (events ++ [put r]) hash = if hash = r.hash then some r else value events hash := by
  rw [value, latest, List.foldl_concat, follow, ← latest]
  by_cases same : hash = r.hash
  · rw [if_pos same, if_pos same.symm]
    rfl
  · rw [if_neg same, if_neg (Ne.symm same), value]

theorem value_spell :
    value (events ++ [spell other v]) hash =
      if hash = other then (value events hash).map fun r => r.spell v else value events hash := by
  rw [value, latest, List.foldl_concat, follow, ← latest]
  by_cases same : hash = other
  · rw [if_pos same, if_pos same.symm, value]
    cases latest hash events with
    | none => rfl
    | some known => simp only [Option.map_some, List.foldl_concat]
  · rw [if_neg same, if_neg (Ne.symm same), value]

end Event

/-- The events since a store was last emptied, after one more change. -/
def Change.extend (events : List Event) : Change → List Event
  | .upsert r => events ++ [.put r]
  | .upsertMany rs => events ++ rs.map .put
  | .appendVariant hash v => events ++ [.spell hash v]
  | .restore rs => rs.map .put
  | .clear => []

/-- The events of changes to a store that began with these records, since it was last emptied. -/
def eventsOf (initial : List Record) (changes : List Change) : List Event :=
  changes.foldl Change.extend (initial.map .put)

/-- Holds of a store with the keys and the values that events leave. -/
structure Tells (events : List Event) (s : Store) : Prop where
  wellFormed : s.WellFormed
  keys : s.records.map Record.hash = Event.keys events
  value : ∀ hash, s.findByHash hash = Event.value events hash

theorem tells_nil : Tells [] {} := ⟨wellFormed_empty, rfl, fun _ => rfl⟩

namespace Tells

variable {s : Store} {events : List Event}

theorem upsert (tells : Tells events s) (r : Record) : Tells (events ++ [.put r]) (s.upsert r) where
  wellFormed := tells.wellFormed.upsert r
  keys := by
    rw [records_upsert tells.wellFormed, Record.map_hash_placeIn, tells.keys, Event.keys_put]
  value hash := by
    rw [findByHash_upsert tells.wellFormed, tells.value, Event.value_put]

theorem appendVariant (tells : Tells events s) (hash : String) (v : Variant) :
    Tells (events ++ [.spell hash v]) (s.appendVariant hash v).2 where
  wellFormed := tells.wellFormed.appendVariant hash v
  keys := by
    rw [records_appendVariant tells.wellFormed, Record.map_hash_spellIn, tells.keys,
      Event.keys_spell]
  value other := by
    rw [findByHash_appendVariant tells.wellFormed, tells.value, Event.value_spell]

theorem upsertMany (tells : Tells events s) (rs : List Record) :
    Tells (events ++ rs.map .put) (s.upsertMany rs) := by
  induction rs generalizing events s with
  | nil =>
    rw [List.map_nil, List.append_nil]
    exact tells
  | cons r rs ih =>
    have step := ih (tells.upsert r)
    rw [List.append_assoc, List.singleton_append] at step
    exact step

theorem change (tells : Tells events s) (c : Change) : Tells (c.extend events) (s.change c) := by
  cases c with
  | upsert r => exact tells.upsert r
  | upsertMany rs => exact tells.upsertMany rs
  | appendVariant hash v => exact tells.appendVariant hash v
  | restore rs => exact tells_nil.upsertMany rs
  | clear => exact tells_nil

theorem changeAll (tells : Tells events s) (changes : List Change) :
    Tells (changes.foldl Change.extend events) (s.changeAll changes) := by
  induction changes generalizing events s with
  | nil => exact tells
  | cons c changes ih => exact ih (tells.change c)

/-- The keys in order and their values make up the list of records. -/
theorem records_eq (tells : Tells events s) :
    s.records = (Event.keys events).filterMap (Event.value events) := by
  have found : ∀ r ∈ s.records, Event.value events r.hash = some r := by
    intro r member
    rw [← tells.value, findByHash_eq_find? tells.wellFormed]
    exact (Record.find?_hash_eq_some_iff tells.wellFormed.tracks.nodup).mpr ⟨member, rfl⟩
  rw [← tells.keys, List.filterMap_map]
  calc
    s.records = s.records.filterMap some := (List.filterMap_some).symm
    _ = _ := List.filterMap_congr fun r member => (found r member).symm

end Tells

/-- Holds of a store whose answers are those of the ordered map that events make. -/
structure Refines (events : List Event) (s : Store) : Prop where
  distinct : (Event.keys events).Nodup
  hashes : s.all.map Record.hash = Event.keys events
  all : s.all = (Event.keys events).filterMap (Event.value events)
  findByHash : ∀ hash, s.findByHash hash = Event.value events hash
  size : s.size = (Event.keys events).length
  isEmpty : s.isEmpty = true ↔ Event.keys events = []
  select : ∀ selection : Selection, s.select selection = s.all.filter selection.accepts
  added : ∀ hash v, (s.appendVariant hash v).1 = true ↔
    ∃ r, Event.value events hash = some r ∧ r.hasVariant v.text = false
  refused : ∀ hash v, (s.appendVariant hash v).1 = false → (s.appendVariant hash v).2 = s

/-- Whatever records a store in memory began with and whatever changes were made, its answers are those
of the map that the events since it was last emptied make. -/
theorem changeAll_refines (initial : List Record) (changes : List Change) :
    Refines (eventsOf initial changes) ((ofRecords initial).changeAll changes) := by
  have tells : Tells (eventsOf initial changes) ((ofRecords initial).changeAll changes) :=
    (tells_nil.upsertMany initial).changeAll changes
  have all : ∀ s : Store, s.all = s.records := fun s => Selection.choose_default s.records
  have size : ∀ s : Store, s.size = (s.records.map Record.hash).length :=
    fun s => (List.length_map Record.hash).symm
  refine ⟨nodup_eraseDups _, ?_, ?_, tells.value, ?_, ?_, ?_, ?_, ?_⟩
  · rw [all, tells.keys]
  · rw [all, tells.records_eq]
  · rw [size, tells.keys]
  · rw [isEmpty, size, tells.keys, beq_iff_eq, List.length_eq_zero_iff]
  · intro selection
    rw [all]
    rfl
  · intro hash v
    rw [appendVariant_fst, tells.value, Option.any_eq_true]
    simp
  · intro hash v
    exact appendVariant_unchanged

end Blocklist.Store
