import Blocklist.Store.Selection

/-!
Stores of records. A store lists its records in the order in which their fingerprints first came, and
finds them by fingerprint and by text. `Store` holds them in memory with one index for each look-up. Main
statements: what an index finds after an entry is put in or taken out.
-/

namespace Blocklist

/-- Positions by text; the first entry of a text counts. -/
structure Index where
  entries : List (String × Nat) := []
  deriving DecidableEq, Repr, Inhabited

namespace Index

def find? (index : Index) (key : String) : Option Nat := index.entries.lookup key

def erase (index : Index) (key : String) : Index := ⟨index.entries.filter fun e => e.1 != key⟩

/-- The index with a text at a position, wherever it was before. -/
def insert (index : Index) (key : String) (position : Nat) : Index :=
  ⟨(key, position) :: (index.erase key).entries⟩

@[simp] theorem find?_empty (key : String) : find? {} key = none := rfl

theorem find?_erase (index : Index) (key other : String) :
    (index.erase key).find? other = if other = key then none else index.find? other := by
  unfold find? erase
  induction index.entries with
  | nil => simp
  | cons e es ih =>
    obtain ⟨k, p⟩ := e
    rw [List.filter_cons, List.lookup_cons]
    by_cases hk : k = key
    · subst hk
      have dropped : ¬(k != k) = true := by simp
      rw [if_neg dropped, ih]
      by_cases ho : other = k
      · rw [if_pos ho, if_pos ho]
      · have passed : (other == k) = false := by simp [ho]
        rw [if_neg ho, if_neg ho, passed]
    · have kept : (k != key) = true := by simp [hk]
      rw [if_pos kept, List.lookup_cons]
      by_cases ho : other = k
      · subst ho
        simp [hk]
      · have passed : (other == k) = false := by simp [ho]
        rw [passed]
        exact ih

theorem find?_insert (index : Index) (key other : String) (position : Nat) :
    (index.insert key position).find? other =
      if other = key then some position else index.find? other := by
  have step : (index.insert key position).find? other =
      if other = key then some position else (index.erase key).find? other := by
    unfold find? insert
    rw [List.lookup_cons]
    by_cases h : other = key
    · simp [h]
    · have passed : (other == key) = false := by simp [h]
      rw [passed, if_neg h]
  rw [step, find?_erase]
  split <;> rfl

end Index

/-- What a merge needs of a store, and what can be asked of one. -/
class RecordStore (σ : Type) where
  records : σ → List Record
  findByHash : σ → String → Option Record
  findByRaw : σ → String → Option Record
  /-- Puts records in, each under its fingerprint. -/
  upsertMany : σ → List Record → Except Error Unit × σ
  /-- Adds a spelling to the record with this fingerprint, if it lacks it. -/
  appendVariant : σ → String → Variant → Except Error Bool × σ
  clear : σ → Except Error Unit × σ

structure Store where
  records : List Record := []
  byHash : Index := {}
  byRaw : Index := {}
  deriving DecidableEq, Repr, Inhabited

namespace Store

def findByHash (s : Store) (hash : String) : Option Record :=
  (s.byHash.find? hash).bind fun i => s.records[i]?

def findByRaw (s : Store) (raw : String) : Option Record :=
  (s.byRaw.find? raw).bind fun i => s.records[i]?

/-- Puts a record in: at the place of the record with its fingerprint, or else at the end. -/
def upsert (s : Store) (r : Record) : Store :=
  match s.byHash.find? r.hash with
  | some i =>
    let withoutOld := match s.records[i]? with
      | some old => s.byRaw.erase old.raw
      | none => s.byRaw
    { s with records := s.records.set i r, byRaw := withoutOld.insert r.raw i }
  | none =>
    { records := s.records ++ [r]
      byHash := s.byHash.insert r.hash s.records.length
      byRaw := s.byRaw.insert r.raw s.records.length }

def upsertMany (s : Store) (records : List Record) : Store := records.foldl upsert s

def ofRecords (records : List Record) : Store := upsertMany {} records

/-- Adds a spelling to the record with this fingerprint; says whether there is such a record and it
lacked the spelling. -/
def appendVariant (s : Store) (hash : String) (v : Variant) : Bool × Store :=
  match s.byHash.find? hash with
  | none => (false, s)
  | some i =>
    match s.records[i]? with
    | none => (false, s)
    | some r =>
      if r.hasVariant v.text then (false, s)
      else (true, { s with records := s.records.set i { r with variants := r.variants ++ [v] } })

def select (s : Store) (selection : Selection) : List Record := selection.choose s.records

def all (s : Store) : List Record := s.select {}

def size (s : Store) : Nat := s.records.length

def isEmpty (s : Store) : Bool := s.size == 0

instance : RecordStore Store where
  records := records
  findByHash := findByHash
  findByRaw := findByRaw
  upsertMany s rs := (.ok (), s.upsertMany rs)
  appendVariant s hash v := let r := s.appendVariant hash v; (.ok r.1, r.2)
  clear _ := (.ok (), {})

end Store

end Blocklist
