import Blocklist.Record.Basic
import Blocklist.Store.Basic

/-!
Merging a sighting into what is known about a rule, one by one or as a batch against a store that stays as it
is until the batch is flushed. A custom sighting replaces everything; otherwise the known record stays and
takes over sources, tags and a new spelling.
-/

namespace Blocklist

inductive MergeOutcome where
  | inserted
  | overwritten
  | merged (variantAdded : Bool)
  deriving DecidableEq, Repr

namespace Record

/-- The known record together with a sighting that is not custom. -/
def absorb (known candidate : Record) (now : Instant) : Record :=
  { known with
    sources := known.sources.union candidate.sources
    tags := known.tags.union candidate.tags
    updated := now
    variants :=
      if known.hasVariant candidate.raw then known.variants
      else known.variants ++ candidate.variants.take 1 }

def merge (candidate : Record) (existing : Option Record) (now : Instant) : Record × MergeOutcome :=
  if candidate.category = .custom then (candidate, .overwritten)
  else
    match existing with
    | none => (candidate, .inserted)
    | some known => (known.absorb candidate now, .merged (!known.hasVariant candidate.raw))

end Record

structure MergeCounts where
  inserted : Nat := 0
  overwritten : Nat := 0
  merged : Nat := 0
  variantsAdded : Nat := 0
  deriving DecidableEq, Repr, Inhabited

namespace MergeCounts

def record (counts : MergeCounts) : MergeOutcome → MergeCounts
  | .inserted => { counts with inserted := counts.inserted + 1 }
  | .overwritten => { counts with overwritten := counts.overwritten + 1 }
  | .merged variantAdded =>
    { counts with
      merged := counts.merged + 1
      variantsAdded := counts.variantsAdded + if variantAdded then 1 else 0 }

def add (a b : MergeCounts) : MergeCounts :=
  ⟨a.inserted + b.inserted, a.overwritten + b.overwritten, a.merged + b.merged,
    a.variantsAdded + b.variantsAdded⟩

def total (counts : MergeCounts) : Nat := counts.inserted + counts.overwritten + counts.merged

end MergeCounts

/-- Records that wait to be written, by fingerprint, and what happened so far. -/
structure Batch where
  records : List Record := []
  byHash : Index := {}
  counts : MergeCounts := {}
  deriving DecidableEq, Repr, Inhabited

namespace Batch

def isEmpty (b : Batch) : Bool := b.records.isEmpty

/-- What is known about a candidate's rule: the pending record, or else the stored one. -/
def known [RecordStore σ] (b : Batch) (store : σ) (candidate : Record) : Option Record :=
  match b.byHash.find? candidate.hash with
  | some i => b.records[i]?
  | none => RecordStore.findByRaw store candidate.raw

/-- Merges a candidate: over the pending record of its fingerprint, or as one more pending record. -/
def merge [RecordStore σ] (b : Batch) (store : σ) (candidate : Record) (now : Instant) :
    MergeOutcome × Batch :=
  let (record, outcome) := candidate.merge (b.known store candidate) now
  let counts := b.counts.record outcome
  match b.byHash.find? candidate.hash with
  | some i => (outcome, { b with records := b.records.set i record, counts })
  | none =>
    (outcome, {
      records := b.records ++ [record]
      byHash := b.byHash.insert record.hash b.records.length
      counts })

/-- Writes the pending records to the store, if there are any. -/
def flush [RecordStore σ] (b : Batch) (store : σ) : Except Error MergeCounts × σ :=
  if b.records.isEmpty then (.ok b.counts, store)
  else
    match RecordStore.upsertMany store b.records with
    | (.ok (), store) => (.ok b.counts, store)
    | (.error e, store) => (.error e, store)

end Batch

end Blocklist
