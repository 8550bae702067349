import Blocklist.Proofs.Intake.Arrivals
import Blocklist.Proofs.Merge.Sightings
import Blocklist.Store.File

/-!
How a store grows as bodies arrive. Every store of records answers from records in memory; a run takes
bodies in there one after the other, and a write that fails leaves the records as they were. Main
statement: unless two of the texts have one digest, every text leads to its record, and the records are
listed in the order in which their texts first came.
-/

namespace Blocklist

/-- Stores that answer from records in memory. A change that succeeds is made there; one that fails
leaves the records, which may be indexed anew. -/
class Backed (σ : Type) [RecordStore σ] where
  memory : σ → Store
  records_eq : ∀ s : σ, RecordStore.records s = (memory s).records
  findByRaw_eq : ∀ (s : σ) text, RecordStore.findByRaw s text = (memory s).findByRaw text
  written : ∀ (s : σ) rs, (RecordStore.upsertMany s rs).1 = .ok () →
    memory (RecordStore.upsertMany s rs).2 = (memory s).upsertMany rs
  fault : ∀ (s : σ) rs e, (RecordStore.upsertMany s rs).1 = .error e → ∃ fault, e = .store fault
  unwritten : ∀ (s : σ) rs e, (RecordStore.upsertMany s rs).1 = .error e →
    memory (RecordStore.upsertMany s rs).2 = memory s ∨
      memory (RecordStore.upsertMany s rs).2 = Store.ofRecords (memory s).records

instance : Backed Store where
  memory s := s
  records_eq _ := rfl
  findByRaw_eq _ _ := rfl
  written _ _ _ := rfl
  fault _ _ _ failed := by cases failed
  unwritten _ _ _ failed := by cases failed

instance {δ : Type} [Disk δ] : Backed (FileStore δ) where
  memory s := s.memory
  records_eq _ := rfl
  findByRaw_eq _ _ := rfl
  written s rs succeeded := by
    simp only [RecordStore.upsertMany, FileStore.upsertMany, FileStore.commit] at succeeded ⊢
    split at succeeded
    next done => rw [if_pos done]
    next => cases succeeded
  fault s rs e failed := by
    simp only [RecordStore.upsertMany, FileStore.upsertMany, FileStore.commit] at failed
    split at failed
    next => cases failed
    next => exact ⟨_, (Except.error.inj failed).symm⟩
  unwritten s rs e failed := by
    simp only [RecordStore.upsertMany, FileStore.upsertMany, FileStore.commit] at failed ⊢
    split at failed
    next => cases failed
    next undone => rw [if_neg undone]; exact Or.inr rfl

section
variable {σ : Type} [RecordStore σ] [Backed σ] {store : σ}

namespace Batch

theorem merge_memory (b : Batch) (store : σ) (candidate : Record) (now : Instant) :
    b.merge store candidate now = b.merge (Backed.memory store) candidate now := by
  have known : b.known store candidate = b.known (Backed.memory store) candidate := by
    unfold Batch.known
    cases b.byHash.find? candidate.hash with
    | none => exact Backed.findByRaw_eq store candidate.raw
    | some i => rfl
  unfold merge
  rw [known]

theorem flush_cases {τ : Type} [RecordStore τ] (b : Batch) (store : τ) :
    (b.records = [] ∧ b.flush store = (.ok b.counts, store)) ∨
      (∃ after, RecordStore.upsertMany store b.records = (.ok (), after) ∧
        b.flush store = (.ok b.counts, after)) ∨
      ∃ e after, RecordStore.upsertMany store b.records = (.error e, after) ∧
        b.flush store = (.error e, after) := by
  unfold flush
  by_cases nothing : b.records.isEmpty = true
  · rw [if_pos nothing]
    exact Or.inl ⟨List.isEmpty_iff.mp nothing, rfl⟩
  · rw [if_neg nothing]
    rcases RecordStore.upsertMany store b.records with ⟨written, after⟩
    cases written with
    | ok => exact Or.inr (Or.inl ⟨after, rfl, rfl⟩)
    | error e => exact Or.inr (Or.inr ⟨e, after, rfl, rfl⟩)

theorem counts_of_flush {τ : Type} [RecordStore τ] {b : Batch} {store : τ} {counts : MergeCounts}
    (flushed : (b.flush store).1 = .ok counts) : counts = b.counts := by
  rcases b.flush_cases store with ⟨-, result⟩ | ⟨after, -, result⟩ | ⟨e, after, -, result⟩
  · rw [result] at flushed
    exact (Except.ok.inj flushed).symm
  · rw [result] at flushed
    exact (Except.ok.inj flushed).symm
  · rw [result] at flushed
    cases flushed

/-- A flush that succeeds is made in memory; one that fails leaves the records. -/
theorem memory_flush (b : Batch) (store : σ) :
    match (b.flush store).1 with
    | .ok _ => Backed.memory (b.flush store).2 = (b.flush (Backed.memory store)).2
    | .error _ => Backed.memory (b.flush store).2 = Backed.memory store ∨
        Backed.memory (b.flush store).2 = Store.ofRecords (Backed.memory store).records := by
  rw [flush_eq]
  rcases b.flush_cases store with ⟨nothing, flushed⟩ | ⟨after, made, flushed⟩ |
    ⟨e, after, broken, flushed⟩
  · rw [flushed, nothing]
    rfl
  · have written := Backed.written store b.records (by rw [made])
    rw [made] at written
    rw [flushed]
    exact written
  · have unwritten := Backed.unwritten store b.records e (by rw [broken])
    rw [broken] at unwritten
    rw [flushed]
    exact unwritten

end Batch

namespace Intake

theorem batchOf_eq_mergeEach {τ : Type} [RecordStore τ] (store : τ) (now : Instant)
    (cs : List Record) :
    batchOf store now cs = (({} : Batch).mergeEach store (cs.map fun c => (c, now))).2 := by
  unfold batchOf
  generalize ({} : Batch) = b
  induction cs generalizing b with
  | nil => rfl
  | cons c cs ih => exact ih (b.merge store c now).2

theorem batchOf_memory (store : σ) (now : Instant) (cs : List Record) :
    batchOf store now cs = batchOf (Backed.memory store) now cs := by
  unfold batchOf
  congr 1
  funext b c
  rw [Batch.merge_memory]

end Intake

end

namespace Store

/-- What taking in a body makes of a store in memory. -/
def ingest (s : Store) (a : Arrival) : Store :=
  ((Intake.batchOf s a.time a.candidates).flush s).2

/-- Holds of a store in which the records of these texts are listed and found. -/
structure Holds (s : Store) (texts : List String) : Prop where
  exact : s.Exact
  trimmed : ∀ text ∈ texts, IsTrimmed text
  fingerprinted : Record.Fingerprinted s.records
  listed : s.records.map Record.raw = texts.eraseDups

namespace Holds

variable {s : Store} {texts : List String} {a : Arrival}

theorem mem_texts {r : Record} (holds : s.Holds texts) (member : r ∈ s.records) : r.raw ∈ texts := by
  rw [← List.mem_eraseDups, ← holds.listed]
  exact List.mem_map_of_mem member

theorem exists_findByRaw (holds : s.Holds texts) {text : String} (member : text ∈ texts) :
    ∃ r, s.findByRaw text = some r ∧ r.raw = text := by
  rw [← List.mem_eraseDups, ← holds.listed] at member
  obtain ⟨stored, listed, same⟩ := List.mem_map.mp member
  have found : (s.findByRaw text).isSome := by
    rw [holds.exact.finds]
    exact List.find?_isSome.mpr ⟨stored, listed, by simpa using same⟩
  obtain ⟨r, leads⟩ := Option.isSome_iff_exists.mp found
  rw [holds.exact.finds] at leads
  refine ⟨r, ?_, by simpa using List.find?_some leads⟩
  rw [holds.exact.finds, leads]

theorem keyed (holds : s.Holds texts) (free : CollisionFree (texts ++ a.texts)) :
    Record.Keyed (s.records ++ a.candidates) := by
  have known : ∀ r ∈ s.records ++ a.candidates, r.raw ∈ texts ++ a.texts := by
    intro r member
    rw [List.mem_append] at member ⊢
    refine member.imp (fun stored => ?_) (fun new => ?_)
    · exact holds.mem_texts stored
    · rw [← a.map_raw_candidates]
      exact List.mem_map_of_mem new
  refine Record.keyed_of_collisionFree free ?_ ?_ known
  · exact List.forall_mem_append.mpr ⟨holds.trimmed, fun _ => Arrival.isTrimmed_of_mem⟩
  · exact List.forall_mem_append.mpr ⟨holds.fingerprinted, a.fingerprinted_candidates⟩

theorem records_ingest (holds : s.Holds texts) (free : CollisionFree (texts ++ a.texts)) :
    (s.ingest a).records = Record.sightAll s.records a.sightings ∧ (s.ingest a).Exact := by
  have keyed := holds.keyed free
  rw [← a.map_fst_sightings] at keyed
  have flushed := Batch.flush_exact a.sightings holds.exact keyed
  rw [ingest, Intake.batchOf_eq_mergeEach]
  exact flushed

theorem ingest (holds : s.Holds texts) (free : CollisionFree (texts ++ a.texts)) :
    (s.ingest a).Holds (texts ++ a.texts) := by
  have keyed := holds.keyed free
  rw [← a.map_fst_sightings] at keyed
  obtain ⟨records, exact⟩ := holds.records_ingest free
  refine ⟨exact, ?_, ?_, ?_⟩
  · exact List.forall_mem_append.mpr ⟨holds.trimmed, fun _ => Arrival.isTrimmed_of_mem⟩
  · rw [records]
    apply Record.fingerprinted_sightAll a.sightings keyed holds.fingerprinted
    rw [a.map_fst_sightings]
    exact a.fingerprinted_candidates
  · rw [records, Record.map_raw_sightAll a.sightings keyed holds.listed, a.map_raw_sightings]

theorem indexed (holds : s.Holds texts) (free : CollisionFree texts) :
    (ofRecords s.records).records = s.records ∧ (ofRecords s.records).Holds texts := by
  have keyed := Record.keyed_of_collisionFree free holds.trimmed holds.fingerprinted
    fun r member => holds.mem_texts member
  obtain ⟨exact, same⟩ := ofRecords_exact keyed holds.exact.tracks.nodup
  refine ⟨same, exact, holds.trimmed, ?_, ?_⟩
  · rw [same]
    exact holds.fingerprinted
  · rw [same]
    exact holds.listed

end Holds

/-- The stores that come about as these bodies are taken in. -/
inductive Grown : List Arrival → Store → Prop where
  | empty : Grown [] {}
  | ingest {history : List Arrival} {s : Store} (a : Arrival) (grown : Grown history s) :
    Grown (history ++ [a]) (s.ingest a)
  | indexed {history : List Arrival} {s : Store} (grown : Grown history s) :
    Grown history (ofRecords s.records)

theorem Grown.holds {history : List Arrival} {s : Store} (grown : Grown history s)
    (free : CollisionFree (history.flatMap Arrival.texts)) :
    s.Holds (history.flatMap Arrival.texts) := by
  induction grown with
  | empty =>
    exact ⟨exact_empty, fun _ member => absurd member List.not_mem_nil,
      fun _ member => absurd member List.not_mem_nil, rfl⟩
  | ingest a grown ih =>
    rw [List.flatMap_append, List.flatMap_singleton] at free ⊢
    have before := ih (free.mono (List.subset_append_left _ _))
    exact before.ingest free
  | indexed grown ih => exact ((ih free).indexed free).2

end Store

namespace Intake

variable {σ ω : Type} [RecordStore σ]

theorem run_store (outside : Outside ω) (policy : RetryPolicy) (entries : List SourceEntry)
    (store : σ) (world : ω) :
    (run outside policy entries store world).2.1 =
      (steps outside policy entries { store, world }).2.store := by
  cases entries with
  | nil => rfl
  | cons entry entries =>
    rw [run, if_neg (by simp)]
    split
    next stepped => rw [stepped]
    next stepped => rw [stepped]

theorem counted_of_takeBody {a : Arrival} {seen : Names} {store : σ} {counted : Nat × MergeCounts}
    (took : (takeBody a.source a.time a.body seen store).outcome = .ok counted) :
    counted = (a.candidates.length, (batchOf store a.time a.candidates).counts) := by
  rw [takeBody_outcome] at took
  cases flushed : ((batchOf store a.time a.candidates).flush store).1 with
  | error e =>
    rw [flushed] at took
    cases took
  | ok counts =>
    rw [flushed] at took
    cases took
    rw [Batch.counts_of_flush flushed]

variable [Backed σ] {history : List Arrival} {p : Progress σ ω}

/-- A body is taken in by the records in memory, or leaves them. -/
theorem takeBody_memory (a : Arrival) (seen : Names) (store : σ) :
    match (takeBody a.source a.time a.body seen store).outcome with
    | .ok _ => Backed.memory (takeBody a.source a.time a.body seen store).store =
        (Backed.memory store).ingest a
    | .error _ =>
        Backed.memory (takeBody a.source a.time a.body seen store).store = Backed.memory store ∨
          Backed.memory (takeBody a.source a.time a.body seen store).store =
            Store.ofRecords (Backed.memory store).records := by
  have flush := (batchOf store a.time a.candidates).memory_flush store
  rw [takeBody_store, takeBody_outcome]
  cases flushed : ((batchOf store a.time a.candidates).flush store).1 with
  | ok counts =>
    rw [flushed] at flush
    simp only [Except.map, flush]
    rw [batchOf_memory, Store.ingest]
  | error e =>
    rw [flushed] at flush
    exact flush

/-- What a run that goes through makes of the records is what the bodies that come make of them. -/
theorem steps_memory {outside : Outside ω} {policy : RetryPolicy}
    {entries : List SourceEntry} {q : Progress σ ω}
    (done : steps outside policy entries p = (.ok (), q)) :
    Backed.memory q.store =
      (arrivals outside policy entries p.world).foldl Store.ingest (Backed.memory p.store) := by
  induction entries generalizing p with
  | nil =>
    cases done
    rfl
  | cons entry entries ih =>
    rw [steps] at done
    rw [arrivals]
    obtain ⟨stats, stepped⟩ := step_eq outside policy entry p
    rcases arrived : arrival outside policy entry p.world with ⟨e | _ | a, world⟩
    · rw [arrived] at stepped
      rw [stepped] at done
      cases done
    · rw [arrived] at stepped
      rw [stepped] at done
      exact ih done
    · obtain ⟨_, stepped⟩ := step_of_arrival arrived
      cases taken : (takeBody a.source a.time a.body p.seen p.store).outcome with
      | error e =>
        rw [stepped, taken] at done
        cases done
      | ok counted =>
        have memory := takeBody_memory a p.seen p.store
        rw [taken] at memory
        rw [stepped, taken] at done
        rw [ih done, memory]
        rfl

theorem takeBody_grown (a : Arrival) {store : σ} (seen : Names)
    (grown : Store.Grown history (Backed.memory store)) :
    match (takeBody a.source a.time a.body seen store).outcome with
    | .ok _ => Store.Grown (history ++ [a])
        (Backed.memory (takeBody a.source a.time a.body seen store).store)
    | .error _ => Store.Grown history
        (Backed.memory (takeBody a.source a.time a.body seen store).store) := by
  have memory := takeBody_memory a seen store
  cases taken : (takeBody a.source a.time a.body seen store).outcome with
  | ok counted =>
    rw [taken] at memory
    simp only [memory]
    exact grown.ingest a
  | error e =>
    rw [taken] at memory
    rcases memory with same | anew
    · simp only [same]
      exact grown
    · simp only [anew]
      exact grown.indexed

/-- A run takes in what arrives and is written, whatever breaks it off. -/
theorem steps_grown (outside : Outside ω) (policy : RetryPolicy) (entries : List SourceEntry)
    (grown : Store.Grown history (Backed.memory p.store)) :
    Store.Grown (history ++ ingested outside policy entries p)
      (Backed.memory (steps outside policy entries p).2.store) := by
  induction entries generalizing history p with
  | nil => simpa [ingested, steps] using grown
  | cons entry entries ih =>
    unfold ingested steps
    obtain ⟨stats, stepped⟩ := step_eq outside policy entry p
    rcases arrived : arrival outside policy entry p.world with ⟨_ | _ | a, world⟩
    · rw [arrived] at stepped
      simpa only [stepped, List.append_nil] using grown
    · rw [arrived] at stepped
      simp only [stepped, Option.toList_none, List.nil_append]
      exact ih grown
    · rw [arrived] at stepped
      have taken := takeBody_grown a p.seen grown
      -- The store's error ends the run after the store may have been indexed anew.
      cases outcome : (takeBody a.source a.time a.body p.seen p.store).outcome with
      | error e =>
        rw [outcome] at taken
        simpa only [stepped, outcome, Except.map, List.append_nil] using taken
      | ok counted =>
        rw [outcome] at taken
        simp only [stepped, outcome, Except.map, Option.toList_some, ← List.append_assoc]
        exact ih taken

end Intake

end Blocklist
