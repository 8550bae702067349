import Blocklist.Proofs.Intake.Rerunning

/-!
What the statistics of a run tell about the store. The fingerprints that a run has seen are kept apart from
the batches and from the store, and a custom sighting is not counted as an insertion even where it brings
a new record. Main statement: after a run that goes through, the store has the fingerprints that it had
and those of the rule lines that came, and the counts of the run agree with that.
-/

namespace Blocklist

/-- Holds of statistics that tell what these bodies made of the records. -/
structure RunStats.TrueOf (stats : RunStats) (came : List Arrival) (before after : List Record) :
    Prop where
  hashes : ∀ hash, hash ∈ after.map Record.hash ↔
    hash ∈ before.map Record.hash ∨ hash ∈ (came.flatMap Arrival.texts).map fingerprint
  distinct : (after.map Record.hash).Nodup
  unique : stats.uniqueRules = ((came.flatMap Arrival.texts).map fingerprint).eraseDups.length
  /-- There is one more record for each fingerprint that was not there before. -/
  growth : after.length = before.length +
    (((came.flatMap Arrival.texts).map fingerprint).filter fun hash =>
      hash ∉ before.map Record.hash).eraseDups.length
  variantsAdded : stats.merges.variantsAdded = 0
  inserted : (∀ a ∈ came, ∀ c ∈ a.candidates, c.category ≠ .custom) →
    after.length = before.length + stats.merges.inserted

namespace Store.Grown

variable {history came : List Arrival} {s t : Store}

theorem nodup_hash (grown : Grown history s) (free : CollisionFree (history.flatMap Arrival.texts)) :
    (s.records.map Record.hash).Nodup :=
  (grown.holds free).exact.tracks.nodup

theorem mem_hash_iff (grown : Grown history s) (free : CollisionFree (history.flatMap Arrival.texts))
    {hash : String} :
    hash ∈ s.records.map Record.hash ↔ hash ∈ (history.flatMap Arrival.texts).map fingerprint := by
  rw [(grown.holds free).map_hash]
  simp only [List.mem_map, List.mem_eraseDups]

section
variable (first : Grown history s) (second : Grown (history ++ came) t)
  (free : CollisionFree ((history ++ came).flatMap Arrival.texts))
include first second free

theorem mem_hash_append (hash : String) :
    hash ∈ t.records.map Record.hash ↔
      hash ∈ s.records.map Record.hash ∨ hash ∈ (came.flatMap Arrival.texts).map fingerprint := by
  rw [second.mem_hash_iff free, first.mem_hash_iff free.before, List.flatMap_append,
    List.map_append, List.mem_append]

/-- Bodies that come without a custom rule insert as many records as there are more in the end. -/
theorem length_of_plain (plain : ∀ a ∈ came, ∀ c ∈ a.candidates, c.category ≠ .custom) :
    t.records.length = s.records.length +
      (Record.outcomesIn s.records (came.flatMap Arrival.sightings)).count .inserted := by
  have holds := first.holds free.before
  rw [first.records_append second free]
  rw [List.flatMap_append] at free
  apply Record.count_inserted_of_plain _ (holds.keyed_history free)
  intro sighting member
  obtain ⟨a, arrived, inside⟩ := List.mem_flatMap.mp member
  exact plain a arrived _ (Arrival.mem_candidates_of_mem_sightings inside)

end

end Store.Grown

namespace Job

variable {σ ω : Type} [RecordStore σ] [Backed σ]

/-- Over a store that runs made of an empty one, the statistics of a run that goes through tell what it
made of the records. -/
theorem stats_trueOf (jobs : List (Job ω)) (job : Job ω) (store : σ) (world : ω)
    (fresh : Backed.memory store = {}) (stats : RunStats)
    (done : (Intake.run job.outside job.policy job.entries (runAll jobs store world).1
      (runAll jobs store world).2).1 = .ok stats)
    (free : CollisionFree ((takenIn jobs store world ++ Intake.arrivals job.outside job.policy
      job.entries (runAll jobs store world).2).flatMap Arrival.texts)) :
    stats.TrueOf
      (Intake.arrivals job.outside job.policy job.entries (runAll jobs store world).2)
      (RecordStore.records (runAll jobs store world).1)
      (RecordStore.records (Intake.run job.outside job.policy job.entries (runAll jobs store world).1
        (runAll jobs store world).2).2.1) := by
  have start : Store.Grown [] (Backed.memory store) := by
    rw [fresh]
    exact .empty
  have before : Store.Grown (takenIn jobs store world) (Backed.memory (runAll jobs store world).1) :=
    runAll_grown jobs start
  have writes : ∀ fault, (Intake.run job.outside job.policy job.entries (runAll jobs store world).1
      (runAll jobs store world).2).1 ≠ .error (.store fault) := by
    intro fault broken
    rw [done] at broken
    cases broken
  have after := Intake.run_grown before writes
  obtain ⟨-, unique, merges⟩ := Intake.counted_of_run before free done
  rw [MergeCounts.ofOutcomes_eq] at merges
  have hashes := before.mem_hash_append after free
  have distinct := after.nodup_hash free
  rw [Backed.records_eq, Backed.records_eq]
  refine ⟨hashes, distinct, ?_, ?_, ?_, ?_⟩
  · rw [unique, Names.size_ofList]
  · have longer := length_eq_add_new _ (before.nodup_hash free.before) distinct hashes
    rwa [List.length_map, List.length_map] at longer
  · rw [merges, before.count_variants free.before]
  · intro plain
    rw [merges]
    exact before.length_of_plain after free plain

/-- One's own list on a day of its own. -/
def ownRun : Job Nat := ⟨.daily, .standard, [.own]⟩

/-- The store and the day after the public list and then one's own. -/
def afterOwnRun : Except Error RunStats × Store × Nat :=
  Intake.run ownRun.outside ownRun.policy ownRun.entries (runAll [publicRun] ({} : Store) 0).1
    (runAll [publicRun] ({} : Store) 0).2

/-- A custom rule that is new makes the store grow without an insertion. -/
theorem stats_trueOf_ownRun :
    ∃ stats, afterOwnRun.1 = .ok stats ∧
      stats.TrueOf (Intake.arrivals .daily .standard [.own] (runAll [publicRun] ({} : Store) 0).2)
        (runAll [publicRun] ({} : Store) 0).1.records afterOwnRun.2.1.records ∧
      afterOwnRun.2.1.records.length = 2 ∧ stats.uniqueRules = 2 ∧
      stats.merges = ⟨0, 2, 0, 0⟩ := by
  have texts : (takenIn [publicRun] ({} : Store) 0 ++ Intake.arrivals ownRun.outside ownRun.policy
      ownRun.entries (runAll [publicRun] ({} : Store) 0).2).flatMap Arrival.texts =
        ["||a.com^", "||b.com^", "||a.com^"] := by decide +kernel
  have free : CollisionFree ["||a.com^", "||b.com^", "||a.com^"] := by decide +kernel
  rw [← texts] at free
  obtain ⟨length, counts⟩ : afterOwnRun.2.1.records.length = 2 ∧
      afterOwnRun.1.map (fun stats => (stats.uniqueRules, stats.merges)) =
        .ok (2, ⟨0, 2, 0, 0⟩) := by decide +kernel
  cases ran : afterOwnRun.1 with
  | error e =>
    rw [ran] at counts
    cases counts
  | ok stats =>
    rw [ran] at counts
    obtain ⟨unique, merges⟩ := Prod.mk.inj (Except.ok.inj counts)
    exact ⟨stats, rfl, stats_trueOf [publicRun] ownRun ({} : Store) 0 rfl stats ran free, length,
      unique, merges⟩

end Job

end Blocklist
