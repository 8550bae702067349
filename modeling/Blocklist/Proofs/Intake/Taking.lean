import Blocklist.Proofs.Intake.Balance
import Blocklist.Proofs.Intake.Histories
import Blocklist.Proofs.Intake.Isolation

/-!
Bodies taken in one after the other over a store that fails none of them, within a run or by themselves.
Main statements: the number of rules, the merge counts and the fingerprints seen are those that the
sightings of all bodies give on the list of records alone, and the texts of a body's rule lines decide what
it leaves in a store.
-/

namespace Blocklist

theorem MergeCounts.add_assoc (a b c : MergeCounts) : (a.add b).add c = a.add (b.add c) := by
  simp only [add, Nat.add_assoc]

theorem MergeCounts.empty_add (counts : MergeCounts) : MergeCounts.add {} counts = counts := by
  simp only [add, Nat.zero_add]

/-- The texts that come depend on the bodies only. -/
theorem Arrival.flatMap_texts (history : List Arrival) :
    history.flatMap texts = (history.map content).flatMap
      fun given => (((Text.lines given.2).map Text.trim).filter Rule.isRuleLine).map String.ofList := by
  rw [List.flatMap_map]
  rfl

namespace Intake

section
variable {σ ω : Type} [RecordStore σ] {h last : Holdings σ} {came : List Arrival}

/-- Bodies that are taken in one after the other, none of which the store fails. -/
inductive Took : Holdings σ → List Arrival → Holdings σ → Prop where
  | nil (h : Holdings σ) : Took h [] h
  | cons {h last : Holdings σ} {a : Arrival} {later : List Arrival} {counted : Nat × MergeCounts}
    (took : (takeBody a.source a.time a.body h.seen h.store).outcome = .ok counted)
    (rest : Took (h.receive a) later last) : Took h (a :: later) last

theorem Holdings.receive_of_ok {a : Arrival} {counted : Nat × MergeCounts}
    (took : (takeBody a.source a.time a.body h.seen h.store).outcome = .ok counted) :
    h.receive a = ⟨h.stats.attempt.succeed a.source counted.1 counted.2,
      (takeBody a.source a.time a.body h.seen h.store).seen,
      (takeBody a.source a.time a.body h.seen h.store).store⟩ := by
  simp only [receive, took]

omit [RecordStore σ] in
theorem Progress.holdings_failed (p : Progress σ ω) (name : String) (e : Error) (world : ω) :
    Progress.holdings { p with stats := p.stats.attempt.fail name e, world } = p.holdings := by
  simp only [Progress.holdings, RunStats.alone, RunStats.fail, RunStats.attempt]

/-- A run that goes through takes its bodies in one after the other. -/
theorem Ran.took {entries : List SourceEntry} {p q : Progress σ ω} (ran : Ran entries p came q) :
    Took p.holdings came q.holdings := by
  induction ran with
  | nil p => exact .nil _
  | @cons entry entries p q r came later handled rest ih =>
    cases handled with
    | disabled off => exact ih
    | failed on name e world =>
      rw [Progress.holdings_failed] at ih
      exact ih
    | taken on a counted world took =>
      refine .cons took ?_
      rw [Holdings.receive_of_ok (h := p.holdings) took]
      exact ih

/-- A store that takes every write takes bodies in one after the other. -/
theorem took_of_reliable (reliable : RecordStore.Reliable h.store) (came : List Arrival) :
    Took h came (came.foldl Holdings.receive h) := by
  induction came generalizing h with
  | nil => exact .nil h
  | cons a came ih =>
    obtain ⟨⟨counted, took⟩, still⟩ := takeBody_reliable reliable a h.seen
    refine .cons took (ih ?_)
    rw [Holdings.receive_of_ok took]
    exact still

end

section
variable {σ : Type} [RecordStore σ] [Backed σ] {h last : Holdings σ} {history came : List Arrival}

/-- What bodies add to the number of rules, the merge counts and the fingerprints seen. -/
structure Counted (came : List Arrival) (h last : Holdings σ) : Prop where
  rules : last.stats.totalRules = h.stats.totalRules + (came.flatMap Arrival.texts).length
  merges : last.stats.merges = h.stats.merges.add (.ofOutcomes
    (Record.outcomesIn (Backed.memory h.store).records (came.flatMap Arrival.sightings)))
  seen : last.seen = h.seen.insertAll ((came.flatMap Arrival.texts).map fingerprint)

theorem Counted.trans {m : Holdings σ} {later : List Arrival} (first : Counted came h m)
    (second : Counted later m last)
    (records : (Backed.memory m.store).records =
      Record.sightAll (Backed.memory h.store).records (came.flatMap Arrival.sightings)) :
    Counted (came ++ later) h last where
  rules := by
    rw [second.rules, first.rules, List.flatMap_append, List.length_append, Nat.add_assoc]
  merges := by
    rw [second.merges, first.merges, records, List.flatMap_append, Record.outcomesIn_append,
      MergeCounts.ofOutcomes_append, MergeCounts.add_assoc]
  seen := by
    rw [second.seen, first.seen, List.flatMap_append, List.map_append, Names.insertAll,
      Names.insertAll, Names.insertAll, List.foldl_append]

theorem memory_of_ok {a : Arrival} {counted : Nat × MergeCounts}
    (took : (takeBody a.source a.time a.body h.seen h.store).outcome = .ok counted) :
    Backed.memory (h.receive a).store = (Backed.memory h.store).ingest a := by
  have memory := takeBody_memory a h.seen h.store
  rw [took] at memory
  rw [Holdings.receive_of_ok took]
  exact memory

theorem counted_of_ok {a : Arrival} {counted : Nat × MergeCounts}
    (grown : Store.Grown history (Backed.memory h.store))
    (free : CollisionFree (history.flatMap Arrival.texts ++ a.texts))
    (took : (takeBody a.source a.time a.body h.seen h.store).outcome = .ok counted) :
    Counted [a] h (h.receive a) := by
  have holds := grown.holds (free.mono (List.subset_append_left _ _))
  have keyed := holds.keyed free
  rw [← a.map_fst_sightings] at keyed
  have counts : (batchOf h.store a.time a.candidates).counts =
      .ofOutcomes (Record.outcomesIn (Backed.memory h.store).records a.sightings) := by
    rw [batchOf_memory, batchOf_eq_mergeEach]
    exact Batch.counts_mergeEach a.sightings holds.exact keyed
  rw [Holdings.receive_of_ok took, counted_of_takeBody took, counts, a.length_candidates]
  constructor
  · rw [List.flatMap_singleton]
    rfl
  · rw [List.flatMap_singleton]
    rfl
  · rw [List.flatMap_singleton, ← a.map_hash_candidates]
    rfl

theorem Took.grown (took : Took h came last) (grown : Store.Grown history (Backed.memory h.store)) :
    Store.Grown (history ++ came) (Backed.memory last.store) := by
  induction took generalizing history with
  | nil => rwa [List.append_nil]
  | @cons h last a later counted took rest ih =>
    have next := grown.ingest a
    rw [← memory_of_ok took] at next
    have all := ih next
    rwa [List.append_assoc] at all

/-- What is counted of bodies is what their sightings give on the list of records alone. -/
theorem Took.counted (took : Took h came last) (grown : Store.Grown history (Backed.memory h.store))
    (free : CollisionFree ((history ++ came).flatMap Arrival.texts)) : Counted came h last := by
  induction took generalizing history with
  | nil => exact ⟨rfl, rfl, rfl⟩
  | @cons h last a later counted took rest ih =>
    have split : history ++ a :: later = (history ++ [a]) ++ later := by simp
    rw [split] at free
    have here : CollisionFree (history.flatMap Arrival.texts ++ a.texts) := by
      rw [List.flatMap_append, List.flatMap_append, List.flatMap_singleton] at free
      exact free.mono (List.subset_append_left _ _)
    have next := grown.ingest a
    rw [← memory_of_ok took] at next
    have holds := grown.holds (here.mono (List.subset_append_left _ _))
    refine (counted_of_ok grown here took).trans (ih next free) ?_
    rw [memory_of_ok took, (holds.records_ingest here).1, List.flatMap_singleton]

end

section
variable {σ : Type} [RecordStore σ]

/-- What comes of rule lines with these texts over a store: each of them is counted and merged once, in
order, its fingerprint is seen, and the records that wait for the store are written. -/
structure TakesIn (source : Source) (now : Instant) (texts : List String) (seen : Names) (store : σ)
    (result : BodyResult σ) : Prop where
  counted : ∃ counts, result.outcome = .ok (texts.length, counts) ∧ counts.total = texts.length
  seen : result.seen = seen.insertAll (texts.map fingerprint)
  written : result.store = ((({} : Batch).mergeEach store
    ((source.rules now texts).map fun rule => (rule, now))).2.flush store).2
  /-- Where the texts of the store lead to their records, the new ones do so too, behind them. -/
  listed : ∀ [Backed σ] {known : List String}, (Backed.memory store).Holds known →
    CollisionFree (known ++ texts) →
      (RecordStore.records result.store).map Record.raw = (known ++ texts).eraseDups ∧
      ∀ text ∈ texts, ∃ r, RecordStore.findByRaw result.store text = some r ∧ r.raw = text

/-- A store that takes every write takes in the rule lines of a body, and nothing else. -/
theorem takeBody_takesIn {store : σ} (reliable : RecordStore.Reliable store) (a : Arrival)
    (seen : Names) :
    TakesIn a.source a.time a.texts seen store (takeBody a.source a.time a.body seen store) := by
  obtain ⟨⟨counted, took⟩, -⟩ := takeBody_reliable reliable a seen
  obtain ⟨outcomes, length, same⟩ := outcomes_of_takeBody took
  rw [a.length_candidates] at length
  refine ⟨⟨.ofOutcomes outcomes, ?_, ?_⟩, ?_, ?_, ?_⟩
  · rw [took, same, length]
  · rw [MergeCounts.total_ofOutcomes, length]
  · rw [← a.map_hash_candidates]
    rfl
  · rw [takeBody_store, batchOf_eq_mergeEach, a.candidates_eq_rules]
  · intro backed known holds free
    have memory := takeBody_memory a seen store
    rw [took] at memory
    have after := holds.ingest free
    rw [← memory] at after
    rw [Backed.records_eq]
    refine ⟨after.listed, fun text member => ?_⟩
    rw [Backed.findByRaw_eq]
    exact after.exists_findByRaw (List.mem_append_right known member)

end

end Intake

end Blocklist
