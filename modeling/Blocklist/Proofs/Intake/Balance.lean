import Blocklist.Proofs.Intake.Growth
import Blocklist.Proofs.Intake.Handling
import Blocklist.Proofs.Merge.Outcomes
import Blocklist.Proofs.Names
import Blocklist.Proofs.Store.Tallies

/-!
The statistics of a run balance. Its counters are raised on different ways through the run, over any store
and whatever the sources answer. Main statement: when a run is over, every enabled source was counted as
succeeded or failed, every rule line was counted for one source, for one category and for one outcome of a
merge, and rules are listed for just the sources that succeeded.
-/

namespace Blocklist

/-- The name of a configured source without blanks around it. -/
def SourceEntry.label (entry : SourceEntry) : Option String := entry.name.map Text.trimmed

theorem SourceEntry.label_of_resolve {entry : SourceEntry} {source : Source}
    (resolved : entry.resolve = .ok source) : entry.label = some source.name := by
  have named : ∀ name, filled entry.name = some name → entry.label = some name := by
    intro name given
    unfold filled at given
    unfold label
    cases text : entry.name with
    | none =>
      rw [text] at given
      cases given
    | some text =>
      simp only [text] at given
      split at given
      · cases given
      · exact given
  unfold resolve at resolved
  cases given : filled entry.name with
  | none =>
    rw [given] at resolved
    cases resolved
  | some name =>
    rw [named name given]
    simp only [given] at resolved
    repeat' split at resolved
    all_goals cases resolved
    rfl

/-- Holds of statistics of a run over these configured sources, of which those with these names succeeded,
if their counters agree with each other. -/
structure RunStats.Balanced (stats : RunStats) (entries : List SourceEntry) (names : List String) :
    Prop where
  attempted : stats.attempted = (entries.filter SourceEntry.isEnabled).length
  outcomes : stats.attempted = stats.succeeded + stats.failed
  succeeded : stats.succeeded = names.length
  errors : stats.errors.length = stats.failed
  perSource : stats.totalRules = tallied stats.rulesPerSource
  perCategory : stats.totalRules = tallied stats.rulesPerCategory
  merges : stats.totalRules = stats.merges.inserted + stats.merges.overwritten + stats.merges.merged
  variants : stats.merges.variantsAdded ≤ stats.merges.merged
  unique : stats.uniqueRules ≤ stats.totalRules
  /-- The sources with rules to their names are the set of those that succeeded. -/
  sources : stats.rulesPerSource.map Prod.fst = (Names.ofList names).toList

namespace RunStats.Balanced

variable {stats : RunStats} {entries : List SourceEntry} {names : List String} {entry : SourceEntry}

theorem start : RunStats.Balanced {} [] [] := by
  constructor <;> rfl

theorem disabled (balanced : stats.Balanced entries names) (off : entry.isEnabled = false) :
    stats.Balanced (entries ++ [entry]) names where
  attempted := by rw [balanced.attempted, List.filter_append]; simp [off]
  outcomes := balanced.outcomes
  succeeded := balanced.succeeded
  errors := balanced.errors
  perSource := balanced.perSource
  perCategory := balanced.perCategory
  merges := balanced.merges
  variants := balanced.variants
  unique := balanced.unique
  sources := balanced.sources

theorem length_filter_concat (on : entry.isEnabled = true) :
    ((entries ++ [entry]).filter SourceEntry.isEnabled).length =
      (entries.filter SourceEntry.isEnabled).length + 1 := by
  rw [List.filter_append, List.length_append]
  simp [on]

theorem failed (balanced : stats.Balanced entries names) (on : entry.isEnabled = true)
    (name : String) (e : Error) :
    (stats.attempt.fail name e).Balanced (entries ++ [entry]) names where
  attempted := by
    rw [length_filter_concat on, ← balanced.attempted]
    rfl
  outcomes := by
    have outcomes := balanced.outcomes
    simp only [attempt, fail]
    omega
  succeeded := balanced.succeeded
  errors := by
    simp only [attempt, fail, List.length_append, balanced.errors, List.length_singleton]
  perSource := balanced.perSource
  perCategory := balanced.perCategory
  merges := balanced.merges
  variants := balanced.variants
  unique := balanced.unique
  sources := balanced.sources

/-- A body of which every rule line has an outcome is counted alike everywhere. -/
theorem taken (balanced : stats.Balanced entries names) (on : entry.isEnabled = true)
    (source : Source) (outcomes : List MergeOutcome) :
    (stats.attempt.succeed source outcomes.length (MergeCounts.ofOutcomes outcomes)).Balanced
      (entries ++ [entry]) (names ++ [source.name]) where
  attempted := by
    rw [length_filter_concat on, ← balanced.attempted]
    rfl
  outcomes := by
    have before := balanced.outcomes
    simp only [attempt, succeed]
    omega
  succeeded := by
    rw [List.length_append, ← balanced.succeeded]
    rfl
  errors := balanced.errors
  perSource := by
    simp only [attempt, succeed, tallied_tally, balanced.perSource]
  perCategory := by
    simp only [attempt, succeed, tallied_tally, balanced.perCategory]
  merges := by
    have before := balanced.merges
    have total := MergeCounts.total_ofOutcomes outcomes
    simp only [attempt, succeed, MergeCounts.add, MergeCounts.total] at total ⊢
    omega
  variants := by
    have before := balanced.variants
    have added := MergeCounts.variantsAdded_le_merged outcomes
    simp only [attempt, succeed, MergeCounts.add]
    omega
  unique := balanced.unique.trans (Nat.le_add_right _ _)
  sources := by
    simp only [attempt, succeed, map_fst_tally, balanced.sources, Names.ofList, Names.insertAll,
      List.foldl_append]
    rfl

end RunStats.Balanced

namespace Intake

section
variable {σ ω : Type} [RecordStore σ]

/-- The configured sources for which a body arrives, up to an error that breaks off the run. -/
def served (outside : Outside ω) (policy : RetryPolicy) : List SourceEntry → ω → List SourceEntry
  | [], _ => []
  | entry :: entries, world =>
    match arrival outside policy entry world with
    | (.ok came, world) => (came.map fun _ => entry).toList ++ served outside policy entries world
    | (.error _, _) => []

theorem resolve_of_arrival {outside : Outside ω} {policy : RetryPolicy} {entry : SourceEntry}
    {world : ω} {a : Arrival} (arrived : (arrival outside policy entry world).1 = .ok (some a)) :
    entry.resolve = .ok a.source := by
  unfold arrival at arrived
  split at arrived
  · cases resolved : entry.resolve with
    | error e =>
      simp [resolved] at arrived
    | ok source =>
      rcases fetched : outside.fetch policy source.url world with ⟨e | body, after⟩
      · simp only [resolved, fetched] at arrived
        split at arrived <;> simp at arrived
      · simp only [resolved, fetched] at arrived
        cases arrived
        rfl
  · simp at arrived

theorem filterMap_label_served (outside : Outside ω) (policy : RetryPolicy)
    (entries : List SourceEntry) (world : ω) :
    (served outside policy entries world).filterMap SourceEntry.label =
      (arrivals outside policy entries world).map fun a => a.source.name := by
  induction entries generalizing world with
  | nil => rfl
  | cons entry entries ih =>
    rw [served, arrivals]
    rcases arrived : arrival outside policy entry world with ⟨e | _ | a, after⟩
    · rfl
    · exact ih after
    · have resolved := resolve_of_arrival (congrArg Prod.fst arrived)
      have label := SourceEntry.label_of_resolve resolved
      simp only [Option.map_some, Option.toList_some, List.singleton_append, List.map_cons, ← ih after]
      rw [List.filterMap_cons_some label]

/-- A body that is taken in has an outcome for each of its rule lines. -/
theorem outcomes_of_takeBody {a : Arrival} {seen : Names} {store : σ} {counted : Nat × MergeCounts}
    (took : (takeBody a.source a.time a.body seen store).outcome = .ok counted) :
    ∃ outcomes, outcomes.length = a.candidates.length ∧
      counted = (outcomes.length, MergeCounts.ofOutcomes outcomes) := by
  let outcomes := (({} : Batch).mergeEach store a.sightings).1
  have length : outcomes.length = a.candidates.length := by
    rw [Batch.length_mergeEach, Arrival.sightings, List.length_map]
  have counts : (batchOf store a.time a.candidates).counts = MergeCounts.ofOutcomes outcomes := by
    rw [batchOf_eq_mergeEach]
    exact ({} : Batch).mergeEach_counts store a.sightings
  refine ⟨outcomes, length, ?_⟩
  rw [counted_of_takeBody took, length, counts]

/-- Handling one source keeps the balance, and the fingerprints seen are no more than the rule lines. -/
theorem Handled.balanced {entry : SourceEntry} {p q : Progress σ ω} {came : Option Arrival}
    {entries : List SourceEntry} {names : List String} (handled : Handled entry p came q)
    (balanced : p.stats.Balanced entries names) (unique : p.seen.size ≤ p.stats.totalRules) :
    q.stats.Balanced (entries ++ [entry]) (names ++ came.toList.map fun a => a.source.name) ∧
      q.seen.size ≤ q.stats.totalRules := by
  cases handled with
  | disabled off =>
    rw [Option.toList_none, List.map_nil, List.append_nil]
    exact ⟨balanced.disabled off, unique⟩
  | failed on name e world =>
    rw [Option.toList_none, List.map_nil, List.append_nil]
    exact ⟨balanced.failed on name e, unique⟩
  | taken on a counted world took =>
    obtain ⟨outcomes, length, rfl⟩ := outcomes_of_takeBody took
    refine ⟨balanced.taken on a.source outcomes, ?_⟩
    calc
      (p.seen.insertAll (a.candidates.map Record.hash)).size ≤
          p.seen.size + (a.candidates.map Record.hash).length := Names.size_insertAll_le _ _
      _ ≤ p.stats.totalRules + outcomes.length := by
        rw [List.length_map, length]
        exact Nat.add_le_add_right unique _

theorem Ran.balanced {later : List SourceEntry} {p q : Progress σ ω} {came : List Arrival}
    {entries : List SourceEntry} {names : List String} (ran : Ran later p came q)
    (balanced : p.stats.Balanced entries names) (unique : p.seen.size ≤ p.stats.totalRules) :
    q.stats.Balanced (entries ++ later) (names ++ came.map fun a => a.source.name) ∧
      q.seen.size ≤ q.stats.totalRules := by
  induction ran generalizing entries names with
  | nil =>
    rw [List.map_nil, List.append_nil, List.append_nil]
    exact ⟨balanced, unique⟩
  | cons handled rest ih =>
    obtain ⟨balanced, unique⟩ := handled.balanced balanced unique
    have final := ih balanced unique
    rw [List.append_assoc, List.append_assoc, ← List.map_append] at final
    exact final

/-- When a run is over, its statistics balance, over any store and whatever came from outside. -/
theorem run_balanced (outside : Outside ω) (policy : RetryPolicy) (entries : List SourceEntry)
    (store : σ) (world : ω) (stats : RunStats)
    (done : (run outside policy entries store world).1 = .ok stats) :
    stats.Balanced entries
      ((served outside policy entries world).filterMap SourceEntry.label) := by
  obtain ⟨q, stepped, rfl⟩ := steps_of_run done
  obtain ⟨balanced, unique⟩ := (ran_of_steps stepped).balanced .start (Nat.le_refl _)
  rw [filterMap_label_served]
  exact { balanced with unique := unique }

end

/-- The public list twice, once with blanks around its name, a list that is gone, one that is not enabled
and one's own. -/
def repeatedEntries : List SourceEntry :=
  [.base, .gone, { SourceEntry.base with name := some " base " },
    { SourceEntry.own with enabled := some false }, .own]

/-- Two sources of one name are counted under it together. -/
theorem run_balanced_repeatedEntries :
    ∃ stats, (run .twoLists .standard repeatedEntries ({} : Store) ()).1 = .ok stats ∧
      stats.Balanced repeatedEntries ["base", "base", "own"] ∧
      stats.rulesPerSource = [("base", 2), ("own", 2)] := by
  have names : (served .twoLists .standard repeatedEntries ()).filterMap SourceEntry.label =
      ["base", "base", "own"] := by decide +kernel
  cases ran : (run .twoLists .standard repeatedEntries ({} : Store) ()).1 with
  | error e =>
    have done : (run .twoLists .standard repeatedEntries ({} : Store) ()).1.isOk = true := by
      decide +kernel
    rw [ran] at done
    cases done
  | ok stats =>
    have balanced := run_balanced .twoLists .standard repeatedEntries ({} : Store) () stats ran
    rw [names] at balanced
    have counted : (run .twoLists .standard repeatedEntries ({} : Store) ()).1.map
        RunStats.rulesPerSource = .ok [("base", 2), ("own", 2)] := by decide +kernel
    rw [ran] at counted
    exact ⟨stats, rfl, balanced, Except.ok.inj counted⟩

end Intake

end Blocklist
