import Blocklist.Proofs.Intake.Provenance
import Blocklist.Proofs.Intake.Publication
import Blocklist.Proofs.Intake.Taking

/-!
The same sources once more. Where every source gives at the second run what it gave at the first, every text
that comes has come before, and each record is left by the same sightings again. Main statement: a second
run right after a first one leaves the same records in the same order, save for times, it inserts nothing
and adds no spelling, and it counts the same rules.
-/

namespace Blocklist

namespace Arrival

variable {as bs : List Arrival}

theorem texts_of_contents (contents : bs.map content = as.map content) :
    bs.flatMap texts = as.flatMap texts := by
  rw [flatMap_texts, flatMap_texts, contents]

/-- The same bodies at other times give the same sightings, save for times. -/
theorem map_retime_history (contents : bs.map content = as.map content) (t : Instant) :
    (bs.flatMap sightings).map (Record.retime t) = (as.flatMap sightings).map (Record.retime t) := by
  induction as generalizing bs with
  | nil => rw [List.map_eq_nil_iff.mp contents]
  | cons a as ih =>
    cases bs with
    | nil => cases contents
    | cons b bs =>
      rw [List.map_cons, List.map_cons, List.cons.injEq] at contents
      have source : b.source = a.source := congrArg Prod.fst contents.1
      have body : b.body = a.body := congrArg Prod.snd contents.1
      rw [List.flatMap_cons, List.flatMap_cons, List.map_append, List.map_append, ih contents.2,
        map_retime_sightings source body]

theorem map_retime_sightingsOf (contents : bs.map content = as.map content) (text : String)
    (t : Instant) :
    (sightingsOf bs text).map (Record.retime t) = (sightingsOf as text).map (Record.retime t) := by
  have outside : ∀ sightings : List (Record × Instant),
      (sightings.filter fun s => s.1.raw = text).map (Record.retime t) =
        (sightings.map (Record.retime t)).filter fun s => s.1.raw = text := by
    intro sightings
    rw [List.filter_map]
    rfl
  rw [sightingsOf, sightingsOf, outside, outside, map_retime_history contents]

end Arrival

/-- What taking in these bodies once more makes of a record that they left. -/
structure Record.LeftAgain (came : List Arrival) (r again : Record) : Prop where
  /-- All but the times is as it was. -/
  same : ∀ t, again.retimed t = r.retimed t
  /-- Where no custom candidate replaces the record, only the time of its last sighting moves. -/
  kept : (∀ a ∈ came, ∀ c ∈ a.candidates, c.hash = r.hash → c.category ≠ .custom) →
    again = { r with updated := again.updated }

namespace Store.Grown

variable {history came again : List Arrival} {s t : Store} {r r' : Record}

/-- A record after bodies that came once and then again. -/
theorem leftAgain (first : Grown (history ++ came) s) (second : Grown (history ++ came ++ again) t)
    (free : CollisionFree ((history ++ came ++ again).flatMap Arrival.texts))
    (contents : again.map Arrival.content = came.map Arrival.content) (member : r ∈ s.records)
    (present : r' ∈ t.records) (text : r.raw = r'.raw) : r.LeftAgain again r' := by
  have before := first.mergeAll_eq free.before member
  have after := second.mergeAll_eq free present
  rw [← text, Arrival.sightingsOf_append, Record.mergeAll_append, before] at after
  rw [Arrival.sightingsOf_append, Record.mergeAll_append] at before
  have settled : ∀ moment, r'.retimed moment = r.retimed moment ∧
      ((∀ x ∈ Arrival.sightingsOf again r.raw, x.1.category ≠ .custom) →
        ∃ now, r' = { r with updated := now }) := by
    intro moment
    obtain ⟨_, merged, same, kept⟩ := Record.mergeAll_again
      (Arrival.map_retime_sightingsOf contents r.raw moment)
      Arrival.isCandidate_of_mem_sightingsOf before
    rw [after] at merged
    cases merged
    exact ⟨same, kept⟩
  refine ⟨fun moment => (settled moment).1, fun plain => ?_⟩
  have ordinary : ∀ x ∈ Arrival.sightingsOf again r.raw, x.1.category ≠ .custom := by
    intro x seen
    obtain ⟨⟨a, arrived, inside⟩, own⟩ := Arrival.mem_sightingsOf.mp seen
    have candidate := Arrival.mem_candidates_of_mem_sightings inside
    refine plain a arrived x.1 candidate ?_
    rw [a.fingerprinted_candidates x.1 candidate, own, (first.holds free.before).fingerprinted r member]
  obtain ⟨now, kept⟩ := (settled r.updated).2 ordinary
  rw [kept]

section
variable (first : Grown (history ++ came) s) (second : Grown (history ++ came ++ again) t)
  (free : CollisionFree ((history ++ came).flatMap Arrival.texts))
  (contents : again.map Arrival.content = came.map Arrival.content)
include free contents

theorem free_again : CollisionFree ((history ++ came ++ again).flatMap Arrival.texts) := by
  refine free.mono ?_
  rw [List.flatMap_append, Arrival.texts_of_contents contents, List.flatMap_append]
  exact List.append_subset.mpr ⟨List.Subset.refl _, List.subset_append_right _ _⟩

include first second

theorem map_raw_again : t.records.map Record.raw = s.records.map Record.raw := by
  rw [(second.holds (free_again free contents)).listed, (first.holds free).listed,
    List.flatMap_append, Arrival.texts_of_contents contents, List.flatMap_append]
  exact eraseDups_append_of_subset _ (List.subset_append_right _ _)

/-- Bodies that come once more leave the same records in the same order. -/
theorem leftAgain_records : List.Forall₂ (Record.LeftAgain again) s.records t.records := by
  have raws := first.map_raw_again second free contents
  have lengths : s.records.length = t.records.length := by
    have equal := congrArg List.length raws
    rw [List.length_map, List.length_map] at equal
    exact equal.symm
  refine List.forall₂_iff_get.mpr ⟨lengths, fun i inside within => ?_⟩
  refine first.leftAgain second (free_again free contents) contents (List.get_mem _ _)
    (List.get_mem _ _) ?_
  have position := congrArg (fun texts => texts[i]?) raws
  simpa [inside, within] using position.symm

/-- Sightings that come once more insert nothing and add no spelling. -/
theorem outcomes_again :
    (Record.outcomesIn s.records (again.flatMap Arrival.sightings)).count .inserted = 0 ∧
      (Record.outcomesIn s.records (again.flatMap Arrival.sightings)).count (.merged true) = 0 := by
  have whole := free_again free contents
  have listed := first.records_append second whole
  have lengths := congrArg List.length (first.map_raw_again second free contents)
  rw [List.length_map, List.length_map] at lengths
  rw [List.flatMap_append] at whole
  have longer := Record.count_inserted_le _ ((first.holds free).keyed_history whole)
  rw [← listed, lengths] at longer
  exact ⟨by omega, first.count_variants free again⟩

end

end Store.Grown

namespace Intake

section
variable {ω : Type} {outside : Outside ω} {policy : RetryPolicy} (steady : outside.Steady policy)
include steady

/-- What arrives for a source is the same whenever it is asked for, save for the time. -/
theorem arrival_steady (entry : SourceEntry) (world later : ω) :
    (arrival outside policy entry world).1.map (Option.map Arrival.content) =
      (arrival outside policy entry later).1.map (Option.map Arrival.content) := by
  unfold arrival
  cases entry.isEnabled with
  | false => rfl
  | true =>
    cases entry.resolve with
    | error e => rfl
    | ok source =>
      have same := steady source.url world later
      unfold Client.fetched at same
      rcases here : outside.fetch policy source.url world with ⟨came, after⟩
      rcases there : outside.fetch policy source.url later with ⟨came', after'⟩
      rw [here, there] at same
      obtain rfl : came = came' := same
      simp only [if_true, here, there]
      cases came with
      | error e => cases e.isSourceScoped <;> rfl
      | ok body => rfl

theorem arrivals_steady (entries : List SourceEntry) (world later : ω) :
    (arrivals outside policy entries later).map Arrival.content =
      (arrivals outside policy entries world).map Arrival.content := by
  induction entries generalizing world later with
  | nil => rfl
  | cons entry entries ih =>
    have same := arrival_steady steady entry world later
    rw [arrivals, arrivals]
    rcases here : arrival outside policy entry world with ⟨e | came, after⟩
    · rcases there : arrival outside policy entry later with ⟨e' | came', after'⟩
      · rfl
      · rw [here, there] at same
        cases same
    · rcases there : arrival outside policy entry later with ⟨e' | came', after'⟩
      · rw [here, there] at same
        cases same
      · rw [here, there] at same
        have contents : came.map Arrival.content = came'.map Arrival.content := Except.ok.inj same
        have heads : came'.toList.map Arrival.content = came.toList.map Arrival.content := by
          rw [← Option.toList_map, ← Option.toList_map, contents]
        simp only [List.map_append, heads, ih after after']

/-- A run that goes through goes through again, unless the store fails. -/
theorem steps_steady {σ : Type} [RecordStore σ] [Backed σ] {entries : List SourceEntry}
    {p q r : Progress σ ω} (done : steps outside policy entries p = (.ok (), r))
    (writes : ∀ fault, (steps outside policy entries q).1 ≠ .error (.store fault)) :
    ∃ last, steps outside policy entries q = (.ok (), last) := by
  induction entries generalizing p q with
  | nil => exact ⟨q, rfl⟩
  | cons entry entries ih =>
    rw [steps] at done
    rcases stepped : step outside policy entry p with ⟨e | _, next⟩
    · rw [stepped] at done
      cases done
    · rw [stepped] at done
      obtain ⟨came, arrived, -⟩ := handled_of_step stepped
      have same := arrival_steady steady entry p.world q.world
      rw [arrived] at same
      obtain ⟨stats, again⟩ := step_eq outside policy entry q
      unfold steps at writes ⊢
      rcases there : arrival outside policy entry q.world with ⟨e | _ | a, world⟩
      · rw [there] at same
        cases same
      · rw [there] at again
        rw [again] at writes ⊢
        exact ih done writes
      · rw [there] at again
        rw [again] at writes ⊢
        cases outcome : (takeBody a.source a.time a.body q.seen q.store).outcome with
        | error e =>
          obtain ⟨fault, rfl⟩ := takeBody_error outcome
          simp only [outcome, Except.map] at writes
          exact absurd rfl (writes fault)
        | ok counted =>
          simp only [outcome, Except.map] at writes ⊢
          exact ih done writes

end

section
variable {σ ω : Type} [RecordStore σ] [Backed σ] {outside : Outside ω} {policy : RetryPolicy}
  {entries : List SourceEntry} {store : σ} {world : ω} {history : List Arrival}

/-- A run over a store that fails no write takes in what arrives. -/
theorem run_grown (grown : Store.Grown history (Backed.memory store))
    (writes : ∀ fault, (run outside policy entries store world).1 ≠ .error (.store fault)) :
    Store.Grown (history ++ arrivals outside policy entries world)
      (Backed.memory (run outside policy entries store world).2.1) := by
  let start : Progress σ ω := { store, world }
  have taken : ingested outside policy entries start = arrivals outside policy entries world :=
    ingested_eq_arrivals fun fault broken => writes fault (steps_eq_error_iff.mp broken).2
  rw [run_store, ← taken]
  exact steps_grown outside policy entries (p := start) grown

/-- The counts of a run that goes through are those of the bodies that arrive. -/
theorem counted_of_run {stats : RunStats} (grown : Store.Grown history (Backed.memory store))
    (free : CollisionFree ((history ++ arrivals outside policy entries world).flatMap Arrival.texts))
    (done : (run outside policy entries store world).1 = .ok stats) :
    stats.totalRules = ((arrivals outside policy entries world).flatMap Arrival.texts).length ∧
      stats.uniqueRules = (Names.ofList
        (((arrivals outside policy entries world).flatMap Arrival.texts).map fingerprint)).size ∧
      stats.merges = .ofOutcomes (Record.outcomesIn (Backed.memory store).records
        ((arrivals outside policy entries world).flatMap Arrival.sightings)) := by
  obtain ⟨q, stepped, rfl⟩ := steps_of_run done
  have counted := (ran_of_steps stepped).took.counted grown free
  refine ⟨?_, ?_, ?_⟩
  · exact counted.rules.trans (Nat.zero_add _)
  · exact congrArg Names.size counted.seen
  · exact counted.merges.trans (MergeCounts.empty_add _)

/-- A run that goes through goes through again over another store, unless that one fails. -/
theorem run_steady (steady : outside.Steady policy) {stats : RunStats} {other : σ} {later : ω}
    (done : (run outside policy entries store world).1 = .ok stats)
    (writes : ∀ fault, (run outside policy entries other later).1 ≠ .error (.store fault)) :
    ∃ again, (run outside policy entries other later).1 = .ok again := by
  have filled : entries ≠ [] := by
    rintro rfl
    cases done
  obtain ⟨q, stepped, -⟩ := steps_of_run done
  obtain ⟨last, again⟩ := steps_steady steady (q := { store := other, world := later }) stepped
    fun fault broken => writes fault (steps_eq_error_iff.mp broken).2
  exact ⟨_, congrArg Prod.fst (run_of_steps filled again)⟩

end

end Intake

/-- The public list and one's own, in a world whose clock shows the next day each time it is read. -/
def Outside.daily : Outside Nat where
  get url day := (Intake.twoAnswers url, day)
  pause _ day := day
  now day := ((Date.sampled day).start, day + 1)

namespace Job

variable {σ ω : Type} [RecordStore σ] [Backed σ]

/-- What the statistics of a second run owe to those of the first. -/
structure CountsAgain (stats again : RunStats) : Prop where
  inserted : again.merges.inserted = 0
  variantsAdded : again.merges.variantsAdded = 0
  totalRules : again.totalRules = stats.totalRules
  uniqueRules : again.uniqueRules = stats.uniqueRules

/-- Over a store that runs made of an empty one, a run and then the same run again, from sources that give
the same both times: the second leaves the records of the first in their order, save for times, and
counts the same rules without an insertion or a new spelling. -/
theorem run_again (jobs : List (Job ω)) (job : Job ω) (store : σ) (world : ω)
    (fresh : Backed.memory store = {}) (steady : job.outside.Steady job.policy)
    (first second : Except Error RunStats × σ × ω)
    (ranFirst : Intake.run job.outside job.policy job.entries (runAll jobs store world).1
      (runAll jobs store world).2 = first)
    (ranSecond : Intake.run job.outside job.policy job.entries first.2.1 first.2.2 = second)
    (writes : ∀ fault, first.1 ≠ .error (.store fault) ∧ second.1 ≠ .error (.store fault))
    (free : CollisionFree ((takenIn jobs store world ++ Intake.arrivals job.outside job.policy
      job.entries (runAll jobs store world).2).flatMap Arrival.texts)) :
    List.Forall₂
        (Record.LeftAgain (Intake.arrivals job.outside job.policy job.entries first.2.2))
        (RecordStore.records first.2.1) (RecordStore.records second.2.1) ∧
      ∀ stats, first.1 = .ok stats → ∃ again, second.1 = .ok again ∧ CountsAgain stats again := by
  have start : Store.Grown [] (Backed.memory store) := by
    rw [fresh]
    exact .empty
  have before : Store.Grown (takenIn jobs store world) (Backed.memory (runAll jobs store world).1) :=
    runAll_grown jobs start
  subst ranFirst
  have contents := Intake.arrivals_steady steady job.entries (runAll jobs store world).2
    (Intake.run job.outside job.policy job.entries (runAll jobs store world).1
      (runAll jobs store world).2).2.2
  have grown := Intake.run_grown before fun fault => (writes fault).1
  subst ranSecond
  have grownAgain := Intake.run_grown grown fun fault => (writes fault).2
  have freeAgain := Store.Grown.free_again free contents
  refine ⟨?_, fun stats done => ?_⟩
  · rw [Backed.records_eq, Backed.records_eq]
    exact grown.leftAgain_records grownAgain free contents
  · obtain ⟨again, repeated⟩ := Intake.run_steady steady done fun fault => (writes fault).2
    obtain ⟨total, unique, -⟩ := Intake.counted_of_run before free done
    obtain ⟨totalAgain, uniqueAgain, merges⟩ := Intake.counted_of_run grown freeAgain repeated
    obtain ⟨inserted, added⟩ := grown.outcomes_again grownAgain free contents
    rw [MergeCounts.ofOutcomes_eq] at merges
    have texts := Arrival.texts_of_contents contents
    refine ⟨again, repeated, ?_, ?_, ?_, ?_⟩
    · rw [merges, inserted]
    · rw [merges, added]
    · rw [total, totalAgain, texts]
    · rw [unique, uniqueAgain, texts]

/-- The public list on the first day. -/
def publicRun : Job Nat := ⟨.daily, .standard, [.base]⟩

/-- The public list, one that is gone, one's own, which takes a rule over, and the public list again. -/
def mixedRun : Job Nat := ⟨.daily, .standard, [.base, .gone, .own, .base]⟩

/-- The store and the day after the first run over both lists. -/
def afterMixedRun : Except Error RunStats × Store × Nat :=
  Intake.run mixedRun.outside mixedRun.policy mixedRun.entries (runAll [publicRun] ({} : Store) 0).1
    (runAll [publicRun] ({} : Store) 0).2

def afterMixedRuns : Except Error RunStats × Store × Nat :=
  Intake.run mixedRun.outside mixedRun.policy mixedRun.entries afterMixedRun.2.1 afterMixedRun.2.2

theorem run_again_mixedRun :
    Outside.daily.Steady .standard ∧
      (∀ fault, afterMixedRun.1 ≠ .error (.store fault) ∧ afterMixedRuns.1 ≠ .error (.store fault)) ∧
      List.Forall₂
        (Record.LeftAgain (Intake.arrivals .daily .standard mixedRun.entries afterMixedRun.2.2))
        afterMixedRun.2.1.records afterMixedRuns.2.1.records ∧
      ∃ stats again, afterMixedRun.1 = .ok stats ∧ afterMixedRuns.1 = .ok again ∧
        CountsAgain stats again ∧ again.merges = ⟨0, 2, 2, 0⟩ := by
  have patient : RetryPolicy.standard.Patient := by decide
  have answers : Outside.daily.Answers Intake.twoAnswers := fun _ _ => rfl
  have steady : Outside.daily.Steady .standard := answers.steady patient
  have writes : ∀ fault, afterMixedRun.1 ≠ .error (.store fault) ∧
      afterMixedRuns.1 ≠ .error (.store fault) := fun fault =>
    ⟨Intake.run_memory_ne_store _ _ _ _ _ fault, Intake.run_memory_ne_store _ _ _ _ _ fault⟩
  have texts : (takenIn [publicRun] ({} : Store) 0 ++ Intake.arrivals mixedRun.outside mixedRun.policy
      mixedRun.entries (runAll [publicRun] ({} : Store) 0).2).flatMap Arrival.texts =
        ["||a.com^", "||a.com^", "||b.com^", "||a.com^", "||a.com^"] := by decide +kernel
  have apart : CollisionFree ["||a.com^", "||b.com^"] := by decide +kernel
  have free : CollisionFree ["||a.com^", "||a.com^", "||b.com^", "||a.com^", "||a.com^"] :=
    apart.mono (by decide)
  rw [← texts] at free
  obtain ⟨records, counts⟩ := run_again [publicRun] mixedRun ({} : Store) 0 rfl steady afterMixedRun
    afterMixedRuns rfl rfl writes free
  obtain ⟨goes, merged⟩ : afterMixedRun.1.isOk = true ∧
      afterMixedRuns.1.map RunStats.merges = .ok ⟨0, 2, 2, 0⟩ := by decide +kernel
  cases ran : afterMixedRun.1 with
  | error e =>
    rw [ran] at goes
    cases goes
  | ok stats =>
    obtain ⟨again, repeated, counted⟩ := counts stats ran
    rw [repeated] at merged
    refine ⟨steady, ?_, records, stats, again, rfl, repeated, counted, Except.ok.inj merged⟩
    rw [← ran]
    exact writes

end Job

end Blocklist
