import Blocklist.Proofs.Intake.Failures
import Blocklist.Proofs.Intake.Isolation
import Blocklist.Proofs.Store.Agreement
import Blocklist.Proofs.Store.Rollback

/-!
Runs over a store in a file whose disk refuses a write. Main statements: a body without rule lines is
taken in without a write, any other one is written as a whole or not at all, and a run ends at the first
refusal, with the records in memory and in the file that the sources before left.
-/

namespace Blocklist

namespace Batch

variable {σ : Type} [RecordStore σ]

theorem length_le_merge (b : Batch) (store : σ) (candidate : Record) (now : Instant) :
    b.records.length ≤ (b.merge store candidate now).2.records.length := by
  unfold merge
  cases b.byHash.find? candidate.hash with
  | none => simp
  | some i => simp

end Batch

namespace Intake

section
variable {σ ω : Type} [RecordStore σ]

theorem length_le_mergeAll (b : Batch) (store : σ) (now : Instant) (cs : List Record) :
    b.records.length ≤ (cs.foldl (fun batch c => (batch.merge store c now).2) b).records.length := by
  induction cs generalizing b with
  | nil => exact Nat.le_refl _
  | cons c cs ih => exact (b.length_le_merge store c now).trans (ih _)

theorem batchOf_records_eq_nil_iff {store : σ} {now : Instant} {cs : List Record} :
    (batchOf store now cs).records = [] ↔ cs = [] := by
  constructor
  · intro nothing
    cases cs with
    | nil => rfl
    | cons c cs =>
      -- The first candidate is appended, and later ones never shorten the batch.
      have first : ((({} : Batch).merge store c now).2).records.length = 1 := rfl
      have more := length_le_mergeAll (({} : Batch).merge store c now).2 store now cs
      rw [batchOf, List.foldl_cons] at nothing
      rw [nothing, first] at more
      cases more
  · rintro rfl
    rfl

theorem candidates_eq_nil_iff {a : Arrival} : a.candidates = [] ↔ a.texts = [] := by
  rw [← a.map_raw_candidates, List.map_eq_nil_iff]

theorem takeBody_of_silent {a : Arrival} (silent : a.texts = []) (seen : Names) (store : σ) :
    takeBody a.source a.time a.body seen store = ⟨.ok (0, {}), seen, store⟩ := by
  have nothing : Intake.candidates a.source a.time a.body = [] := candidates_eq_nil_iff.mpr silent
  unfold takeBody
  rw [nothing]
  rfl

/-- A source from which no rule line comes leaves the store alone, and does not fail in it. -/
theorem step_of_silent {outside : Outside ω} {policy : RetryPolicy} {entry : SourceEntry}
    {p : Progress σ ω}
    (silent : ∀ a, (arrival outside policy entry p.world).1 = .ok (some a) → a.texts = []) :
    (step outside policy entry p).2.store = p.store ∧
      ∀ fault, (step outside policy entry p).1 ≠ .error (.store fault) := by
  obtain ⟨stats, stepped⟩ := step_eq outside policy entry p
  have outer := arrival_ne_store outside policy entry p.world
  rcases arrived : arrival outside policy entry p.world with ⟨e | _ | a, world⟩
  · rw [arrived] at stepped outer
    rw [stepped]
    refine ⟨rfl, fun fault broken => outer fault ?_⟩
    rw [Except.error.inj broken]
  · rw [arrived] at stepped
    rw [stepped]
    exact ⟨rfl, fun fault broken => by cases broken⟩
  · obtain ⟨stats, stepped⟩ := step_of_arrival arrived
    have quiet := takeBody_of_silent (silent a (by rw [arrived])) p.seen p.store
    rw [stepped, quiet]
    exact ⟨rfl, fun fault broken => by cases broken⟩

theorem steps_append_of_ok {outside : Outside ω} {policy : RetryPolicy} {before : List SourceEntry}
    {p q : Progress σ ω} (done : steps outside policy before p = (.ok (), q))
    (later : List SourceEntry) :
    steps outside policy (before ++ later) p = steps outside policy later q := by
  induction before generalizing p with
  | nil =>
    cases done
    rfl
  | cons entry before ih =>
    rw [steps] at done
    rw [List.cons_append, steps]
    rcases stepped : step outside policy entry p with ⟨_ | _, r⟩
    · rw [stepped] at done
      cases done
    · rw [stepped] at done
      exact ih done

end

section
variable {δ ω : Type} [Disk δ]

/-- Everything that taking a body into a store in a file can do. -/
theorem takeBody_file_cases (a : Arrival) (seen : Names) (s : FileStore δ) :
    (a.texts = [] ∧ takeBody a.source a.time a.body seen s = ⟨.ok (0, {}), seen, s⟩) ∨
    (a.texts ≠ [] ∧ ∃ disk counted, s.write (s.memory.ingest a).records = (true, disk) ∧
      takeBody a.source a.time a.body seen s = ⟨.ok counted, seen.insertAll (a.candidates.map Record.hash),
        { s with memory := s.memory.ingest a, disk }⟩) ∨
    (a.texts ≠ [] ∧ ∃ disk, s.write (s.memory.ingest a).records = (false, disk) ∧
      takeBody a.source a.time a.body seen s =
        ⟨.error (.store (.unwritable (Path.quoted s.path))),
          seen.insertAll (a.candidates.map Record.hash), s.rollBack disk⟩) := by
  by_cases silent : a.texts = []
  · exact .inl ⟨silent, takeBody_of_silent silent seen s⟩
  let b := batchOf s a.time a.candidates
  have filled : ¬ b.records.isEmpty = true := by
    rw [List.isEmpty_iff, batchOf_records_eq_nil_iff, candidates_eq_nil_iff]
    exact silent
  have changed : s.memory.upsertMany b.records = s.memory.ingest a := by
    rw [Store.ingest, Batch.flush_eq]
    exact congrArg (fun b => s.memory.upsertMany b.records)
      (batchOf_memory s a.time a.candidates)
  have put : RecordStore.upsertMany s b.records = s.commit () (s.memory.ingest a) :=
    congrArg (s.commit ()) changed
  have taken : takeBody a.source a.time a.body seen s =
      ⟨(b.flush s).1.map fun counts => (a.candidates.length, counts),
        seen.insertAll (a.candidates.map Record.hash), (b.flush s).2⟩ := rfl
  rw [FileStore.commit_eq] at put
  rcases wrote : s.write (s.memory.ingest a).records with ⟨_ | _, disk⟩
  · rw [wrote] at put
    rw [taken, Batch.flush, if_neg filled, put]
    exact .inr (.inr ⟨silent, disk, rfl, rfl⟩)
  · rw [wrote] at put
    rw [taken, Batch.flush, if_neg filled, put]
    exact .inr (.inl ⟨silent, disk, _, rfl, rfl⟩)

theorem flush_file (b : Batch) (s : FileStore δ) :
    (b.flush s).2 = s ∨ (b.flush s).2 = (s.perform (.upsertMany b.records)).2 := by
  rcases b.flush_cases s with ⟨-, flushed⟩ | ⟨after, made, flushed⟩ | ⟨e, after, broken, flushed⟩
  · exact .inl (congrArg Prod.snd flushed)
  · exact .inr ((congrArg Prod.snd flushed).trans (congrArg Prod.snd made).symm)
  · exact .inr ((congrArg Prod.snd flushed).trans (congrArg Prod.snd broken).symm)

theorem takeBody_inStep {s : FileStore δ} (inStep : s.InStep) (atomic : Disk.Atomic δ s.path)
    (a : Arrival) (seen : Names) :
    (takeBody a.source a.time a.body seen s).store.InStep ∧
      (takeBody a.source a.time a.body seen s).store.path = s.path := by
  rw [takeBody_store]
  rcases flush_file (batchOf s a.time a.candidates) s with same | performed
  · rw [same]
    exact ⟨inStep, rfl⟩
  · rw [performed]
    exact ⟨inStep.perform atomic _, s.perform_path _⟩

theorem steps_inStep (outside : Outside ω) (policy : RetryPolicy) (entries : List SourceEntry)
    {p : Progress (FileStore δ) ω} (inStep : p.store.InStep)
    (atomic : Disk.Atomic δ p.store.path) :
    (steps outside policy entries p).2.store.InStep ∧
      (steps outside policy entries p).2.store.path = p.store.path := by
  induction entries generalizing p with
  | nil => exact ⟨inStep, rfl⟩
  | cons entry entries ih =>
    rw [steps]
    obtain ⟨stats, stepped⟩ := step_eq outside policy entry p
    rcases arrived : arrival outside policy entry p.world with ⟨e | _ | a, world⟩
    · rw [arrived] at stepped
      rw [stepped]
      exact ⟨inStep, rfl⟩
    · rw [arrived] at stepped
      rw [stepped]
      exact ih inStep atomic
    · obtain ⟨stats, stepped⟩ := step_of_arrival arrived
      obtain ⟨kept, path⟩ := takeBody_inStep inStep atomic a p.seen
      rw [← path] at atomic
      let next : Progress (FileStore δ) ω := {
        stats
        seen := (takeBody a.source a.time a.body p.seen p.store).seen
        store := (takeBody a.source a.time a.body p.seen p.store).store
        world }
      cases taken : (takeBody a.source a.time a.body p.seen p.store).outcome with
      | error e =>
        rw [stepped, taken]
        exact ⟨kept, path⟩
      | ok counted =>
        obtain ⟨later, same⟩ := ih (p := next) kept atomic
        rw [stepped, taken]
        exact ⟨later, same.trans path⟩

/-- Holds when a run comes to a source whose rules the file of the store does not take: of the progress
before that source, the body that comes for it, and the world in which it came. -/
structure CutAt (outside : Outside ω) (policy : RetryPolicy) (start : Progress (FileStore δ) ω)
    (before : List SourceEntry) (failing : SourceEntry) (p : Progress (FileStore δ) ω) (a : Arrival)
    (world : ω) : Prop where
  reached : steps outside policy before start = (.ok (), p)
  arrived : arrival outside policy failing p.world = (.ok (some a), world)
  filled : a.texts ≠ []
  refused : (p.store.write (p.store.memory.ingest a).records).1 = false

section
variable {outside : Outside ω} {policy : RetryPolicy}

theorem CutAt.cons {start q p : Progress (FileStore δ) ω} {before : List SourceEntry}
    {entry failing : SourceEntry} {a : Arrival} {world : ω}
    (stepped : step outside policy entry start = (.ok (), q))
    (cut : CutAt outside policy q before failing p a world) :
    CutAt outside policy start (entry :: before) failing p a world where
  reached := by rw [steps, stepped]; exact cut.reached
  arrived := cut.arrived
  filled := cut.filled
  refused := cut.refused

theorem CutAt.steps_eq {start p : Progress (FileStore δ) ω} {before : List SourceEntry}
    {failing : SourceEntry} {a : Arrival} {world : ω}
    (cut : CutAt outside policy start before failing p a world) :
    ∃ q disk, p.store.write (p.store.memory.ingest a).records = (false, disk) ∧
      q.store = p.store.rollBack disk ∧ q.world = world ∧ ∀ later,
      steps outside policy (before ++ failing :: later) start =
        (.error (.store (.unwritable (Path.quoted p.store.path))), q) := by
  obtain ⟨stats, stepped⟩ := step_of_arrival cut.arrived
  rcases takeBody_file_cases a p.seen p.store with
    ⟨silent, -⟩ | ⟨-, disk, counted, wrote, -⟩ | ⟨-, disk, wrote, taken⟩
  · exact absurd silent cut.filled
  · have refused := cut.refused
    rw [wrote] at refused
    cases refused
  · -- The error is returned at once, so that nothing depends on the sources that are left.
    rw [taken] at stepped
    let q : Progress (FileStore δ) ω := {
      stats
      seen := p.seen.insertAll (a.candidates.map Record.hash)
      store := p.store.rollBack disk
      world }
    refine ⟨q, disk, wrote, rfl, rfl, fun later => ?_⟩
    rw [steps_append_of_ok cut.reached, steps, stepped]
    rfl

theorem cutAt_of_steps_error {entries : List SourceEntry} {start q : Progress (FileStore δ) ω}
    {fault : StoreFault} (failed : steps outside policy entries start = (.error (.store fault), q)) :
    ∃ before failing later p a world, entries = before ++ failing :: later ∧
      CutAt outside policy start before failing p a world := by
  induction entries generalizing start with
  | nil => cases failed
  | cons entry entries ih =>
    rw [steps] at failed
    obtain ⟨stats, stepped⟩ := step_eq outside policy entry start
    have later : ∀ next, step outside policy entry start = (.ok (), next) →
        ∃ before failing later p a world, entry :: entries = before ++ failing :: later ∧
          CutAt outside policy start before failing p a world := by
      intro next went
      rw [went] at failed
      obtain ⟨before, failing, later, p, a, world, split, cut⟩ := ih failed
      exact ⟨entry :: before, failing, later, p, a, world, by rw [split]; rfl, cut.cons went⟩
    rcases arrived : arrival outside policy entry start.world with ⟨e | _ | a, world⟩
    · rw [arrived] at stepped
      rw [stepped] at failed
      cases failed
      exact absurd (congrArg Prod.fst arrived) (arrival_ne_store outside policy entry start.world fault)
    · rw [arrived] at stepped
      exact later _ stepped
    · obtain ⟨_, stepped⟩ := step_of_arrival arrived
      rcases takeBody_file_cases a start.seen start.store with
        ⟨-, taken⟩ | ⟨-, disk, counted, -, taken⟩ | ⟨filled, disk, wrote, -⟩
      · rw [taken] at stepped
        exact later _ stepped
      · rw [taken] at stepped
        exact later _ stepped
      · exact ⟨[], entry, entries, start, a, world, rfl, rfl, arrived, filled, by rw [wrote]⟩

/-- Holds of the store that is left when a run is cut after some progress, where these records were
kept: memory and file have them and no others. -/
structure CutOff (path : String) (p : Progress (FileStore δ) ω) (kept : Store)
    (left : FileStore δ) : Prop where
  reached : p.store.memory = kept
  memory : kept.Rebuilt left.memory
  visible : ∀ text r, left.memory.findByRaw text = some r ∨ left.memory.findByHash text = some r →
    r ∈ kept.records
  file : FileStore.loadAt path left.disk = .ok kept.records
  text : Disk.readText left.disk path = Disk.readText p.store.disk path

theorem CutAt.cutOff {start p : Progress (FileStore δ) ω} {before : List SourceEntry}
    {failing : SourceEntry} {a : Arrival} {world : ω} (inStep : start.store.InStep)
    (atomic : Disk.Atomic δ start.store.path)
    (cut : CutAt outside policy start before failing p a world) :
    ∃ q, q.world = world ∧
      (∀ later, steps outside policy (before ++ failing :: later) start =
        (.error (.store (.unwritable (Path.quoted start.store.path))), q)) ∧
      CutOff start.store.path p
        ((arrivals outside policy before start.world).foldl Store.ingest start.store.memory)
        q.store := by
  obtain ⟨q, disk, wrote, rolled, same, ends⟩ := cut.steps_eq
  obtain ⟨within, path⟩ := steps_inStep outside policy before inStep atomic
  obtain ⟨after, -⟩ := steps_inStep outside policy (before ++ [failing]) inStep atomic
  rw [cut.reached] at within path
  rw [ends []] at after
  have kept : p.store.memory = _ := steps_memory cut.reached
  have rebuilt : p.store.memory.Rebuilt q.store.memory := by
    rw [rolled]
    exact Store.rebuilt_ofRecords within.wellFormed
  have path' : q.store.path = start.store.path := by
    rw [rolled, ← path]
    rfl
  refine ⟨q, same, path ▸ ends, kept, kept ▸ rebuilt, ?_, ?_, ?_⟩
  · intro text r found
    have member : r ∈ q.store.memory.records := found.elim
      (fun found => (Store.mem_of_findByRaw after.wellFormed found).1)
      fun found => (Store.mem_of_findByHash after.wellFormed found).1
    rwa [rebuilt.records, kept] at member
  · calc
      FileStore.loadAt start.store.path q.store.disk =
          FileStore.loadAt q.store.path q.store.disk := by rw [path']
      _ = .ok q.store.memory.records := after.file
      _ = .ok p.store.memory.records := by rw [rebuilt.records]
      _ = _ := by rw [kept]; rfl
  · rw [rolled]
    rw [← path] at atomic ⊢
    exact (atomic.kept p.store.disk disk _ wrote).2

/-- In a run over a store in a file the first write that fails ends the run, whichever source's it is: no
later source is asked for, and memory and file have the records that the bodies before left. Nothing else
fails in the store, and a source without rule lines leaves it alone. -/
theorem run_cutOff {path : String} {disk : δ} {s : FileStore δ} (atomic : Disk.Atomic δ path)
    (opened : FileStore.openAt path disk = .ok s) (requests : List Request) (outside : Outside ω)
    (policy : RetryPolicy) (world : ω) :
    let start := s.performAll requests
    (∀ before failing p a after,
      CutAt outside policy { store := start, world } before failing p a after →
        ∃ left, (∀ later, run outside policy (before ++ failing :: later) start world =
            (.error (.store (.unwritable (Path.quoted path))), left, after)) ∧
          CutOff path p
            ((arrivals outside policy before world).foldl Store.ingest start.memory) left) ∧
      (∀ entries fault, (run outside policy entries start world).1 = .error (.store fault) →
        ∃ before failing later p a after, entries = before ++ failing :: later ∧
          CutAt outside policy { store := start, world } before failing p a after) ∧
      ∀ entry (p : Progress (FileStore δ) ω),
        (∀ a, (arrival outside policy entry p.world).1 = .ok (some a) → a.texts = []) →
          (step outside policy entry p).2.store = p.store ∧
            ∀ fault, (step outside policy entry p).1 ≠ .error (.store fault) := by
  intro start
  have found := FileStore.openAt_ok opened
  have place : s.path = path := by rw [found]
  have there : start.path = path := (s.performAll_path requests).trans place
  have inStep : start.InStep :=
    (FileStore.openAt_inStep opened).performAll (place ▸ atomic) requests
  refine ⟨?_, ?_, fun entry p silent => step_of_silent silent⟩
  · intro before failing p a after cut
    obtain ⟨q, same, ends, cutOff⟩ := cut.cutOff inStep (there ▸ atomic)
    rw [there] at ends cutOff
    refine ⟨q.store, fun later => ?_, cutOff⟩
    rw [run, if_neg (by simp), ends, ← same]
  · intro entries fault failed
    have filled : entries ≠ [] := by
      rintro rfl
      cases failed
    have stepped := steps_eq_error_iff.mpr ⟨filled, failed⟩
    exact cutAt_of_steps_error (q := _) (Prod.ext stepped rfl)

end

end

/-- A store whose second write fails, before any source. -/
def twoWrites : Progress (FileStore Slate) (List String × Unit) where
  store := FileStore.sampledFile
  world := ([], ())

def oneWritten : Progress (FileStore Slate) (List String × Unit) :=
  (steps Outside.twoLists.noting .standard [.base] twoWrites).2

def ownArrival : Arrival where
  source := Source.ofCategory "own" .custom
  time := (Date.sampled 28).start
  body := " ||b.com^\n||a.com^".toList

/-- The record of the first list stays when the second cannot be written, and nothing more is asked for. -/
theorem run_cutOff_oneWritten :
    let asked := ["https://lists.example/base", "https://lists.example/own"]
    Disk.Atomic Slate "rules.json" ∧
      FileStore.openAt "rules.json" FileStore.sampledFile.disk = .ok FileStore.sampledFile ∧
      CutAt Outside.twoLists.noting .standard twoWrites [.base] .own oneWritten ownArrival (asked, ()) ∧
      ∃ left : FileStore Slate,
        (∀ later, run Outside.twoLists.noting .standard (.base :: .own :: later)
            FileStore.sampledFile ([], ()) =
          (.error (.store (.unwritable (Path.quoted "rules.json"))), left, asked, ())) ∧
        left.memory.size = 1 := by
  intro asked
  have atomic := Slate.atomic "rules.json"
  have opened : FileStore.openAt "rules.json" FileStore.sampledFile.disk =
      .ok FileStore.sampledFile := rfl
  have done : (steps Outside.twoLists.noting .standard [.base] twoWrites).1 = .ok () := by
    decide +kernel
  have cut : CutAt Outside.twoLists.noting .standard twoWrites [.base] .own oneWritten ownArrival
      (asked, ()) := {
    reached := Prod.ext done rfl
    arrived := by decide +kernel
    filled := by decide +kernel
    refused := by decide +kernel }
  obtain ⟨cuts, -⟩ :=
    run_cutOff atomic opened [] Outside.twoLists.noting .standard ([], ())
  obtain ⟨left, ends, cutOff⟩ := cuts [.base] .own oneWritten ownArrival (asked, ()) cut
  have size : oneWritten.store.memory.size = 1 := by decide +kernel
  refine ⟨atomic, opened, cut, left, ends, ?_⟩
  rw [cutOff.memory.size, ← cutOff.reached, size]

end Intake

end Blocklist
