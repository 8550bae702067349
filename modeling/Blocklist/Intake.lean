import Blocklist.Fetch
import Blocklist.Merge
import Blocklist.Source.Json
import Blocklist.Store.Selection
import Blocklist.Text.Basic

/-!
Taking lists into a store. The sources of a run are handled in order; each fetched body is merged as one
batch. A source that does not resolve or cannot be fetched is noted and passed over, while a store that
fails ends the run.
-/

namespace Blocklist

structure SourceFailure where
  source : String
  error : String
  deriving DecidableEq, Repr

structure RunStats where
  attempted : Nat := 0
  succeeded : Nat := 0
  failed : Nat := 0
  totalRules : Nat := 0
  uniqueRules : Nat := 0
  rulesPerSource : List (String × Nat) := []
  rulesPerCategory : List (Category × Nat) := []
  errors : List SourceFailure := []
  merges : MergeCounts := {}
  deriving DecidableEq, Repr, Inhabited

namespace RunStats

def attempt (s : RunStats) : RunStats := { s with attempted := s.attempted + 1 }

def fail (s : RunStats) (source : String) (error : Error) : RunStats :=
  { s with failed := s.failed + 1, errors := s.errors ++ [⟨source, error.message⟩] }

def succeed (s : RunStats) (source : Source) (rules : Nat) (merges : MergeCounts) : RunStats :=
  { s with
    succeeded := s.succeeded + 1
    totalRules := s.totalRules + rules
    rulesPerSource := tally (fun a b => a < b) source.name rules s.rulesPerSource
    rulesPerCategory := tally Category.precedes source.category rules s.rulesPerCategory
    merges := s.merges.add merges }

end RunStats

structure Outside (ω : Type) extends Client ω where
  now : ω → Instant × ω

namespace Intake

def candidate? (source : Source) (now : Instant) (line : List Char) : Option Record :=
  (Rule.classify source.category (Text.trim line)).map fun rule =>
    Record.candidate rule source now

def candidates (source : Source) (now : Instant) (body : List Char) : List Record :=
  (Text.lines body).filterMap (candidate? source now)

def batchOf [RecordStore σ] (store : σ) (now : Instant) (cs : List Record) : Batch :=
  cs.foldl (fun batch c => (batch.merge store c now).2) {}

/-- What taking in one body gives: the number of rule lines with the merge counts, or the store's error;
the fingerprints seen so far; and the store. -/
structure BodyResult (σ : Type) where
  outcome : Except Error (Nat × MergeCounts)
  seen : Names
  store : σ

/-- Merges the rules of a body into the store as one batch. -/
def takeBody [RecordStore σ] (source : Source) (now : Instant) (body : List Char) (seen : Names)
    (store : σ) : BodyResult σ :=
  let cs := candidates source now body
  let (flushed, store) := (batchOf store now cs).flush store
  { outcome := flushed.map fun counts => (cs.length, counts)
    seen := seen.insertAll (cs.map Record.hash)
    store }

structure Progress (σ ω : Type) where
  stats : RunStats := {}
  seen : Names := .empty
  store : σ
  world : ω

def takeSource [RecordStore σ] (outside : Outside ω) (policy : RetryPolicy) (source : Source)
    (p : Progress σ ω) : Except Error Unit × Progress σ ω :=
  match outside.fetch policy source.url p.world with
  | (.error e, world) =>
    if e.isSourceScoped then (.ok (), { p with stats := p.stats.fail source.name e, world })
    else (.error e, { p with world })
  | (.ok body, world) =>
    let (now, world) := outside.now world
    let result := takeBody source now body p.seen p.store
    match result.outcome with
    | .error e => (.error e, { p with seen := result.seen, store := result.store, world })
    | .ok (rules, merges) =>
      (.ok (), {
        stats := p.stats.succeed source rules merges
        seen := result.seen
        store := result.store
        world })

def step [RecordStore σ] (outside : Outside ω) (policy : RetryPolicy) (entry : SourceEntry)
    (p : Progress σ ω) : Except Error Unit × Progress σ ω :=
  if entry.isEnabled then
    let p := { p with stats := p.stats.attempt }
    match entry.resolve with
    | .error e => (.ok (), { p with stats := p.stats.fail entry.displayName e })
    | .ok source => takeSource outside policy source p
  else (.ok (), p)

/-- Handles configured sources in order, up to the first error that is not one source's. -/
def steps [RecordStore σ] (outside : Outside ω) (policy : RetryPolicy) :
    List SourceEntry → Progress σ ω → Except Error Unit × Progress σ ω
  | [], p => (.ok (), p)
  | entry :: entries, p =>
    match step outside policy entry p with
    | (.ok (), p) => steps outside policy entries p
    | (.error e, p) => (.error e, p)

def run [RecordStore σ] (outside : Outside ω) (policy : RetryPolicy) (entries : List SourceEntry)
    (store : σ) (world : ω) : Except Error RunStats × σ × ω :=
  if entries.isEmpty then (.error .noSources, store, world)
  else
    match steps outside policy entries { store, world } with
    | (.ok (), p) => (.ok { p.stats with uniqueRules := p.seen.size }, p.store, p.world)
    | (.error e, p) => (.error e, p.store, p.world)

end Intake

end Blocklist
