import Blocklist.Intake
import Blocklist.Proofs.Fingerprint
import Blocklist.Proofs.Record.Candidate

/-!
What comes in from outside during a run: the bodies that arrive, each for its source and at its time, and
the rule lines in them. Main statements: the candidates of a body are those of its rule lines, in order,
and handling a source takes in the body that arrives for it, or leaves the store alone when none does.
-/

namespace Blocklist

/-- A body that arrives for a source, and the time at which it is taken in. -/
structure Arrival where
  source : Source
  time : Instant
  body : List Char
  deriving DecidableEq

namespace Rule

variable {declared : Category} {line : List Char}

theorem isSome_classify : (classify declared line).isSome = isRuleLine line := by
  unfold classify
  split
  next isRule => rw [isRule, Option.isSome_some]
  next plain => simp [plain]

theorem raw_of_classify {rule : Classified} (classified : classify declared line = some rule) :
    rule.raw = String.ofList line := by
  unfold classify at classified
  split at classified
  · cases classified
    rfl
  · cases classified

theorem declared_of_classify {rule : Classified} (classified : classify declared line = some rule) :
    rule.declared = declared := by
  unfold classify at classified
  split at classified
  · cases classified
    rfl
  · cases classified

/-- The kind and the host of a rule are those of its line, whatever the list. -/
theorem kind_of_classify {rule : Classified} (classified : classify declared line = some rule) :
    rule.kind = Kind.ofLine line ∧
      rule.domain =
        if (Kind.ofLine line).carriesDomain then (hostOf line).map String.ofList else none := by
  unfold classify at classified
  split at classified
  · cases classified
    exact ⟨rfl, rfl⟩
  · cases classified

/-- Only a list of one's own holds rules of the category `custom`. -/
theorem category_ne_custom_of_classify {rule : Classified}
    (classified : classify declared line = some rule) (plain : declared ≠ .custom) :
    rule.category ≠ .custom := by
  rw [Classified.category, declared_of_classify classified, effectiveCategory]
  split
  · decide
  · exact plain

end Rule

namespace Arrival

/-- The trimmed lines of the body that are rules. -/
def texts (a : Arrival) : List String :=
  (((Text.lines a.body).map Text.trim).filter Rule.isRuleLine).map String.ofList

/-- Holds when a line of the body trims to this text. -/
def Contains (a : Arrival) (text : String) : Prop :=
  ∃ line ∈ Text.lines a.body, Text.trim line = text.toList

def candidates (a : Arrival) : List Record := Intake.candidates a.source a.time a.body

/-- The candidates, each seen when the body arrived. -/
def sightings (a : Arrival) : List (Record × Instant) :=
  a.candidates.map fun candidate => (candidate, a.time)

variable {a : Arrival}

theorem map_fst_sightings (a : Arrival) : a.sightings.map Prod.fst = a.candidates := by
  rw [sightings, List.map_map]
  exact List.map_id _

theorem isTrimmed_of_mem {text : String} (member : text ∈ a.texts) : IsTrimmed text := by
  simp only [texts, List.mem_map, List.mem_filter] at member
  obtain ⟨trimmed, ⟨⟨line, -, rfl⟩, -⟩, rfl⟩ := member
  exact isTrimmed_ofList_trim line

/-- The candidates are those of the rule lines, in order. -/
theorem map_raw_candidates (a : Arrival) : a.candidates.map Record.raw = a.texts := by
  unfold candidates texts Intake.candidates
  induction Text.lines a.body with
  | nil => rfl
  | cons line rest ih =>
    rw [List.map_cons]
    have agrees : (Rule.classify a.source.category (Text.trim line)).isSome =
        Rule.isRuleLine (Text.trim line) := Rule.isSome_classify
    cases classified : Rule.classify a.source.category (Text.trim line) with
    | none =>
      rw [classified, Option.isSome_none] at agrees
      have nothing : Intake.candidate? a.source a.time line = none := by
        rw [Intake.candidate?, classified, Option.map_none]
      rw [List.filterMap_cons_none nothing, ih, List.filter_cons_of_neg (by simp [← agrees])]
    | some rule =>
      rw [classified, Option.isSome_some] at agrees
      have here : Intake.candidate? a.source a.time line =
          some (Record.candidate rule a.source a.time) := by
        rw [Intake.candidate?, classified, Option.map_some]
      rw [List.filterMap_cons_some here, List.map_cons, ih, List.filter_cons_of_pos agrees.symm,
        List.map_cons, ← Rule.raw_of_classify classified]
      rfl

theorem length_candidates (a : Arrival) : a.candidates.length = a.texts.length := by
  rw [← a.map_raw_candidates, List.length_map]

theorem map_raw_sightings (a : Arrival) : (a.sightings.map fun s => s.1.raw) = a.texts := by
  rw [← a.map_raw_candidates, ← a.map_fst_sightings, List.map_map]
  rfl

/-- A candidate is that of a line that trims to its text. -/
theorem candidate_of_mem {candidate : Record} (member : candidate ∈ a.candidates) :
    a.Contains candidate.raw ∧
      ∃ rule, Rule.classify a.source.category candidate.raw.toList = some rule ∧
        candidate = Record.candidate rule a.source a.time := by
  obtain ⟨line, inside, found⟩ := List.mem_filterMap.mp member
  obtain ⟨rule, classified, rfl⟩ := Option.map_eq_some_iff.mp found
  have text := Rule.raw_of_classify classified
  have back : Text.trim line = (Record.candidate rule a.source a.time).raw.toList := by
    rw [Record.candidate, text, String.toList_ofList]
  exact ⟨⟨line, inside, back⟩, rule, back ▸ classified, rfl⟩

theorem fingerprinted_candidates (a : Arrival) : Record.Fingerprinted a.candidates := by
  intro candidate member
  obtain ⟨-, rule, -, rfl⟩ := candidate_of_mem member
  rfl

theorem map_hash_candidates (a : Arrival) :
    a.candidates.map Record.hash = a.texts.map fingerprint := by
  rw [← a.map_raw_candidates, List.map_map]
  exact List.map_congr_left fun c member => a.fingerprinted_candidates c member

theorem sources_of_mem {candidate : Record} (member : candidate ∈ a.candidates) :
    candidate.sources = Names.ofList [a.source.name] := by
  obtain ⟨-, rule, -, rfl⟩ := candidate_of_mem member
  rfl

theorem added_of_mem {candidate : Record} (member : candidate ∈ a.candidates) :
    candidate.added = a.time := by
  obtain ⟨-, rule, -, rfl⟩ := candidate_of_mem member
  rfl

theorem kind_of_mem {candidate : Record} (member : candidate ∈ a.candidates) :
    candidate.kind = Rule.Kind.ofLine candidate.raw.toList ∧
      candidate.domain =
        if (Rule.Kind.ofLine candidate.raw.toList).carriesDomain
        then (Rule.hostOf candidate.raw.toList).map String.ofList else none := by
  obtain ⟨-, rule, classified, built⟩ := candidate_of_mem member
  have shape := Rule.kind_of_classify classified
  rw [built] at shape ⊢
  exact shape

theorem plain_of_mem {candidate : Record} (plain : a.source.category ≠ .custom)
    (member : candidate ∈ a.candidates) : candidate.category ≠ .custom := by
  obtain ⟨-, rule, classified, rfl⟩ := candidate_of_mem member
  exact Rule.category_ne_custom_of_classify classified plain

theorem mem_candidates_of_mem_sightings {s : Record × Instant} (member : s ∈ a.sightings) :
    s.1 ∈ a.candidates := by
  rw [← a.map_fst_sightings]
  exact List.mem_map_of_mem member

theorem isCandidate_of_mem_sightings {s : Record × Instant} (member : s ∈ a.sightings) :
    s.1.IsCandidate := by
  obtain ⟨-, rule, -, built⟩ := candidate_of_mem (mem_candidates_of_mem_sightings member)
  exact ⟨rule, a.source, a.time, built⟩

theorem plain_of_mem_sightings {s : Record × Instant} (plain : a.source.category ≠ .custom)
    (member : s ∈ a.sightings) : s.1.category ≠ .custom :=
  plain_of_mem plain (mem_candidates_of_mem_sightings member)

end Arrival

/-- What a list of this source makes of texts that are each a rule line. -/
def Source.rules (source : Source) (now : Instant) (texts : List String) : List Record :=
  texts.filterMap fun text => (Rule.classify source.category text.toList).map fun rule =>
    Record.candidate rule source now

/-- Nothing but the texts of its rule lines goes from a body into its candidates. -/
theorem Arrival.candidates_eq_rules (a : Arrival) : a.candidates = a.source.rules a.time a.texts := by
  unfold candidates texts Source.rules Intake.candidates
  rw [List.filterMap_map, List.filterMap_filter, List.filterMap_map]
  apply List.filterMap_congr
  intro line _
  unfold Intake.candidate?
  rw [Function.comp_apply, Function.comp_apply, String.toList_ofList]
  split
  next => rfl
  next plain => rw [Rule.classify, if_neg plain, Option.map_none]

/-- The world in which an address answers with a text or not at all, and in which the clock stands. -/
def Outside.still (answer : String → Option String) (now : Instant) : Outside Unit where
  get url world :=
    match answer url with
    | some text => (.ok (Text.encode text.toList), world)
    | none => (.error (.status 404), world)
  pause _ world := world
  now world := (now, world)

/-- A world with a public list and one's own list, which have a rule in common. -/
def Outside.twoLists : Outside Unit :=
  .still
    (fun url =>
      if url = "https://lists.example/base" then some "! base\n||a.com^"
      else if url = "https://lists.example/own" then some " ||b.com^\n||a.com^"
      else none)
    (Date.sampled 28).start

namespace SourceEntry

def base : SourceEntry := (Source.ofCategory "base" .advertising).entry

def gone : SourceEntry := (Source.ofCategory "gone" .dns).entry

def own : SourceEntry := (Source.ofCategory "own" .custom).entry

end SourceEntry

namespace Intake

variable {σ ω : Type}

/-- What arrives for a configured source: nothing when it is not enabled, does not resolve or cannot be
fetched, and an error when the fetch breaks off the run. -/
def arrival (outside : Outside ω) (policy : RetryPolicy) (entry : SourceEntry) (world : ω) :
    Except Error (Option Arrival) × ω :=
  if entry.isEnabled then
    match entry.resolve with
    | .error _ => (.ok none, world)
    | .ok source =>
      match outside.fetch policy source.url world with
      | (.error e, world) => (if e.isSourceScoped then .ok none else .error e, world)
      | (.ok body, world) =>
        let read := outside.now world
        (.ok (some ⟨source, read.1, body⟩), read.2)
  else (.ok none, world)

/-- What arrives for configured sources in order, up to an error that breaks off the run. -/
def arrivals (outside : Outside ω) (policy : RetryPolicy) : List SourceEntry → ω → List Arrival
  | [], _ => []
  | entry :: entries, world =>
    match arrival outside policy entry world with
    | (.ok here, world) => here.toList ++ arrivals outside policy entries world
    | (.error _, _) => []

/-- What arrives and is written to the store, up to an error that ends the run. -/
def ingested [RecordStore σ] (outside : Outside ω) (policy : RetryPolicy) :
    List SourceEntry → Progress σ ω → List Arrival
  | [], _ => []
  | entry :: entries, p =>
    match arrival outside policy entry p.world, step outside policy entry p with
    | (.ok here, _), (.ok (), p) => here.toList ++ ingested outside policy entries p
    | _, _ => []

variable [RecordStore σ]

/-- Handling a source takes in the body that arrives for it. When none does, the store stays. -/
theorem step_eq (outside : Outside ω) (policy : RetryPolicy) (entry : SourceEntry)
    (p : Progress σ ω) :
    ∃ stats, step outside policy entry p =
      match arrival outside policy entry p.world with
      | (.error e, world) => (.error e, { p with stats, world })
      | (.ok none, world) => (.ok (), { p with stats, world })
      | (.ok (some a), world) =>
        let result := takeBody a.source a.time a.body p.seen p.store
        (result.outcome.map fun _ => (),
          { stats, seen := result.seen, store := result.store, world }) := by
  unfold arrival step
  by_cases enabled : entry.isEnabled = true
  · rw [if_pos enabled, if_pos enabled]
    cases resolved : entry.resolve with
    | error e => exact ⟨_, rfl⟩
    | ok source =>
      simp only [takeSource]
      rcases outside.fetch policy source.url p.world with ⟨got, after⟩
      cases got with
      | error e =>
        by_cases own : e.isSourceScoped = true
        · simp only [own, if_true]
          exact ⟨_, rfl⟩
        · simp only [own, if_false, Bool.false_eq_true]
          exact ⟨_, rfl⟩
      | ok body =>
        simp only
        cases (takeBody source (outside.now after).1 body p.seen p.store).outcome with
        | error e => exact ⟨_, rfl⟩
        | ok counted => exact ⟨_, rfl⟩
  · rw [if_neg enabled, if_neg enabled]
    exact ⟨p.stats, rfl⟩

theorem step_of_arrival {outside : Outside ω} {policy : RetryPolicy} {entry : SourceEntry}
    {p : Progress σ ω} {a : Arrival} {world : ω}
    (arrived : arrival outside policy entry p.world = (.ok (some a), world)) :
    ∃ stats, step outside policy entry p =
      ((takeBody a.source a.time a.body p.seen p.store).outcome.map fun _ => (),
        { stats
          seen := (takeBody a.source a.time a.body p.seen p.store).seen
          store := (takeBody a.source a.time a.body p.seen p.store).store
          world }) := by
  obtain ⟨stats, stepped⟩ := step_eq outside policy entry p
  rw [arrived] at stepped
  exact ⟨stats, stepped⟩

theorem takeBody_store (a : Arrival) (seen : Names) (store : σ) :
    (takeBody a.source a.time a.body seen store).store =
      ((batchOf store a.time a.candidates).flush store).2 := rfl

theorem takeBody_outcome (a : Arrival) (seen : Names) (store : σ) :
    (takeBody a.source a.time a.body seen store).outcome =
      ((batchOf store a.time a.candidates).flush store).1.map
        fun counts => (a.candidates.length, counts) := rfl

end Intake

end Blocklist
