import Blocklist.Proofs.Intake.Growth

/-!
Where stored records come from. A record is the candidate of one sighting; later sightings only add names
of sources and tags to it and move the time of its last sighting, and a custom sighting puts its own
candidate in the record's place. Main statement: this holds at every point between two sources of any
runs, if the clock never goes back.
-/

namespace Blocklist

theorem Instant.before_self (t : Instant) : t.before t = false :=
  decide_eq_false (List.lt_irrefl t.key)

theorem Rule.mobileTag_mem_of_classify {declared : Category} {line : List Char}
    {rule : Rule.Classified} (classified : Rule.classify declared line = some rule)
    (isMobile : rule.category = .mobile) : Rule.mobileTag ∈ rule.tags := by
  by_cases tagged : rule.tags.contains Rule.mobileTag = true
  · exact List.contains_iff_mem.mp tagged
  · have listed : rule.declared = .mobile := by
      simpa only [Rule.Classified.category, Rule.effectiveCategory, if_neg tagged] using isMobile
    unfold Rule.classify at classified
    split at classified
    · cases classified
      have given : declared = .mobile := listed
      simp [given]
    · cases classified

namespace Record

/-- Holds of a record that is the candidate of a line of this body, save for further sources, further
tags and later sightings. -/
structure StemsFrom (r : Record) (a : Arrival) : Prop where
  contains : a.Contains r.raw
  rebuilt : ∃ rule, Rule.classify a.source.category r.raw.toList = some rule ∧
    r = { candidate rule a.source a.time with
      sources := r.sources, tags := r.tags, updated := r.updated } ∧
    (∀ name ∈ (candidate rule a.source a.time).sources, name ∈ r.sources) ∧
    ∀ tag ∈ (candidate rule a.source a.time).tags, tag ∈ r.tags
  updated : r.updated.before a.time = false
  variants : ∃ v, r.variants = [v] ∧ v.text = r.raw ∧ v.sourceName = a.source.name

/-- Holds of a record all of whose data come from these bodies. -/
structure Traced (history : List Arrival) (r : Record) : Prop where
  stems : ∃ a ∈ history, r.StemsFrom a
  sources : ∀ name ∈ r.sources, ∃ a ∈ history, a.source.name = name ∧ a.Contains r.raw
  mobile : r.category = .mobile → Rule.mobileTag ∈ r.tags

variable {history : List Arrival} {a : Arrival} {r known : Record} {records : List Record}

theorem Traced.mono {more : List Arrival} (traced : r.Traced history) (subset : history ⊆ more) :
    r.Traced more := by
  obtain ⟨a, member, stems⟩ := traced.stems
  refine ⟨⟨a, subset member, stems⟩, ?_, traced.mobile⟩
  intro name named
  obtain ⟨b, inside, same⟩ := traced.sources name named
  exact ⟨b, subset inside, same⟩

/-- A first or a custom sighting. -/
theorem traced_candidate (arrived : a ∈ history) (new : r ∈ a.candidates) : r.Traced history := by
  obtain ⟨contains, rule, classified, built⟩ := Arrival.candidate_of_mem new
  refine ⟨⟨a, arrived, contains, ⟨rule, classified, ?_, ?_, ?_⟩, ?_, ?_⟩, ?_, ?_⟩
  · rw [built]
  · rw [built]
    exact fun _ member => member
  · rw [built]
    exact fun _ member => member
  · rw [built]
    exact Instant.before_self a.time
  · rw [built]
    exact ⟨_, candidate_variants rule a.source a.time, rfl, rfl⟩
  · intro name named
    have only : name = a.source.name := by simpa [built, candidate] using named
    exact ⟨a, arrived, only.symm, contains⟩
  · intro isMobile
    rw [built] at isMobile ⊢
    exact Names.mem_ofList.mpr (Rule.mobileTag_mem_of_classify classified isMobile)

/-- A further sighting. -/
theorem Traced.absorb (traced : known.Traced history) (arrived : a ∈ history)
    (latest : ∀ b ∈ history, a.time.before b.time = false) (new : r ∈ a.candidates)
    (same : known.raw = r.raw) : (known.absorb r a.time).Traced history := by
  obtain ⟨origin, member, contains, core, -, v, only, text, giver⟩ := traced.stems
  obtain ⟨rule, classified, rebuilt, names, tags⟩ := core
  -- The only spelling of the record is its text, which is the candidate's as well.
  have spelled : known.hasVariant r.raw = true := by simp [hasVariant, only, text, same]
  have absorbed : known.absorb r a.time =
      { known with
        sources := known.sources.union r.sources
        tags := known.tags.union r.tags
        updated := a.time } := by
    rw [Record.absorb, if_pos spelled]
  rw [absorbed]
  refine ⟨⟨origin, member, contains, ⟨rule, classified, ?_, ?_, ?_⟩, ?_, ?_⟩, ?_, ?_⟩
  · simp only
    rw [rebuilt]
  · intro name named
    exact Names.mem_union.mpr (Or.inr (names name named))
  · intro tag tagged
    exact Names.mem_union.mpr (Or.inr (tags tag tagged))
  · exact latest origin member
  · exact ⟨v, only, text, giver⟩
  · intro name named
    rcases Names.mem_union.mp named with further | old
    · obtain ⟨b, inside, sameName, mentions⟩ := (traced_candidate arrived new).sources name further
      exact ⟨b, inside, sameName, same ▸ mentions⟩
    · exact traced.sources name old
  · intro isMobile
    exact Names.mem_union.mpr (Or.inr (traced.mobile isMobile))

theorem traced_sightIn (traced : ∀ x ∈ records, x.Traced history) (arrived : a ∈ history)
    (latest : ∀ b ∈ history, a.time.before b.time = false) (new : r ∈ a.candidates) :
    ∀ x ∈ sightIn records (r, a.time), x.Traced history := by
  intro x member
  rcases mem_sightIn a.time member with made | old
  · rw [made]
    unfold resighted merge
    split
    · exact traced_candidate arrived new
    · split
      next => exact traced_candidate arrived new
      next known found =>
        have same : known.raw = r.raw := by simpa using List.find?_some found
        exact (traced known (List.mem_of_find?_eq_some found)).absorb arrived latest new same
  · exact traced x old

theorem traced_sightAll (traced : ∀ x ∈ records, x.Traced history) (arrived : a ∈ history)
    (latest : ∀ b ∈ history, a.time.before b.time = false) :
    ∀ x ∈ sightAll records a.sightings, x.Traced history := by
  -- The candidates still to come are only some of the body's, which they all remain.
  have each : ∀ cs ⊆ a.candidates, ∀ records : List Record, (∀ x ∈ records, x.Traced history) →
      ∀ x ∈ sightAll records (cs.map fun c => (c, a.time)), x.Traced history := by
    intro cs
    induction cs with
    | nil => exact fun _ _ traced => traced
    | cons c cs ih =>
      intro included records traced
      rw [List.cons_subset] at included
      exact ih included.2 _ (traced_sightIn traced arrived latest included.1)
  exact each a.candidates (List.Subset.refl _) records traced

end Record

/-- Holds of bodies none of which arrives before an earlier one. -/
def Arrival.InOrder (history : List Arrival) : Prop :=
  history.Pairwise fun earlier later => later.time.before earlier.time = false

instance (history : List Arrival) : Decidable (Arrival.InOrder history) :=
  inferInstanceAs (Decidable (history.Pairwise fun earlier later =>
    later.time.before earlier.time = false))

theorem Store.Grown.traced {history : List Arrival} {s : Store} (grown : Grown history s)
    (free : CollisionFree (history.flatMap Arrival.texts)) (inOrder : Arrival.InOrder history) :
    ∀ r ∈ s.records, r.Traced history := by
  induction grown with
  | empty => exact fun r member => absurd member List.not_mem_nil
  | @ingest history s a grown ih =>
    obtain ⟨before, -, after⟩ := List.pairwise_append.mp inOrder
    rw [List.flatMap_append, List.flatMap_singleton] at free
    have freeBefore := free.mono (List.subset_append_left _ _)
    have traced := ih freeBefore before
    rw [((grown.holds freeBefore).records_ingest free).1]
    apply Record.traced_sightAll
    · exact fun r member => (traced r member).mono (List.subset_append_left _ _)
    · exact List.mem_append_right _ (List.mem_singleton_self a)
    · intro b member
      rcases List.mem_append.mp member with earlier | here
      · exact after b earlier a (List.mem_singleton_self a)
      · rw [List.mem_singleton.mp here]
        exact Instant.before_self a.time
  | indexed grown ih =>
    rw [((grown.holds free).indexed free).1]
    exact ih free inOrder

/-- What a run is given: the world outside, how often to retry, and the sources. -/
structure Job (ω : Type) where
  outside : Outside ω
  policy : RetryPolicy
  entries : List SourceEntry

namespace Job

variable {σ ω : Type} [RecordStore σ] {history : List Arrival} {store : σ} {world : ω}

/-- The store and the world after one run after the other, whatever each of them came to. -/
def runAll : List (Job ω) → σ → ω → σ × ω
  | [], store, world => (store, world)
  | job :: jobs, store, world =>
    let after := (Intake.run job.outside job.policy job.entries store world).2
    runAll jobs after.1 after.2

/-- What one run after the other takes in. -/
def takenIn : List (Job ω) → σ → ω → List Arrival
  | [], _, _ => []
  | job :: jobs, store, world =>
    let after := (Intake.run job.outside job.policy job.entries store world).2
    Intake.ingested job.outside job.policy job.entries { store, world } ++
      takenIn jobs after.1 after.2

/-- The store once some runs are over and the first sources of another one are handled. -/
def storeWithin (jobs : List (Job ω)) (last : Job ω) (handled : Nat) (store : σ) (world : ω) : σ :=
  let before := runAll jobs store world
  (Intake.steps last.outside last.policy (last.entries.take handled)
    { store := before.1, world := before.2 }).2.store

/-- What is taken in by then. -/
def takenInWithin (jobs : List (Job ω)) (last : Job ω) (handled : Nat) (store : σ) (world : ω) :
    List Arrival :=
  let before := runAll jobs store world
  takenIn jobs store world ++
    Intake.ingested last.outside last.policy (last.entries.take handled)
      { store := before.1, world := before.2 }

variable [Backed σ]

theorem runAll_grown (jobs : List (Job ω)) (grown : Store.Grown history (Backed.memory store)) :
    Store.Grown (history ++ takenIn jobs store world)
      (Backed.memory (runAll jobs store world).1) := by
  induction jobs generalizing history store world with
  | nil => simpa [takenIn, runAll] using grown
  | cons job jobs ih =>
    have first : Store.Grown (history ++ Intake.ingested job.outside job.policy job.entries
        { store, world })
        (Backed.memory (Intake.run job.outside job.policy job.entries store world).2.1) := by
      rw [Intake.run_store]
      exact Intake.steps_grown job.outside job.policy job.entries grown
    rw [takenIn, runAll, ← List.append_assoc]
    exact ih first

/-- At every point between two sources of any runs over an empty store, every text taken in before has a
record, and every record comes from a body taken in before, with all of its data. -/
theorem traced_within (jobs : List (Job ω)) (last : Job ω) (handled : Nat) (store : σ) (world : ω)
    (fresh : Backed.memory store = {})
    (free : CollisionFree ((takenInWithin jobs last handled store world).flatMap Arrival.texts))
    (inOrder : Arrival.InOrder (takenInWithin jobs last handled store world)) :
    (∀ text ∈ (takenInWithin jobs last handled store world).flatMap Arrival.texts,
        ∃ r ∈ RecordStore.records (storeWithin jobs last handled store world), r.raw = text) ∧
      ∀ r ∈ RecordStore.records (storeWithin jobs last handled store world),
        r.Traced (takenInWithin jobs last handled store world) := by
  have start : Store.Grown [] (Backed.memory store) := by
    rw [fresh]
    exact Store.Grown.empty
  have before : Store.Grown (takenIn jobs store world)
      (Backed.memory (runAll jobs store world).1) := runAll_grown jobs start
  have grown : Store.Grown (takenInWithin jobs last handled store world)
      (Backed.memory (storeWithin jobs last handled store world)) :=
    Intake.steps_grown last.outside last.policy (last.entries.take handled) before
  rw [Backed.records_eq]
  refine ⟨?_, grown.traced free inOrder⟩
  intro text member
  rw [← List.mem_eraseDups, ← (grown.holds free).listed] at member
  exact List.mem_map.mp member

/-- The public list, and one that is gone. -/
def firstRun : Job Unit := ⟨.twoLists, .standard, [.base, .gone]⟩

/-- One's own list, and the public list once more. -/
def secondRun : Job Unit := ⟨.twoLists, .standard, [.own, .base]⟩

theorem traced_within_second_run :
    (takenInWithin [firstRun] secondRun 1 ({} : Store) ()).flatMap Arrival.texts =
        ["||a.com^", "||b.com^", "||a.com^"] ∧
      Arrival.InOrder (takenInWithin [firstRun] secondRun 1 ({} : Store) ()) ∧
      (∃ r ∈ RecordStore.records (storeWithin [firstRun] secondRun 1 ({} : Store) ()),
        r.raw = "||b.com^") ∧
      ∀ r ∈ RecordStore.records (storeWithin [firstRun] secondRun 1 ({} : Store) ()),
        r.Traced (takenInWithin [firstRun] secondRun 1 ({} : Store) ()) := by
  have texts : (takenInWithin [firstRun] secondRun 1 ({} : Store) ()).flatMap Arrival.texts =
      ["||a.com^", "||b.com^", "||a.com^"] := by decide +kernel
  have free : CollisionFree ["||a.com^", "||b.com^", "||a.com^"] := by decide +kernel
  have inOrder : Arrival.InOrder (takenInWithin [firstRun] secondRun 1 ({} : Store) ()) := by
    decide +kernel
  rw [← texts] at free
  obtain ⟨stored, traced⟩ := traced_within [firstRun] secondRun 1 ({} : Store) () rfl free inOrder
  exact ⟨texts, inOrder, stored "||b.com^" (by rw [texts]; decide), traced⟩

end Job

end Blocklist
