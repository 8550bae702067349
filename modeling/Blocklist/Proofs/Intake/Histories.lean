import Blocklist.Proofs.Intake.Growth
import Blocklist.Proofs.Merge.Outcomes
import Blocklist.Proofs.Merge.Repeating

/-!
What a store holds as a function of the bodies that it has taken in. Main statements: its records are those
that the sightings of all bodies give one by one, and each of them is what the sightings of its own text
give; and bodies of one source with the same lines give the same sightings, save for times.
-/

namespace Blocklist

theorem Record.candidate_retimed (rule : Rule.Classified) (source : Source) (now t : Instant) :
    (candidate rule source now).retimed t = candidate rule source t := rfl

namespace Arrival

variable {a b : Arrival} {history : List Arrival}

theorem map_retimed_candidates (a : Arrival) (t : Instant) :
    a.candidates.map (Record.retimed t) = Intake.candidates a.source t a.body := by
  have line : ∀ line, (Intake.candidate? a.source a.time line).map (Record.retimed t) =
      Intake.candidate? a.source t line := by
    intro line
    unfold Intake.candidate?
    cases Rule.classify a.source.category (Text.trim line) with
    | none => rfl
    | some rule => exact congrArg some (Record.candidate_retimed rule a.source a.time t)
  unfold candidates Intake.candidates
  rw [List.map_filterMap]
  exact List.filterMap_congr fun l _ => line l

/-- Bodies of one source with the same lines give the same sightings, save for times. -/
theorem map_retime_sightings (sources : a.source = b.source) (bodies : a.body = b.body) (t : Instant) :
    a.sightings.map (Record.retime t) = b.sightings.map (Record.retime t) := by
  have split : ∀ c : Arrival, c.sightings.map (Record.retime t) =
      (c.candidates.map (Record.retimed t)).map fun r => (r, t) := by
    intro c
    rw [sightings, List.map_map, List.map_map]
    rfl
  rw [split, split, map_retimed_candidates, map_retimed_candidates, sources, bodies]

theorem mem_history {r : Record} :
    r ∈ (history.flatMap sightings).map Prod.fst ↔ ∃ a ∈ history, r ∈ a.candidates := by
  rw [List.map_flatMap, List.mem_flatMap]
  simp only [map_fst_sightings]

/-- The sightings of a text in bodies, in order. -/
def sightingsOf (history : List Arrival) (text : String) : List (Record × Instant) :=
  (history.flatMap sightings).filter fun s => s.1.raw = text

theorem mem_sightingsOf {s : Record × Instant} {text : String} :
    s ∈ sightingsOf history text ↔ (∃ a ∈ history, s ∈ a.sightings) ∧ s.1.raw = text := by
  rw [sightingsOf, List.mem_filter, List.mem_flatMap, decide_eq_true_eq]

theorem sightingsOf_append (history later : List Arrival) (text : String) :
    sightingsOf (history ++ later) text = sightingsOf history text ++ sightingsOf later text := by
  rw [sightingsOf, List.flatMap_append, List.filter_append, sightingsOf, sightingsOf]

theorem isCandidate_of_mem_sightingsOf {text : String} :
    ∀ s ∈ sightingsOf history text, s.1.IsCandidate := by
  intro s member
  obtain ⟨⟨a, -, inside⟩, -⟩ := mem_sightingsOf.mp member
  exact isCandidate_of_mem_sightings inside

theorem isCandidate_of_mem_history (history : List Arrival) :
    ∀ s ∈ history.flatMap sightings, s.1.IsCandidate := by
  intro s member
  obtain ⟨a, -, inside⟩ := List.mem_flatMap.mp member
  exact isCandidate_of_mem_sightings inside

end Arrival

theorem CollisionFree.before {history came : List Arrival}
    (free : CollisionFree ((history ++ came).flatMap Arrival.texts)) :
    CollisionFree (history.flatMap Arrival.texts) := by
  rw [List.flatMap_append] at free
  exact free.mono (List.subset_append_left _ _)

namespace Store.Holds

variable {s : Store} {texts : List String} {came : List Arrival}

theorem map_hash (holds : s.Holds texts) :
    s.records.map Record.hash = texts.eraseDups.map fingerprint := by
  rw [← holds.listed, List.map_map]
  exact List.map_congr_left holds.fingerprinted

/-- What bodies are to bring is keyed like the records that are there. -/
theorem keyed_history (holds : s.Holds texts) (free : CollisionFree (texts ++ came.flatMap Arrival.texts)) :
    Record.Keyed (s.records ++ (came.flatMap Arrival.sightings).map Prod.fst) := by
  refine Record.keyed_of_collisionFree free ?_ ?_ ?_
  · refine List.forall_mem_append.mpr ⟨holds.trimmed, fun text member => ?_⟩
    obtain ⟨a, -, inside⟩ := List.mem_flatMap.mp member
    exact Arrival.isTrimmed_of_mem inside
  · refine List.forall_mem_append.mpr ⟨holds.fingerprinted, fun r member => ?_⟩
    obtain ⟨a, -, inside⟩ := Arrival.mem_history.mp member
    exact a.fingerprinted_candidates r inside
  · intro r member
    rw [List.mem_append] at member ⊢
    refine member.imp holds.mem_texts fun new => ?_
    obtain ⟨a, arrived, inside⟩ := Arrival.mem_history.mp new
    refine List.mem_flatMap.mpr ⟨a, arrived, ?_⟩
    rw [← a.map_raw_candidates]
    exact List.mem_map_of_mem inside

end Store.Holds

theorem Arrival.keyed_history {history : List Arrival} (free : CollisionFree (history.flatMap texts)) :
    Record.Keyed ([] ++ (history.flatMap sightings).map Prod.fst) :=
  (Store.Grown.empty.holds (free.mono (List.nil_subset _))).keyed_history free

namespace Store.Grown

variable {history : List Arrival} {s : Store} {r : Record}

/-- The records of a store are what the sightings of all bodies give one by one. -/
theorem records_eq (grown : Grown history s) (free : CollisionFree (history.flatMap Arrival.texts)) :
    s.records = Record.sightAll [] (history.flatMap Arrival.sightings) := by
  induction grown with
  | empty => rfl
  | ingest a grown ih =>
    rw [List.flatMap_append, List.flatMap_singleton] at free
    have before := free.mono (List.subset_append_left _ _)
    rw [((grown.holds before).records_ingest free).1, ih before, List.flatMap_append,
      List.flatMap_singleton, Record.sightAll_append]
  | indexed grown ih => rw [((grown.holds free).indexed free).1, ih free]

/-- Further bodies make of the records what their sightings make of them one by one. -/
theorem records_append {came : List Arrival} {t : Store} (first : Grown history s)
    (second : Grown (history ++ came) t)
    (free : CollisionFree ((history ++ came).flatMap Arrival.texts)) :
    t.records = Record.sightAll s.records (came.flatMap Arrival.sightings) := by
  rw [second.records_eq free, List.flatMap_append, Record.sightAll_append,
    ← first.records_eq free.before]

/-- A record is what the sightings of its text give. -/
theorem mergeAll_eq (grown : Grown history s) (free : CollisionFree (history.flatMap Arrival.texts))
    (member : r ∈ s.records) :
    Record.mergeAll none (Arrival.sightingsOf history r.raw) = some r := by
  have distinct : (s.records.map Record.raw).Nodup := by
    rw [(grown.holds free).listed]
    exact nodup_eraseDups _
  have found : (s.records.find? fun x => x.raw = r.raw) = some r := by
    cases search : s.records.find? fun x => x.raw = r.raw with
    | none => exact (List.find?_eq_none.mp search r member (by simp)).elim
    | some q =>
      have same : q.raw = r.raw := by simpa using List.find?_some search
      rw [List.inj_on_of_nodup_map distinct (List.mem_of_find?_eq_some search) member same]
  have keyed : Record.Keyed ([] ++ (history.flatMap Arrival.sightings).map Prod.fst) :=
    Arrival.keyed_history free
  rw [grown.records_eq free, Record.find?_raw_sightAll _ keyed] at found
  exact found

/-- Every record has its text as its only spelling. -/
theorem spelledOnce (grown : Grown history s) (free : CollisionFree (history.flatMap Arrival.texts)) :
    ∀ r ∈ s.records, r.SpelledOnce := by
  rw [grown.records_eq free]
  exact (Record.spelledOnce_sightAll _ (by simp) (Arrival.isCandidate_of_mem_history history)).1

/-- Bodies add no spelling, since every record has its text as its only one. -/
theorem count_variants (grown : Grown history s)
    (free : CollisionFree (history.flatMap Arrival.texts)) (came : List Arrival) :
    (Record.outcomesIn s.records (came.flatMap Arrival.sightings)).count (.merged true) = 0 :=
  (Record.spelledOnce_sightAll _ (grown.spelledOnce free)
    (Arrival.isCandidate_of_mem_history came)).2

end Store.Grown

end Blocklist
