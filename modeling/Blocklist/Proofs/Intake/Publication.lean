import Blocklist.Proofs.Intake.Failures
import Blocklist.Proofs.Store.Ranking

/-!
What a first run publishes. Main statement: the records chosen without criteria after a run over an empty
store have the texts of the rule lines that arrived, each once, by rank and then in the order in which
the texts first came.
-/

namespace Blocklist

namespace Intake

variable {σ ω : Type} [RecordStore σ]

/-- Where no write fails, what arrives is taken in. -/
theorem ingested_eq_arrivals [Backed σ] {outside : Outside ω} {policy : RetryPolicy}
    {entries : List SourceEntry} {p : Progress σ ω}
    (writes : ∀ fault, (steps outside policy entries p).1 ≠ .error (.store fault)) :
    ingested outside policy entries p = arrivals outside policy entries p.world := by
  induction entries generalizing p with
  | nil => rfl
  | cons entry entries ih =>
    unfold steps at writes
    unfold ingested arrivals
    obtain ⟨stats, stepped⟩ := step_eq outside policy entry p
    rcases arrived : arrival outside policy entry p.world with ⟨_ | _ | a, world⟩
    · rfl
    · rw [arrived] at stepped
      simp only [stepped] at writes ⊢
      rw [ih writes]
    · rw [arrived] at stepped
      cases outcome : (takeBody a.source a.time a.body p.seen p.store).outcome with
      | error e =>
        obtain ⟨fault, rfl⟩ := takeBody_error outcome
        simp only [stepped, outcome, Except.map] at writes
        exact absurd rfl (writes fault)
      | ok counted =>
        simp only [stepped, outcome, Except.map] at writes ⊢
        rw [ih writes]

/-- The trimmed rule lines of all bodies that arrive in a run. -/
def arrivedTexts (outside : Outside ω) (policy : RetryPolicy) (entries : List SourceEntry)
    (world : ω) : List String :=
  (arrivals outside policy entries world).flatMap Arrival.texts

/-- Holds of records that give each of these texts once: by rank, and then as the texts first came. -/
structure Publishes (texts : List String) (chosen : List Record) : Prop where
  distinct : (chosen.map Record.raw).Nodup
  complete : ∀ text, text ∈ chosen.map Record.raw ↔ text ∈ texts
  ranked : chosen.Pairwise fun a b => b.priority ≤ a.priority
  firstSeen : chosen.Pairwise fun a b =>
    a.priority = b.priority → texts.idxOf a.raw < texts.idxOf b.raw

theorem publishes_of_listed {texts : List String} {records : List Record}
    (listed : records.map Record.raw = texts.eraseDups) :
    Publishes texts (({} : Selection).chooseRanked records) := by
  have same := (({} : Selection).chooseRanked_perm records).map Record.raw
  rw [Selection.choose_default, listed] at same
  have order := pairwise_idxOf_eraseDups texts
  refine ⟨?_, ?_, ?_, ?_⟩
  · exact same.nodup_iff.mpr (nodup_eraseDups texts)
  · intro text
    rw [same.mem_iff, List.mem_eraseDups]
  · exact Selection.pairwise_chooseRanked {} records
  · rw [← listed, List.pairwise_map] at order
    exact Selection.pairwise_chooseRanked_tie {} order

/-- A run over an empty store loses no rule line and repeats none: what is chosen afterwards has the
texts that arrived, by rank and then in the order in which they first came. -/
theorem run_publishes [Backed σ] (outside : Outside ω) (policy : RetryPolicy)
    (entries : List SourceEntry) (store : σ) (world : ω) (fresh : Backed.memory store = {})
    (writes : ∀ fault, (run outside policy entries store world).1 ≠ .error (.store fault))
    (free : CollisionFree (arrivedTexts outside policy entries world)) :
    Publishes (arrivedTexts outside policy entries world)
      (({} : Selection).chooseRanked
        (RecordStore.records (run outside policy entries store world).2.1)) := by
  have start : Store.Grown [] (Backed.memory store) := by
    rw [fresh]
    exact Store.Grown.empty
  have grown : Store.Grown ([] ++ ingested outside policy entries { store, world })
      (Backed.memory (steps outside policy entries { store, world }).2.store) :=
    steps_grown outside policy entries start
  have taken : ingested outside policy entries { store, world } =
      arrivals outside policy entries world :=
    ingested_eq_arrivals fun fault broken => writes fault (steps_eq_error_iff.mp broken).2
  rw [List.nil_append, taken] at grown
  rw [run_store, Backed.records_eq]
  exact publishes_of_listed (grown.holds free).listed

/-- A rule of a public list that one's own list repeats is published once, at its first place. -/
theorem run_publishes_two_lists :
    arrivedTexts .twoLists .standard [.base, .gone, .own] () =
        ["||a.com^", "||b.com^", "||a.com^"] ∧
      CollisionFree ["||a.com^", "||b.com^", "||a.com^"] ∧
      Publishes ["||a.com^", "||b.com^", "||a.com^"]
        (({} : Selection).chooseRanked
          (RecordStore.records (run .twoLists .standard [.base, .gone, .own] ({} : Store) ()).2.1)) := by
  have arrived : arrivedTexts .twoLists .standard [.base, .gone, .own] () =
      ["||a.com^", "||b.com^", "||a.com^"] := by decide +kernel
  have free : CollisionFree ["||a.com^", "||b.com^", "||a.com^"] := by decide +kernel
  have published := run_publishes .twoLists .standard [.base, .gone, .own] ({} : Store) () rfl
    (run_memory_ne_store .twoLists .standard [.base, .gone, .own] {} ()) (by rw [arrived]; exact free)
  rw [arrived] at published
  exact ⟨arrived, free, published⟩

end Intake

end Blocklist
