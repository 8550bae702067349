import Blocklist.Proofs.Intake.Growth
import Blocklist.Proofs.Merge.Pending

/-!
What becomes of a stored record when a body is taken in that is not of one's own list. The place of the
record stays its own, but its fingerprint leads to it only within the batch: the first candidate of the
fingerprint looks for it by the candidate's text. Main statement: the record keeps its sources, tags,
spellings and first time where that text leads to it, and is replaced by what the body gives where it
does not.
-/

namespace Blocklist

namespace Record

/-- What a record keeps while sightings that are not custom are merged into it. -/
structure KeptBy (r later : Record) : Prop where
  sources : ∀ name ∈ r.sources, name ∈ later.sources
  tags : ∀ tag ∈ r.tags, tag ∈ later.tags
  variants : r.variants <+: later.variants
  added : later.added = r.added

theorem KeptBy.refl (r : Record) : r.KeptBy r :=
  ⟨fun _ member => member, fun _ member => member, List.prefix_rfl, rfl⟩

theorem keptBy_settled (base : Record) (later : List (Record × Instant)) :
    base.KeptBy (settled base later) :=
  ⟨fun _ member => Names.mem_insertAll.mpr (Or.inr member),
    fun _ member => Names.mem_insertAll.mpr (Or.inr member), List.prefix_append _ _, rfl⟩

end Record

namespace Arrival

/-- The candidates of a fingerprint, if there are any, are a first one and further ones. -/
theorem sightings_of_hash (a : Arrival) (hash : String) :
    ((a.candidates.find? fun c => c.hash = hash) = none ∧
      (a.sightings.find? fun x => x.1.hash = hash) = none ∧
      (a.sightings.filter fun x => x.1.hash = hash) = []) ∨
    ∃ first rest, (a.candidates.find? fun c => c.hash = hash) = some first ∧
      (a.sightings.find? fun x => x.1.hash = hash) = some (first, a.time) ∧
      (a.sightings.filter fun x => x.1.hash = hash) = (first, a.time) :: rest := by
  have both : (a.sightings.find? fun x => x.1.hash = hash) =
      (a.candidates.find? fun c => c.hash = hash).map fun c => (c, a.time) := by
    rw [sightings, List.find?_map]
    rfl
  have head : (a.sightings.filter fun x => x.1.hash = hash).head? =
      a.sightings.find? fun x => x.1.hash = hash := List.head?_filter
  rw [both] at head
  rw [both]
  cases found : a.candidates.find? fun c => c.hash = hash with
  | none =>
    rw [found] at head
    exact Or.inl ⟨rfl, rfl, List.head?_eq_none_iff.mp head⟩
  | some first =>
    rw [found] at head
    obtain ⟨rest, parts⟩ := List.head?_eq_some_iff.mp head
    exact Or.inr ⟨first, rest, rfl, rfl, parts⟩

/-- A record that only candidates of one body make names only the body's source. -/
theorem sources_settled {a : Arrival} {first : Record} {rest : List (Record × Instant)}
    (member : first ∈ a.candidates) (further : ∀ x ∈ rest, x ∈ a.sightings) :
    ∀ name ∈ (Record.settled first rest).sources, name = a.source.name := by
  intro name named
  rcases Names.mem_insertAll.mp named with later | own
  · obtain ⟨x, inside, named⟩ := List.mem_flatMap.mp later
    rw [sources_of_mem (mem_candidates_of_mem_sightings (further x inside))] at named
    simpa using Names.mem_ofList.mp named
  · rw [sources_of_mem member] at own
    simpa using own

end Arrival

namespace Store

variable {s : Store} {r : Record} {i : Nat}

/-- The place of a record holds what the body's sightings of its fingerprint make of the record that the
text of the first of them leads to. Without such sightings it holds what it held. -/
theorem getElem?_ingest (wellFormed : s.WellFormed) (fingerprinted : Record.Fingerprinted s.records)
    (a : Arrival) (stored : s.records[i]? = some r) :
    (s.ingest a).records[i]? = some ((Record.mergeAll
      ((a.sightings.find? fun x => x.1.hash = r.hash).bind fun first => s.findByRaw first.1.raw)
      (a.sightings.filter fun x => x.1.hash = r.hash)).getD r) := by
  have own : Record.Fingerprinted (a.sightings.map Prod.fst) := by
    rw [a.map_fst_sightings]
    exact a.fingerprinted_candidates
  have start : ({} : Batch).byHash.Tracks ({} : Batch).records := Index.Tracks.empty
  have pending := Batch.find?_mergeEach wellFormed fingerprinted start a.sightings own r.hash
  have distinct := (Batch.tracks_mergeEach wellFormed fingerprinted start a.sightings own).nodup
  rw [List.find?_nil, Option.none_or] at pending
  rw [ingest, Intake.batchOf_eq_mergeEach, Batch.flush_eq, records_upsertMany wellFormed, ← pending]
  exact Record.getElem?_placeAll wellFormed.tracks.nodup distinct stored

/-- A text that has a record's fingerprint leads to the record or nowhere. -/
theorem findByRaw_eq_none_of_ne {text : String} (wellFormed : s.WellFormed)
    (fingerprinted : Record.Fingerprinted s.records) (stored : s.records[i]? = some r)
    (same : fingerprint text = r.hash) (missed : s.findByRaw text ≠ some r) :
    s.findByRaw text = none := by
  cases found : s.findByRaw text with
  | none => rfl
  | some other =>
    obtain ⟨member, equal⟩ := mem_of_findByRaw wellFormed found
    have hashes : other.hash = r.hash := by rw [fingerprinted other member, equal, same]
    have position := List.mem_of_getElem? stored
    rw [List.inj_on_of_nodup_map wellFormed.tracks.nodup member position hashes] at found
    exact absurd found missed

/-- Everything that a body which is not of one's own list can do to a stored record. -/
theorem ingest_cases (wellFormed : s.WellFormed) (fingerprinted : Record.Fingerprinted s.records)
    (a : Arrival) (plain : a.source.category ≠ .custom) (stored : s.records[i]? = some r) :
    ((a.candidates.find? fun c => c.hash = r.hash) = none ∧ (s.ingest a).records[i]? = some r) ∨
    ∃ first rest, (a.candidates.find? fun c => c.hash = r.hash) = some first ∧
      (∀ x ∈ rest, x ∈ a.sightings) ∧
      ((s.findByRaw first.raw = some r ∧
          (s.ingest a).records[i]? = some (Record.settled r ((first, a.time) :: rest))) ∨
        (s.findByRaw first.raw = none ∧
          (s.ingest a).records[i]? = some (Record.settled first rest))) := by
  have after := getElem?_ingest wellFormed fingerprinted a stored
  rcases a.sightings_of_hash r.hash with ⟨absent, unseen, nothing⟩ | ⟨first, rest, found, seen, parts⟩
  · rw [unseen, nothing] at after
    exact Or.inl ⟨absent, after⟩
  · have mine : ∀ x ∈ (first, a.time) :: rest, x ∈ a.sightings := by
      intro x inside
      rw [← parts] at inside
      exact (List.mem_filter.mp inside).1
    have further : ∀ x ∈ rest, x ∈ a.sightings := fun x inside => mine x (by simp [inside])
    have ordinary : ∀ x ∈ (first, a.time) :: rest, x.1.category ≠ .custom :=
      fun x inside => Arrival.plain_of_mem_sightings plain (mine x inside)
    have built : ∀ x ∈ (first, a.time) :: rest, x.1.IsCandidate :=
      fun x inside => Arrival.isCandidate_of_mem_sightings (mine x inside)
    rw [seen, parts, Option.bind_some] at after
    refine Or.inr ⟨first, rest, found, further, ?_⟩
    by_cases leads : s.findByRaw first.raw = some r
    · rw [leads, Record.mergeAll_plain r _ ordinary built] at after
      exact Or.inl ⟨leads, after⟩
    · have own : fingerprint first.raw = r.hash := by
        rw [← a.fingerprinted_candidates first (List.mem_of_find?_eq_some found)]
        simpa using List.find?_some found
      have nowhere := findByRaw_eq_none_of_ne wellFormed fingerprinted stored own leads
      rw [List.forall_mem_cons] at ordinary built
      rw [nowhere, Record.mergeAll_cons, Record.merge, if_neg ordinary.1,
        Record.mergeAll_plain first rest ordinary.2 built.2] at after
      exact Or.inr ⟨nowhere, after⟩

end Store

namespace Intake

/-- A stored record keeps its place and its fingerprint while a body is taken in that is not of one's own
list. It keeps its data if the first candidate of its fingerprint finds it by its text, and otherwise
only what the body gives is left. -/
theorem takeBody_keeps (s : Store) (reachable : s.Reachable)
    (fingerprinted : Record.Fingerprinted s.records) (source : Source)
    (plain : source.category ≠ .custom) (now : Instant) (body : List Char) (seen : Names) (i : Nat)
    (r : Record) (stored : s.records[i]? = some r) :
    ∃ later, (takeBody source now body seen s).store.records[i]? = some later ∧
      later.hash = r.hash ∧
      ((∀ first, ((candidates source now body).find? fun c => c.hash = r.hash) = some first →
        s.findByRaw first.raw = some r) → r.KeptBy later) ∧
      ∀ first, ((candidates source now body).find? fun c => c.hash = r.hash) = some first →
        s.findByRaw first.raw ≠ some r →
          later.added = now ∧ ∀ name ∈ later.sources, name = source.name := by
  let a : Arrival := ⟨source, now, body⟩
  rcases Store.ingest_cases reachable.wellFormed fingerprinted a plain stored with
    ⟨absent, same⟩ | ⟨first, rest, found, further, ⟨leads, kept⟩ | ⟨nowhere, replaced⟩⟩
  · have none : ((candidates source now body).find? fun c => c.hash = r.hash) = none := absent
    refine ⟨r, same, rfl, fun _ => .refl r, ?_⟩
    intro first found
    rw [none] at found
    cases found
  · have some : ((candidates source now body).find? fun c => c.hash = r.hash) = some first := found
    refine ⟨_, kept, rfl, fun _ => Record.keptBy_settled r _, ?_⟩
    intro other same missed
    rw [some] at same
    cases same
    exact absurd leads missed
  · have some : ((candidates source now body).find? fun c => c.hash = r.hash) = some first := found
    have member : first ∈ a.candidates := List.mem_of_find?_eq_some found
    have key : first.hash = r.hash := by simpa using List.find?_some found
    refine ⟨_, replaced, key, ?_, ?_⟩
    · intro finds
      rw [finds first some] at nowhere
      cases nowhere
    · intro other same missed
      exact ⟨Arrival.added_of_mem member, Arrival.sources_settled member further⟩

/-- A store with two rules, of which a list spells the second with a blank at its end. -/
def blankEndStore : Store :=
  .ofRecords [.sampled "||b.com^" .tracking 0, .sampled "||a.com^ " .advertising 0]

theorem fingerprinted_blankEndStore : Record.Fingerprinted blankEndStore.records := by decide +kernel

/-- A body with both rules. -/
def bothRules : List Char := "||b.com^\n||a.com^".toList

/-- The first of the rules keeps what is known about it. -/
theorem takeBody_keeps_first :
    blankEndStore.Reachable ∧ Record.Fingerprinted blankEndStore.records ∧
      blankEndStore.records[0]? = some (Record.sampled "||b.com^" .tracking 0) ∧
      ∃ later, (takeBody (Source.ofCategory "more" .privacy) (Date.sampled 1).start bothRules .empty
          blankEndStore).store.records[0]? = some later ∧
        later.hash = fingerprint "||b.com^" ∧
        (Record.sampled "||b.com^" .tracking 0).KeptBy later := by
  have reachable : blankEndStore.Reachable := Store.reachable_ofRecords _
  have stored : blankEndStore.records[0]? = some (Record.sampled "||b.com^" .tracking 0) := by
    decide +kernel
  have finds : ∀ c ∈ candidates (Source.ofCategory "more" .privacy) (Date.sampled 1).start bothRules,
      c.hash = (Record.sampled "||b.com^" .tracking 0).hash →
        blankEndStore.findByRaw c.raw = some (Record.sampled "||b.com^" .tracking 0) := by
    decide +kernel
  obtain ⟨later, after, hash, kept, -⟩ := takeBody_keeps blankEndStore reachable
    fingerprinted_blankEndStore (Source.ofCategory "more" .privacy) (by decide)
    (Date.sampled 1).start bothRules .empty 0 (Record.sampled "||b.com^" .tracking 0) stored
  refine ⟨reachable, fingerprinted_blankEndStore, stored, later, after, hash, kept ?_⟩
  intro first found
  exact finds first (List.mem_of_find?_eq_some found) (by simpa using List.find?_some found)

/-- The record that is spelled with a blank is replaced, though its fingerprint is that of a line. -/
theorem takeBody_forgets_blankEnd :
    blankEndStore.Reachable ∧ Record.Fingerprinted blankEndStore.records ∧
      ∃ r later, blankEndStore.records[1]? = some r ∧
        (takeBody (Source.ofCategory "more" .privacy) (Date.sampled 1).start bothRules .empty
          blankEndStore).store.records[1]? = some later ∧
        later.hash = r.hash ∧ ¬ r.KeptBy later := by
  have before : (blankEndStore.records[1]?.map fun r => (r.hash, r.sources)) =
      some (fingerprint "||a.com^", Names.ofList ["advertising"]) := by decide +kernel
  have after : ((takeBody (Source.ofCategory "more" .privacy) (Date.sampled 1).start bothRules .empty
      blankEndStore).store.records[1]?.map fun r => (r.hash, r.sources)) =
      some (fingerprint "||a.com^", Names.ofList ["more"]) := by decide +kernel
  obtain ⟨r, stored, known⟩ := Option.map_eq_some_iff.mp before
  obtain ⟨later, replaced, given⟩ := Option.map_eq_some_iff.mp after
  rw [Prod.mk.injEq] at known given
  refine ⟨Store.reachable_ofRecords _, fingerprinted_blankEndStore, r, later, stored, replaced,
    given.1.trans known.1.symm, ?_⟩
  intro kept
  have lost := kept.sources "advertising" (by rw [known.2]; simp)
  rw [given.2] at lost
  simp at lost

end Intake

end Blocklist
