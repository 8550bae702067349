import Blocklist.Proofs.Intake.Taking

/-!
The order in which bodies come. Where none of them is of one's own list, the first sighting of a rule decides
its category, its rank and the times and places that go with it, and all sightings together decide the
rest. Main statement: the same bodies in another order leave the same rules with the same kinds, hosts,
sources, tags and spellings, and are counted alike.
-/

namespace Blocklist

namespace Record

/-- Holds of two records that agree in all that the order of the sightings does not decide. -/
structure SameRule (r other : Record) : Prop where
  raw : r.raw = other.raw
  kind : r.kind = other.kind
  domain : r.domain = other.domain
  sources : r.sources = other.sources
  tags : r.tags = other.tags
  spelledOnce : r.SpelledOnce ∧ other.SpelledOnce

/-- A record that sightings leave, of which none is custom, is the first of them with what the others
add. -/
theorem settled_of_mergeAll {sightings : List (Record × Instant)} {r : Record}
    (plain : ∀ s ∈ sightings, s.1.category ≠ .custom) (built : ∀ s ∈ sightings, s.1.IsCandidate)
    (merged : mergeAll none sightings = some r) :
    ∃ first rest, sightings = first :: rest ∧ r = settled first.1 rest := by
  cases sightings with
  | nil => cases merged
  | cons first rest =>
    rw [List.forall_mem_cons] at plain built
    rw [mergeAll_cons, merge, if_neg plain.1, mergeAll_plain first.1 rest plain.2 built.2] at merged
    exact ⟨first, rest, rfl, (Option.some.inj merged).symm⟩

end Record

namespace Arrival

variable {history others : List Arrival}

/-- Holds of bodies each of which has one of the same source with the same lines among the others. -/
def Within (history others : List Arrival) : Prop :=
  ∀ a ∈ history, ∃ b ∈ others, a.source = b.source ∧ a.body = b.body

theorem Within.texts (within : Within history others) :
    history.flatMap Arrival.texts ⊆ others.flatMap Arrival.texts := by
  intro text member
  obtain ⟨a, came, inside⟩ := List.mem_flatMap.mp member
  obtain ⟨b, other, -, body⟩ := within a came
  refine List.mem_flatMap.mpr ⟨b, other, ?_⟩
  rwa [Arrival.texts, ← body]

/-- Every sighting has its like among the others. -/
theorem Within.exists_twin (within : Within history others) {s : Record × Instant} {text : String}
    (member : s ∈ sightingsOf history text) (t : Instant) :
    ∃ twin ∈ sightingsOf others text, twin.1.retimed t = s.1.retimed t := by
  obtain ⟨⟨a, came, inside⟩, own⟩ := mem_sightingsOf.mp member
  obtain ⟨b, other, source, body⟩ := within a came
  obtain ⟨twin, present, same⟩ := Record.exists_twin (map_retime_sightings source body t) inside
  have text : twin.1.raw = s.1.raw := congrArg (fun r => r.raw) same
  exact ⟨twin, mem_sightingsOf.mpr ⟨⟨b, other, present⟩, text.trans own⟩, same⟩

end Arrival

namespace Store.Grown

variable {history others : List Arrival} {s t : Store} {r r' : Record}

section
variable (grown : Grown history s) (free : CollisionFree (history.flatMap Arrival.texts))
  (plain : ∀ a ∈ history, a.source.category ≠ .custom)
include grown free plain

theorem settled_eq (member : r ∈ s.records) :
    ∃ first rest, Arrival.sightingsOf history r.raw = first :: rest ∧
      r = Record.settled first.1 rest := by
  refine Record.settled_of_mergeAll ?_ Arrival.isCandidate_of_mem_sightingsOf
    (grown.mergeAll_eq free member)
  intro x seen
  obtain ⟨⟨a, came, inside⟩, -⟩ := Arrival.mem_sightingsOf.mp seen
  exact Arrival.plain_of_mem_sightings (plain a came) inside

theorem kind_eq (member : r ∈ s.records) :
    r.kind = Rule.Kind.ofLine r.raw.toList ∧
      r.domain = if (Rule.Kind.ofLine r.raw.toList).carriesDomain
        then (Rule.hostOf r.raw.toList).map String.ofList else none := by
  obtain ⟨first, rest, sightings, settled⟩ := grown.settled_eq free plain member
  have seen : first ∈ Arrival.sightingsOf history r.raw := by
    rw [sightings]
    exact List.mem_cons_self
  obtain ⟨⟨a, -, inside⟩, text⟩ := Arrival.mem_sightingsOf.mp seen
  have shape := Arrival.kind_of_mem (Arrival.mem_candidates_of_mem_sightings inside)
  rw [text] at shape
  rw [settled] at shape ⊢
  exact shape

end

/-- Two stores that the same bodies make, in whatever order, know the same of a text. -/
theorem sameRule (grown : Grown history s) (other : Grown others t)
    (free : CollisionFree (history.flatMap Arrival.texts))
    (plain : ∀ a ∈ history, a.source.category ≠ .custom) (into : Arrival.Within history others)
    (back : Arrival.Within others history) (member : r ∈ s.records) (present : r' ∈ t.records)
    (same : r.raw = r'.raw) : r.SameRule r' := by
  have freeOther := free.mono back.texts
  have plainOther : ∀ b ∈ others, b.source.category ≠ .custom := by
    intro b came
    obtain ⟨a, inside, source, -⟩ := back b came
    exact source ▸ plain a inside
  have kind := grown.kind_eq free plain member
  have kindOther := other.kind_eq freeOther plainOther present
  have once := grown.spelledOnce free r member
  have onceOther := other.spelledOnce freeOther r' present
  obtain ⟨first, rest, parts, settled⟩ := grown.settled_eq free plain member
  obtain ⟨first', rest', parts', settled'⟩ := other.settled_eq freeOther plainOther present
  have forth : ∀ x ∈ first :: rest, ∃ twin ∈ first' :: rest',
      twin.1.retimed first.2 = x.1.retimed first.2 := by
    rw [← parts, ← parts', ← same]
    exact fun x seen => into.exists_twin seen first.2
  have fro : ∀ x ∈ first' :: rest', ∃ twin ∈ first :: rest,
      twin.1.retimed first.2 = x.1.retimed first.2 := by
    rw [← parts, ← parts', ← same]
    exact fun x seen => back.exists_twin seen first.2
  refine ⟨same, ?_, ?_, ?_, ?_, once, onceOther⟩
  · rw [kind.1, kindOther.1, same]
  · rw [kind.2, kindOther.2, same]
  · rw [settled, settled']
    refine Names.gathered_eq (f := fun x : Record × Instant => x.1.sources) ?_ ?_
    · exact fun x seen => (forth x seen).imp fun _ twin => ⟨twin.1, congrArg (fun y => y.sources) twin.2⟩
    · exact fun x seen => (fro x seen).imp fun _ twin => ⟨twin.1, congrArg (fun y => y.sources) twin.2⟩
  · rw [settled, settled']
    refine Names.gathered_eq (f := fun x : Record × Instant => x.1.tags) ?_ ?_
    · exact fun x seen => (forth x seen).imp fun _ twin => ⟨twin.1, congrArg (fun y => y.tags) twin.2⟩
    · exact fun x seen => (fro x seen).imp fun _ twin => ⟨twin.1, congrArg (fun y => y.tags) twin.2⟩

end Store.Grown

namespace Arrival

variable {as bs : List Arrival}

theorem within_of_perm (reordered : (bs.map content).Perm (as.map content)) : Within bs as := by
  intro b came
  have listed : b.content ∈ as.map content := reordered.mem_iff.mp (List.mem_map_of_mem came)
  obtain ⟨a, other, same⟩ := List.mem_map.mp listed
  exact ⟨a, other, (congrArg Prod.fst same).symm, (congrArg Prod.snd same).symm⟩

theorem perm_texts (reordered : (bs.map content).Perm (as.map content)) :
    (bs.flatMap texts).Perm (as.flatMap texts) := by
  rw [flatMap_texts, flatMap_texts]
  exact reordered.flatMap_right _

end Arrival

namespace Intake

variable {σ : Type} [RecordStore σ]

/-- Holds of what two orders leave if the same rules are known with all that the order does not decide, and
the counts are the same. -/
structure SameKnowledge (one other : Holdings σ) : Prop where
  fingerprints : ((RecordStore.records other.store).map Record.hash).Perm
    ((RecordStore.records one.store).map Record.hash)
  rules : ∀ r ∈ RecordStore.records one.store, ∀ r' ∈ RecordStore.records other.store,
    r.hash = r'.hash → r.SameRule r'
  seen : other.seen = one.seen
  total : other.stats.totalRules = one.stats.totalRules
  inserted : other.stats.merges.inserted = one.stats.merges.inserted

variable [Backed σ]

/-- What bodies that are not of one's own list leave of an empty store: a record, and a count of one
inserted, for each text. -/
theorem received_fresh {store : σ} {came : List Arrival} (fresh : Backed.memory store = {})
    (reliable : RecordStore.Reliable store) (plain : ∀ a ∈ came, a.source.category ≠ .custom)
    (free : CollisionFree (came.flatMap Arrival.texts)) :
    let left := came.foldl Holdings.receive ⟨{}, .empty, store⟩
    Store.Grown came (Backed.memory left.store) ∧
      left.stats.totalRules = (came.flatMap Arrival.texts).length ∧
      left.seen = Names.ofList ((came.flatMap Arrival.texts).map fingerprint) ∧
      left.stats.merges.inserted = (came.flatMap Arrival.texts).eraseDups.length := by
  intro left
  have start : Store.Grown [] (Backed.memory store) := by
    rw [fresh]
    exact .empty
  have took : Took ⟨{}, .empty, store⟩ came left := took_of_reliable reliable came
  have grown : Store.Grown came (Backed.memory left.store) := took.grown start
  have counted := took.counted start free
  have keyed : Record.Keyed ([] ++ (came.flatMap Arrival.sightings).map Prod.fst) :=
    Arrival.keyed_history free
  have ordinary : ∀ s ∈ came.flatMap Arrival.sightings, s.1.category ≠ .custom := by
    intro s member
    obtain ⟨a, inside, seen⟩ := List.mem_flatMap.mp member
    exact Arrival.plain_of_mem_sightings (plain a inside) seen
  have inserted := Record.count_inserted_of_plain _ keyed ordinary
  have listed := congrArg List.length (grown.holds free).listed
  rw [← grown.records_eq free, List.length_nil, Nat.zero_add] at inserted
  rw [List.length_map, inserted] at listed
  refine ⟨grown, ?_, counted.seen, ?_⟩
  · exact counted.rules.trans (Nat.zero_add _)
  · rw [counted.merges, MergeCounts.ofOutcomes_eq, fresh, ← listed]
    exact Nat.zero_add _

/-- Bodies that are not of one's own list may come in any order, at any times: over an empty store they leave
the same fingerprints, the same data of each rule save for those that its first sighting decides, and the
same counts. -/
theorem receive_reordered (store : σ) (as bs : List Arrival) (fresh : Backed.memory store = {})
    (reliable : RecordStore.Reliable store)
    (reordered : (bs.map Arrival.content).Perm (as.map Arrival.content))
    (plain : ∀ a ∈ as, a.source.category ≠ .custom)
    (free : CollisionFree (as.flatMap Arrival.texts)) :
    SameKnowledge (as.foldl Holdings.receive ⟨{}, .empty, store⟩)
      (bs.foldl Holdings.receive ⟨{}, .empty, store⟩) := by
  have into : Arrival.Within as bs := Arrival.within_of_perm reordered.symm
  have back : Arrival.Within bs as := Arrival.within_of_perm reordered
  have texts := Arrival.perm_texts reordered
  have plainOther : ∀ b ∈ bs, b.source.category ≠ .custom := by
    intro b came
    obtain ⟨a, inside, source, -⟩ := back b came
    exact source ▸ plain a inside
  have freeOther := free.mono back.texts
  obtain ⟨grown, total, seen, inserted⟩ := received_fresh fresh reliable plain free
  obtain ⟨grown', total', seen', inserted'⟩ := received_fresh fresh reliable plainOther freeOther
  have holds := grown.holds free
  have holds' := grown'.holds freeOther
  refine ⟨?_, ?_, ?_, ?_, ?_⟩
  · rw [Backed.records_eq, Backed.records_eq, holds.map_hash, holds'.map_hash]
    exact (perm_eraseDups _ texts).map fingerprint
  · intro r member r' present same
    rw [Backed.records_eq] at member present
    have keyed : Record.Keyed [r, r'] := by
      refine Record.keyed_of_collisionFree free holds.trimmed ?_ ?_
      · intro x listed
        rcases List.mem_pair.mp listed with rfl | rfl
        · exact holds.fingerprinted x member
        · exact holds'.fingerprinted x present
      · intro x listed
        rcases List.mem_pair.mp listed with rfl | rfl
        · exact holds.mem_texts member
        · exact back.texts (holds'.mem_texts present)
    exact grown.sameRule grown' free plain into back member present
      ((keyed r (by simp) r' (by simp)).mp same)
  · rw [seen, seen']
    apply Names.eq_of_mem_iff
    intro name
    rw [Names.mem_ofList, Names.mem_ofList]
    exact (texts.map fingerprint).mem_iff
  · rw [total, total', texts.length_eq]
  · rw [inserted, inserted', (perm_eraseDups _ texts).length_eq]

/-- A list of advertising hosts. -/
def adsBody : Arrival :=
  ⟨.ofCategory "ads" .advertising, (Date.sampled 0).start, "||a.com^\n||b.com^".toList⟩

/-- A list that shares a rule with it. -/
def privacyBody : Arrival :=
  ⟨.ofCategory "more" .privacy, (Date.sampled 1).start, "! shared\n ||a.com^".toList⟩

/-- In either order the shared rule is known from both lists; the first of them gives its category. -/
theorem receive_reordered_twoBodies :
    (([privacyBody, { adsBody with time := (Date.sampled 2).start }].map Arrival.content).Perm
        ([adsBody, privacyBody].map Arrival.content)) ∧
      (∀ a ∈ [adsBody, privacyBody], a.source.category ≠ .custom) ∧
      CollisionFree ([adsBody, privacyBody].flatMap Arrival.texts) ∧
      SameKnowledge ([adsBody, privacyBody].foldl Holdings.receive ⟨{}, .empty, ({} : Store)⟩)
        ([privacyBody, { adsBody with time := (Date.sampled 2).start }].foldl Holdings.receive
          ⟨{}, .empty, ({} : Store)⟩) ∧
      ([adsBody, privacyBody].foldl Holdings.receive ⟨{}, .empty, ({} : Store)⟩).store.records.map
        (fun r => (r.category, r.sources)) =
          [(.advertising, .ofList ["ads", "more"]), (.advertising, .ofList ["ads"])] := by
  have reordered : ([privacyBody, { adsBody with time := (Date.sampled 2).start }].map
      Arrival.content).Perm ([adsBody, privacyBody].map Arrival.content) := List.Perm.swap _ _ _
  have plain : ∀ a ∈ [adsBody, privacyBody], a.source.category ≠ .custom := by decide
  have free : CollisionFree ([adsBody, privacyBody].flatMap Arrival.texts) := by decide +kernel
  have left := receive_reordered ({} : Store) [adsBody, privacyBody]
    [privacyBody, { adsBody with time := (Date.sampled 2).start }] rfl (Store.reliable {}) reordered
    plain free
  exact ⟨reordered, plain, free, left, by decide +kernel⟩

end Intake

end Blocklist
