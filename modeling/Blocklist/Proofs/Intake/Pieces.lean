import Blocklist.Proofs.Fetch.Bodies
import Blocklist.Proofs.Intake.Failures
import Blocklist.Proofs.Intake.Reordering
import Blocklist.Proofs.Text.Lines
import Blocklist.Proofs.Text.Repairing

/-!
A body that is cut at line feeds and taken in piece by piece. A line is read by what is left of it after
trimming, so its end does not matter, and an empty piece gives nothing: the candidates of a body are those
of its pieces. Main statements: a body and its two pieces leave the same records and fingerprints and are
counted alike, and a body with broken bytes gives the lines and candidates of its pieces between line feeds,
each decoded on its own.
-/

namespace Blocklist

namespace Intake

section
variable (source : Source) (now : Instant)

theorem candidate?_congr {line other : List Char} (same : Text.trim line = Text.trim other) :
    candidate? source now line = candidate? source now other := by
  rw [candidate?, candidate?, same]

theorem candidates_eq_pieces (body : List Char) :
    candidates source now body = (Text.splitAt '\n' body).filterMap (candidate? source now) := by
  have ended : ∀ line, candidate? source now (Text.dropReturn line) = candidate? source now line :=
    fun line => candidate?_congr source now (Text.trim_dropReturn line)
  exact Text.filterMap_lines rfl ended body

/-- The candidates of a body are those before a line feed and those after it. -/
theorem candidates_append (first second : List Char) :
    candidates source now (first ++ '\n' :: second) =
      candidates source now first ++ candidates source now second := by
  rw [candidates_eq_pieces, candidates_eq_pieces, candidates_eq_pieces, Text.splitAt_append,
    List.filterMap_append]

theorem candidates_joinWith (pieces : List (List Char)) :
    candidates source now (Text.joinWith ['\n'] pieces) =
      pieces.flatMap (candidates source now) := by
  induction pieces with
  | nil => rfl
  | cons piece pieces ih =>
    cases pieces with
    | nil => rw [Text.joinWith, List.flatMap_singleton]
    | cons next pieces =>
      rw [Text.joinWith, List.append_assoc, List.singleton_append, candidates_append, ih,
        ← List.flatMap_cons]
      exact List.cons_ne_nil next pieces

end

end Intake

namespace Arrival

theorem flatMap_sightings_pieces (source : Source) (now : Instant) (pieces : List (List Char)) :
    (pieces.map (mk source now)).flatMap sightings =
      (mk source now (Text.joinWith ['\n'] pieces)).sightings := by
  rw [sightings, candidates, Intake.candidates_joinWith, List.map_flatMap, List.flatMap_map]
  rfl

theorem flatMap_texts_eq_map (came : List Arrival) :
    came.flatMap texts = (came.flatMap sightings).map fun s => s.1.raw := by
  rw [List.map_flatMap]
  simp only [map_raw_sightings]

end Arrival

namespace Intake

variable {σ : Type} [RecordStore σ]

/-- Holds of what two ways of taking bodies in leave if nothing tells the ways apart. -/
structure Holdings.Alike (one other : Holdings σ) : Prop where
  rules : one.stats.totalRules = other.stats.totalRules
  merges : one.stats.merges = other.stats.merges
  seen : one.seen = other.seen
  records : RecordStore.records one.store = RecordStore.records other.store
  findByRaw : ∀ text, RecordStore.findByRaw one.store text = RecordStore.findByRaw other.store text

/-- Holds of the result of a body and those of its two pieces, the second taken in after the first. -/
structure BodyResult.AddsUp (first second whole : BodyResult σ) : Prop where
  counted : ∃ rules more counts later, first.outcome = .ok (rules, counts) ∧
    second.outcome = .ok (more, later) ∧ whole.outcome = .ok (rules + more, counts.add later)
  seen : whole.seen = second.seen
  records : RecordStore.records whole.store = RecordStore.records second.store
  findByRaw : ∀ text,
    RecordStore.findByRaw whole.store text = RecordStore.findByRaw second.store text

variable [Backed σ] {history came others : List Arrival} {h last left : Holdings σ}

/-- Bodies with the same sightings are taken in alike, however the sightings are spread over them. -/
theorem Took.alike (took : Took h came last) (again : Took h others left)
    (grown : Store.Grown history (Backed.memory h.store))
    (free : CollisionFree ((history ++ came).flatMap Arrival.texts))
    (same : others.flatMap Arrival.sightings = came.flatMap Arrival.sightings) :
    left.Alike last := by
  have texts : others.flatMap Arrival.texts = came.flatMap Arrival.texts := by
    rw [Arrival.flatMap_texts_eq_map, Arrival.flatMap_texts_eq_map, same]
  have freeToo : CollisionFree ((history ++ others).flatMap Arrival.texts) := by
    rwa [List.flatMap_append, texts, ← List.flatMap_append]
  have counted := took.counted grown free
  have countedToo := again.counted grown freeToo
  have after := took.grown grown
  have afterToo := again.grown grown
  have records : (Backed.memory left.store).records = (Backed.memory last.store).records := by
    rw [grown.records_append afterToo freeToo, grown.records_append after free, same]
  refine ⟨?_, ?_, ?_, ?_, fun text => ?_⟩
  -- What is counted is a function of the sightings, and so are the records that lead to texts.
  · rw [countedToo.rules, counted.rules, texts]
  · rw [countedToo.merges, counted.merges, same]
  · rw [countedToo.seen, counted.seen, texts]
  · rw [Backed.records_eq, Backed.records_eq, records]
  · rw [Backed.findByRaw_eq, Backed.findByRaw_eq, (after.holds free).exact.finds,
      (afterToo.holds freeToo).exact.finds, records]

section
variable {a : Arrival} {seen : Names} {store : σ} {result : BodyResult σ}

theorem takeBody_ok (taken : takeBody a.source a.time a.body seen store = result)
    (writes : ∀ fault, result.outcome ≠ .error (.store fault)) :
    ∃ counted, result.outcome = .ok counted := by
  subst taken
  cases outcome : (takeBody a.source a.time a.body seen store).outcome with
  | ok counted => exact ⟨counted, rfl⟩
  | error e =>
    obtain ⟨fault, rfl⟩ := takeBody_error outcome
    exact absurd outcome (writes fault)

omit [Backed σ] in
theorem Took.next {stats : RunStats} {counted : Nat × MergeCounts}
    (taken : takeBody a.source a.time a.body seen store = result) (ok : result.outcome = .ok counted)
    (rest : Took ⟨stats.attempt.succeed a.source counted.1 counted.2, result.seen, result.store⟩
      came last) :
    Took ⟨stats, seen, store⟩ (a :: came) last := by
  subst taken
  refine .cons ok ?_
  rw [Holdings.receive_of_ok (h := ⟨stats, seen, store⟩) ok]
  exact rest

end

section
variable {source : Source} {now : Instant}

/-- It does not matter at which line feeds a body is cut into pieces. -/
theorem Took.joined {pieces : List (List Char)}
    (took : Took h (pieces.map (Arrival.mk source now)) last)
    (whole : Took h [Arrival.mk source now (Text.joinWith ['\n'] pieces)] left)
    (grown : Store.Grown history (Backed.memory h.store))
    (free : CollisionFree ((history ++ [Arrival.mk source now (Text.joinWith ['\n'] pieces)]).flatMap
      Arrival.texts)) :
    last.Alike left := by
  refine whole.alike took grown free ?_
  rw [Arrival.flatMap_sightings_pieces, List.flatMap_singleton]

/-- A body leaves the same records and fingerprints as its two pieces one after the other, and counts as
many rules and merges as they do together. -/
theorem takeBody_append {before after : List Char} {seen : Names} {store : σ}
    {first second whole : BodyResult σ} (grown : Store.Grown history (Backed.memory store))
    (one : takeBody source now before seen store = first)
    (two : takeBody source now after first.seen first.store = second)
    (both : takeBody source now (before ++ '\n' :: after) seen store = whole)
    (writes : ∀ fault, first.outcome ≠ .error (.store fault) ∧
      second.outcome ≠ .error (.store fault) ∧ whole.outcome ≠ .error (.store fault))
    (free : CollisionFree ((history ++ [Arrival.mk source now (before ++ '\n' :: after)]).flatMap
      Arrival.texts)) :
    BodyResult.AddsUp first second whole := by
  obtain ⟨⟨rules, counts⟩, counted⟩ :=
    takeBody_ok (a := ⟨source, now, before⟩) one fun fault => (writes fault).1
  obtain ⟨⟨more, later⟩, countedNext⟩ :=
    takeBody_ok (a := ⟨source, now, after⟩) two fun fault => (writes fault).2.1
  obtain ⟨⟨total, merges⟩, countedAll⟩ :=
    takeBody_ok (a := ⟨source, now, before ++ '\n' :: after⟩) both fun fault => (writes fault).2.2
  have cut : Text.joinWith ['\n'] [before, after] = before ++ '\n' :: after := by
    rw [Text.joinWith, Text.joinWith, List.append_assoc, List.singleton_append]
    exact List.cons_ne_nil after []
  have pieces : Took ⟨{}, seen, store⟩ ([before, after].map (Arrival.mk source now))
      ⟨(RunStats.attempt {}).succeed source rules counts |>.attempt.succeed source more later,
        second.seen, second.store⟩ :=
    .next one counted (.next two countedNext (.nil _))
  have atOnce : Took ⟨{}, seen, store⟩ [Arrival.mk source now (Text.joinWith ['\n'] [before, after])]
      ⟨(RunStats.attempt {}).succeed source total merges, whole.seen, whole.store⟩ := by
    rw [cut]
    exact .next both countedAll (.nil _)
  rw [← cut] at free
  -- From statistics that start at nothing, the totals are those of the bodies themselves.
  have alike := pieces.joined atOnce grown free
  have rulesAlike : 0 + rules + more = 0 + total := alike.rules
  have mergesAlike : (MergeCounts.add {} counts).add later = MergeCounts.add {} merges := alike.merges
  rw [Nat.zero_add, Nat.zero_add] at rulesAlike
  rw [MergeCounts.empty_add, MergeCounts.empty_add] at mergesAlike
  refine ⟨⟨rules, more, counts, later, counted, countedNext, ?_⟩, alike.seen.symm,
    alike.records.symm, fun text => (alike.findByRaw text).symm⟩
  rw [countedAll, rulesAlike, mergesAlike]

end

theorem takeBody_memory_ne_store (source : Source) (now : Instant) (body : List Char) (seen : Names)
    (store : Store) (fault : StoreFault) :
    (takeBody source now body seen store).outcome ≠ .error (.store fault) := by
  obtain ⟨⟨counted, took⟩, -⟩ :=
    takeBody_reliable store.reliable (Arrival.mk source now body) seen
  rw [took]
  simp

/-- A list of two lines. -/
def returnEnded : List Char := "! more\n||a.com^\r".toList

/-- A body with that list before a line feed. -/
def cutBody : Arrival :=
  { privacyBody with body := returnEnded ++ '\n' :: "||c.com^\n ||a.com^".toList }

/-- The line feed at which the body is cut has a carriage return before it, the rule there is known from
another list, and it comes again in the second piece. -/
theorem takeBody_append_afterReturn :
    let known := ({} : Store).ingest adsBody
    let first := takeBody cutBody.source cutBody.time returnEnded .empty known
    let second := takeBody cutBody.source cutBody.time "||c.com^\n ||a.com^".toList first.seen
      first.store
    let whole := takeBody cutBody.source cutBody.time cutBody.body .empty known
    Store.Grown [adsBody] known ∧ CollisionFree ([adsBody, cutBody].flatMap Arrival.texts) ∧
      BodyResult.AddsUp first second whole ∧ whole.outcome = .ok (3, ⟨1, 0, 2, 0⟩) := by
  intro known first second whole
  have grown : Store.Grown [adsBody] (Backed.memory known) := Store.Grown.empty.ingest adsBody
  have free : CollisionFree ([adsBody, cutBody].flatMap Arrival.texts) := by decide +kernel
  have writes : ∀ fault, first.outcome ≠ .error (.store fault) ∧
      second.outcome ≠ .error (.store fault) ∧ whole.outcome ≠ .error (.store fault) := fun fault =>
    ⟨takeBody_memory_ne_store _ _ _ _ _ fault, takeBody_memory_ne_store _ _ _ _ _ fault,
      takeBody_memory_ne_store _ _ _ _ _ fault⟩
  exact ⟨grown, free, takeBody_append grown rfl rfl rfl writes free, by decide +kernel⟩

/-- Broken bytes stay on their line: what is read from a line depends on the bytes of that line alone. -/
theorem decodeBody_lines {bytes : List UInt8} (plain : ¬[0x1f, 0x8b] <+: bytes) :
    ∃ text, decodeBody bytes = some text ∧
      Text.splitAt '\n' text = (bytes.splitOn 0x0A).map Text.repair ∧
      ∀ source now, candidates source now text =
        (bytes.splitOn 0x0A).filterMap fun line => candidate? source now (Text.repair line) := by
  have unpacked : ¬isGzip bytes = true := mt (isGzip_iff bytes).mp plain
  refine ⟨Text.repair bytes, ?_, Text.splitAt_repair bytes, fun source now => ?_⟩
  · rw [decodeBody, if_neg unpacked]
  · rw [candidates_eq_pieces, Text.splitAt_repair, List.filterMap_map]
    rfl

/-- Characters of four, three and two bytes, each cut short by a line feed. -/
def cutShort : List UInt8 := [0x61, 0xF0, 0x9F, 0x98, 0x0A, 0xE2, 0x82, 0x0A, 0xC3, 0x0A, 0xA9, 0x62]

theorem decodeBody_lines_cutShort :
    ¬[0x1f, 0x8b] <+: cutShort ∧ ∃ text, decodeBody cutShort = some text ∧
      Text.splitAt '\n' text = [['a', '\uFFFD'], ['\uFFFD'], ['\uFFFD'], ['\uFFFD', 'b']] := by
  have plain : ¬[0x1f, 0x8b] <+: cutShort := by decide
  obtain ⟨text, decoded, lines, -⟩ := decodeBody_lines plain
  exact ⟨plain, text, decoded, lines.trans (by decide +kernel)⟩

end Intake

end Blocklist
