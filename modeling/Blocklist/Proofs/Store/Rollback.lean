import Blocklist.Proofs.Disk.Atomic
import Blocklist.Proofs.Store.Texts
import Mathlib.Data.List.Induction

/-!
Look-ups after a refused request, when the indexes are built anew from the records. Main statement: look-ups
by fingerprint, selections and the number of records are what they were; a text leads to the last record
with it, which is where it led before as long as no two fingerprints ever shared a text.
-/

namespace Blocklist

namespace Store

variable {s : Store}

/-- In a store made of records with different fingerprints a text leads to the last record with it. -/
theorem findByRaw_ofRecords {rs : List Record} (distinct : (rs.map Record.hash).Nodup)
    (text : String) : (ofRecords rs).findByRaw text = rs.reverse.find? fun r => r.raw = text := by
  induction rs using List.reverseRecOn with
  | nil => rfl
  | append_singleton rs r ih =>
    rw [List.map_append, List.map_singleton, List.nodup_append] at distinct
    have sound := wellFormed_ofRecords rs
    have placed := records_ofRecords_of_distinct distinct.1
    have fresh : (ofRecords rs).findByHash r.hash = none := by
      rw [findByHash_eq_find? sound, placed, List.find?_eq_none]
      intro x member same
      have apart := distinct.2.2 x.hash (List.mem_map_of_mem member) r.hash List.mem_cons_self
      exact apart (of_decide_eq_true same)
    have step : ofRecords (rs ++ [r]) = (ofRecords rs).upsert r := List.foldl_concat _ _ _ _
    rw [step, findByRaw_upsert sound, fresh, List.reverse_concat, List.find?_cons]
    by_cases here : text = r.raw
    · simp [here]
    · simp [here, Ne.symm here, ih distinct.1]

/-- Holds of stores of which the second has the records of the first in indexes built anew. -/
structure Rebuilt (before after : Store) : Prop where
  records : after.records = before.records
  findByHash : ∀ hash, after.findByHash hash = before.findByHash hash
  select : ∀ selection, after.select selection = before.select selection
  size : after.size = before.size
  findByRaw : ∀ text, after.findByRaw text =
    before.records.reverse.find? fun r => r.raw = text

theorem rebuilt_ofRecords (sound : s.WellFormed) : Rebuilt s (ofRecords s.records) := by
  have again := wellFormed_ofRecords s.records
  have records := records_ofRecords sound
  refine ⟨records, ?_, ?_, ?_, findByRaw_ofRecords sound.tracks.nodup⟩
  · intro hash
    rw [findByHash_eq_find? again, findByHash_eq_find? sound, records]
  · intro selection
    rw [select, select, records]
  · rw [size, size, records]

end Store

namespace FileStore

variable {δ : Type} [Disk δ] {s : FileStore δ}

variable {known : List Record}

theorem indexed_perform (indexed : Store.Indexed known s.memory)
    (keyed : Record.TextKeyed known) {q : Request} (new : q.records ⊆ known) :
    Store.Indexed known (s.perform q).2.memory := by
  rcases s.perform_cases q with ⟨result, -⟩ | ⟨disk, -, result⟩ | ⟨disk, -, result⟩
  · rw [result]
    exact indexed
  · rw [result]
    exact indexed.change keyed q new
  · rw [result]
    exact indexed.ofRecords keyed

theorem indexed_performAll (indexed : Store.Indexed known s.memory)
    (keyed : Record.TextKeyed known) {requests : List Request}
    (new : requests.flatMap Request.records ⊆ known) :
    Store.Indexed known (s.performAll requests).memory := by
  induction requests generalizing s with
  | nil => exact indexed
  | cons q requests ih =>
    rw [List.flatMap_cons, List.append_subset] at new
    exact ih (indexed_perform indexed keyed new.1) new.2

/-- After a refused request every look-up is what it was, save that a text leads to the last record with
it. That is where it led before, if equal texts had equal fingerprints in the file and ever since. -/
theorem perform_refused {path : String} {disk : δ} {s : FileStore δ}
    (opened : openAt path disk = .ok s) (requests : List Request) (q : Request) {e : Error}
    (failed : ((s.performAll requests).perform q).1 = .error e) :
    let before := (s.performAll requests).memory
    let after := ((s.performAll requests).perform q).2.memory
    before.Rebuilt after ∧
      (Record.TextKeyed (storedAt path disk ++ requests.flatMap Request.records) →
        ∀ text, after.findByRaw text = before.findByRaw text) := by
  intro before after
  have found := openAt_ok opened
  obtain ⟨disk', result⟩ := perform_error failed
  have anew : after = Store.ofRecords before.records := by
    rw [show after = ((s.performAll requests).perform q).2.memory from rfl, result, rollBack]
  have sound : before.WellFormed :=
    wellFormed_performAll (found ▸ Store.wellFormed_empty.upsertMany _) requests
  have rebuilt : before.Rebuilt after := anew ▸ Store.rebuilt_ofRecords sound
  refine ⟨rebuilt, fun keyed text => ?_⟩
  have start : Store.Indexed (storedAt path disk ++ requests.flatMap Request.records) s.memory := by
    rw [found]
    exact Store.Indexed.empty.upsertMany keyed fun r member =>
      .of_mem (List.mem_append_left _ member)
  have indexed := indexed_performAll start keyed (List.subset_append_right _ _)
  have again := indexed.ofRecords keyed
  rw [anew]
  exact again.findByRaw_eq indexed (Store.records_ofRecords sound) text

/-- A record of a text under a fingerprint of one's own choice. -/
def bare (hash raw : String) : Record := { Record.sampled raw .advertising 0 with hash }

/-- A missing file on a disk on which the fourth write fails. -/
def fourthRefused : FileStore Slate := ⟨"rules.json", {}, ⟨none, [false, false, false, true]⟩⟩

/-- Three fingerprints and texts, of which the first fingerprint changes its text. -/
def ownTexts : List Request :=
  [.upsert (bare "h1" "x"), .upsert (bare "h2" "y"), .upsert (bare "h1" "z")]

theorem perform_refused_ownTexts :
    let before := fourthRefused.performAll ownTexts
    openAt "rules.json" fourthRefused.disk = .ok fourthRefused ∧
      (before.perform .clear).1 = .error (.store (.unwritable (Path.quoted "rules.json"))) ∧
      before.memory.Rebuilt (before.perform .clear).2.memory ∧
      ∀ text, (before.perform .clear).2.memory.findByRaw text = before.memory.findByRaw text := by
  intro before
  have opened : openAt "rules.json" fourthRefused.disk = .ok fourthRefused := rfl
  have refused :
      (before.perform .clear).1 = .error (.store (.unwritable (Path.quoted "rules.json"))) := rfl
  have keyed : Record.TextKeyed
      (storedAt "rules.json" fourthRefused.disk ++ ownTexts.flatMap Request.records) := by
    unfold Record.TextKeyed
    decide
  obtain ⟨rebuilt, same⟩ := perform_refused opened ownTexts .clear refused
  exact ⟨opened, refused, rebuilt, same keyed⟩

/-- Two fingerprints share a text until the first of them is given another one. -/
def sharedText : List Request :=
  [.upsert (bare "h1" "x"), .upsert (bare "h2" "x"), .upsert (bare "h1" "y")]

/-- The text that was shared leads nowhere before a refused request and to its record afterwards. -/
theorem findByRaw_refused :
    openAt "rules.json" fourthRefused.disk = .ok fourthRefused ∧
      let before := fourthRefused.performAll sharedText
      let refused := before.perform (.upsert (bare "h3" "z"))
      refused.1 = .error (.store (.unwritable (Path.quoted "rules.json"))) ∧
        before.memory.records = [bare "h1" "y", bare "h2" "x"] ∧
        before.memory.findByRaw "x" = none ∧
        refused.2.memory.findByRaw "x" = some (bare "h2" "x") :=
  ⟨rfl, rfl, rfl, rfl, rfl⟩

end FileStore

end Blocklist
