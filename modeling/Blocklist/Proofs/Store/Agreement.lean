import Blocklist.Proofs.Disk.Atomic
import Blocklist.Proofs.Record.Candidate
import Blocklist.Proofs.Record.RoundTrip
import Blocklist.Proofs.Store.Requests

/-!
Memory and file of a store in a file. Main statement: after any requests, of which any may have failed, the
records in memory are those that opening the file loads, a failed request leaves them as they were, and
any other does what a store in memory does.
-/

namespace Blocklist.FileStore

variable {δ : Type} [Disk δ]

/-- The records that opening a file loads. -/
def loadAt (path : String) (disk : δ) : Except Error (List Record) :=
  (openAt path disk).map fun opened => opened.memory.records

theorem loadAt_congr {path : String} {disk after : δ}
    (there : Disk.leadsSomewhere after path = Disk.leadsSomewhere disk path)
    (contents : Disk.readText after path = Disk.readText disk path) :
    loadAt path after = loadAt path disk := by
  rw [loadAt, loadAt, openAt, openAt, there, contents]
  split
  · cases Disk.readText disk path with
    | none => rfl
    | some text =>
      cases found : recordsOfText? text with
      | none => simp only [found, Except.map]
      | some records => simp only [found, Except.map]
  · rfl

theorem recordsOfText?_renderList (records : List Record) :
    recordsOfText? (Record.renderList records) = some records := by
  rw [recordsOfText?, Record.not_blank_renderList, if_neg (by decide), Record.readList?_renderList]

/-- A file with the text of a list of records is opened as the store of these records. -/
theorem openAt_renderList {path : String} {disk : δ} {records : List Record}
    (there : Disk.leadsSomewhere disk path = true)
    (text : Disk.readText disk path = some (Record.renderList records)) :
    openAt path disk = .ok ⟨path, Store.ofRecords records, disk⟩ := by
  rw [openAt, if_pos there, text]
  simp only [recordsOfText?_renderList]

theorem loadAt_renderList {path : String} {disk : δ} {s : Store} (sound : s.WellFormed)
    (there : Disk.leadsSomewhere disk path = true)
    (text : Disk.readText disk path = some (Record.renderList s.records)) :
    loadAt path disk = .ok s.records := by
  rw [loadAt, openAt_renderList there text, ← Store.records_ofRecords sound]
  simp only [Except.map, Store.records_ofRecords sound]

/-- Holds of stores whose memory has the records that opening their file loads. -/
structure InStep (s : FileStore δ) : Prop where
  wellFormed : s.memory.WellFormed
  file : loadAt s.path s.disk = .ok s.memory.records

theorem openAt_inStep {path : String} {disk : δ} {s : FileStore δ}
    (opened : openAt path disk = .ok s) : s.InStep := by
  have found := openAt_ok opened
  subst found
  refine ⟨Store.wellFormed_ofRecords _, ?_⟩
  rw [loadAt, opened]
  rfl

namespace InStep

variable {s : FileStore δ} {q : Request}

theorem perform (inStep : s.InStep) (atomic : Disk.Atomic δ s.path) (q : Request) :
    (s.perform q).2.InStep := by
  refine ⟨wellFormed_perform inStep.wellFormed q, ?_⟩
  rcases s.perform_cases q with ⟨result, -⟩ | ⟨disk, written, result⟩ | ⟨disk, failed, result⟩
  · rw [result]
    exact inStep.file
  · obtain ⟨there, text⟩ := atomic.replaced s.disk disk _ written
    rw [result]
    exact loadAt_renderList (inStep.wellFormed.change q.change) there text
  · obtain ⟨there, text⟩ := atomic.kept s.disk disk _ failed
    have restored := Store.records_ofRecords inStep.wellFormed
    rw [result]
    calc
      loadAt s.path disk = loadAt s.path s.disk := loadAt_congr there text
      _ = .ok s.memory.records := inStep.file
      _ = .ok (Store.ofRecords s.memory.records).records := by rw [restored]

theorem performAll (inStep : s.InStep) (atomic : Disk.Atomic δ s.path) (requests : List Request) :
    (s.performAll requests).InStep := by
  induction requests generalizing s with
  | nil => exact inStep
  | cons q requests ih =>
    exact ih (inStep.perform atomic q) (by rwa [perform_path])

end InStep

/-- Holds of stores whose file has their records and which do what a store in memory does, unless a write
fails. -/
structure Agrees (s : FileStore δ) : Prop where
  file : loadAt s.path s.disk = .ok s.memory.records
  refused : ∀ q e, (s.perform q).1 = .error e → (s.perform q).2.memory.records = s.memory.records
  done : ∀ q answer, (s.perform q).1 = .ok answer →
    answer = ((Store.ofRecords s.memory.records).perform q).1 ∧
      (s.perform q).2.memory.records = ((Store.ofRecords s.memory.records).perform q).2.records

theorem InStep.agrees {s : FileStore δ} (inStep : s.InStep) : s.Agrees := by
  have sound := inStep.wellFormed
  have restored := Store.records_ofRecords sound
  have again := Store.wellFormed_ofRecords s.memory.records
  refine ⟨inStep.file, ?_, ?_⟩
  · intro q e failed
    obtain ⟨disk, result⟩ := perform_error failed
    rw [result, rollBack, restored]
  · intro q answer done
    obtain ⟨same, memory⟩ := perform_ok done
    rw [same, memory]
    exact ⟨Store.answer_congr sound again restored.symm q,
      Store.records_change_congr sound again restored.symm q.change⟩

/-- Memory and file of a store in a file never disagree: not when it is opened, and not after any
requests, whichever of their writes failed. -/
theorem performAll_agrees {path : String} {disk : δ} {s : FileStore δ}
    (atomic : Disk.Atomic δ path) (opened : openAt path disk = .ok s) (requests : List Request) :
    (s.performAll requests).Agrees := by
  have found := openAt_ok opened
  subst found
  exact ((openAt_inStep opened).performAll atomic requests).agrees

/-- A missing file on a disk on which the second write fails. -/
def sampledFile : FileStore Slate := ⟨"rules.json", {}, ⟨none, [false, true]⟩⟩

/-- The record that the first write brought is still there after the second has failed. -/
theorem performAll_agrees_after_fault :
    openAt "rules.json" sampledFile.disk = .ok sampledFile ∧
      let s := sampledFile.performAll [.upsert (.sampled "||a.com^" .advertising 0), .clear]
      s.Agrees ∧ s.memory.size = 1 := by
  have opened : openAt "rules.json" sampledFile.disk = .ok sampledFile := rfl
  exact ⟨opened, performAll_agrees (Slate.atomic "rules.json") opened _, rfl⟩

end Blocklist.FileStore
