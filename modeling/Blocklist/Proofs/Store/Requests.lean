import Blocklist.Proofs.Store.Lookups
import Blocklist.Store.File

/-!
Requests that may change a store, made of a store in memory and of a store in a file. Main statement: a
request of a store in a file changes nothing, or is made in memory and written, or is refused with the
records put in anew.
-/

namespace Blocklist

/-- What can be asked of a store that may change it. -/
inductive Request where
  | upsert (r : Record)
  | upsertMany (rs : List Record)
  | appendVariant (hash : String) (v : Variant)
  | clear

namespace Request

/-- The change that a request asks for. -/
def change : Request → Store.Change
  | upsert r => .upsert r
  | upsertMany rs => .upsertMany rs
  | appendVariant hash v => .appendVariant hash v
  | clear => .clear

/-- The records that a request puts in. -/
def records : Request → List Record
  | upsert r => [r]
  | upsertMany rs => rs
  | appendVariant _ _ => []
  | clear => []

end Request

namespace Store

/-- What a store in memory answers: whether a spelling was added, if that was asked. -/
def answer (s : Store) : Request → Option Bool
  | .appendVariant hash v => some (s.appendVariant hash v).1
  | _ => none

/-- What a store in memory answers to a request, and the store afterwards. -/
def perform (s : Store) (q : Request) : Option Bool × Store := (s.answer q, s.change q.change)

variable {s t : Store}

theorem answer_congr (sound : s.WellFormed) (other : t.WellFormed) (same : s.records = t.records)
    (q : Request) : s.answer q = t.answer q := by
  cases q with
  | appendVariant hash v =>
    rw [answer, answer, appendVariant_fst, appendVariant_fst, findByHash_eq_find? sound,
      findByHash_eq_find? other, same]
  | upsert | upsertMany | clear => rfl

theorem records_change_congr (sound : s.WellFormed) (other : t.WellFormed)
    (same : s.records = t.records) (c : Change) : (s.change c).records = (t.change c).records := by
  cases c with
  | upsert r => rw [change, change, records_upsert sound, records_upsert other, same]
  | upsertMany rs => rw [change, change, records_upsertMany sound, records_upsertMany other, same]
  | appendVariant hash v =>
    rw [change, change, records_appendVariant sound, records_appendVariant other, same]
  | restore | clear => rfl

theorem wellFormed_ofRecords (rs : List Record) : (ofRecords rs).WellFormed :=
  wellFormed_empty.upsertMany rs

/-- Records of different fingerprints are put in a new store as they stand. -/
theorem records_ofRecords_of_distinct {rs : List Record} (distinct : (rs.map Record.hash).Nodup) :
    (ofRecords rs).records = rs := by
  rw [ofRecords, records_upsertMany wellFormed_empty]
  exact Record.placeAll_of_distinct distinct

theorem records_ofRecords (sound : s.WellFormed) : (ofRecords s.records).records = s.records :=
  records_ofRecords_of_distinct sound.tracks.nodup

end Store

namespace FileStore

variable {δ : Type} [Disk δ]

/-- The records of a store file; a file that cannot be opened has none. -/
def storedAt (path : String) (disk : δ) : List Record :=
  if Disk.leadsSomewhere disk path then
    ((Disk.readText disk path).bind recordsOfText?).getD []
  else []

theorem openAt_ok {path : String} {disk : δ} {s : FileStore δ} (opened : openAt path disk = .ok s) :
    s = ⟨path, Store.ofRecords (storedAt path disk), disk⟩ := by
  unfold openAt at opened
  split at opened
  next there =>
    split at opened
    · cases opened
    next text contents =>
      split at opened
      · cases opened
      next records found =>
        cases opened
        rw [storedAt, if_pos there, contents, Option.bind_some, found, Option.getD_some]
  next missing =>
    cases opened
    rw [storedAt, if_neg missing]
    rfl

/-- What a store in a file answers to a request, and the store afterwards. -/
def perform (s : FileStore δ) : Request → Except Error (Option Bool) × FileStore δ
  | .upsert r => ((s.upsert r).1.map fun _ => none, (s.upsert r).2)
  | .upsertMany rs => ((s.upsertMany rs).1.map fun _ => none, (s.upsertMany rs).2)
  | .appendVariant hash v => ((s.appendVariant hash v).1.map some, (s.appendVariant hash v).2)
  | .clear => (s.clear.1.map fun _ => none, s.clear.2)

/-- The store after requests, one after the other. -/
def performAll (s : FileStore δ) (requests : List Request) : FileStore δ :=
  requests.foldl (fun s q => (s.perform q).2) s

/-- Whether the file of the store takes these records, and the disk afterwards. -/
def write (s : FileStore δ) (records : List Record) : Bool × δ :=
  Disk.place s.disk (Path.directoryOf s.path) s.path (Record.renderList records)

/-- The store after a refusal. -/
def rollBack (s : FileStore δ) (disk : δ) : FileStore δ :=
  { s with memory := Store.ofRecords s.memory.records, disk }

theorem commit_eq (s : FileStore δ) (value : α) (changed : Store) :
    s.commit value changed =
      if (s.write changed.records).1 then
        (.ok value, { s with memory := changed, disk := (s.write changed.records).2 })
      else (.error (.store (.unwritable (Path.quoted s.path))),
        s.rollBack (s.write changed.records).2) := rfl

theorem map_commit (s : FileStore δ) (value : α) (changed : Store) (f : α → β) :
    ((s.commit value changed).1.map f, (s.commit value changed).2) =
      s.commit (f value) changed := by
  simp only [commit_eq]
  split <;> rfl

/-- A spelling for a record that is not there is refused without a write; every other request is made in
memory first and then written. -/
theorem perform_eq (s : FileStore δ) (q : Request) :
    s.perform q = (.ok (s.memory.answer q), s) ∧ s.memory.change q.change = s.memory ∨
      s.perform q = s.commit (s.memory.answer q) (s.memory.change q.change) := by
  cases q with
  | upsert r => exact .inr (map_commit s () _ _)
  | upsertMany rs => exact .inr (map_commit s () _ _)
  | clear => exact .inr (map_commit s () _ _)
  | appendVariant hash v =>
    simp only [perform, FileStore.appendVariant]
    cases found : s.memory.findByHash hash with
    | none =>
      have refused : (s.memory.appendVariant hash v).1 = false := by
        rw [Store.appendVariant_fst, found, Option.any_none]
      have unchanged : (s.memory.appendVariant hash v).2 = s.memory :=
        Store.appendVariant_unchanged refused
      exact .inl ⟨by rw [Store.answer, refused]; rfl, unchanged⟩
    | some r => exact .inr (map_commit s _ _ _)

/-- Everything that a request can do. -/
theorem perform_cases (s : FileStore δ) (q : Request) :
    (s.perform q = (.ok (s.memory.answer q), s) ∧ s.memory.change q.change = s.memory) ∨
    (∃ disk, s.write (s.memory.change q.change).records = (true, disk) ∧
      s.perform q =
        (.ok (s.memory.answer q), { s with memory := s.memory.change q.change, disk })) ∨
    (∃ disk, s.write (s.memory.change q.change).records = (false, disk) ∧
      s.perform q =
        (.error (.store (.unwritable (Path.quoted s.path))), s.rollBack disk)) := by
  rcases s.perform_eq q with quiet | committed
  · exact .inl quiet
  · rw [committed, commit_eq]
    cases outcome : s.write (s.memory.change q.change).records with
    | mk written disk =>
      cases written
      · exact .inr (.inr ⟨disk, rfl, rfl⟩)
      · exact .inr (.inl ⟨disk, rfl, rfl⟩)

/-- Whatever becomes of a request, changes make of the records in memory what it leaves of them. -/
theorem memory_perform (s : FileStore δ) (q : Request) :
    ∃ changes, (s.perform q).2.memory = s.memory.changeAll changes := by
  rcases s.perform_cases q with ⟨result, -⟩ | ⟨disk, -, result⟩ | ⟨disk, -, result⟩
  · exact ⟨[], by rw [result]; rfl⟩
  · exact ⟨[q.change], by rw [result]; rfl⟩
  · exact ⟨[.restore s.memory.records], by rw [result]; rfl⟩

theorem memory_performAll (s : FileStore δ) (requests : List Request) :
    ∃ changes, (s.performAll requests).memory = s.memory.changeAll changes := by
  induction requests generalizing s with
  | nil => exact ⟨[], rfl⟩
  | cons q requests ih =>
    obtain ⟨changes, made⟩ := s.memory_perform q
    obtain ⟨later, madeLater⟩ := ih (s.perform q).2
    refine ⟨changes ++ later, ?_⟩
    rw [Store.changeAll_append, ← made]
    exact madeLater

variable {s : FileStore δ} {q : Request}

theorem wellFormed_perform (sound : s.memory.WellFormed) (q : Request) :
    (s.perform q).2.memory.WellFormed := by
  obtain ⟨changes, made⟩ := s.memory_perform q
  rw [made]
  exact sound.changeAll changes

theorem wellFormed_performAll (sound : s.memory.WellFormed) (requests : List Request) :
    (s.performAll requests).memory.WellFormed := by
  obtain ⟨changes, made⟩ := s.memory_performAll requests
  rw [made]
  exact sound.changeAll changes

theorem perform_path (s : FileStore δ) (q : Request) : (s.perform q).2.path = s.path := by
  rcases s.perform_cases q with ⟨result, -⟩ | ⟨disk, -, result⟩ | ⟨disk, -, result⟩
  · rw [result]
  · rw [result]
  · rw [result, rollBack]

theorem performAll_path (s : FileStore δ) (requests : List Request) :
    (s.performAll requests).path = s.path := by
  induction requests generalizing s with
  | nil => rfl
  | cons q requests ih => exact (ih (s.perform q).2).trans (s.perform_path q)

/-- Nothing but a refusal ends in an error. -/
theorem perform_error {e : Error} (failed : (s.perform q).1 = .error e) :
    ∃ disk, (s.perform q).2 = s.rollBack disk := by
  rcases s.perform_cases q with ⟨result, -⟩ | ⟨disk, -, result⟩ | ⟨disk, -, result⟩
  · rw [result] at failed
    cases failed
  · rw [result] at failed
    cases failed
  · exact ⟨disk, by rw [result]⟩

theorem perform_ok {answer : Option Bool} (done : (s.perform q).1 = .ok answer) :
    answer = s.memory.answer q ∧ (s.perform q).2.memory = s.memory.change q.change := by
  rcases s.perform_cases q with ⟨result, unchanged⟩ | ⟨disk, -, result⟩ | ⟨disk, -, result⟩
  · rw [result] at done ⊢
    exact ⟨(Except.ok.inj done).symm, unchanged.symm⟩
  · rw [result] at done ⊢
    exact ⟨(Except.ok.inj done).symm, rfl⟩
  · rw [result] at done
    cases done

end FileStore

end Blocklist
