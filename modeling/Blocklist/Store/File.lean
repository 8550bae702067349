import Blocklist.Disk.Basic
import Blocklist.Store.Basic

/-!
A store whose records are kept in a file. Every change is made in memory and written at once; when the
write fails, the records from before the change are put back.
-/

namespace Blocklist

/-- Records in memory, the file they are kept in, and the disk that holds it. -/
structure FileStore (δ : Type) where
  path : String
  memory : Store
  disk : δ

namespace FileStore

variable {δ : Type} [Disk δ]

/-- The records that the text of a store file stands for; a blank text stands for none. -/
def recordsOfText? (text : String) : Option (List Record) :=
  if text.toList.all Text.isBlank then some [] else Record.readList? text

/-- Opens the store in a file; a missing file is an empty store. -/
def openAt (path : String) (disk : δ) : Except Error (FileStore δ) :=
  if Disk.leadsSomewhere disk path then
    match Disk.readText disk path with
    | none => .error (.store (.unreadable (Path.quoted path)))
    | some text =>
      match recordsOfText? text with
      | none => .error (.store (.unparsable (Path.quoted path)))
      | some records => .ok ⟨path, Store.ofRecords records, disk⟩
  else .ok ⟨path, {}, disk⟩

/-- Makes a change in memory the new state if it can be written, and takes it back otherwise. -/
def commit (s : FileStore δ) (value : α) (changed : Store) : Except Error α × FileStore δ :=
  let (written, disk) :=
    Disk.place s.disk (Path.directoryOf s.path) s.path (Record.renderList changed.records)
  if written then (.ok value, { s with memory := changed, disk })
  else
    (.error (.store (.unwritable (Path.quoted s.path))),
      { s with memory := Store.ofRecords s.memory.records, disk })

def upsertMany (s : FileStore δ) (records : List Record) : Except Error Unit × FileStore δ :=
  s.commit () (s.memory.upsertMany records)

def upsert (s : FileStore δ) (r : Record) : Except Error Unit × FileStore δ :=
  s.commit () (s.memory.upsert r)

/-- Adds a spelling to the record with this fingerprint. Without such a record nothing is written. -/
def appendVariant (s : FileStore δ) (hash : String) (v : Variant) :
    Except Error Bool × FileStore δ :=
  match s.memory.findByHash hash with
  | none => (.ok false, s)
  | some _ =>
    let (added, changed) := s.memory.appendVariant hash v
    s.commit added changed

def clear (s : FileStore δ) : Except Error Unit × FileStore δ := s.commit () {}

instance : RecordStore (FileStore δ) where
  records s := s.memory.records
  findByHash s := s.memory.findByHash
  findByRaw s := s.memory.findByRaw
  upsertMany := upsertMany
  appendVariant := appendVariant
  clear := clear

end FileStore

end Blocklist
