import Blocklist.Disk.Basic
import Blocklist.Document
import Blocklist.Store.Selection

/-!
Publishing records: one document per format in an output directory. A format that cannot be written does
not keep the others from being written. Cleaning removes the documents again and nothing else.
-/

namespace Blocklist

structure ExportOptions where
  selection : Selection := {}
  formats : List String := ["adguard"]
  deriving DecidableEq, Repr, Inhabited

namespace ExportOptions

/-- The identifiers that count: an empty list stands for the default. -/
def identifiers (o : ExportOptions) : List String :=
  if o.formats.isEmpty then ["adguard"] else o.formats

/-- The list with the members of a second list that it lacks, in their order. -/
def addMissing (formats more : List Format) : List Format :=
  more.foldl (fun fs f => if fs.contains f then fs else fs ++ [f]) formats

/-- The formats that identifiers denote, each once, and the identifiers that denote none. -/
def resolveIds (ids : List String) : List Format × List String :=
  ids.foldl
    (fun (formats, unknown) id =>
      match Format.expand id with
      | .ok more => (addMissing formats more, unknown)
      | .error _ => (formats, unknown ++ [id]))
    ([], [])

def resolveFormats (o : ExportOptions) : List Format × List String := resolveIds o.identifiers

end ExportOptions

structure ExportReport where
  ruleCount : Nat
  written : List String
  skipped : List String
  failed : List Format
  deriving DecidableEq, Repr

namespace ExportReport

def isComplete (r : ExportReport) : Bool := r.skipped.isEmpty && r.failed.isEmpty

end ExportReport

namespace Export

def documentPath (directory : String) (f : Format) : String := Path.join directory f.fileName

def writeFormat [Disk δ] (directory : String) (records : List Record) (m : Metadata)
    (state : ExportReport × δ) (f : Format) : ExportReport × δ :=
  let (report, disk) := state
  let path := documentPath directory f
  let (written, disk) := Disk.place disk directory path (Document.text records m f)
  if written then ({ report with written := report.written ++ [path] }, disk)
  else ({ report with failed := report.failed ++ [f] }, disk)

/-- Publishes the chosen ones of these records, by rank. -/
def run [Disk δ] (records : List Record) (directory : String) (m : Metadata)
    (options : ExportOptions) (disk : δ) : ExportReport × δ :=
  let chosen := options.selection.chooseRanked records
  let (formats, skipped) := options.resolveFormats
  formats.foldl (writeFormat directory chosen (m.withStats chosen))
    (⟨chosen.length, [], skipped, []⟩, disk)

/-- Removes the documents of these formats that are regular files, and counts them. -/
def cleanFormats [Disk δ] (directory : String) :
    List Format → Nat → δ → Except Error Nat × δ
  | [], removed, disk => (.ok removed, disk)
  | f :: fs, removed, disk =>
    let path := documentPath directory f
    if Disk.isFile disk path then
      let (gone, disk) := Disk.remove disk path
      if gone then cleanFormats directory fs (removed + 1) disk else (.error .io, disk)
    else cleanFormats directory fs removed disk

/-- Removes all documents from an output directory and counts them; a missing directory has none. -/
def clean [Disk δ] (directory : String) (disk : δ) : Except Error Nat × δ :=
  if Disk.leadsSomewhere disk directory then cleanFormats directory Format.all 0 disk
  else (.ok 0, disk)

end Export

end Blocklist
