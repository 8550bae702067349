import Blocklist.Proofs.Store.Agreement

/-!
The format of the store file. Main statements: lists of records that are written alike are the same list,
and opening a file with a list of different fingerprints gives exactly these records, in their order, in
the store that would have written the file.
-/

namespace Blocklist

/-- The text of a list of records tells the list. -/
theorem Record.renderList_injective : Function.Injective renderList := by
  intro xs ys same
  have read := readList?_renderList xs
  rw [same, readList?_renderList] at read
  exact (Option.some.inj read).symm

namespace Store

variable {rs : List Record}

theorem all_ofRecords (distinct : (rs.map Record.hash).Nodup) : (ofRecords rs).all = rs := by
  rw [all_eq_records, records_ofRecords_of_distinct distinct]

theorem findByHash_ofRecords (distinct : (rs.map Record.hash).Nodup) {r : Record}
    (member : r ∈ rs) : (ofRecords rs).findByHash r.hash = some r := by
  rw [findByHash_eq_find? (wellFormed_ofRecords rs), records_ofRecords_of_distinct distinct]
  exact (Record.find?_hash_eq_some_iff distinct).mpr ⟨member, rfl⟩

end Store

namespace FileStore

variable {δ : Type} [Disk δ] {path : String} {records : List Record} {disk after : δ}

/-- A list of records with different fingerprints is opened as it was written, and as the store that
writes it. -/
theorem openAt_written (atomic : Disk.Atomic δ path) (distinct : (records.map Record.hash).Nodup)
    (written : Disk.place disk (Path.directoryOf path) path (Record.renderList records) =
      (true, after)) :
    ∃ opened : FileStore δ, openAt path after = .ok opened ∧ opened.memory.all = records ∧
      (∀ r ∈ records, opened.memory.findByHash r.hash = some r) ∧
      (⟨path, {}, disk⟩ : FileStore δ).upsertMany records = (.ok (), opened) := by
  obtain ⟨there, text⟩ := atomic.replaced disk after _ written
  have placed : (({} : Store).upsertMany records).records = records :=
    Store.records_ofRecords_of_distinct distinct
  refine ⟨⟨path, Store.ofRecords records, after⟩, openAt_renderList there text,
    Store.all_ofRecords distinct, fun r => Store.findByHash_ofRecords distinct, ?_⟩
  rw [upsertMany, commit_eq, write, placed, written]
  rfl

/-- A leap second in a year of five digits. -/
def farLeapSecond : Instant where
  date := ⟨12345, 6, 30, by decide, by decide, by decide⟩
  hour := 23
  minute := 59
  second := 60
  nano := 999999999
  hour_range := by decide
  minute_range := by decide
  second_range := by decide
  nano_range := by decide

/-- A microsecond after midnight in a year before the first. -/
def earlyMicrosecond : Instant :=
  { (⟨-44, 3, 15, by decide, by decide, by decide⟩ : Date).start with
    nano := 1000
    nano_range := by decide }

/-- Two records with texts, numbers and times of all sorts. -/
def motleyRecords : List Record :=
  [{ raw := "\"quoted\\\" \u0000\u001f\n\t 😀"
     kind := .cosmetic
     domain := none
     hash := "h\"1"
     sources := Names.ofList ["b", "a", ""]
     added := farLeapSecond
     updated := earlyMicrosecond
     enabled := false
     origin := ⟨.tracking, -2147483648, true, "https://lists.example/\\"⟩
     tags := .empty
     variants := [] },
   { raw := ""
     kind := .exception
     domain := some "\u007f"
     hash := ""
     sources := .empty
     added := (Date.sampled 1).start
     updated := farLeapSecond
     enabled := true
     origin := ⟨.custom, 2147483647, false, ""⟩
     tags := Names.ofList ["mobile", "\\"]
     variants := [⟨"text", "", earlyMicrosecond,
       [.domain ["a.com", "~b.com"], .value "" "=\"", .flag "popup", .domain []],
       Names.ofList ["é"]⟩] }]

theorem openAt_written_motleyRecords :
    Disk.Atomic Slate "rules.json" ∧ (motleyRecords.map Record.hash).Nodup ∧
      Disk.place ({} : Slate) (Path.directoryOf "rules.json") "rules.json"
        (Record.renderList motleyRecords) = (true, ⟨some (Record.renderList motleyRecords), []⟩) ∧
      ∃ opened, openAt "rules.json" (⟨some (Record.renderList motleyRecords), []⟩ : Slate) =
        .ok opened ∧ opened.memory.all = motleyRecords := by
  have atomic := Slate.atomic "rules.json"
  have distinct : (motleyRecords.map Record.hash).Nodup := by decide
  have written : Disk.place ({} : Slate) (Path.directoryOf "rules.json") "rules.json"
      (Record.renderList motleyRecords) = (true, ⟨some (Record.renderList motleyRecords), []⟩) := rfl
  obtain ⟨opened, found, all, -⟩ := openAt_written atomic distinct written
  exact ⟨atomic, distinct, written, opened, found, all⟩

end FileStore

end Blocklist
