import Blocklist.Proofs.Disk.Rooted
import Blocklist.Proofs.Export.Formats
import Blocklist.Proofs.Record.Candidate

/-!
What an export leaves on a disk. Main statement: every format is either written or failed, the documents of
those written hold the chosen records, and all other files are as they were, whatever fails.
-/

namespace Blocklist.Export

open FileTree

section
variable {t u v : FileTree} {l m : Location} {directory : String} {f g : Format}

theorem locate_documentPath (led : t.locate (documentPath directory f) = some l) :
    ∃ d, t.walk (t.startOf directory) (Path.parts directory) = some d ∧ l = d ++ [f.fileName] := by
  have part := f.isPart_fileName
  have start : t.startOf (documentPath directory f) = t.startOf directory := by
    rw [startOf, documentPath, Path.isAbsolute_join part]
    rfl
  unfold locate at led
  split at led
  · rw [start, documentPath, Path.parts_join part] at led
    exact walk_concat _ f.fileName_ne_up led
  · cases led

/-- Documents of two formats stand at two places, however the directory is written. -/
theorem locate_ne (other : f ≠ g) (first : t.locate (documentPath directory f) = some l)
    (second : t.locate (documentPath directory g) = some m) : l ≠ m := by
  obtain ⟨d, reached, rfl⟩ := locate_documentPath first
  obtain ⟨_, again, rfl⟩ := locate_documentPath second
  rw [reached, Option.some.injEq] at again
  rw [again]
  intro same
  have names := List.append_cancel_left same
  exact other (Format.fileName_injective (List.singleton_inj.mp names))

/-- The second tree has the documents of these formats in a directory. Its other files are those of the
first tree. -/
structure Published (directory : String) (content : Format → String) (written : List Format)
    (before after : FileTree) : Prop where
  change : Change (fun l => ∃ f ∈ written, after.locate (documentPath directory f) = some l)
    before after
  holds : ∀ f ∈ written, after.readText (documentPath directory f) = some (content f)

variable {content : Format → String} {written more : List Format}

/-- A later document does not touch those that are there. -/
theorem Published.trans (first : Published directory content written t u)
    (second : Published directory content more u v) (apart : ∀ f ∈ written, f ∉ more) :
    Published directory content (written ++ more) t v where
  change := by
    have earlier : Change (fun l => ∃ f ∈ written ++ more,
        v.locate (documentPath directory f) = some l) t u := by
      refine first.change.mono ?_
      rintro l ⟨f, member, led⟩
      exact ⟨f, List.mem_append_left _ member, second.change.locate led⟩
    refine earlier.trans (second.change.mono ?_)
    rintro l ⟨f, member, led⟩
    exact ⟨f, List.mem_append_right _ member, led⟩
  holds f member := by
    rcases List.mem_append.mp member with early | late
    · obtain ⟨named, l, led, stands⟩ := readText_eq_some.mp (first.holds f early)
      have still := second.change.locate led
      have spared : ¬∃ g ∈ more, v.locate (documentPath directory g) = some l := by
        rintro ⟨g, late, same⟩
        have other : f ≠ g := by
          rintro rfl
          exact apart f early late
        exact locate_ne other still same rfl
      exact readText_eq_some.mpr ⟨named, l, still, (second.change.files l spared).trans stands⟩
    · exact second.holds f late

end

variable {δ : Type} [Disk δ] [Disk.Rooted δ]

section
variable (directory : String) (records : List Record) (m : Metadata)

/-- A format is written, or it failed and no file has changed. -/
theorem writeFormat_cases (report : ExportReport) (disk : δ) (f : Format) : ∃ after : δ,
    writeFormat directory records m (report, disk) f =
        ({ report with written := report.written ++ [documentPath directory f] }, after) ∧
      Published directory (Document.text records m) [f] (Disk.Rooted.tree disk)
        (Disk.Rooted.tree after) ∨
    writeFormat directory records m (report, disk) f =
        ({ report with failed := report.failed ++ [f] }, after) ∧
      Published directory (Document.text records m) [] (Disk.Rooted.tree disk)
        (Disk.Rooted.tree after) := by
  unfold writeFormat
  dsimp only
  cases placed : Disk.place disk directory (documentPath directory f)
      (Document.text records m f) with
  | mk done after =>
    cases done with
    | true =>
      obtain ⟨named, l, led, change, stands⟩ := Disk.place_placed placed
      refine ⟨after, .inl ⟨rfl, change.mono ?_, ?_⟩⟩
      · rintro _ rfl
        exact ⟨f, List.mem_singleton_self f, led⟩
      · intro g member
        rw [List.mem_singleton.mp member]
        exact readText_eq_some.mpr ⟨named, l, led, stands⟩
    | false =>
      have change := Disk.place_unplaced placed
      exact ⟨after, .inr ⟨rfl, change.mono fun _ => False.elim,
        fun g member => absurd member List.not_mem_nil⟩⟩

/-- The loop over the formats goes on after a failure, and notes each format once. -/
theorem foldl_writeFormat {formats : List Format} (distinct : formats.Nodup)
    (report : ExportReport) (disk : δ) : ∃ (failed : List Format) (after : δ),
    failed.Sublist formats ∧
    formats.foldl (writeFormat directory records m) (report, disk) =
      ({ report with
          written := report.written ++
            (formats.filter (· ∉ failed)).map (documentPath directory)
          failed := report.failed ++ failed }, after) ∧
    Published directory (Document.text records m) (formats.filter (· ∉ failed))
      (Disk.Rooted.tree disk) (Disk.Rooted.tree after) := by
  induction formats generalizing report disk with
  | nil =>
    refine ⟨[], disk, .slnil, ?_, .refl _, fun f member => absurd member List.not_mem_nil⟩
    simp
  | cons f formats ih =>
    rw [List.nodup_cons] at distinct
    rw [List.foldl_cons]
    obtain ⟨between, ⟨step, first⟩ | ⟨step, first⟩⟩ :=
      writeFormat_cases directory records m report disk f
    · rw [step]
      obtain ⟨failed, after, within, rest, second⟩ := ih distinct.2
        { report with written := report.written ++ [documentPath directory f] } between
      have fresh : f ∉ failed := fun member => distinct.1 (within.subset member)
      have kept : (f :: formats).filter (· ∉ failed) = f :: formats.filter (· ∉ failed) :=
        List.filter_cons_of_pos (by simpa using fresh)
      refine ⟨failed, after, within.cons f, ?_, ?_⟩
      · rw [rest, kept, List.map_cons, List.append_assoc, List.singleton_append]
      · rw [kept]
        refine first.trans second fun g member later => ?_
        rw [List.mem_singleton.mp member] at later
        exact distinct.1 (List.mem_of_mem_filter later)
    · rw [step]
      obtain ⟨failed, after, within, rest, second⟩ := ih distinct.2
        { report with failed := report.failed ++ [f] } between
      have kept : (f :: formats).filter (· ∉ f :: failed) = formats.filter (· ∉ failed) := by
        rw [List.filter_cons_of_neg (by simp)]
        refine List.filter_congr fun g member => ?_
        have other : g ≠ f := by
          rintro rfl
          exact distinct.1 member
        simp [other]
      refine ⟨f :: failed, after, within.cons_cons f, ?_, ?_⟩
      · rw [rest, kept, List.append_assoc, List.singleton_append]
      · rw [kept]
        exact first.trans second fun g member => absurd member List.not_mem_nil

end

end Blocklist.Export
