import Blocklist.Proofs.Disk.Removals
import Blocklist.Proofs.Export.Documents

/-!
What cleaning takes from a disk. Main statement: the documents of the output directory go and are counted, and
everything else stands as it stood, also when a removal fails. The empty path is an output directory for an
export but not for cleaning, which leaves what was written there.
-/

namespace Blocklist.Export

open FileTree

section
variable {t u v : FileTree} {l m : Location} {gone : List Location} {directory : String} {f : Format}

/-- Holds of the places of documents: a directory has a file there under the name of a format, and the path
of the document is not too long. -/
structure IsDocument (t : FileTree) (directory : String) (f : Format) (l : Location) : Prop where
  usable : Path.isUsable (documentPath directory f) = true
  within : ∃ d, t.locate directory = some d ∧ t.isDirectoryAt d = true ∧ l = d ++ [f.fileName]
  file : (t.fileAt? l).isSome = true

/-- The path of a document leads below where the directory's path leads. The empty path leads nowhere, but
the documents joined to it have paths. -/
theorem locate_documentPath_iff (filled : directory ≠ "") :
    t.locate (documentPath directory f) = some l ↔
      Path.isUsable (documentPath directory f) = true ∧
        ∃ d, t.locate directory = some d ∧ t.isDirectoryAt d = true ∧ l = d ++ [f.fileName] := by
  have part := f.isPart_fileName
  by_cases usable : Path.isUsable (documentPath directory f) = true
  · have start : t.startOf (documentPath directory f) = t.startOf directory := by
      rw [startOf, documentPath, Path.isAbsolute_join part]
      rfl
    have parts : Path.parts (documentPath directory f) = Path.parts directory ++ [f.fileName] :=
      Path.parts_join part directory
    rw [locate, if_pos usable, locate, if_pos (Path.isUsable_of_join part filled usable), start, parts,
      walk_append, and_iff_right usable]
    cases t.walk (t.startOf directory) (Path.parts directory) with
    | none => simp
    | some d =>
      simp only [Option.bind_some, Option.some.injEq, exists_eq_left', walk, f.isName_fileName,
        Bool.and_true, stepTo, if_neg f.fileName_ne_up, Option.ite_none_right_eq_some]
      exact and_congr_right fun _ => eq_comm
  · rw [locate, if_neg usable]
    simp [usable]

theorem isDocument_iff : IsDocument t directory f l ↔
    directory ≠ "" ∧ t.locate (documentPath directory f) = some l ∧ (t.fileAt? l).isSome = true := by
  constructor
  · rintro ⟨usable, within, file⟩
    have filled : directory ≠ "" := by
      rintro rfl
      obtain ⟨d, led, -⟩ := within
      cases led
    exact ⟨filled, (locate_documentPath_iff filled).mpr ⟨usable, within⟩, file⟩
  · rintro ⟨filled, led, file⟩
    obtain ⟨usable, within⟩ := (locate_documentPath_iff filled).mp led
    exact ⟨usable, within, file⟩

theorem isFile_documentPath : t.isFile (documentPath directory f) = true ↔
    ∃ l, t.locate (documentPath directory f) = some l ∧ (t.fileAt? l).isSome = true := by
  have named := Path.endsInDirectory_join f.isPart_fileName f.fileName_ne_up directory
  rw [isFile_iff, documentPath, and_iff_right named]

theorem IsDocument.isFile (document : IsDocument t directory f l) :
    t.isFile (documentPath directory f) = true :=
  isFile_documentPath.mpr ⟨l, (isDocument_iff.mp document).2⟩

theorem IsDocument.unique (first : IsDocument t directory f l) (second : IsDocument t directory f m) :
    l = m :=
  Option.some.inj ((isDocument_iff.mp first).2.1.symm.trans (isDocument_iff.mp second).2.1)

theorem IsDocument.leads (document : IsDocument t directory f l) :
    (t.find? directory).isSome = true := by
  obtain ⟨d, led, stands, -⟩ := document.within
  rw [isDirectoryAt, beq_iff_eq] at stands
  rw [find?, led, Option.bind_some, stands]
  rfl

theorem IsDocument.getLast?_eq (document : IsDocument t directory f l) :
    l.getLast? = some f.fileName := by
  obtain ⟨d, -, -, rfl⟩ := document.within
  exact List.getLast?_concat

theorem isDocument_without {places : Location → Prop} (without : Without places t u) :
    IsDocument u directory f l ↔ IsDocument t directory f l ∧ ¬places l := by
  rw [isDocument_iff, isDocument_iff, without.locate_eq]
  constructor
  · rintro ⟨filled, led, file⟩
    have spared := without.not_gone file
    rw [without.fileAt?_of_kept spared] at file
    exact ⟨⟨filled, led, file⟩, spared⟩
  · rintro ⟨⟨filled, led, file⟩, spared⟩
    rw [without.fileAt?_of_kept spared]
    exact ⟨filled, led, file⟩

/-- The second tree is the first one without these places, each of which was that of a document. -/
structure Cleaned (directory : String) (gone : List Location) (t u : FileTree) : Prop where
  once : gone.Nodup
  documents : ∀ l ∈ gone, ∃ f, IsDocument t directory f l
  without : Without (· ∈ gone) t u

theorem Cleaned.refl (directory : String) (t : FileTree) : Cleaned directory [] t t where
  once := List.nodup_nil
  documents _ member := absurd member List.not_mem_nil
  without := (Without.refl t).congr fun _ => by simp

theorem Cleaned.cons (document : IsDocument t directory f l) (first : Without (· = l) t u)
    (rest : Cleaned directory gone u v) : Cleaned directory (l :: gone) t v where
  once := by
    refine List.nodup_cons.mpr ⟨fun member => ?_, rest.once⟩
    exact first.not_gone (rest.without.files l member) rfl
  documents m member := by
    rcases List.mem_cons.mp member with rfl | later
    · exact ⟨f, document⟩
    · obtain ⟨g, still⟩ := rest.documents m later
      exact ⟨g, ((isDocument_without first).mp still).1⟩
  without := (first.trans rest.without).congr fun _ => List.mem_cons.symm

/-- With all documents gone, the path of one that was there leads nowhere, the empty directory apart. -/
theorem Cleaned.leads_iff (cleaned : Cleaned directory gone t u)
    (every : ∀ f l, IsDocument t directory f l → l ∈ gone)
    (file : t.isFile (documentPath directory f) = true) :
    (u.find? (documentPath directory f)).isSome = false ↔ directory ≠ "" := by
  obtain ⟨l, led, stands⟩ := isFile_documentPath.mp file
  constructor
  -- Below the empty path there is no document, so that nothing is gone and the file is still there.
  · rintro nowhere rfl
    have spared : l ∉ gone := by
      intro member
      obtain ⟨g, document⟩ := cleaned.documents l member
      exact (isDocument_iff.mp document).1 rfl
    rw [← cleaned.without.locate_eq] at led
    rw [← cleaned.without.fileAt?_of_kept spared] at stands
    rw [leads_of_isFile (isFile_documentPath.mpr ⟨l, led, stands⟩)] at nowhere
    cases nowhere
  · intro filled
    have member := every f l (isDocument_iff.mpr ⟨filled, led, stands⟩)
    rw [cleaned.without.find?_of_gone led member]
    rfl

end

variable {δ : Type} [Disk δ] [Disk.Clearable δ] {directory : String}

/-- Holds of a disk that has just refused to remove a document. -/
def Refused (directory : String) (after : δ) : Prop :=
  ∃ (before : δ) (f : Format) (l : Location),
    Disk.remove before (documentPath directory f) = (false, after) ∧
      IsDocument (Disk.Rooted.tree after) directory f l

/-- A document is removed and everything else stands, or the removal fails and changes nothing. -/
theorem removal_cases (filled : directory ≠ "") {disk : δ} {f : Format}
    (file : Disk.isFile disk (documentPath directory f) = true) :
    ∃ (l : Location) (after : δ), IsDocument (Disk.Rooted.tree disk) directory f l ∧
      (Disk.remove disk (documentPath directory f) = (false, after) ∧
          Disk.Rooted.tree after = Disk.Rooted.tree disk ∨
        Disk.remove disk (documentPath directory f) = (true, after) ∧
          Without (· = l) (Disk.Rooted.tree disk) (Disk.Rooted.tree after)) := by
  rw [Disk.Clearable.isFile_eq] at file
  obtain ⟨l, led, stands⟩ := isFile_documentPath.mp file
  have document := isDocument_iff.mpr ⟨filled, led, stands⟩
  cases removal : Disk.remove disk (documentPath directory f) with
  | mk done after =>
    refine ⟨l, after, document, ?_⟩
    cases done with
    | false => exact .inl ⟨rfl, Disk.Clearable.unremoved disk after _ removal⟩
    | true =>
      obtain ⟨m, same, without⟩ := remove_without (Disk.Clearable.removed disk after _ removal)
      rw [led, Option.some.injEq] at same
      subst same
      exact .inr ⟨rfl, without⟩

/-- The loop over the formats takes their documents one after the other, until a removal fails. -/
theorem cleanFormats_cases (filled : directory ≠ "") (formats : List Format) (removed : Nat)
    (disk : δ) : ∃ (gone : List Location) (after : δ),
    Cleaned directory gone (Disk.Rooted.tree disk) (Disk.Rooted.tree after) ∧
    (cleanFormats directory formats removed disk = (.error .io, after) ∧ Refused directory after ∨
      cleanFormats directory formats removed disk = (.ok (removed + gone.length), after) ∧
        ∀ f ∈ formats, ∀ l, IsDocument (Disk.Rooted.tree disk) directory f l → l ∈ gone) := by
  induction formats generalizing removed disk with
  | nil => exact ⟨[], disk, .refl .., .inr ⟨rfl, fun f member => absurd member List.not_mem_nil⟩⟩
  | cons f formats ih =>
    rw [cleanFormats]
    dsimp only
    by_cases file : Disk.isFile disk (documentPath directory f) = true
    · rw [if_pos file]
      obtain ⟨l, between, document, ⟨removal, same⟩ | ⟨removal, first⟩⟩ := removal_cases filled file
      · rw [removal]
        refine ⟨[], between, ?_, .inl ⟨rfl, disk, f, l, removal, ?_⟩⟩
        · rw [same]
          exact .refl ..
        · rw [same]
          exact document
      · obtain ⟨gone, after, rest, ending⟩ := ih (removed + 1) between
        rw [removal]
        refine ⟨l :: gone, after, rest.cons document first, ending.imp_right ?_⟩
        rintro ⟨done, every⟩
        refine ⟨?_, fun g member m other => ?_⟩
        · rw [if_pos rfl, done, List.length_cons, Nat.add_assoc, Nat.add_comm 1]
        -- A document at another place is not that of `f` and is still there for the rest of the loop.
        · by_cases here : m = l
          · rw [here]
            exact List.mem_cons_self
          · have later : g ∈ formats := by
              refine (List.mem_cons.mp member).resolve_left ?_
              rintro rfl
              exact here (other.unique document)
            have still := (isDocument_without first).mpr ⟨other, here⟩
            exact List.mem_cons_of_mem _ (every g later m still)
    · rw [if_neg file]
      obtain ⟨gone, after, cleaned, ending⟩ := ih removed disk
      refine ⟨gone, after, cleaned, ending.imp_right fun ⟨done, every⟩ => ⟨done, ?_⟩⟩
      intro g member l document
      refine every g ((List.mem_cons.mp member).resolve_left ?_) l document
      rintro rfl
      rw [Disk.Clearable.isFile_eq] at file
      exact file document.isFile

omit [Disk.Clearable δ] in
theorem cleanFormats_of_none {formats : List Format} {removed : Nat} {disk : δ}
    (none : ∀ f ∈ formats, ¬Disk.isFile disk (documentPath directory f) = true) :
    cleanFormats directory formats removed disk = (.ok removed, disk) := by
  induction formats with
  | nil => rfl
  | cons f formats ih =>
    rw [List.forall_mem_cons] at none
    rw [cleanFormats]
    dsimp only
    rw [if_neg none.1]
    exact ih none.2

theorem filled_of_leads {disk : δ} (leads : Disk.leadsSomewhere disk directory = true) :
    directory ≠ "" := by
  rintro rfl
  rw [Disk.Clearable.leads_eq] at leads
  cases leads

theorem clean_of_none {disk : δ}
    (none : ∀ f l, ¬IsDocument (Disk.Rooted.tree disk) directory f l) :
    clean directory disk = (.ok 0, disk) := by
  rw [clean]
  split
  · next leads =>
    refine cleanFormats_of_none fun f _ file => ?_
    rw [Disk.Clearable.isFile_eq] at file
    obtain ⟨l, place⟩ := isFile_documentPath.mp file
    exact none f l (isDocument_iff.mpr ⟨filled_of_leads leads, place⟩)
  · rfl

theorem isFile_of_written {records : List Record} {metadata : Metadata} {options : ExportOptions}
    {before disk : δ} {report : ExportReport} {path : String}
    (ran : run records directory metadata options before = (report, disk))
    (wrote : path ∈ report.written) :
    ∃ f, path = documentPath directory f ∧ (Disk.Rooted.tree disk).isFile path = true := by
  obtain ⟨failed, after, -, told, published⟩ := foldl_writeFormat directory
    (options.selection.chooseRanked records)
    (metadata.withStats (options.selection.chooseRanked records))
    (ExportOptions.nodup_resolveIds options.identifiers)
    ⟨(options.selection.chooseRanked records).length, [], options.resolveFormats.2, []⟩ before
  cases told.symm.trans ran
  obtain ⟨f, member, rfl⟩ := List.mem_map.mp wrote
  refine ⟨f, rfl, ?_⟩
  rw [isFile, published.holds f member]
  rfl

/-- What holds after all documents are gone. -/
structure Emptied (directory : String) (gone : List Location) (disk after : δ) : Prop where
  every : ∀ f l, IsDocument (Disk.Rooted.tree disk) directory f l → l ∈ gone
  again : clean directory after = (.ok 0, after)
  exported : ∀ records metadata options (before : δ) report,
    run records directory metadata options before = (report, disk) → ∀ path ∈ report.written,
      Disk.leadsSomewhere disk path = true ∧
        (Disk.leadsSomewhere after path = false ↔ directory ≠ "")

theorem emptied_of_cleaned {gone : List Location} {disk after : δ}
    (cleaned : Cleaned directory gone (Disk.Rooted.tree disk) (Disk.Rooted.tree after))
    (every : ∀ f l, IsDocument (Disk.Rooted.tree disk) directory f l → l ∈ gone) :
    Emptied directory gone disk after where
  every := every
  again := by
    refine clean_of_none fun f l document => ?_
    obtain ⟨earlier, spared⟩ := (isDocument_without cleaned.without).mp document
    exact spared (every f l earlier)
  exported records metadata options before report ran path wrote := by
    obtain ⟨f, rfl, file⟩ := isFile_of_written ran wrote
    rw [Disk.Clearable.leads_eq, Disk.Clearable.leads_eq]
    exact ⟨leads_of_isFile file, cleaned.leads_iff every file⟩

/-- Cleaning takes documents of the output directory and nothing else. It takes all of them and tells their
number, unless the disk refuses to remove one; then a second run finds none, and what an export has written
into a directory is gone. Only what was written under the empty path stays. -/
theorem clean_exact (directory : String) (disk : δ) :
    ∃ (gone : List Location) (result : Except Error Nat) (after : δ),
      clean directory disk = (result, after) ∧
      Cleaned directory gone (Disk.Rooted.tree disk) (Disk.Rooted.tree after) ∧
      (result = .error .io ∧ Refused directory after ∨
        result = .ok gone.length ∧ Emptied directory gone disk after) := by
  by_cases leads : Disk.leadsSomewhere disk directory = true
  · obtain ⟨gone, after, cleaned, ⟨failed, refused⟩ | ⟨done, every⟩⟩ :=
      cleanFormats_cases (filled_of_leads leads) Format.all 0 disk
    · refine ⟨gone, .error .io, after, ?_, cleaned, .inl ⟨rfl, refused⟩⟩
      rw [clean, if_pos leads, failed]
    · refine ⟨gone, .ok gone.length, after, ?_, cleaned, .inr ⟨rfl, ?_⟩⟩
      · rw [clean, if_pos leads, done, Nat.zero_add]
      · exact emptied_of_cleaned cleaned fun f l => every f f.mem_all l
  · have none : ∀ f l, ¬IsDocument (Disk.Rooted.tree disk) directory f l := by
      intro f l document
      rw [Disk.Clearable.leads_eq] at leads
      exact leads document.leads
    refine ⟨[], .ok 0, disk, clean_of_none none, .refl .., .inr ⟨rfl, ?_⟩⟩
    exact emptied_of_cleaned (.refl ..) fun f l document => absurd document (none f l)

/-- Documents beside a directory and a file with names like theirs. -/
def shelf : FileTree :=
  ⟨["home"], [(["home"], .directory), (["home", "lists"], .directory),
    (["home", "lists", "blocklist.hosts"], .file "old"),
    (["home", "lists", "blocklist.dnsmasq"], .directory),
    (["home", "lists", "blocklist.txt"], .file "mine"),
    (["home", "lists", "blocklist.abp"], .file "old")]⟩

/-- The same disk, with one document that cannot be removed. -/
def lockedShelf : LockedTree := ⟨shelf, ["lists/blocklist.abp"]⟩

theorem clean_exact_shelf :
    (clean "lists" shelf).1 = .ok 2 ∧
      clean "lists" (clean "lists" shelf).2 = (.ok 0, (clean "lists" shelf).2) ∧
      (clean "lists" lockedShelf).1 = .error .io ∧
      (clean "lists" lockedShelf).2.tree.entry? ["home", "lists", "blocklist.txt"] =
        some (.file "mine") := by
  have two : (clean "lists" shelf).1 = .ok 2 := by decide +kernel
  refine ⟨two, ?_, by decide +kernel, ?_⟩
  · obtain ⟨gone, result, after, ran, -, ⟨rfl, -⟩ | ⟨-, emptied⟩⟩ := clean_exact "lists" shelf
    · rw [ran] at two
      cases two
    · rw [ran]
      exact emptied.again
  · obtain ⟨gone, result, after, ran, cleaned, -⟩ := clean_exact "lists" lockedShelf
    rw [ran]
    refine (cleaned.without.kept _ fun member => ?_).trans rfl
    obtain ⟨f, document⟩ := cleaned.documents _ member
    have last := document.getLast?_eq
    cases f <;> revert last <;> decide

/-- What an export into the empty path has written, from a home directory. -/
def homeRun : ExportReport × FileTree :=
  run [] "" (Metadata.default "2024-02-01") { formats := ["hosts"] }
    ⟨["home"], [(["home"], .directory)]⟩

theorem clean_leaves_written :
    homeRun.1.written = ["blocklist.hosts"] ∧ clean "" homeRun.2 = (.ok 0, homeRun.2) ∧
      Disk.isFile homeRun.2 "blocklist.hosts" = true := by
  decide +kernel

end Blocklist.Export
