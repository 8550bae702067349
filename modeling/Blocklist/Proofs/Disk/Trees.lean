import Blocklist.Disk.Tree

/-!
What changes in a tree of files, told by location. Main statements: making directories changes no file, and
writing a file changes that file alone. Both leave every directory, so that paths lead where they led.
-/

namespace Blocklist.FileTree

variable {t u v : FileTree} {l m : Location}

/-- The text of the file at a location. -/
def fileAt? (t : FileTree) (l : Location) : Option String :=
  match t.entry? l with
  | some (.file text) => some text
  | _ => none

/-- What is read is the file at the location that the path leads to. -/
theorem readText_eq_some {path text : String} :
    t.readText path = some text ↔
      Path.endsInDirectory path = false ∧ ∃ l, t.locate path = some l ∧ t.fileAt? l = some text := by
  rw [readText, find?]
  cases led : t.locate path with
  | none => simp
  | some l =>
    simp only [Option.bind_some, Option.some.injEq, exists_eq_left', fileAt?]
    cases t.entry? l with
    | none => simp
    | some e => cases e <;> cases Path.endsInDirectory path <;> simp

theorem lookup_filter_self (entries : List (Location × Entry)) (l : Location) :
    (entries.filter fun x => x.1 != l).lookup l = none := by
  rw [List.lookup_eq_none_iff]
  intro x member
  have kept := (List.mem_filter.mp member).2
  rw [bne_iff_ne] at kept ⊢
  exact Ne.symm kept

theorem lookup_filter_ne (entries : List (Location × Entry)) (other : m ≠ l) :
    (entries.filter fun x => x.1 != l).lookup m = entries.lookup m := by
  induction entries with
  | nil => rfl
  | cons x entries ih =>
    obtain ⟨k, e⟩ := x
    by_cases dropped : k = l
    · have passed : (m == k) = false := by
        rw [beq_eq_false_iff_ne, dropped]
        exact other
      rw [List.filter_cons_of_neg (by simp [dropped]), ih, List.lookup_cons, passed]
    · rw [List.filter_cons_of_pos (by simp [dropped]), List.lookup_cons, List.lookup_cons, ih]

theorem entry?_put {e : Entry} (below : l ≠ []) :
    entry? (t.put l e) m = if m = l then some e else t.entry? m := by
  unfold entry? put
  by_cases root : m = []
  · rw [if_pos root, if_pos root, if_neg fun same => below (same.symm.trans root)]
  · rw [if_neg root, if_neg root, List.lookup_append]
    by_cases here : m = l
    · rw [here, lookup_filter_self, if_pos rfl, List.lookup_cons_self]
      rfl
    · have passed : (m == l) = false := by
        rw [beq_eq_false_iff_ne]
        exact here
      rw [lookup_filter_ne _ here, if_neg here, List.lookup_cons, passed]
      exact Option.or_none

/-- The second tree has the directories of the first, and its files but for those at some places. -/
structure Change (touched : Location → Prop) (t u : FileTree) : Prop where
  start : u.workingDirectory = t.workingDirectory
  directories : ∀ l, t.isDirectoryAt l = true → u.isDirectoryAt l = true
  files : ∀ l, ¬touched l → u.fileAt? l = t.fileAt? l

namespace Change

variable {touched others : Location → Prop}

theorem refl (t : FileTree) : Change touched t t := ⟨rfl, fun _ => id, fun _ _ => rfl⟩

theorem trans (first : Change touched t u) (second : Change touched u v) : Change touched t v where
  start := second.start.trans first.start
  directories l stands := second.directories l (first.directories l stands)
  files l spared := (second.files l spared).trans (first.files l spared)

theorem mono (change : Change touched t u) (more : ∀ l, touched l → others l) :
    Change others t u where
  start := change.start
  directories := change.directories
  files l spared := change.files l fun place => spared (more l place)

/-- Parts lead where they led. -/
theorem walk (change : Change touched t u) {parts : List String} (led : t.walk l parts = some m) :
    u.walk l parts = some m := by
  induction parts generalizing l with
  | nil => exact led
  | cons part parts ih =>
    unfold FileTree.walk at led ⊢
    split at led
    · next open_ =>
      rw [Bool.and_eq_true] at open_
      rw [if_pos (Bool.and_eq_true_iff.mpr ⟨change.directories l open_.1, open_.2⟩)]
      exact ih led
    · cases led

theorem locate (change : Change touched t u) {path : String} (led : t.locate path = some l) :
    u.locate path = some l := by
  unfold FileTree.locate FileTree.startOf at led ⊢
  split at led
  · next usable =>
    rw [if_pos usable, change.start]
    exact change.walk led
  · cases led

/-- A new directory touches no file. -/
theorem put_directory (free : t.entry? l = none) : Change touched t (t.put l .directory) := by
  have below : l ≠ [] := by
    rintro rfl
    cases free
  refine ⟨rfl, fun m stands => ?_, fun m _ => ?_⟩
  · rw [isDirectoryAt, beq_iff_eq] at stands ⊢
    rw [entry?_put below]
    split
    · rfl
    · exact stands
  · unfold fileAt?
    rw [entry?_put below]
    by_cases here : m = l
    · rw [if_pos here, here, free]
    · rw [if_neg here]

/-- A file takes the place of a file, or of nothing. -/
theorem put_file {text : String} (closed : t.isDirectoryAt l = false) :
    Change (· = l) t (t.put l (.file text)) ∧ (t.put l (.file text)).fileAt? l = some text := by
  have below : l ≠ [] := by
    rintro rfl
    cases closed
  refine ⟨⟨rfl, fun m stands => ?_, fun m other => ?_⟩, ?_⟩
  · have other : m ≠ l := by
      rintro rfl
      rw [closed] at stands
      cases stands
    rw [isDirectoryAt] at stands ⊢
    rwa [entry?_put below, if_neg other]
  · unfold fileAt?
    rw [entry?_put below, if_neg other]
  · rw [fileAt?, entry?_put below, if_pos rfl]

end Change

variable {touched : Location → Prop}

theorem makeAlong_change (t : FileTree) (l : Location) (parts : List String) :
    Change touched t (t.makeAlong l parts).2 := by
  induction parts generalizing t l with
  | nil => exact .refl t
  | cons part parts ih =>
    rw [makeAlong]
    split
    · exact ih t _
    · exact .refl t
    · next free =>
      split
      · exact (Change.put_directory free).trans (ih _ _)
      · exact .refl t

theorem makeDirectory_change (t : FileTree) (path : String) :
    Change touched t (t.makeDirectory path).2 := by
  rw [makeDirectory]
  split
  · exact .refl t
  · split
    · exact .refl t
    · split
      · exact t.makeAlong_change _ _
      · exact t.makeAlong_change _ _

/-- A file that has been written stands where its path led, and nothing else has changed. -/
theorem writeText_change {path text : String} (written : t.writeText path text = (true, u)) :
    Path.endsInDirectory path = false ∧ ∃ l, t.locate path = some l ∧
      Change (· = l) t u ∧ u.fileAt? l = some text := by
  unfold writeText at written
  split at written
  · next l led =>
    split at written
    · cases written
    · next free =>
      rw [Bool.or_eq_true, not_or, Bool.not_eq_true, Bool.not_eq_true] at free
      cases written
      exact ⟨free.1, l, led, Change.put_file free.2⟩
  · cases written

theorem writeText_unwritten {path text : String} (unwritten : (t.writeText path text).1 = false) :
    (t.writeText path text).2 = t := by
  unfold writeText at unwritten ⊢
  split
  · next l led =>
    rw [led] at unwritten
    dsimp only at unwritten
    split
    · rfl
    · next free =>
      rw [if_neg free] at unwritten
      cases unwritten
  · rfl

/-- Parts and one more part lead to the place that the last one names below a directory. -/
theorem walk_concat (parts : List String) {part : String} (name : part ≠ "..")
    (led : t.walk l (parts ++ [part]) = some m) :
    ∃ d, t.walk l parts = some d ∧ m = d ++ [part] := by
  induction parts generalizing l with
  | nil =>
    rw [List.nil_append, walk] at led
    split at led
    · rw [walk, Option.some.injEq, stepTo, if_neg name] at led
      exact ⟨l, rfl, led.symm⟩
    · cases led
  | cons first parts ih =>
    rw [List.cons_append, walk] at led
    split at led
    · next open_ =>
      obtain ⟨d, reached, rest⟩ := ih led
      refine ⟨d, ?_, rest⟩
      rw [walk, if_pos open_]
      exact reached
    · cases led

end Blocklist.FileTree
