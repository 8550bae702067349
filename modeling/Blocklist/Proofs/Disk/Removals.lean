import Blocklist.Proofs.Disk.Rooted

/-!
Files taken away from a tree. Main statements: a file that has been removed is gone from where its path led,
and everything else stands as it stood, so that other paths lead where they led.
-/

namespace Blocklist

namespace FileTree

variable {t u v : FileTree} {l m : Location} {path : String}

theorem fileAt?_of_directory (stands : t.isDirectoryAt l = true) : t.fileAt? l = none := by
  rw [isDirectoryAt, beq_iff_eq] at stands
  rw [fileAt?, stands]

/-- The second tree is the first one without the files at some places. -/
structure Without (gone : Location → Prop) (t u : FileTree) : Prop where
  start : u.workingDirectory = t.workingDirectory
  files : ∀ l, gone l → (t.fileAt? l).isSome = true
  removed : ∀ l, gone l → u.entry? l = none
  kept : ∀ l, ¬gone l → u.entry? l = t.entry? l

namespace Without

variable {gone others : Location → Prop}

theorem refl (t : FileTree) : Without (fun _ => False) t t :=
  ⟨rfl, fun _ => False.elim, fun _ => False.elim, fun _ _ => rfl⟩

theorem fileAt?_of_gone (without : Without gone t u) (place : gone l) : u.fileAt? l = none := by
  rw [fileAt?, without.removed l place]

theorem fileAt?_of_kept (without : Without gone t u) (spared : ¬gone l) :
    u.fileAt? l = t.fileAt? l := by
  rw [fileAt?, fileAt?, without.kept l spared]

theorem not_gone (without : Without gone t u) (stands : (u.fileAt? l).isSome = true) : ¬gone l := by
  intro place
  rw [without.fileAt?_of_gone place] at stands
  cases stands

theorem trans (first : Without gone t u) (second : Without others u v) :
    Without (fun l => gone l ∨ others l) t v where
  start := second.start.trans first.start
  files l place := by
    rcases place with early | late
    · exact first.files l early
    · have stood := second.files l late
      rw [first.fileAt?_of_kept (first.not_gone stood)] at stood
      exact stood
  removed l place := by
    by_cases late : others l
    · exact second.removed l late
    · rw [second.kept l late]
      exact first.removed l (place.resolve_right late)
  kept l spared := by
    rw [not_or] at spared
    rw [second.kept l spared.2, first.kept l spared.1]

theorem congr (without : Without gone t u) (same : ∀ l, gone l ↔ others l) : Without others t u := by
  have equal : gone = others := funext fun l => propext (same l)
  rw [← equal]
  exact without

theorem isDirectoryAt_eq (without : Without gone t u) (l : Location) :
    u.isDirectoryAt l = t.isDirectoryAt l := by
  by_cases place : gone l
  · have closed : t.isDirectoryAt l = false := by
      rw [← Bool.not_eq_true]
      intro stands
      have file := without.files l place
      rw [fileAt?_of_directory stands] at file
      cases file
    rw [closed, isDirectoryAt, without.removed l place]
    rfl
  · rw [isDirectoryAt, isDirectoryAt, without.kept l place]

theorem walk_eq (without : Without gone t u) (l : Location) (parts : List String) :
    u.walk l parts = t.walk l parts := by
  induction parts generalizing l with
  | nil => rfl
  | cons part parts ih => rw [walk, walk, without.isDirectoryAt_eq, ih]

theorem locate_eq (without : Without gone t u) (path : String) : u.locate path = t.locate path := by
  rw [locate, locate, startOf, startOf, without.start, without.walk_eq]

theorem find?_of_gone (without : Without gone t u) (led : t.locate path = some l) (place : gone l) :
    u.find? path = none := by
  rw [find?, without.locate_eq, led, Option.bind_some, without.removed l place]

end Without

theorem entry?_take (below : l ≠ []) : entry? (t.take l) m = if m = l then none else t.entry? m := by
  unfold entry? take
  by_cases root : m = []
  · rw [if_pos root, if_pos root, if_neg fun same => below (same.symm.trans root)]
  · rw [if_neg root, if_neg root]
    by_cases here : m = l
    · rw [if_pos here, here, lookup_filter_self]
    · rw [if_neg here, lookup_filter_ne _ here]

theorem take_without (file : (t.fileAt? l).isSome = true) : Without (· = l) t (t.take l) := by
  have below : l ≠ [] := by
    rintro rfl
    cases file
  refine ⟨rfl, ?_, fun m here => ?_, fun m other => ?_⟩
  · rintro _ rfl
    exact file
  · rw [entry?_take below, if_pos here]
  · rw [entry?_take below, if_neg other]

theorem isFile_iff : t.isFile path = true ↔
    Path.endsInDirectory path = false ∧ ∃ l, t.locate path = some l ∧ (t.fileAt? l).isSome = true := by
  rw [isFile, Option.isSome_iff_exists]
  simp only [readText_eq_some, Option.isSome_iff_exists]
  constructor
  · rintro ⟨text, named, l, led, stands⟩
    exact ⟨named, l, led, text, stands⟩
  · rintro ⟨named, l, led, text, stands⟩
    exact ⟨text, named, l, led, stands⟩

theorem remove_without (removed : t.remove path = (true, u)) :
    ∃ l, t.locate path = some l ∧ Without (· = l) t u := by
  unfold remove at removed
  split at removed
  · next l found led =>
    cases removed
    have file : t.isFile path = true := by rw [isFile, readText, found]; rfl
    obtain ⟨-, place, same, stands⟩ := isFile_iff.mp file
    rw [led, Option.some.injEq] at same
    subst same
    exact ⟨l, led, take_without stands⟩
  · cases removed

theorem leads_of_isFile (file : t.isFile path = true) : (t.find? path).isSome = true := by
  rw [isFile, readText] at file
  cases found : t.find? path with
  | some e => rfl
  | none =>
    rw [found] at file
    cases file

theorem walk_append (l : Location) (parts more : List String) :
    t.walk l (parts ++ more) = (t.walk l parts).bind fun m => t.walk m more := by
  induction parts generalizing l with
  | nil => rfl
  | cons part parts ih =>
    rw [List.cons_append, walk, walk]
    split
    · exact ih (stepTo l part)
    · rfl

end FileTree

/-- Rooted disks that tell what stands in their tree, and on which a removal is made there or changes
nothing. -/
class Disk.Clearable (δ : Type) [Disk δ] extends Disk.Rooted δ where
  leads_eq : ∀ (disk : δ) path, Disk.leadsSomewhere disk path = ((tree disk).find? path).isSome
  isFile_eq : ∀ (disk : δ) path, Disk.isFile disk path = (tree disk).isFile path
  removed : ∀ (disk after : δ) path, Disk.remove disk path = (true, after) →
    (tree disk).remove path = (true, tree after)
  unremoved : ∀ (disk after : δ) path, Disk.remove disk path = (false, after) →
    tree after = tree disk

instance : Disk.Clearable FileTree where
  leads_eq _ _ := rfl
  isFile_eq _ _ := rfl
  removed _ _ _ removed := removed
  unremoved t after path unremoved := by
    change t.remove path = (false, after) at unremoved
    unfold FileTree.remove at unremoved
    split at unremoved
    · cases unremoved
    · cases unremoved
      rfl

/-- A tree that keeps what stands at some paths when it is asked to remove it. -/
structure LockedTree where
  tree : FileTree
  locked : List String := []
  deriving DecidableEq, Repr

namespace LockedTree

instance : Disk LockedTree where
  leadsSomewhere disk path := Disk.leadsSomewhere disk.tree path
  isFile disk path := Disk.isFile disk.tree path
  readText disk path := Disk.readText disk.tree path
  makeDirectory disk path :=
    ((disk.tree.makeDirectory path).1, { disk with tree := (disk.tree.makeDirectory path).2 })
  writeText disk path text :=
    ((disk.tree.writeText path text).1, { disk with tree := (disk.tree.writeText path text).2 })
  remove disk path :=
    if path ∈ disk.locked then (false, disk)
    else ((disk.tree.remove path).1, { disk with tree := (disk.tree.remove path).2 })

/-- What was done to the tree, read off what was done to the disk. -/
theorem done_of_told {done : Bool × FileTree} {locked : List String} {told : Bool}
    {after : LockedTree} (same : (done.1, LockedTree.mk done.2 locked) = (told, after)) :
    done = (told, after.tree) := by
  cases same
  rfl

instance : Disk.Rooted LockedTree where
  tree disk := disk.tree
  readText_eq _ _ := rfl
  made disk directory := disk.tree.makeDirectory_change directory
  written _ _ _ _ written := done_of_told written
  unwritten disk after path _ unwritten :=
    Disk.Rooted.unwritten disk.tree after.tree path _ (done_of_told unwritten)

instance : Disk.Clearable LockedTree where
  leads_eq _ _ := rfl
  isFile_eq _ _ := rfl
  removed disk after path removed := by
    change (if path ∈ disk.locked then _ else _) = _ at removed
    split at removed
    · cases removed
    · exact done_of_told removed
  unremoved disk after path unremoved := by
    change (if path ∈ disk.locked then _ else _) = _ at unremoved
    split at unremoved
    · cases unremoved
      rfl
    · exact Disk.Clearable.unremoved disk.tree after.tree path (done_of_told unremoved)

end LockedTree

end Blocklist
