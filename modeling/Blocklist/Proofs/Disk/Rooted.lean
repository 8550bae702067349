import Blocklist.Proofs.Disk.Trees

/-!
Disks whose files stand in a tree, and a tree on which writes fail as listed. Main statements: what has
become of the tree after a file was placed, and after that failed.
-/

namespace Blocklist

/-- Disks whose files stand in a tree. A write that succeeds is made there. Nothing else that is made, and
no write that fails, changes a file. -/
class Disk.Rooted (δ : Type) [Disk δ] where
  tree : δ → FileTree
  readText_eq : ∀ (disk : δ) path, Disk.readText disk path = (tree disk).readText path
  made : ∀ (disk : δ) directory,
    FileTree.Change (fun _ => False) (tree disk) (tree (Disk.makeDirectory disk directory).2)
  written : ∀ (disk after : δ) path text, Disk.writeText disk path text = (true, after) →
    (tree disk).writeText path text = (true, tree after)
  unwritten : ∀ (disk after : δ) path text, Disk.writeText disk path text = (false, after) →
    FileTree.Change (fun _ => False) (tree disk) (tree after)

namespace Disk

open FileTree

variable {δ : Type} [Disk δ] [Rooted δ] {disk after : δ} {directory path text : String}

theorem place_placed (placed : place disk directory path text = (true, after)) :
    Path.endsInDirectory path = false ∧ ∃ l, (Rooted.tree after).locate path = some l ∧
      Change (· = l) (Rooted.tree disk) (Rooted.tree after) ∧
      (Rooted.tree after).fileAt? l = some text := by
  unfold place at placed
  have made := Rooted.made disk directory
  revert placed made
  obtain ⟨_ | _, between⟩ := makeDirectory disk directory
  · intro placed
    cases placed
  · intro placed made
    obtain ⟨named, l, led, change, holds⟩ :=
      writeText_change (Rooted.written between after path text placed)
    exact ⟨named, l, change.locate led, (made.mono fun _ => False.elim).trans change, holds⟩

theorem place_unplaced (unplaced : place disk directory path text = (false, after)) :
    Change (fun _ => False) (Rooted.tree disk) (Rooted.tree after) := by
  unfold place at unplaced
  have made := Rooted.made disk directory
  revert unplaced made
  obtain ⟨_ | _, between⟩ := makeDirectory disk directory
  · intro unplaced made
    cases unplaced
    exact made
  · intro unplaced made
    exact made.trans (Rooted.unwritten between after path text unplaced)

end Disk

instance : Disk.Rooted FileTree where
  tree t := t
  readText_eq _ _ := rfl
  made t directory := t.makeDirectory_change directory
  written _ _ _ _ written := written
  unwritten t after path text unwritten := by
    have same : (t.writeText path text).2 = t :=
      FileTree.writeText_unwritten (congrArg Prod.fst unwritten)
    have left : after = t := (congrArg Prod.snd unwritten).symm.trans same
    rw [left]
    exact .refl t

/-- A tree on which the next writes fail as listed, and those after them as the tree has it. -/
structure FaultyTree where
  tree : FileTree
  faults : List Bool := []
  deriving DecidableEq, Repr

namespace FaultyTree

instance : Disk FaultyTree where
  leadsSomewhere disk path := Disk.leadsSomewhere disk.tree path
  isFile disk path := Disk.isFile disk.tree path
  readText disk path := Disk.readText disk.tree path
  makeDirectory disk path :=
    ((disk.tree.makeDirectory path).1, ⟨(disk.tree.makeDirectory path).2, disk.faults⟩)
  writeText disk path text :=
    match disk.faults with
    | true :: faults => (false, ⟨disk.tree, faults⟩)
    | faults =>
      ((disk.tree.writeText path text).1, ⟨(disk.tree.writeText path text).2, faults.tail⟩)
  remove disk path := ((disk.tree.remove path).1, ⟨(disk.tree.remove path).2, disk.faults⟩)

theorem writeText_cases (disk : FaultyTree) (path text : String) :
    (Disk.writeText disk path text).1 = false ∧ (Disk.writeText disk path text).2.tree = disk.tree ∨
    (Disk.writeText disk path text).1 = (disk.tree.writeText path text).1 ∧
      (Disk.writeText disk path text).2.tree = (disk.tree.writeText path text).2 := by
  obtain ⟨t, _ | ⟨_ | _, faults⟩⟩ := disk
  · exact .inr ⟨rfl, rfl⟩
  · exact .inr ⟨rfl, rfl⟩
  · exact .inl ⟨rfl, rfl⟩

instance : Disk.Rooted FaultyTree where
  tree disk := disk.tree
  readText_eq _ _ := rfl
  made disk directory := disk.tree.makeDirectory_change directory
  written disk after path text written := by
    rcases writeText_cases disk path text with ⟨failed, -⟩ | ⟨done, tree⟩
    · rw [written] at failed
      cases failed
    · rw [written] at done tree
      exact Prod.ext done.symm tree.symm
  unwritten disk after path text unwritten := by
    rcases writeText_cases disk path text with ⟨-, tree⟩ | ⟨failed, tree⟩
    · rw [unwritten] at tree
      rw [tree]
      exact .refl _
    · rw [unwritten] at failed tree
      rw [tree, FileTree.writeText_unwritten failed.symm]
      exact .refl _

end FaultyTree

end Blocklist
