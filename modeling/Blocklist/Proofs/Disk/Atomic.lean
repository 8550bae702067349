import Blocklist.Disk.Basic

/-!
Disks on which a file is either replaced as a whole or left as it was, and a small disk of this sort whose
writes fail as listed.
-/

namespace Blocklist

/-- A file on these disks is either replaced as a whole when it is written or left as it was, whatever
else may have changed. -/
structure Disk.Atomic (δ : Type) [Disk δ] (path : String) : Prop where
  replaced : ∀ (disk after : δ) text,
    Disk.place disk (Path.directoryOf path) path text = (true, after) →
      Disk.leadsSomewhere after path = true ∧ Disk.readText after path = some text
  kept : ∀ (disk after : δ) text,
    Disk.place disk (Path.directoryOf path) path text = (false, after) →
      Disk.leadsSomewhere after path = Disk.leadsSomewhere disk path ∧
        Disk.readText after path = Disk.readText disk path

/-- A disk with at most one file, to which every path leads. -/
structure Slate where
  text : Option String := none
  /-- Whether each of the next writes fails; those after them succeed. -/
  faults : List Bool := []
  deriving DecidableEq, Repr

namespace Slate

instance : Disk Slate where
  leadsSomewhere slate _ := slate.text.isSome
  isFile slate _ := slate.text.isSome
  readText slate _ := slate.text
  makeDirectory slate _ := (true, slate)
  writeText slate _ text :=
    match slate.faults with
    | true :: faults => (false, ⟨slate.text, faults⟩)
    | faults => (true, ⟨some text, faults.tail⟩)
  remove slate _ := (slate.text.isSome, ⟨none, slate.faults⟩)

theorem place_cases (slate : Slate) (directory path text : String) :
    (∃ faults, Disk.place slate directory path text = (false, ⟨slate.text, faults⟩)) ∨
    ∃ faults, Disk.place slate directory path text = (true, ⟨some text, faults⟩) := by
  obtain ⟨old, _ | ⟨_ | _, faults⟩⟩ := slate
  · exact .inr ⟨[], rfl⟩
  · exact .inr ⟨faults, rfl⟩
  · exact .inl ⟨faults, rfl⟩

theorem atomic (path : String) : Disk.Atomic Slate path where
  replaced slate after text written := by
    rcases place_cases slate (Path.directoryOf path) path text with ⟨_, outcome⟩ | ⟨_, outcome⟩
    · rw [outcome] at written
      cases written
    · rw [outcome] at written
      cases written
      exact ⟨rfl, rfl⟩
  kept slate after text failed := by
    rcases place_cases slate (Path.directoryOf path) path text with ⟨_, outcome⟩ | ⟨_, outcome⟩
    · rw [outcome] at failed
      cases failed
      exact ⟨rfl, rfl⟩
    · rw [outcome] at failed
      cases failed

end Slate

end Blocklist
