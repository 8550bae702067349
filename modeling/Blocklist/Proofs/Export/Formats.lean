import Blocklist.Export
import Blocklist.Proofs.Disk.Paths
import Mathlib.Data.List.Induction
import Mathlib.Data.List.Nodup

/-!
The formats of an export and the names of their documents. Main statements: no two formats share a name,
identifiers denote no format twice, and those that denote none are told apart in their order.
-/

namespace Blocklist

namespace Format

theorem mem_all (f : Format) : f ∈ all := by
  cases f <;> decide

theorem ofName?_name (f : Format) : ofName? f.name = some f := by
  cases f <;> rfl

theorem name_injective : Function.Injective name := by
  intro f g same
  have found := ofName?_name f
  rw [same, ofName?_name, Option.some.injEq] at found
  exact found.symm

theorem fileName_injective : Function.Injective fileName := by
  intro f g same
  have spelled := congrArg String.toList same
  rw [fileName, fileName, String.toList_append, String.toList_append] at spelled
  exact name_injective (String.toList_inj.mp (List.append_cancel_left spelled))

theorem isPart_fileName (f : Format) : Path.IsPart f.fileName := by
  cases f <;> exact ⟨by decide, by decide, by decide⟩

theorem fileName_ne_up (f : Format) : f.fileName ≠ ".." := by
  cases f <;> decide

theorem isName_fileName (f : Format) : Path.isName f.fileName = true := by
  cases f <;> decide

end Format

namespace ExportOptions

theorem nodup_addMissing {formats : List Format} (distinct : formats.Nodup) (more : List Format) :
    (addMissing formats more).Nodup := by
  unfold addMissing
  induction more generalizing formats with
  | nil => exact distinct
  | cons f more ih =>
    rw [List.foldl_cons]
    split
    · exact ih distinct
    · next missing =>
      rw [List.contains_iff_mem] at missing
      have longer := distinct.concat missing
      rw [List.concat_eq_append] at longer
      exact ih longer

/-- What one more identifier adds to the formats, or to the unknown ones. -/
theorem resolveIds_concat (ids : List String) (id : String) :
    resolveIds (ids ++ [id]) =
      match Format.expand id with
      | .ok more => (addMissing (resolveIds ids).1 more, (resolveIds ids).2)
      | .error _ => ((resolveIds ids).1, (resolveIds ids).2 ++ [id]) := by
  rw [resolveIds, List.foldl_append]
  rfl

theorem nodup_resolveIds (ids : List String) : (resolveIds ids).1.Nodup := by
  induction ids using List.reverseRecOn with
  | nil => exact List.nodup_nil
  | append_singleton ids id ih =>
    rw [resolveIds_concat]
    split
    · exact nodup_addMissing ih _
    · exact ih

/-- The identifiers that denote no format, in their order. -/
def unrecognised (ids : List String) : List String :=
  ids.filter fun id => !(Format.expand id).isOk

theorem snd_resolveIds (ids : List String) : (resolveIds ids).2 = unrecognised ids := by
  induction ids using List.reverseRecOn with
  | nil => rfl
  | append_singleton ids id ih =>
    rw [resolveIds_concat, unrecognised, List.filter_append, List.filter_singleton]
    split
    · next known =>
      rw [known]
      exact ih.trans (List.append_nil _).symm
    · next unknown =>
      rw [unknown, ih]
      rfl

end ExportOptions

namespace Export

end Export

end Blocklist
