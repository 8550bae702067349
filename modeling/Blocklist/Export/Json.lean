import Blocklist.Export
import Blocklist.Json.Decode

/-!
The JSON form of export options: one object with the fields of a selection and the formats.
-/

namespace Blocklist

def Selection.jsonMembers (s : Selection) : List (String × Json) :=
  [("categories", .strings (s.categories.map Category.name)),
    ("excludeCategories", .strings (s.excluded.map Category.name)),
    ("minPriority", match s.minPriority with
      | some least => .int least.toInt
      | none => .null),
    ("tags", .strings s.tags)]

namespace ExportOptions

/-- The JSON form, with every field spelled out. -/
def toJson (o : ExportOptions) : Json :=
  .object (o.selection.jsonMembers ++ [("formats", .strings o.formats)])

/-- Reads options; only an object will do, and all its parts have to mean something. -/
def ofJson? (value : Json) : Option ExportOptions :=
  match value with
  | .object members => do
    if value.isMeaningful then
      let formats ← Json.member? "formats" members
      return {
        selection := ← (value.fields Selection.fieldNames).bind
          (Selection.ofFields? fun v => v.looseChoiceName?.bind Category.ofName?)
        formats := ← Json.fieldOr ["adguard"] Json.asStrings? formats }
    else none
  | _ => none

end ExportOptions

end Blocklist
