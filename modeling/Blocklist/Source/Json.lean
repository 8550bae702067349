import Blocklist.Category
import Blocklist.Json.Decode
import Blocklist.Text.Basic

/-!
Sources of filter lists: an entry as it is configured, with every field optional, its JSON form, and the
source it resolves to. Resolving checks name, address, scheme and category in this order and fills in
defaults.
-/

namespace Blocklist

structure SourceEntry where
  name : Option String := none
  url : Option String := none
  category : Option String := none
  enabled : Option Bool := none
  priority : Option Priority := none
  trusted : Option Bool := none
  deriving DecidableEq, Repr, Inhabited

structure Source where
  name : String
  url : String
  category : Category
  enabled : Bool
  priority : Priority
  trusted : Bool
  deriving DecidableEq, Repr

namespace SourceEntry

def fieldNames : List String := ["name", "url", "category", "enabled", "priority", "trusted"]

def ofJson? (value : Json) : Option SourceEntry := do
  match ← value.fields fieldNames with
  | [name, url, category, enabled, priority, trusted] =>
    return {
      name := ← Json.optionalField Json.asString? name
      url := ← Json.optionalField Json.asString? url
      category := ← Json.optionalField Json.asString? category
      enabled := ← Json.optionalField Json.asBool? enabled
      priority := ← Json.optionalField Json.asInt32? priority
      trusted := ← Json.optionalField Json.asBool? trusted }
  | _ => none

/-- An entry is enabled unless it says otherwise. -/
def isEnabled (entry : SourceEntry) : Bool := entry.enabled.getD true

/-- The name for messages; an entry without a visible name has a stand-in. -/
def displayName (entry : SourceEntry) : String :=
  match entry.name with
  | some name => if Text.isBlankText name then "<unnamed>" else name
  | none => "<unnamed>"

/-- The trimmed text of a field, if anything is left of it. -/
def filled (field : Option String) : Option String :=
  match field with
  | some text => if Text.isBlankText text then none else some (Text.trimmed text)
  | none => none

def isWebUrl (url : String) : Bool :=
  "http://".toList.isPrefixOf url.toList || "https://".toList.isPrefixOf url.toList

/-- The source that an entry stands for, or what is wrong with it first. -/
def resolve (entry : SourceEntry) : Except Error Source :=
  match filled entry.name with
  | none => .error (.config .unnamedSource)
  | some name =>
    match filled entry.url with
    | none => .error (.config (.sourceWithoutUrl name))
    | some url =>
      if isWebUrl url then
        match filled entry.category with
        | none => .error (.config (.sourceWithoutCategory name))
        | some label =>
          match Category.parse label with
          | .error e => .error e
          | .ok category => .ok {
              name, url, category
              enabled := entry.isEnabled
              priority := entry.priority.getD category.priority
              trusted := entry.trusted.getD false }
      else .error (.config (.sourceUrl name url))

end SourceEntry

def Source.entry (source : Source) : SourceEntry where
  name := some source.name
  url := some source.url
  category := some source.category.name
  enabled := some source.enabled
  priority := some source.priority
  trusted := some source.trusted

end Blocklist
