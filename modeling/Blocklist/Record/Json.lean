import Blocklist.Instant.Text
import Blocklist.Json.Decode
import Blocklist.Json.Basic
import Blocklist.Json.Reader
import Blocklist.Record.Basic

/-!
The JSON form of records, which is the format of the store file. Names of kinds and categories are exact,
sets are arrays in ascending order, and an absent domain is left out.
-/

namespace Blocklist

namespace Instant

def toJson (t : Instant) : Json := .string t.render

def ofJson? (value : Json) : Option Instant := value.asString?.bind fun s => read? s.toList

end Instant

namespace Names

def toJson (names : Names) : Json := .strings names.toList

/-- Reads a set from members in any order. -/
def ofJson? (value : Json) : Option Names := value.asStrings?.map ofList

end Names

namespace Rule.Kind

def ofJson? (value : Json) : Option Kind := value.choiceName?.bind ofName?

end Rule.Kind

namespace Category

def ofJson? (value : Json) : Option Category := value.choiceName?.bind ofName?

end Category

namespace Rule.Modifier

/-- A modifier is an object with its sort under `kind`. -/
def toJson : Modifier → Json
  | domain domains => .object [("kind", .string "domain"), ("domains", .strings domains)]
  | value key given =>
    .object [("kind", .string "value"), ("name", .string key), ("value", .string given)]
  | flag key => .object [("kind", .string "flag"), ("name", .string key)]

def ofFields? (kind : String) (rest : Json) : Option Modifier :=
  if kind = "domain" then do
    match ← rest.fields ["domains"] with
    | [domains] => return domain (← Json.required Json.asStrings? domains)
    | _ => none
  else if kind = "value" then do
    match ← rest.fields ["name", "value"] with
    | [key, given] =>
      return value (← Json.required Json.asString? key) (← Json.required Json.asString? given)
    | _ => none
  else if kind = "flag" then do
    match ← rest.fields ["name"] with
    | [key] => return flag (← Json.required Json.asString? key)
    | _ => none
  else none

/-- Reads a modifier from an object with a member `kind`, or from an array that begins with the sort.
All its parts have to mean something, also those that are passed over. -/
def ofJson? (json : Json) : Option Modifier :=
  if json.isMeaningful then
    match json with
    | .object members => do
      let kind ← Json.member? "kind" members
      ofFields? (← Json.required Json.asString? kind)
        (.object (members.filter fun m => m.1 ≠ "kind"))
    | .array (kind :: rest) => do ofFields? (← kind.asString?) (.array rest)
    | _ => none
  else none

end Rule.Modifier

namespace Variant

def toJson (v : Variant) : Json :=
  .object [("ruleText", .string v.text), ("sourceName", .string v.sourceName),
    ("dateAdded", v.added.toJson), ("modifiers", .array (v.modifiers.map Rule.Modifier.toJson)),
    ("tags", v.tags.toJson)]

/-- Reads a variant; modifiers and tags may be absent. -/
def ofJson? (value : Json) : Option Variant := do
  match ← value.fields ["ruleText", "sourceName", "dateAdded", "modifiers", "tags"] with
  | [text, sourceName, added, modifiers, tags] =>
    return {
      text := ← Json.required Json.asString? text
      sourceName := ← Json.required Json.asString? sourceName
      added := ← Json.required Instant.ofJson? added
      modifiers := ← Json.fieldOr [] (Json.listOf Rule.Modifier.ofJson?) modifiers
      tags := ← Json.fieldOr Names.empty Names.ofJson? tags }
  | _ => none

end Variant

namespace Origin

def toJson (o : Origin) : Json :=
  .object [("category", .string o.category.name), ("priority", .int o.priority.toInt),
    ("trusted", .bool o.trusted), ("url", .string o.url)]

def ofJson? (value : Json) : Option Origin := do
  match ← value.fields ["category", "priority", "trusted", "url"] with
  | [category, priority, trusted, url] =>
    return {
      category := ← Json.required Category.ofJson? category
      priority := ← Json.required Json.asInt32? priority
      trusted := ← Json.required Json.asBool? trusted
      url := ← Json.required Json.asString? url }
  | _ => none

end Origin

namespace Record

/-- The part of a record that says where and when the rule was seen. -/
def metadataJson (r : Record) : Json :=
  .object [("sources", r.sources.toJson), ("dateAdded", r.added.toJson),
    ("lastUpdated", r.updated.toJson), ("enabled", .bool r.enabled),
    ("sourceInfo", r.origin.toJson), ("tags", r.tags.toJson)]

/-- The member for the domain, which is left out when there is none. -/
def domainMembers (r : Record) : List (String × Json) :=
  match r.domain with
  | some domain => [("domain", .string domain)]
  | none => []

def toJson (r : Record) : Json :=
  .object ([("raw", .string r.raw), ("type", .string r.kind.name)] ++ r.domainMembers ++
    [("hash", .string r.hash), ("metadata", r.metadataJson),
      ("variants", .array (r.variants.map Variant.toJson))])

/-- Reads a record; the domain and the variants may be absent. -/
def ofJson? (value : Json) : Option Record := do
  match ← value.fields ["raw", "type", "domain", "hash", "metadata", "variants"] with
  | [raw, kind, domain, hash, metadata, variants] =>
    let names := ["sources", "dateAdded", "lastUpdated", "enabled", "sourceInfo", "tags"]
    match ← Json.required (Json.fields names) metadata with
    | [sources, added, updated, enabled, origin, tags] =>
      return {
        raw := ← Json.required Json.asString? raw
        kind := ← Json.required Rule.Kind.ofJson? kind
        domain := ← Json.optionalField Json.asString? domain
        hash := ← Json.required Json.asString? hash
        sources := ← Json.required Names.ofJson? sources
        added := ← Json.required Instant.ofJson? added
        updated := ← Json.required Instant.ofJson? updated
        enabled := ← Json.required Json.asBool? enabled
        origin := ← Json.required Origin.ofJson? origin
        tags := ← Json.required Names.ofJson? tags
        variants := ← Json.fieldOr [] (Json.listOf Variant.ofJson?) variants }
    | _ => none
  | _ => none

/-- The text of a list of records, as the store file holds it. -/
def renderList (records : List Record) : String := (Json.array (records.map toJson)).render

def readList? (text : String) : Option (List Record) :=
  (Json.parse? text.toList).bind (Json.listOf ofJson?)

end Record

end Blocklist
