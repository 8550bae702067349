import Blocklist.Json.Decode
import Blocklist.Metadata.Basic

/-!
The JSON forms of metadata, of its overrides and of counts.
-/

namespace Blocklist

namespace ListStats

def toJson (s : ListStats) : Json :=
  .object [("totalRules", .int s.totalRules), ("blockingRules", .int s.blockingRules),
    ("unblockingRules", .int s.unblockingRules)]

def ofJson? (value : Json) : Option ListStats := do
  match ← value.fields ["totalRules", "blockingRules", "unblockingRules"] with
  | [total, blocking, unblocking] =>
    return ⟨← Json.required Json.asNat64? total, ← Json.required Json.asNat64? blocking,
      ← Json.required Json.asNat64? unblocking⟩
  | _ => none

end ListStats

namespace Summary

def toJson (s : Summary) : Json :=
  .object [("total_rules", .int s.total),
    ("rule_types", .object (s.kinds.map fun e => (e.1.name, .int e.2))),
    ("categories", .object (s.categories.map fun e => (e.1.name, .int e.2)))]

end Summary

namespace Metadata

/-- The JSON form of metadata; absent entries are left out. -/
def toJson (m : Metadata) : Json :=
  let entry (name : String) (value : Option String) : List (String × Json) :=
    match value with
    | some text => [(name, .string text)]
    | none => []
  let stats : List (String × Json) := match m.stats with
    | some s => [("stats", s.toJson)]
    | none => []
  .object ([("title", .string m.title), ("description", .string m.description),
    ("homepage", .string m.homepage), ("version", .string m.version),
    ("lastUpdated", .string m.lastUpdated)] ++ entry "website" m.website ++
    entry "madeby" m.madeby ++ entry "expires" m.expires ++ entry "license" m.license ++ stats)

def fieldNames : List String :=
  ["title", "description", "homepage", "version", "lastUpdated", "website", "madeby", "expires",
    "license", "stats"]

def ofJson? (value : Json) : Option Metadata := do
  match ← value.fields fieldNames with
  | [title, description, homepage, version, lastUpdated, website, madeby, expires, license, stats] =>
    return {
      title := ← Json.required Json.asString? title
      description := ← Json.required Json.asString? description
      homepage := ← Json.required Json.asString? homepage
      version := ← Json.required Json.asString? version
      lastUpdated := ← Json.required Json.asString? lastUpdated
      website := ← Json.optionalField Json.asString? website
      madeby := ← Json.optionalField Json.asString? madeby
      expires := ← Json.optionalField Json.asString? expires
      license := ← Json.optionalField Json.asString? license
      stats := ← Json.optionalField ListStats.ofJson? stats }
  | _ => none

end Metadata

namespace MetadataOverrides

def fieldNames : List String :=
  ["title", "description", "homepage", "version", "website", "madeby", "expires", "license"]

/-- Holds unless the value is an array that lacks a field. -/
def isWhole : Json → Bool
  | .array items => items.length = fieldNames.length
  | _ => true

/-- Reads overrides; an array has to have all fields. -/
def ofJson? (value : Json) : Option MetadataOverrides := do
  match ← value.fields fieldNames with
  | [title, description, homepage, version, website, madeby, expires, license] =>
    if isWhole value then
      return {
        title := ← Json.optionalField Json.asString? title
        description := ← Json.optionalField Json.asString? description
        homepage := ← Json.optionalField Json.asString? homepage
        version := ← Json.optionalField Json.asString? version
        website := ← Json.optionalField Json.asString? website
        madeby := ← Json.optionalField Json.asString? madeby
        expires := ← Json.optionalField Json.asString? expires
        license := ← Json.optionalField Json.asString? license }
    else none
  | _ => none

end MetadataOverrides

end Blocklist
