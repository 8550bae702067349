import Blocklist.Fingerprint
import Blocklist.Instant.Basic
import Blocklist.Names
import Blocklist.Rule.Classified
import Blocklist.Source.Json

/-!
The record kept for a rule: its text and kind, where and when it was seen, under which category it is
listed, and the variants of its text. A candidate is the record of one sighting.
-/

namespace Blocklist

/-- One spelling of a rule, as one source gave it. -/
structure Variant where
  text : String
  sourceName : String
  added : Instant
  modifiers : List Rule.Modifier
  tags : Names
  deriving DecidableEq, Repr

/-- What a record takes over from the source that decides its listing. -/
structure Origin where
  category : Category
  priority : Priority
  trusted : Bool
  url : String
  deriving DecidableEq, Repr

structure Record where
  raw : String
  kind : Rule.Kind
  domain : Option String
  hash : String
  sources : Names
  added : Instant
  updated : Instant
  enabled : Bool
  origin : Origin
  tags : Names
  variants : List Variant
  deriving DecidableEq, Repr

namespace Record

def category (r : Record) : Category := r.origin.category

def priority (r : Record) : Priority := r.origin.priority

def hasVariant (r : Record) (text : String) : Bool := r.variants.any fun v => v.text == text

def isException (r : Record) : Bool := r.kind == .exception

/-- The record of a rule seen now in a list of a source. A rule whose tags move it into another category
has that category's priority. -/
def candidate (rule : Rule.Classified) (source : Source) (now : Instant) : Record :=
  let tags := Names.ofList rule.tags
  { raw := rule.raw
    kind := rule.kind
    domain := rule.domain
    hash := fingerprint rule.raw
    sources := Names.ofList [source.name]
    added := now
    updated := now
    enabled := true
    origin := {
      category := rule.category
      priority :=
        if rule.category = source.category then source.priority else rule.category.priority
      trusted := source.trusted
      url := source.url }
    tags
    variants := [{
      text := rule.raw
      sourceName := source.name
      added := now
      modifiers := rule.modifiers
      tags }] }

end Record

end Blocklist
