import Blocklist.Store.Selection

/-!
What a list says about itself: title, addresses, version, the time of its last change and optional
entries. A configuration may override each entry of the default.
-/

namespace Blocklist

/-- The entries at the head of a list; `lastUpdated` is the text of a time. -/
structure Metadata where
  title : String
  description : String
  homepage : String
  version : String
  lastUpdated : String
  website : Option String := none
  madeby : Option String := none
  expires : Option String := none
  license : Option String := none
  stats : Option ListStats := none
  deriving DecidableEq, Repr

namespace Metadata

def defaultHomepage : String := "https://github.com/danielhipskind/blockingmachine"

def default (now : String) : Metadata where
  title := "Blockingmachine Filter List"
  description := "Combined filter list from multiple sources"
  homepage := defaultHomepage
  version := "1.0.0"
  lastUpdated := now
  website := some defaultHomepage
  madeby := some "Blockingmachine"
  expires := some "1 day"
  license := some "BSD-3-Clause"

def touch (m : Metadata) (now : String) : Metadata := { m with lastUpdated := now }

/-- The entries with the counts of these records, unless they have counts already. -/
def withStats (m : Metadata) (records : List Record) : Metadata :=
  match m.stats with
  | some _ => m
  | none => { m with stats := some (ListStats.ofRecords records) }

end Metadata

structure MetadataOverrides where
  title : Option String := none
  description : Option String := none
  homepage : Option String := none
  version : Option String := none
  website : Option String := none
  madeby : Option String := none
  expires : Option String := none
  license : Option String := none
  deriving DecidableEq, Repr, Inhabited

/-- The default entries with the configured ones in their place. -/
def MetadataOverrides.resolve (o : MetadataOverrides) (now : String) : Metadata :=
  let base := Metadata.default now
  { base with
    title := o.title.getD base.title
    description := o.description.getD base.description
    homepage := o.homepage.getD base.homepage
    version := o.version.getD base.version
    website := o.website <|> base.website
    madeby := o.madeby <|> base.madeby
    expires := o.expires <|> base.expires
    license := o.license <|> base.license }

end Blocklist
