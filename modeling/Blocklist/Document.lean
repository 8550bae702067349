import Blocklist.Error
import Blocklist.Metadata.Basic
import Blocklist.Text.Basic

/-!
The document that publishes records in one format: a head of comments, an empty line, and one line per
record. Six of the formats block one host per line in the words of some program; two keep the text of every
rule.
-/

namespace Blocklist

inductive Format where
  | hosts | dnsmasq | unbound | bind | privoxy | shadowrocket | adguard | abp
  deriving DecidableEq, Repr

namespace Format

def all : List Format := [hosts, dnsmasq, unbound, bind, privoxy, shadowrocket, adguard, abp]

def name : Format → String
  | hosts => "hosts"
  | dnsmasq => "dnsmasq"
  | unbound => "unbound"
  | bind => "bind"
  | privoxy => "privoxy"
  | shadowrocket => "shadowrocket"
  | adguard => "adguard"
  | abp => "abp"

def ofName? (name : String) : Option Format := all.find? fun f => f.name = name

/-- The format that a text names, whatever its case and surrounding blanks. -/
def parse? (text : String) : Option Format := ofName? (Text.lowered (Text.trimmed text))

def parse (text : String) : Except Error Format :=
  match parse? text with
  | some f => .ok f
  | none => .error (.unsupportedFormat text)

def isAll (text : String) : Bool :=
  (Text.trim text.toList).map Char.toLower = "all".toList

/-- The formats that an identifier denotes: one, or every one. -/
def expand (id : String) : Except Error (List Format) :=
  if isAll id then .ok all
  else
    match parse id with
    | .ok f => .ok [f]
    | .error e => .error e

def fileName (f : Format) : String := "blocklist." ++ f.name

def commentMark : Format → String
  | bind => "//"
  | adguard | abp => "!"
  | _ => "#"

/-- The line that blocks a host, in the formats that have one. -/
def blockingLine (f : Format) (host : String) : Option String :=
  match f with
  | hosts => some ("0.0.0.0 " ++ host)
  | dnsmasq => some ("address=/" ++ host ++ "/")
  | unbound => some ("local-zone: \"" ++ host ++ "\" static")
  | bind =>
    some ("zone \"" ++ host ++ "\" \x7b type master; file \"null.zone.file\"; \x7d;")
  | privoxy => some ("\x7b +block \x7b " ++ host ++ " \x7d \x7d")
  | shadowrocket => some ("DOMAIN-SUFFIX," ++ host ++ ",REJECT")
  | adguard | abp => none

end Format

end Blocklist

namespace Blocklist.Document

def unlines (lines : List String) : String := String.join (lines.map (· ++ "\n"))

/-- The line of a record: the blocking line of its host if there is one, or else the rule's text. -/
def ruleLine (r : Record) (f : Format) : String :=
  match r.domain with
  | none => r.raw
  | some host => if host.isEmpty then r.raw else (f.blockingLine host).getD r.raw

def comment (f : Format) (label value : String) : String :=
  f.commentMark ++ " " ++ label ++ ": " ++ value

def optionalComment (f : Format) (label : String) (value : Option String) : List String :=
  match value with
  | some text => [comment f label text]
  | none => []

def statsComments (f : Format) (stats : Option ListStats) : List String :=
  match stats with
  | some s => [comment f "Total rules" (toString s.totalRules),
      comment f "Blocking rules" (toString s.blockingRules),
      comment f "Unblocking rules" (toString s.unblockingRules)]
  | none => []

/-- The lines of the head; the unbound format opens its server section there. -/
def headLines (m : Metadata) (f : Format) : List String :=
  [comment f "Title" m.title, comment f "Description" m.description,
    comment f "Homepage" m.homepage, comment f "Version" m.version,
    comment f "Last updated" m.lastUpdated] ++
  optionalComment f "Website" m.website ++ optionalComment f "Made by" m.madeby ++
  optionalComment f "Expires" m.expires ++ optionalComment f "License" m.license ++
  statsComments f m.stats ++ (if f = .unbound then ["server:"] else [])

def head (m : Metadata) (f : Format) : String := unlines (headLines m f)

def text (records : List Record) (m : Metadata) (f : Format) : String :=
  head m f ++ "\n" ++ unlines (records.map fun r => ruleLine r f)

end Blocklist.Document
