import Blocklist.Category
import Blocklist.Rule.Host
import Blocklist.Text.Basic

/-!
A filter rule read from a line of a list: its kind, the host it names, the modifiers after its last dollar
sign, and its tags. Comments and section headers are no rules. A heuristic takes a rule for one about mobile
apps: a telling word in any case, a vendor's package name, the file name of an app, or the address of an
app store.
-/

namespace Blocklist.Rule

/-- The kinds of rules, in the order in which counts are listed. -/
inductive Kind where
  | domain | regex | exception | cosmetic | unknown
  deriving DecidableEq, Repr

namespace Kind

def all : List Kind := [domain, regex, exception, cosmetic, unknown]

def name : Kind → String
  | domain => "domain"
  | regex => "regex"
  | exception => "exception"
  | cosmetic => "cosmetic"
  | unknown => "unknown"

def ofName? (name : String) : Option Kind := all.find? fun k => k.name = name

/-- The kind of this name in any case. -/
def parse? (text : String) : Option Kind := ofName? (Text.lowered text)

/-- Holds of a text of two or more characters that begins and ends with a slash. -/
def isSlashed (line : List Char) : Bool :=
  2 ≤ line.length && line.head? == some '/' && line.getLast? == some '/'

def ofLine (line : List Char) : Kind :=
  if "@@".toList.isPrefixOf line then exception
  else if isSlashed line then regex
  else if "||".toList.isPrefixOf line || line.contains '^' then domain
  else if Text.occursIn "##".toList line || Text.occursIn "#@#".toList line then cosmetic
  else unknown

def carriesDomain : Kind → Bool
  | cosmetic | regex => false
  | _ => true

end Kind

inductive Modifier where
  | domain (domains : List String)
  | value (name value : String)
  | flag (name : String)
  deriving DecidableEq, Repr

namespace Modifier

def name : Modifier → String
  | domain _ => "domain"
  | value key _ => key
  | flag key => key

/-- The modifier written as one token; an empty value is no value. -/
def ofToken (token : List Char) : Modifier :=
  match Text.splitOnce '=' token with
  | none => flag (String.ofList token)
  | some (key, []) => flag (String.ofList key)
  | some (key, given) =>
    if key = "domain".toList then domain ((Text.splitAt '|' given).map String.ofList)
    else value (String.ofList key) (String.ofList given)

/-- The modifiers of a rule line; none without a dollar sign. -/
def ofLine (line : List Char) : List Modifier :=
  match Text.afterLast '$' line with
  | none => []
  | some tail => (Text.splitAt ',' tail).map ofToken

def token : Modifier → List Char
  | domain domains => "domain=".toList ++ Text.joinWith ['|'] (domains.map String.toList)
  | value key given => key.toList ++ '=' :: given.toList
  | flag key => key.toList

def write (modifiers : List Modifier) : List Char := Text.joinWith [','] (modifiers.map token)

end Modifier

/-- Words that mark a mobile rule in any letter case. -/
def mobileWords : List String := ["mobile", "android", "ios", "app", "tablet"]

def vendorPackages : List String :=
  ["com.google", "com.android", "com.huawei", "com.xiaomi", "com.oppo", "com.vivo", "com.samsung"]

def appEndings : List String := [".apk", ".ipa", ".app"]

def appStores : List String := ["play.google.com", "apps.apple.com"]

def looksMobile (text : List Char) : Bool :=
  mobileWords.any (fun w => Text.occursIn w.toList (text.map Text.fold)) ||
    vendorPackages.any (fun p => Text.occursIn p.toList text) ||
    appEndings.any (fun e => e.toList.isSuffixOf text) ||
    appStores.any (fun s => Text.occursIn s.toList text)

/-- The tag that moves a rule into the category `mobile`. -/
def mobileTag : String := "mobile"

def effectiveCategory (declared : Category) (tags : List String) : Category :=
  if tags.contains mobileTag then .mobile else declared

structure Classified where
  raw : String
  kind : Kind
  domain : Option String
  modifiers : List Modifier
  tags : List String
  declared : Category
  deriving DecidableEq, Repr

namespace Classified

def isMobile (rule : Classified) : Bool := rule.tags.contains mobileTag

def category (rule : Classified) : Category := effectiveCategory rule.declared rule.tags

end Classified

/-- Holds of a line that is neither empty, nor a comment, nor a section header. -/
def isRuleLine : List Char → Bool
  | [] => false
  | c :: _ => c != '!' && c != '['

/-- The rule on a line, which is taken as it is; `none` for a line that is no rule. -/
def classify (declared : Category) (line : List Char) : Option Classified :=
  if isRuleLine line then
    let kind := Kind.ofLine line
    some {
      raw := String.ofList line
      kind
      domain := if kind.carriesDomain then (hostOf line).map String.ofList else none
      modifiers := Modifier.ofLine line
      tags := if declared = .mobile || looksMobile line then [mobileTag] else []
      declared }
  else none

end Blocklist.Rule
