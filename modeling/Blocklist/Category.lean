import Blocklist.Text.Basic
import Blocklist.Error

/-!
The registry of list categories. Each has a name, a description, a priority for its rules and a flag
that says whether it is on by default; names are read without regard to case and surrounding blanks.
-/

namespace Blocklist

/-- The rank of a rule, a whole number of 32 bits; higher ranks are listed first. -/
abbrev Priority := Int32

/-- The categories in registry order. -/
inductive Category where
  | advertising | tracking | malicious | social | utility | blockingmachine | privacy | security
  | mobile | gaming | dns | annoyances | custom
  deriving DecidableEq, Repr

namespace Category

def all : List Category :=
  [advertising, tracking, malicious, social, utility, blockingmachine, privacy, security, mobile,
    gaming, dns, annoyances, custom]

def name : Category → String
  | advertising => "advertising"
  | tracking => "tracking"
  | malicious => "malicious"
  | social => "social"
  | utility => "utility"
  | blockingmachine => "blockingmachine"
  | privacy => "privacy"
  | security => "security"
  | mobile => "mobile"
  | gaming => "gaming"
  | dns => "dns"
  | annoyances => "annoyances"
  | custom => "custom"

def description : Category → String
  | advertising => "Advertising domains"
  | tracking => "Tracking and telemetry domains"
  | malicious => "Malware and phishing domains"
  | social => "Social media domains"
  | utility => "Utility and functional domains"
  | blockingmachine => "Blockingmachine list"
  | privacy => "Privacy protection domains"
  | security => "Security threats"
  | mobile => "Mobile app tracking"
  | gaming => "Gaming related ads"
  | dns => "DNS related domains"
  | annoyances => "Annoyances and popups"
  | custom => "Custom user-defined domains"

/-- The priority of a rule whose source sets none. -/
def priority : Category → Priority
  | advertising => 10
  | tracking => 20
  | malicious => 0
  | social => 30
  | utility => 40
  | blockingmachine => 5
  | privacy => 15
  | security => 0
  | mobile => 25
  | gaming => 35
  | dns => 45
  | annoyances => 50
  | custom => 5

def enabled : Category → Bool
  | social | utility | gaming | annoyances => false
  | _ => true

def ofName? (name : String) : Option Category := all.find? fun c => c.name = name

/-- The category a text names, whatever its case and surrounding blanks. -/
def parse? (text : String) : Option Category := ofName? (Text.lowered (Text.trimmed text))

def parse (text : String) : Except Error Category :=
  match parse? text with
  | some c => .ok c
  | none => .error (.invalidCategory text)

end Category

end Blocklist
