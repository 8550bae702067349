/-!
What can go wrong, by cause, and the wording of each cause. An error that concerns one source only is
told apart from one that ends a whole run.
-/

namespace Blocklist

inductive ConfigFault where
  | unreadable (path : String)
  | unnamedSource
  | sourceWithoutUrl (name : String)
  | sourceUrl (name url : String)
  | sourceWithoutCategory (name : String)
  | invalidSources (count : Nat)
  | notRuleLine
  | other (text : String)
  deriving DecidableEq, Repr

def ConfigFault.message : ConfigFault → String
  | .unreadable path => "cannot read " ++ path
  | .unnamedSource => "source must have a name and url"
  | .sourceWithoutUrl name => "source " ++ name ++ " must have a name and url"
  | .sourceUrl name url => "source " ++ name ++ " has an invalid url: " ++ url
  | .sourceWithoutCategory name => "source " ++ name ++ " must have a category"
  | .invalidSources count => toString count ++ " invalid source(s)"
  | .notRuleLine => "not a rule line"
  | .other text => text

inductive FetchFailure where
  | status (code : Nat)
  | transport (text : String)
  deriving DecidableEq, Repr

def FetchFailure.message : FetchFailure → String
  | .status code => "HTTP error! status: " ++ toString code
  | .transport text => "transport error: " ++ text

/-- Why a list could not be had: the last request failed, or its body could not be unpacked. -/
inductive FetchCause where
  | request (failure : FetchFailure)
  | undecodable
  | other (text : String)
  deriving DecidableEq, Repr

def FetchCause.message : FetchCause → String
  | .request failure => failure.message
  | .undecodable => "decode error"
  | .other text => text

/-- What can fail about the stored rules; a `path` is already written in quotes. -/
inductive StoreFault where
  | unreadable (path : String)
  | unparsable (path : String)
  | unwritable (path : String)
  | other (text : String)
  deriving DecidableEq, Repr

def StoreFault.message : StoreFault → String
  | .unreadable path => "failed to read " ++ path
  | .unparsable path => "failed to parse " ++ path
  | .unwritable path => "failed to write " ++ path
  | .other text => text

inductive Error where
  | config (fault : ConfigFault)
  | invalidCategory (text : String)
  | noSources
  | configNotFound (directory : String)
  | fetch (url : String) (attempts : Nat) (cause : FetchCause)
  | store (fault : StoreFault)
  | unsupportedFormat (id : String)
  | delayOverflow
  | io
  | yaml
  | json
  | http
  deriving DecidableEq, Repr

namespace Error

def message : Error → String
  | config fault => "configuration error: " ++ fault.message
  | invalidCategory text => "invalid category: " ++ text
  | noSources => "no sources configured: at least one source is required"
  | configNotFound directory => "no configuration file found in " ++ directory
  | fetch url attempts cause =>
    "failed to fetch " ++ url ++ " after " ++ toString attempts ++ " attempts: " ++ cause.message
  | store fault => "store error: " ++ fault.message
  | unsupportedFormat id => "unsupported format: " ++ id
  | delayOverflow => "overflow when multiplying duration by scalar"
  | io => "IO error"
  | yaml => "YAML parsing error"
  | json => "JSON error"
  | http => "HTTP client error"

/-- Holds of the errors that concern one source and leave the other sources of a run alone. -/
def isSourceScoped : Error → Bool
  | config _ | invalidCategory _ | fetch .. => true
  | _ => false

end Error

end Blocklist
