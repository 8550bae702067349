import Blocklist.Category
import Blocklist.CommandLine.Switch
import Blocklist.Export
import Blocklist.Text.Basic

/-!
The commands of the program with their settings, read from the arguments of a command line. A setting
that is not a list is given at most once.
-/

namespace Blocklist.CommandLine

inductive Command where
  | intake | publish | validate | stats | cleanup
  deriving DecidableEq, Repr

namespace Command

def word : Command → String
  | intake => "import"
  | publish => "export"
  | validate => "validate"
  | stats => "stats"
  | cleanup => "cleanup"

def all : List Command := [intake, publish, validate, stats, cleanup]

end Command

structure Settings where
  config : Option String := none
  debug : Bool := false
  output : Option String := none
  formats : List String := []
  categories : List Category := []
  excluded : List Category := []
  minPriority : Option Priority := none
  tags : List String := []
  verbose : Bool := false
  sample : Option Nat := none
  dropStore : Bool := false
  deriving DecidableEq, Repr, Inhabited

def digits? (ds : List Char) : Option Nat :=
  if ds.isEmpty || !ds.all Char.isDigit then none else some (Text.digitsValue ds)

/-- A natural number of 64 bits, with or without a plus sign. -/
def natural? (text : String) : Option Nat := do
  let n ← match text.toList with
    | '+' :: ds => digits? ds
    | ds => digits? ds
  if isInt64 n then return n else none

/-- An integer of 32 bits, with or without a sign. -/
def integer? (text : String) : Option Int32 := do
  let n ← match text.toList with
    | '+' :: ds => (digits? ds).map Int.ofNat
    | '-' :: ds => (digits? ds).map fun n => -(n : Int)
    | ds => (digits? ds).map Int.ofNat
  int32? n

/-- A path, which is not empty. -/
def path? (text : String) : Option String := if text.isEmpty then none else some text

def category? (text : String) : Option Category :=
  match Category.parse text with
  | .ok c => some c
  | .error _ => none

namespace Settings

def common : List (Switch Settings) :=
  [{ long := "config", short := some 'c', effect := .value fun text s =>
      if s.config.isSome then none else (path? text).map fun p => { s with config := some p } },
    { long := "debug", short := some 'd', effect := .flag fun s =>
      if s.debug then none else some { s with debug := true } },
    { long := "help", short := some 'h', effect := .halt .help }]

def leading : List (Switch Settings) :=
  common ++ [{ long := "version", short := some 'V', effect := .halt .version }]

def publishing : List (Switch Settings) :=
  [{ long := "output", short := some 'o', effect := .value fun text s =>
      if s.output.isSome then none else (path? text).map fun p => { s with output := some p } },
    { long := "format", short := some 'f', effect := .value fun text s =>
      some { s with formats := s.formats ++ [text] } },
    { long := "category", effect := .value fun text s =>
      (category? text).map fun c => { s with categories := s.categories ++ [c] } },
    { long := "exclude-category", effect := .value fun text s =>
      (category? text).map fun c => { s with excluded := s.excluded ++ [c] } },
    { long := "min-priority", effect := .value fun text s =>
      if s.minPriority.isSome then none
      else (integer? text).map fun p => { s with minPriority := some p } },
    { long := "tag", effect := .value fun text s => some { s with tags := s.tags ++ [text] } }]

def ofCommand : Command → List (Switch Settings)
  | .intake => []
  | .publish => publishing
  | .validate =>
    [{ long := "verbose", short := some 'v', effect := .flag fun s =>
      if s.verbose then none else some { s with verbose := true } }]
  | .stats =>
    [{ long := "sample", effect := .value fun text s =>
      if s.sample.isSome then none else (natural? text).map fun n => { s with sample := some n } }]
  | .cleanup =>
    [{ long := "drop-store", effect := .flag fun s =>
      if s.dropStore then none else some { s with dropStore := true } }]

/-- The settings after a command, with the common ones from before it where they are missing. -/
def orElse (s before : Settings) : Settings :=
  { s with config := s.config <|> before.config, debug := s.debug || before.debug }

def override (s : Settings) (o : ExportOptions) : ExportOptions where
  formats := if s.formats.isEmpty then o.formats else s.formats
  selection := {
    categories := if s.categories.isEmpty then o.selection.categories else s.categories
    excluded := if s.excluded.isEmpty then o.selection.excluded else s.excluded
    minPriority := s.minPriority <|> o.selection.minPriority
    tags := if s.tags.isEmpty then o.selection.tags else s.tags }

end Settings

inductive Request where
  | help | version
  | run (command : Command) (settings : Settings)
  deriving DecidableEq, Repr

def Halt.request : Halt → Request
  | .help => .help
  | .version => .version

def readCommand (before : Settings) (command : Command) (arguments : List String) :
    Option Request :=
  match readSwitches (Settings.ofCommand command ++ Settings.common) arguments {} with
  | some (.done settings []) => some (.run command (settings.orElse before))
  | some (.halt reason) => some reason.request
  | _ => none

def readHelp : List String → Option Request
  | [] => some .help
  | [name] => if name = "help" || Command.all.any (fun c => c.word == name) then some .help else none
  | _ => none

/-- The request of a command line; `none` if it makes no sense. -/
def Request.ofArguments? (arguments : List String) : Option Request :=
  match readSwitches Settings.leading arguments {} with
  | some (.done before (name :: rest)) =>
    if name = "help" then readHelp rest
    else
      match Command.all.find? fun c => c.word == name with
      | some command => readCommand before command rest
      | none => none
  | some (.halt reason) => some reason.request
  | _ => none

end Blocklist.CommandLine
