import Blocklist.Disk.Basic
import Blocklist.Error
import Blocklist.Export
import Blocklist.Metadata.Basic
import Blocklist.Source.Json
import Blocklist.Text.Basic
import Blocklist.Yaml.Decode

/-!
A configuration: the sources to take in, where the records and the published lists are kept, and the
defaults of a list. Relative paths start at a base directory. Read from YAML, a configuration needs at least
one source, and every value in its export options has to have a meaning, also where it is passed over.
-/

namespace Blocklist

structure Config where
  baseDirectory : Option String := none
  debug : Bool := false
  outputDirectory : String := "./filters/output"
  storePath : String := "./filters/rules.json"
  metadata : MetadataOverrides := {}
  exportOptions : ExportOptions := {}
  sources : List SourceEntry := []
  deriving DecidableEq, Repr, Inhabited

namespace Config

def resolvePath (config : Config) (path : String) : String :=
  match config.baseDirectory with
  | some base => Path.join base path
  | none => path

def outputPath (config : Config) : String := config.resolvePath config.outputDirectory

def storeFile (config : Config) : String := config.resolvePath config.storePath

/-- The configuration of a file whose base directory, unless it is set, is that of the file. -/
def basedAt (config : Config) (path : String) : Config :=
  { config with baseDirectory := config.baseDirectory <|> Path.parent? path }

def fileNames : List String :=
  [".blockingmachinerc", ".blockingmachinerc.yaml", ".blockingmachinerc.yml",
    "blockingmachine.config.yaml", "blockingmachine.config.yml"]

def discover [Disk δ] (directory : String) (disk : δ) : Except Error String :=
  match (fileNames.map (Path.join directory)).find? (Disk.isFile disk) with
  | some path => .ok path
  | none => .error (.configNotFound directory)

end Config

open Yaml

def SourceEntry.ofYaml (d : Document) (n : Node) : Reading SourceEntry := do
  match ← d.fields ["name", "url", "category", "enabled", "priority", "trusted"] n with
  | [name, url, category, enabled, priority, trusted] =>
    return {
      name := ← d.optionalField d.readString name
      url := ← d.optionalField d.readString url
      category := ← d.optionalField d.readString category
      enabled := ← d.optionalField d.readBool enabled
      priority := ← d.optionalField d.readInt32 priority
      trusted := ← d.optionalField d.readBool trusted }
  | _ => failure

def MetadataOverrides.ofYaml (d : Document) (n : Node) : Reading MetadataOverrides := do
  let names :=
    ["title", "description", "homepage", "version", "website", "madeby", "expires", "license"]
  match ← (← d.fields names n).mapM (d.optionalField d.readString) with
  | [title, description, homepage, version, website, madeby, expires, license] =>
    return { title, description, homepage, version, website, madeby, expires, license }
  | _ => failure

/-- The category that a key stands for: by its name, or by its place in the list of all. -/
def Category.ofKey? : Value → Option Category
  | .string name => ofName? name
  | .natural place => all[place]?
  | _ => none

/-- Reads a category: its name, or a mapping from a key for it to nothing. -/
def Category.ofValue? : Value → Option Category
  | .string name => ofName? name
  | .mapping [(key, value)] => if value.isUnit then ofKey? key else none
  | _ => none

def Priority.ofValue? : Value → Option (Option Priority)
  | .null => some none
  | .natural n => (int32? n).map some
  | .negative n => (int32? n).map some
  | _ => none

def Selection.tagOfValue? : Value → Option String
  | .string tag => some tag
  | _ => none

/-- Reads a list that is empty when it is absent. -/
def listOfValue? (item : Value → Option α) : Option Value → Option (List α)
  | none => some []
  | some (.sequence items) => items.mapM item
  | some _ => none

def Selection.ofValues? (members : List (String × Value)) : Option Selection := do
  let minPriority ← member? "minPriority" members
  return {
    categories := ← listOfValue? Category.ofValue? (← member? "categories" members)
    excluded := ← listOfValue? Category.ofValue? (← member? "excludeCategories" members)
    minPriority := ← (minPriority.map Priority.ofValue?).getD (some none)
    tags := ← listOfValue? tagOfValue? (← member? "tags" members) }

/-- How deep collections may lie inside each other within the export options. -/
def ExportOptions.depth : Nat := 126

/-- Reads export options. Formats are strings in any form. -/
def ExportOptions.ofYaml (d : Document) (n : Node) : Reading ExportOptions := do
  let members ← d.members n
  let formats ← StateT.lift (member? "formats" members)
  let others ← (members.filter fun m => m.1 != "formats").mapM fun (m : String × Node) => do
    return (m.1, ← d.value depth m.2)
  return {
    selection := ← StateT.lift (Selection.ofValues? others)
    formats := ← Document.fieldOr ["adguard"] (d.listOf d.readString) formats }

namespace Config

def readText (d : Document) (name fallback : String) (n : Node) : Reading String := do
  match ← d.fields [name] n with
  | [value] => Document.fieldOr fallback d.readString value
  | _ => failure

/-- Reads a configuration, which may still lack sources. -/
def ofYaml (d : Document) (n : Node) : Reading Config := do
  let fresh : Config := {}
  match ← d.fields ["baseDir", "debug", "output", "store", "meta", "export", "sources"] n with
  | [base, debug, output, store, metadata, exportOptions, sources] =>
    return {
      baseDirectory := ← d.optionalField d.readString base
      debug := ← Document.fieldOr fresh.debug d.readBool debug
      outputDirectory := ← Document.fieldOr fresh.outputDirectory
        (readText d "directory" fresh.outputDirectory) output
      storePath := ← Document.fieldOr fresh.storePath (readText d "path" fresh.storePath) store
      metadata := ← Document.fieldOr fresh.metadata (MetadataOverrides.ofYaml d) metadata
      exportOptions := ← Document.fieldOr fresh.exportOptions (ExportOptions.ofYaml d) exportOptions
      sources := ← Document.fieldOr [] (d.listOf (SourceEntry.ofYaml d)) sources }
  | _ => failure

def parse (text : String) : Except Error Config :=
  match (Document.ofText? text).bind fun d => d.read? (ofYaml d) with
  | none => .error .yaml
  | some config => if config.sources.isEmpty then .error .noSources else .ok config

def load [Disk δ] (path : String) (disk : δ) : Except Error Config :=
  match Disk.readText disk path with
  | none => .error (.config (.unreadable path))
  | some text => (parse text).map fun config => config.basedAt path

end Config

end Blocklist
