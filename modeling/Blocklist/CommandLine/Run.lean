import Blocklist.CommandLine.Command
import Blocklist.Config
import Blocklist.Disk.Basic
import Blocklist.Intake
import Blocklist.Store.File

/-!
What the commands do and print. Nothing here touches the outside: the disk, the network and the time are
arguments, and the disk afterwards is part of the result.
-/

namespace Blocklist.CommandLine

structure Session (ω : Type) where
  directory : String
  now : String
  outside : Outside ω

structure Progress (δ ω : Type) where
  lines : List String := []
  error : Option Error := none
  disk : δ
  world : ω

namespace Progress

variable {δ ω : Type}

def say (p : Progress δ ω) (lines : List String) : Progress δ ω := { p with lines := p.lines ++ lines }

def fail (p : Progress δ ω) (e : Error) : Progress δ ω := { p with error := some e }

def andThen (p : Progress δ ω) (value : Except Error α) (rest : α → Progress δ ω) : Progress δ ω :=
  match value with
  | .ok a => rest a
  | .error e => p.fail e

end Progress

variable {δ ω : Type} [Disk δ]

def runLines (s : RunStats) : List String :=
  ["Sources: " ++ toString s.attempted ++ " attempted, " ++ toString s.succeeded ++
      " succeeded, " ++ toString s.failed ++ " failed",
    "Rules: " ++ toString s.totalRules ++ " processed, " ++ toString s.uniqueRules ++ " unique"] ++
  s.rulesPerSource.map (fun e => "  " ++ e.1 ++ ": " ++ toString e.2) ++
  s.rulesPerCategory.map (fun e => "  [" ++ e.1.name ++ "] " ++ toString e.2) ++
  s.errors.map fun e => "  Failed " ++ e.source ++ ": " ++ e.error

def takeIn (session : Session ω) (config : Config) (p : Progress δ ω) : Progress δ ω :=
  p.andThen (FileStore.openAt config.storeFile p.disk) fun store =>
    let (result, store, world) :=
      Intake.run session.outside RetryPolicy.standard config.sources store p.world
    let p := { p with disk := store.disk, world }
    p.andThen result fun stats =>
      p.say (runLines stats ++
        ["Store now holds " ++ toString store.memory.records.length ++ " rules"])

def reportLines (r : ExportReport) : List String :=
  r.written.map (fun path => "Wrote " ++ Path.quoted path) ++
  r.skipped.map (fun id => "Skipped unsupported format: " ++ id) ++
  r.failed.map (fun f => "Failed to write " ++ f.name) ++
  ["Exported " ++ toString r.ruleCount ++ " rules"]

def publish (session : Session ω) (config : Config) (settings : Settings) (p : Progress δ ω) :
    Progress δ ω :=
  p.andThen (FileStore.openAt config.storeFile p.disk) fun store =>
    let (report, disk) := Export.run store.memory.records
      (settings.output.getD config.outputPath) (config.metadata.resolve session.now)
      (settings.override config.exportOptions) p.disk
    { p with disk }.say (reportLines report)

/-- The line on a source, and whether it is wrong; a good source has a line only if all are wanted. -/
def checkSource (verbose : Bool) (entry : SourceEntry) : List String × Bool :=
  match entry.resolve with
  | .ok s =>
    (if verbose then
      ["ok      " ++ s.name ++ " [" ++ s.category.name ++ "] priority=" ++
        toString s.priority.toInt ++ " trusted=" ++ toString s.trusted ++ " enabled=" ++
        toString s.enabled]
    else [], false)
  | .error e => (["invalid " ++ entry.displayName ++ ": " ++ e.message], true)

def validate (config : Config) (settings : Settings) (p : Progress δ ω) : Progress δ ω :=
  let checks := config.sources.map (checkSource settings.verbose)
  let total := config.sources.length
  let invalid := checks.countP Prod.snd
  let p := p.say (checks.flatMap Prod.fst ++
    [toString total ++ " source(s), " ++ toString (total - invalid) ++ " valid, " ++
      toString invalid ++ " invalid"])
  if invalid = 0 then p else p.fail (.config (.invalidSources invalid))

def statsLines (records : List Record) (sample : Nat) : List String :=
  let summary := Summary.ofRecords records
  ["Total rules: " ++ toString summary.total, "By type:"] ++
  summary.kinds.map (fun e => "  " ++ e.1.name ++ ": " ++ toString e.2) ++
  ["By category:"] ++
  summary.categories.map (fun e => "  " ++ e.1.name ++ ": " ++ toString e.2) ++
  (if sample = 0 || records.isEmpty then []
  else "Sample rules:" :: (records.take sample).map fun r =>
    "  " ++ r.raw ++ " (" ++ r.kind.name ++ ", " ++ r.category.name ++ ")")

def stats (config : Config) (settings : Settings) (p : Progress δ ω) : Progress δ ω :=
  p.andThen (FileStore.openAt config.storeFile p.disk) fun store =>
    p.say (statsLines store.memory.records (settings.sample.getD 5))

def dropStore (config : Config) (p : Progress δ ω) : Progress δ ω :=
  p.andThen (FileStore.openAt config.storeFile p.disk) fun store =>
    let count := store.memory.records.length
    let (result, store) := store.clear
    let p := { p with disk := store.disk }
    p.andThen result fun _ =>
      p.say ["Dropped " ++ toString count ++ " rules from " ++ Path.quoted store.path]

def cleanup (config : Config) (settings : Settings) (p : Progress δ ω) : Progress δ ω :=
  let (result, disk) := Export.clean config.outputPath p.disk
  let p := { p with disk }
  p.andThen result fun removed =>
    let p := p.say ["Removed " ++ toString removed ++ " exported file(s)"]
    if settings.dropStore then dropStore config p else p

def loadConfig (session : Session ω) (settings : Settings) (disk : δ) : Except Error Config := do
  let path ← match settings.config with
    | some path => pure path
    | none => Config.discover session.directory disk
  Config.load path disk

def perform (session : Session ω) (command : Command) (settings : Settings) (config : Config)
    (p : Progress δ ω) : Progress δ ω :=
  match command with
  | .intake => takeIn session config p
  | .publish => publish session config settings p
  | .validate => validate config settings p
  | .stats => stats config settings p
  | .cleanup => cleanup config settings p

structure Outcome (δ ω : Type) where
  exitCode : Nat
  output : String := ""
  errors : String := ""
  disk : δ
  world : ω

def linesText (lines : List String) : String := String.join (lines.map (· ++ "\n"))

def Progress.outcome (p : Progress δ ω) : Outcome δ ω where
  exitCode := if p.error.isSome then 1 else 0
  output := linesText p.lines
  errors := linesText (p.error.toList.map fun e => "Error: " ++ e.message)
  disk := p.disk
  world := p.world

def versionText : String := "blockingmachine 0.1.0\n"

def usageText : String :=
  "Usage: blockingmachine [--config PATH] [--debug] import|export|validate|stats|cleanup [OPTIONS]\n"

def run (session : Session ω) (arguments : List String) (disk : δ) (world : ω) : Outcome δ ω :=
  match Request.ofArguments? arguments with
  | none => { exitCode := 2, errors := usageText, disk, world }
  | some .help => { exitCode := 0, output := usageText, disk, world }
  | some .version => { exitCode := 0, output := versionText, disk, world }
  | some (.run command settings) =>
    let p : Progress δ ω := { disk, world }
    (p.andThen (loadConfig session settings disk) fun config =>
      perform session command settings config p).outcome

end Blocklist.CommandLine
