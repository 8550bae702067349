import Std.Time.DateTime.Timestamp
import Blocklist.CommandLine.Run
import Blocklist.Disk.Tree
import Blocklist.Instant.Text
import Blocklist.Instant.Basic

/-!
The program itself. It takes a picture of the files that a command can touch, runs the command on the
picture, and makes the same changes to the files. Requests for lists cannot leave the program, so every
one of them fails.
-/

namespace Blocklist.Program

def outside : Outside Instant where
  get _ world := (.error (.transport "no network"), world)
  pause _ world := world
  now world := (world, world)

def pathOf (l : Location) : String := "/" ++ "/".intercalate l

/-- What stands at a location. What cannot be read as text counts as a directory, since neither can be
read or replaced. -/
def lookAt (l : Location) : IO (Option Entry) := do
  let place := (← IO.currentDir) / pathOf l
  if ← place.isDir then return some .directory
  else if ← place.pathExists then
    try return some (.file (← IO.FS.readFile place))
    catch _ => return some .directory
  else return none

def see (t : FileTree) (l : Location) : IO FileTree := do
  match ← lookAt l with
  | some e => return t.put l e
  | none => return t

def seePath (t : FileTree) (path : String) : IO FileTree := do
  let (t, _) ← (Path.parts path).foldlM
    (fun (t, l) part => do
      let l := FileTree.stepTo l part
      return (← see t l, l))
    (t, t.startOf path)
  return t

def configPaths (directory : String) (settings : CommandLine.Settings) : List String :=
  match settings.config with
  | some path => [path]
  | none => Config.fileNames.map (Path.join directory)

def commandPaths (config : Config) (settings : CommandLine.Settings) : List String :=
  config.storeFile ::
    Format.all.map (Export.documentPath (settings.output.getD config.outputPath))

def picture (session : CommandLine.Session Instant) (arguments : List String) : IO FileTree := do
  let l := Path.parts session.directory
  let start ← seePath ⟨[], []⟩ session.directory
  let t : FileTree := { start with workingDirectory := l }
  match CommandLine.Request.ofArguments? arguments with
  | some (.run _ settings) =>
    let t ← (configPaths session.directory settings).foldlM seePath t
    match CommandLine.loadConfig session settings t with
    | .ok config => (commandPaths config settings).foldlM seePath t
    | .error _ => return t
  | _ => return t

def store (l : Location) : Entry → IO Unit
  | .directory => IO.FS.createDirAll (pathOf l)
  | .file text => do
    let fresh := pathOf l ++ ".new"
    IO.FS.writeFile fresh text
    IO.FS.rename fresh (pathOf l)

def apply (before after : FileTree) : IO Unit := do
  for (l, e) in before.entries do
    if (after.entry? l).isNone && e != .directory then IO.FS.removeFile (pathOf l)
  for (l, e) in after.entries do
    if before.entry? l != some e then store l e

def start (arguments : List String) : IO UInt32 := do
  let directory := (← IO.currentDir).toString
  let seconds := (← Std.Time.Timestamp.now).toSecondsSinceUnixEpoch
  match Instant.ofUnixSeconds? seconds.val with
  | none =>
    IO.eprintln "Error: the clock is out of range"
    return 1
  | some now =>
    let session := { directory, now := now.render, outside := outside }
    let before ← picture session arguments
    let result := CommandLine.run session arguments before now
    apply before result.disk
    IO.print result.output
    IO.eprint result.errors
    return result.exitCode.toUInt32

end Blocklist.Program

def main (arguments : List String) : IO UInt32 := Blocklist.Program.start arguments
