import Blocklist.Disk.Basic

/-!
A disk as a value: a tree of directories and text files, listed by location, and a working directory from
which relative paths start.
-/

namespace Blocklist

inductive Entry where
  | directory
  | file (text : String)
  deriving DecidableEq, Repr

abbrev Location := List String

/-- A tree of files. The root is always a directory. -/
structure FileTree where
  workingDirectory : Location
  entries : List (Location × Entry)
  deriving DecidableEq, Repr

namespace FileTree

def entry? (t : FileTree) (l : Location) : Option Entry :=
  if l = [] then some .directory else t.entries.lookup l

def isDirectoryAt (t : FileTree) (l : Location) : Bool := t.entry? l == some .directory

def put (t : FileTree) (l : Location) (e : Entry) : FileTree :=
  { t with entries := t.entries.filter (fun x => x.1 != l) ++ [(l, e)] }

def take (t : FileTree) (l : Location) : FileTree :=
  { t with entries := t.entries.filter fun x => x.1 != l }

def startOf (t : FileTree) (path : String) : Location :=
  if Path.isAbsolute path then [] else t.workingDirectory

/-- One step along a path; it has to start in a directory. -/
def stepTo (l : Location) (part : String) : Location :=
  if part = ".." then l.dropLast else l ++ [part]

/-- The location that parts lead to; all but the last have to lead to directories. -/
def walk (t : FileTree) : Location → List String → Option Location
  | l, [] => some l
  | l, part :: parts =>
    if t.isDirectoryAt l && Path.isName part then walk t (stepTo l part) parts else none

def locate (t : FileTree) (path : String) : Option Location :=
  if Path.isUsable path then t.walk (t.startOf path) (Path.parts path) else none

def find? (t : FileTree) (path : String) : Option Entry :=
  match (t.locate path).bind t.entry? with
  | some (.file text) => if Path.endsInDirectory path then none else some (.file text)
  | found => found

/-- Makes directories along parts, until a file or a name that is too long is in the way. -/
def makeAlong : FileTree → Location → List String → Bool × FileTree
  | t, l, [] => (t.isDirectoryAt l, t)
  | t, l, part :: parts =>
    let next := stepTo l part
    match t.entry? next with
    | some .directory => makeAlong t next parts
    | some (.file _) => (false, t)
    | none => if Path.isName part then makeAlong (t.put next .directory) next parts else (false, t)

/-- Makes the directory of a path and all those above it. A single dot at the end of the path names the
directory before it, which is not made then and has to be there. -/
def makeDirectory (t : FileTree) (path : String) : Bool × FileTree :=
  let parts := Path.parts path
  if path.isEmpty then (true, t)
  else if !Path.isUsable path then (false, t)
  else if Path.endsInDot path then
    let made := (t.makeAlong (t.startOf path) parts.dropLast).2
    (((made.locate path).map made.isDirectoryAt).getD false, made)
  else t.makeAlong (t.startOf path) parts

/-- Writes a file of this text into a directory that is there. -/
def writeText (t : FileTree) (path text : String) : Bool × FileTree :=
  match t.locate path with
  | some l =>
    if Path.endsInDirectory path || t.isDirectoryAt l then (false, t)
    else (true, t.put l (.file text))
  | none => (false, t)

def readText (t : FileTree) (path : String) : Option String :=
  match t.find? path with
  | some (.file text) => some text
  | _ => none

def isFile (t : FileTree) (path : String) : Bool := (t.readText path).isSome

def remove (t : FileTree) (path : String) : Bool × FileTree :=
  match t.find? path, t.locate path with
  | some (.file _), some l => (true, t.take l)
  | _, _ => (false, t)

instance : Disk FileTree where
  leadsSomewhere t path := (t.find? path).isSome
  isFile := isFile
  readText := readText
  makeDirectory := makeDirectory
  writeText := writeText
  remove := remove

end FileTree

end Blocklist
