import Blocklist.Text.Basic
import Blocklist.Text.Hidden

/-!
Paths, and what stores, exports and configurations need of a disk. Paths are texts with slashes: joining and
taking the parent work on the text alone and normalise nothing that is kept. A change of a disk tells
whether it was made and gives the disk afterwards, also when it failed.
-/

namespace Blocklist.Path

def isAbsolute (path : String) : Bool := path.toList.head? == some '/'

/-- The path of `path` as seen from `base`; an absolute path stands for itself. -/
def join (base path : String) : String :=
  if isAbsolute path || base.isEmpty then path
  else if base.toList.getLast? == some '/' then base ++ path
  else base ++ "/" ++ path

/-- A reversed path without closing slashes and without closing single dots, except a lone one. -/
def trimEnd : List Char → List Char
  | ['/'] => ['/']
  | '/' :: rest => trimEnd rest
  | '.' :: '/' :: rest => trimEnd ('/' :: rest)
  | cs => cs

/-- The path of the directory that holds the last part; the root and the empty path have none. -/
def parent? (path : String) : Option String :=
  match trimEnd path.toList.reverse with
  | [] => none
  | ['/'] => none
  | cs => some (String.ofList (trimEnd (cs.dropWhile (· != '/'))).reverse)

/-- The path of the directory that a path's last part stands in, as a file has to be in one. -/
def directoryOf (path : String) : String :=
  match parent? path with
  | some directory => if directory.isEmpty then "." else directory
  | none => "."

def segments (path : String) : List String := (Text.splitAt '/' path.toList).map String.ofList

/-- The parts between slashes; empty parts and single dots lead nowhere and are left out. -/
def parts (path : String) : List String :=
  (segments path).filter fun part => part != "" && part != "."

/-- Holds of paths that can only lead to a directory, because no name ends them. -/
def endsInDirectory (path : String) : Bool :=
  match (segments path).getLast? with
  | some last => last == "" || last == "." || last == ".."
  | none => true

/-- Holds of paths that end in a single dot, slashes after it aside. -/
def endsInDot (path : String) : Bool :=
  ((segments path).filter (· != "")).getLast? == some "."

def maxBytes : Nat := 4095

def maxNameBytes : Nat := 255

/-- Holds of the paths that can lead somewhere: none is empty, overlong or holds a null character. -/
def isUsable (path : String) : Bool :=
  !path.isEmpty && path.utf8ByteSize ≤ maxBytes && !path.toList.contains '\x00'

def isName (part : String) : Bool := part.utf8ByteSize ≤ maxNameBytes

def quoteChar (c : Char) : List Char :=
  if c = '"' then ['\\', '"']
  else if c = '\\' then ['\\', '\\']
  else if c = '\n' then ['\\', 'n']
  else if c = '\r' then ['\\', 'r']
  else if c = '\t' then ['\\', 't']
  else if c = '\x00' then ['\\', '0']
  else if Text.isHidden c then
    ['\\', 'u', '\x7b'] ++ Nat.toDigits 16 c.toNat ++ ['\x7d']
  else [c]

def quoted (path : String) : String :=
  String.ofList ('"' :: path.toList.flatMap quoteChar ++ ['"'])

end Blocklist.Path

namespace Blocklist

class Disk (δ : Type) where
  leadsSomewhere : δ → String → Bool
  isFile : δ → String → Bool
  readText : δ → String → Option String
  /-- Makes a directory and those on the way to it, as far as they are missing. Some of them may have been
  made when this fails. -/
  makeDirectory : δ → String → Bool × δ
  /-- Replaces a file as a whole by this text. Its directory has to be there. -/
  writeText : δ → String → String → Bool × δ
  remove : δ → String → Bool × δ

namespace Disk

variable {δ : Type} [Disk δ]

/-- Writes a file after making a directory for it. -/
def place (disk : δ) (directory path text : String) : Bool × δ :=
  let (made, disk) := makeDirectory disk directory
  if made then writeText disk path text else (false, disk)

end Disk

end Blocklist
