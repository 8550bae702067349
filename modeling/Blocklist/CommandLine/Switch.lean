/-!
Switches on a command line: long and short names, with or without a value. Short ones may stand together
behind one hyphen, and a value may follow at once, after an equals sign, or as the next argument.
-/

namespace Blocklist.CommandLine

inductive Halt where
  | help | version
  deriving DecidableEq, Repr

/-- What a switch does to settings of type `α`; it can refuse its value or its repetition. -/
inductive Effect (α : Type) where
  | flag (set : α → Option α)
  | value (set : String → α → Option α)
  | halt (reason : Halt)

structure Switch (α : Type) where
  long : String
  short : Option Char := none
  effect : Effect α

inductive Step (α : Type) where
  | next (settings : α)
  | wants (set : String → α → Option α) (settings : α)
  | halt (reason : Halt)

inductive Reading (α : Type) where
  | done (settings : α) (rest : List String)
  | halt (reason : Halt)

/-- Holds of arguments that are switches: a hyphen and more. -/
def isSwitch (argument : String) : Bool :=
  match argument.toList with
  | '-' :: _ :: _ => true
  | _ => false

/-- Short switches that stand together; the first that takes a value takes the rest. -/
def stepShort (switches : List (Switch α)) : List Char → α → Option (Step α)
  | [], settings => some (.next settings)
  | c :: cs, settings => do
    match (← switches.find? fun s => s.short == some c).effect with
    | .flag set => stepShort switches cs (← set settings)
    | .halt reason => return .halt reason
    | .value set =>
      match cs with
      | [] => return .wants set settings
      | '=' :: text => return .next (← set (String.ofList text) settings)
      | text => return .next (← set (String.ofList text) settings)

/-- A long switch, whose value may follow an equals sign. -/
def stepLong (switches : List (Switch α)) (text : List Char) (settings : α) : Option (Step α) := do
  let name := String.ofList (text.takeWhile (· != '='))
  let value := (text.dropWhile (· != '=')).tail?.map String.ofList
  match (← switches.find? fun s => s.long == name).effect, value with
  | .flag set, none => return .next (← set settings)
  | .halt reason, none => return .halt reason
  | .value set, none => return .wants set settings
  | .value set, some value => return .next (← set value settings)
  | _, some _ => none

def stepSwitch (switches : List (Switch α)) (argument : String) (settings : α) : Option (Step α) :=
  match argument.toList with
  | '-' :: '-' :: text => stepLong switches text settings
  | '-' :: text => stepShort switches text settings
  | _ => none

/-- Reads switches up to the first word. Two hyphens alone say that only words follow, so nothing may
follow them. -/
def readSwitches (switches : List (Switch α)) : List String → α → Option (Reading α)
  | [], settings => some (.done settings [])
  | argument :: rest, settings =>
    if argument = "--" then if rest.isEmpty then some (.done settings []) else none
    else if isSwitch argument then
      match stepSwitch switches argument settings with
      | none => none
      | some (.next settings) => readSwitches switches rest settings
      | some (.halt reason) => some (.halt reason)
      | some (.wants set settings) =>
        match rest with
        | [] => none
        | value :: rest =>
          if isSwitch value then none
          else
            match set value settings with
            | none => none
            | some settings => readSwitches switches rest settings
    else some (.done settings (argument :: rest))

end Blocklist.CommandLine
