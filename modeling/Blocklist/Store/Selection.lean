import Blocklist.Json.Decode
import Blocklist.Record.Basic
import Blocklist.Record.Json

/-!
Choosing records and counting them. A criterion that is not given lets every record pass; the counts tell
how many records there are of each kind and category, and how many block or exempt.
-/

namespace Blocklist

/-- The list with a key's count raised by `n`; a new key goes before the first key it precedes. -/
def tally [DecidableEq κ] (precedes : κ → κ → Bool) (key : κ) (n : Nat) :
    List (κ × Nat) → List (κ × Nat)
  | [] => [(key, n)]
  | (k, m) :: rest =>
    if k = key then (k, m + n) :: rest
    else if precedes key k then (key, n) :: (k, m) :: rest
    else (k, m) :: tally precedes key n rest

def Rule.Kind.precedes (a b : Kind) : Bool := a.ctorIdx < b.ctorIdx

def Category.precedes (a b : Category) : Bool := a.ctorIdx < b.ctorIdx

/-- How many records there are, of each kind and of each category; only what occurs has a count. -/
structure Summary where
  total : Nat
  kinds : List (Rule.Kind × Nat)
  categories : List (Category × Nat)
  deriving DecidableEq, Repr

def Summary.ofRecords (records : List Record) : Summary where
  total := records.length
  kinds := records.foldl (fun counts r => tally Rule.Kind.precedes r.kind 1 counts) []
  categories := records.foldl (fun counts r => tally Category.precedes r.category 1 counts) []

structure ListStats where
  totalRules : Nat
  blockingRules : Nat
  unblockingRules : Nat
  deriving DecidableEq, Repr

/-- The counts of a list of records: exceptions unblock, all others block. -/
def ListStats.ofRecords (records : List Record) : ListStats :=
  let unblocking := (records.filter Record.isException).length
  ⟨records.length, records.length - unblocking, unblocking⟩

structure Selection where
  categories : List Category := []
  excluded : List Category := []
  minPriority : Option Priority := none
  tags : List String := []
  deriving DecidableEq, Repr, Inhabited

namespace Selection

def reaches (selection : Selection) (priority : Priority) : Bool :=
  match selection.minPriority with
  | some least => least ≤ priority
  | none => true

/-- Holds of the records that meet every criterion. -/
def accepts (selection : Selection) (r : Record) : Bool :=
  (selection.categories.isEmpty || selection.categories.contains r.category) &&
    !selection.excluded.contains r.category &&
    selection.reaches r.priority &&
    (selection.tags.isEmpty || selection.tags.any fun tag => r.tags.contains tag)

def choose (selection : Selection) (records : List Record) : List Record :=
  records.filter selection.accepts

/-- Holds of a record that may stand before another: its rank is no lower. -/
def ranksBefore (a b : Record) : Bool := b.priority ≤ a.priority

/-- The accepted records by rank, highest first; records of one rank keep their order. -/
def chooseRanked (selection : Selection) (records : List Record) : List Record :=
  (selection.choose records).mergeSort ranksBefore

def fieldNames : List String := ["categories", "excludeCategories", "minPriority", "tags"]

/-- Reads a selection from its fields, given how a category is read. -/
def ofFields? (category? : Json → Option Category) : List (Option Json) → Option Selection
  | [categories, excluded, minPriority, tags] => do
    return {
      categories := ← Json.fieldOr [] (Json.listOf category?) categories
      excluded := ← Json.fieldOr [] (Json.listOf category?) excluded
      minPriority := ← Json.optionalField Json.asInt32? minPriority
      tags := ← Json.fieldOr [] Json.asStrings? tags }
  | _ => none

def ofJson? (value : Json) : Option Selection :=
  (value.fields fieldNames).bind (ofFields? Category.ofJson?)

end Selection

end Blocklist
