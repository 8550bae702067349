import Blocklist.Document
import Blocklist.Proofs.Record.Candidate

/-!
What documents make of exceptions. Main statement: in a document of exceptions the blocking lines are those
of the hosts that the exceptions name. An exception without a host stands there as it is spelled, and its
text blocks nothing.
-/

namespace Blocklist

namespace Rule

theorem hostHere_ne_nil (cs : List Char) : hostHere cs ≠ some [] := by
  cases cs with
  | nil => simp [hostHere]
  | cons c cs =>
    rw [hostHere]
    split
    · simp
    · simp

theorem firstHostIn_ne_nil (barren : Bool) (cs : List Char) : firstHostIn barren cs ≠ some [] := by
  induction cs generalizing barren with
  | nil => simp [firstHostIn]
  | cons c cs ih =>
    rw [firstHostIn]
    split
    · exact ih true
    · split
      next host found =>
        rw [← found]
        exact hostHere_ne_nil (c :: cs)
      next => exact ih (Text.isAlnum c)

/-- A host that a rule names is not empty. -/
theorem hostOf_ne_nil (line : List Char) : hostOf line ≠ some [] := by
  unfold hostOf
  split
  next rest _ =>
    dsimp only
    split
    · simp
    next filled =>
      intro nothing
      exact filled (by rw [Option.some.inj nothing]; rfl)
  next body _ =>
    split
    next bare =>
      intro nothing
      rw [Option.some.inj nothing] at bare
      exact absurd bare (by decide)
    · exact firstHostIn_ne_nil false _

end Rule

namespace Record

/-- Holds of the records of one sighting of a line that marks an exception. -/
def IsMarked (r : Record) : Prop :=
  ∃ declared line rule source now,
    "@@".toList.isPrefixOf line = true ∧ Rule.classify declared line = some rule ∧
      r = candidate rule source now

variable {r : Record}

theorem IsMarked.raw (marked : r.IsMarked) : ∃ rest, r.raw.toList = '@' :: rest := by
  obtain ⟨declared, line, rule, source, now, mark, accepted, rfl⟩ := marked
  obtain ⟨rest, rfl⟩ := List.isPrefixOf_iff_prefix.mp mark
  unfold Rule.classify at accepted
  split at accepted
  · cases accepted
    exact ⟨'@' :: rest, String.toList_ofList⟩
  · cases accepted

theorem IsMarked.domain_ne_empty (marked : r.IsMarked) : r.domain ≠ some "" := by
  obtain ⟨declared, line, rule, source, now, mark, accepted, rfl⟩ := marked
  have named : ∀ host, Rule.hostOf line = some host → String.ofList host ≠ "" := by
    intro host found empty
    rw [String.ofList_eq_empty_iff] at empty
    exact Rule.hostOf_ne_nil line (empty ▸ found)
  unfold Rule.classify at accepted
  split at accepted
  · cases accepted
    change (if _ then (Rule.hostOf line).map String.ofList else none) ≠ some ""
    split
    · intro empty
      obtain ⟨host, found, same⟩ := Option.map_eq_some_iff.mp empty
      exact named host found same
    · simp
  · cases accepted

end Record

/-- Holds of the lines that block some host. -/
def Format.Blocks (f : Format) (line : String) : Prop := ∃ host, f.blockingLine host = some line

/-- No text that begins as an exception does blocks a host. -/
theorem Format.not_blocks_of_mark {f : Format} {line : String} {rest : List Char}
    (mark : line.toList = '@' :: rest) : ¬f.Blocks line := by
  rintro ⟨host, blocking⟩
  cases f with
  | adguard | abp => cases blocking
  | hosts | dnsmasq | unbound | bind | privoxy | shadowrocket =>
    cases blocking
    simp at mark

namespace Document

variable {r : Record}

theorem ruleLine_of_marked (marked : r.IsMarked) (f : Format) :
    ruleLine r f = (r.domain.bind f.blockingLine).getD r.raw := by
  cases named : r.domain with
  | none => rw [ruleLine, named]; rfl
  | some host =>
    have filled : host.isEmpty = false := by
      rw [Bool.eq_false_iff]
      intro empty
      rw [String.isEmpty_iff] at empty
      exact marked.domain_ne_empty (empty ▸ named)
    simp only [ruleLine, named, filled, Option.bind_some, Bool.false_eq_true, if_false]

/-- The line of an exception blocks a host exactly if the exception names one, and then that host. -/
theorem blocks_ruleLine_iff (marked : r.IsMarked) (f : Format) :
    f.Blocks (ruleLine r f) ↔ r.domain.bind f.blockingLine = some (ruleLine r f) := by
  rw [ruleLine_of_marked marked]
  cases blocking : r.domain.bind f.blockingLine with
  | none =>
    obtain ⟨rest, mark⟩ := marked.raw
    rw [Option.getD_none]
    simpa using Format.not_blocks_of_mark mark
  | some line =>
    obtain ⟨host, -, found⟩ := Option.bind_eq_some_iff.mp blocking
    rw [Option.getD_some]
    exact ⟨fun _ => rfl, fun _ => ⟨host, found⟩⟩

/-- In a document of exceptions the blocking lines are those of the hosts that the exceptions name. -/
theorem text_of_marked {records : List Record} (marked : ∀ r ∈ records, r.IsMarked) (m : Metadata)
    (f : Format) :
    ∃ lines, text records m f = head m f ++ "\n" ++ unlines lines ∧
      lines = records.map (fun r => (r.domain.bind f.blockingLine).getD r.raw) ∧
      ∀ line ∈ lines, f.Blocks line ↔
        ∃ r ∈ records, ∃ host, r.domain = some host ∧ f.blockingLine host = some line := by
  have lines : records.map (fun r => ruleLine r f) =
      records.map fun r => (r.domain.bind f.blockingLine).getD r.raw :=
    List.map_congr_left fun r member => ruleLine_of_marked (marked r member) f
  refine ⟨_, rfl, lines, ?_⟩
  intro line member
  obtain ⟨r, listed, rfl⟩ := List.mem_map.mp member
  constructor
  · intro blocking
    have own := (blocks_ruleLine_iff (marked r listed) f).mp blocking
    exact ⟨r, listed, Option.bind_eq_some_iff.mp own⟩
  · rintro ⟨-, -, host, -, blocking⟩
    exact ⟨host, blocking⟩

/-- The exception for a host that a list about advertising has. -/
def allowed : Record :=
  .candidate ⟨"@@||example.com^", .exception, some "example.com", [], [], .advertising⟩
    (Source.ofCategory "advertising" .advertising) (Date.sampled 0).start

theorem text_of_allowed :
    (∀ r ∈ [allowed], r.IsMarked) ∧
      ∃ lines, text [allowed] (.default "2024-02-01") .hosts =
          head (.default "2024-02-01") .hosts ++ "\n" ++ unlines lines ∧
        lines = ["0.0.0.0 example.com"] := by
  have marked : ∀ r ∈ [allowed], r.IsMarked := by
    intro r member
    rw [List.mem_singleton.mp member]
    exact ⟨.advertising, "@@||example.com^".toList, _, _, _, by decide, by decide, rfl⟩
  obtain ⟨lines, spelled, each, -⟩ := text_of_marked marked (.default "2024-02-01") .hosts
  exact ⟨marked, lines, spelled, each⟩

/-- The host of an exception is blocked in every format that can block one. -/
theorem ruleLine_allowed :
    Rule.classify .advertising "@@||example.com^".toList =
        some ⟨"@@||example.com^", .exception, some "example.com", [], [], .advertising⟩ ∧
      allowed.isException = true ∧
      ∀ f ∈ [Format.hosts, .dnsmasq, .unbound, .bind, .privoxy, .shadowrocket],
        f.blockingLine "example.com" = some (ruleLine allowed f) :=
  ⟨by decide, rfl, by decide⟩

end Document

end Blocklist
