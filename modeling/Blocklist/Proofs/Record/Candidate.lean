import Blocklist.Record.Basic

/-!
What the record of one sighting is made of: the spelling it carries, and the tag that goes with the
category of mobile rules.
-/

namespace Blocklist

/-- The only spelling of a rule in the record of one sighting. -/
def Variant.ofRule (rule : Rule.Classified) (source : Source) (now : Instant) : Variant where
  text := rule.raw
  sourceName := source.name
  added := now
  modifiers := rule.modifiers
  tags := Names.ofList rule.tags

/-- A source with the rank of its category. -/
def Source.ofCategory (name : String) (category : Category) : Source where
  name := name
  url := "https://lists.example/" ++ name
  category := category
  enabled := true
  priority := category.priority
  trusted := false

/-- A day of February 2024, counted from zero; the last one from its number on. -/
def Date.sampled (day : Nat) : Date where
  year := 2024
  month := 2
  day := min day 28 + 1
  year_range := by decide
  month_range := by decide
  day_range := by
    have last : daysInMonth 2024 2 = 29 := by decide
    omega

/-- The first instant of a day. -/
def Date.start (d : Date) : Instant :=
  ⟨d, 0, 0, 0, 0, by decide, by decide, by decide, by decide⟩

namespace Record

/-- What a list of this category makes of a line that blocks a host. -/
def sampled (line : String) (category : Category) (day : Nat) : Record :=
  candidate ⟨line, .domain, none, [], [], category⟩ (Source.ofCategory category.name category)
    (Date.sampled day).start

/-- Holds of the records of one sighting. -/
def IsCandidate (r : Record) : Prop := ∃ rule source now, r = candidate rule source now

theorem candidate_variants (rule : Rule.Classified) (source : Source) (now : Instant) :
    (candidate rule source now).variants = [Variant.ofRule rule source now] := rfl

theorem IsCandidate.variants {r : Record} (built : r.IsCandidate) :
    ∃ v, r.variants = [v] ∧ v.text = r.raw := by
  obtain ⟨rule, source, now, rfl⟩ := built
  exact ⟨Variant.ofRule rule source now, candidate_variants rule source now, rfl⟩

end Record

end Blocklist
