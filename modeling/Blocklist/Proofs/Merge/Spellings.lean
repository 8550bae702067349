import Blocklist.Proofs.Merge.History
import Mathlib.Data.List.Nodup

/-!
The spellings of a known record when a sighting is merged into it. Whether the record gains a spelling is
told from the text of the sighting, and what it gains is the sighting's first spelling, whatever the text
of that one is. Main statement: the spellings that were there stay in front, and just when no two
spellings have one text afterwards and a gain is told for what it is.
-/

namespace Blocklist.Record

/-- Holds of records of which no two spellings have one text. -/
def SpelledApart (r : Record) : Prop := (r.variants.map Variant.text).Nodup

instance (r : Record) : Decidable r.SpelledApart :=
  inferInstanceAs (Decidable (r.variants.map Variant.text).Nodup)

/-- What a sighting makes of the spellings of a known record, and what is told of it. -/
structure Respelled (known candidate : Record) (merged : Record × MergeOutcome) : Prop where
  kept : known.variants <+: merged.1.variants
  /-- The texts stay apart just when the sighting's text is known or its first spelling is new. -/
  apart : merged.1.SpelledApart ↔ known.hasVariant candidate.raw = true ∨
    ∀ v ∈ candidate.variants.head?, known.hasVariant v.text = false
  /-- A gain is told for what it is just when the text is known or there is a spelling to gain. -/
  told : (merged.2 = .merged true ↔ known.variants.length < merged.1.variants.length) ↔
    known.hasVariant candidate.raw = true ∨ candidate.variants ≠ []
  counted : (∀ counts : MergeCounts, (counts.record merged.2).variantsAdded + known.variants.length =
      counts.variantsAdded + merged.1.variants.length) ↔
    known.hasVariant candidate.raw = true ∨ candidate.variants ≠ []

section
variable {known candidate : Record}

variable (known) in
/-- Everything that merging can do to the spellings of a known record. -/
theorem merge_spellings (now : Instant) (plain : candidate.category ≠ .custom) :
    (known.hasVariant candidate.raw = true ∧
      (candidate.merge (some known) now).2 = .merged false ∧
      (candidate.merge (some known) now).1.variants = known.variants) ∨
    (known.hasVariant candidate.raw = false ∧
      (candidate.merge (some known) now).2 = .merged true ∧
      (candidate.merge (some known) now).1.variants =
        known.variants ++ candidate.variants.take 1) := by
  rw [merge, if_neg plain]
  cases spelled : known.hasVariant candidate.raw with
  | true => exact .inl ⟨rfl, rfl, by simp [absorb, spelled]⟩
  | false => exact .inr ⟨rfl, rfl, by simp [absorb, spelled]⟩

/-- One more spelling leaves the texts apart just when its text is new. -/
theorem nodup_concat_iff {spellings : List Variant} {v : Variant}
    (apart : (spellings.map Variant.text).Nodup) :
    ((spellings ++ [v]).map Variant.text).Nodup ↔ v.text ∉ spellings.map Variant.text := by
  rw [List.map_append, List.map_singleton, ← List.concat_eq_append, List.nodup_concat]
  exact and_iff_left apart

theorem respelled_of_spelled {merged : Record × MergeOutcome} (apart : known.SpelledApart)
    (spelled : known.hasVariant candidate.raw = true) (told : merged.2 = .merged false)
    (same : merged.1.variants = known.variants) : Respelled known candidate merged where
  kept := ⟨[], by rw [List.append_nil, same]⟩
  apart := by
    rw [SpelledApart, same]
    exact iff_of_true apart (.inl spelled)
  told := by
    rw [told, same]
    exact iff_of_true (by simp) (.inl spelled)
  counted := by
    rw [told, same]
    exact iff_of_true (fun _ => rfl) (.inl spelled)

theorem respelled_of_new {merged : Record × MergeOutcome} (apart : known.SpelledApart)
    (new : known.hasVariant candidate.raw = false) (told : merged.2 = .merged true)
    (gained : merged.1.variants = known.variants ++ candidate.variants.take 1) :
    Respelled known candidate merged := by
  cases first : candidate.variants with
  | nil =>
    -- Nothing is gained, and still a gain is told.
    rw [first, List.take_nil, List.append_nil] at gained
    refine ⟨⟨[], by rw [List.append_nil, gained]⟩, ?_, ?_, ?_⟩
    · rw [SpelledApart, gained, first]
      exact iff_of_true apart (.inr (by simp))
    · rw [told, gained, first]
      exact iff_of_false (by simp) (by simp [new])
    · rw [told, gained, first]
      refine iff_of_false (fun counted => ?_) (by simp [new])
      have one := counted {}
      simp [MergeCounts.record] at one
  | cons v rest =>
    rw [first, List.take_succ_cons, List.take_zero] at gained
    refine ⟨⟨[v], gained.symm⟩, ?_, ?_, ?_⟩
    · rw [SpelledApart, gained, first, nodup_concat_iff apart, ← hasVariant_iff]
      simp [new]
    · rw [told, gained, first]
      exact iff_of_true (by simp) (.inr (List.cons_ne_nil v rest))
    · rw [told, gained, first]
      refine iff_of_true (fun counts => ?_) (.inr (List.cons_ne_nil v rest))
      rw [List.length_append, List.length_singleton, MergeCounts.record]
      simp only [if_true]
      omega

end

/-- A known record keeps its spellings in front, whatever is merged into it. Where the candidate's first
spelling is its own text, no two spellings come to have one text, and a gain is told for what it is. -/
theorem merge_respelled (known candidate : Record) (now : Instant)
    (plain : candidate.category ≠ .custom) (apart : known.SpelledApart) :
    Respelled known candidate (candidate.merge (some known) now) ∧
      (candidate.variants.head?.map Variant.text = some candidate.raw →
        (candidate.merge (some known) now).1.SpelledApart ∧
        ((candidate.merge (some known) now).2 = .merged true ↔
          known.variants.length < (candidate.merge (some known) now).1.variants.length)) := by
  have respelled : Respelled known candidate (candidate.merge (some known) now) := by
    rcases merge_spellings known now plain with ⟨spelled, told, same⟩ | ⟨new, told, gained⟩
    · exact respelled_of_spelled apart spelled told same
    · exact respelled_of_new apart new told gained
  refine ⟨respelled, fun own => ⟨respelled.apart.mpr ?_, respelled.told.mpr ?_⟩⟩
  · cases spelled : known.hasVariant candidate.raw with
    | true => exact .inl rfl
    | false =>
      refine .inr fun v first => ?_
      rw [Option.mem_def.mp first, Option.map_some, Option.some.injEq] at own
      rw [own, spelled]
  · refine .inr fun nothing => ?_
    rw [nothing] at own
    cases own

/-- A second spelling of a rule, with a blank at its end. -/
theorem merge_respelled_blankEnd :
    (sampled "||a.com^ " .privacy 1).category ≠ .custom ∧
      (sampled "||a.com^" .advertising 0).SpelledApart ∧
      ((sampled "||a.com^ " .privacy 1).merge (some (sampled "||a.com^" .advertising 0))
        (Date.sampled 1).start).1.SpelledApart ∧
      ((sampled "||a.com^ " .privacy 1).merge (some (sampled "||a.com^" .advertising 0))
        (Date.sampled 1).start).1.variants.length = 2 := by
  have plain : (sampled "||a.com^ " .privacy 1).category ≠ .custom := by decide
  have apart : (sampled "||a.com^" .advertising 0).SpelledApart := by decide
  obtain ⟨-, own⟩ := merge_respelled (sampled "||a.com^" .advertising 0)
    (sampled "||a.com^ " .privacy 1) (Date.sampled 1).start plain apart
  exact ⟨plain, apart, (own rfl).1, by decide⟩

/-- A sighting of a text with a blank at its end that carries the spelling without the blank. -/
def blankEnded : Record :=
  { sampled "||a.com^ " .privacy 1 with variants := (sampled "||a.com^" .privacy 1).variants }

/-- The spelling that is known already is put in once more, and where there is no spelling to put in, one is
told of nevertheless. -/
theorem merge_spells_twice :
    (sampled "||a.com^" .advertising 0).hash = blankEnded.hash ∧ blankEnded.category ≠ .custom ∧
      (sampled "||a.com^" .advertising 0).SpelledApart ∧ blankEnded.SpelledApart ∧
      ¬ (blankEnded.merge (some (sampled "||a.com^" .advertising 0))
        (Date.sampled 1).start).1.SpelledApart ∧
      ({ blankEnded with variants := [] }.merge (some (sampled "||a.com^" .advertising 0))
        (Date.sampled 1).start).2 = .merged true ∧
      ({ blankEnded with variants := [] }.merge (some (sampled "||a.com^" .advertising 0))
        (Date.sampled 1).start).1.variants.length = 1 := by
  decide +kernel

end Blocklist.Record
