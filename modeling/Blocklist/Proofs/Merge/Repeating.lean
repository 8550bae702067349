import Blocklist.Proofs.Merge.History
import Blocklist.Proofs.Names

/-!
The same sightings once more. A record that has a candidate's sources, tags and text as a spelling takes
nothing from it but the time, and what was known before a custom sighting does not count. Main statement:
the record that sightings leave is left by the same sightings again, save for times, and where none of
them is custom only the time of the last sighting moves.
-/

namespace Blocklist

def Variant.retimed (t : Instant) (v : Variant) : Variant := { v with added := t }

namespace Record

/-- The record with one time in the place of all of its times. -/
def retimed (t : Instant) (r : Record) : Record :=
  { r with added := t, updated := t, variants := r.variants.map (Variant.retimed t) }

/-- The sighting as it would be at this time. -/
def retime (t : Instant) (sighting : Record × Instant) : Record × Instant := (sighting.1.retimed t, t)

section
variable (t : Instant)

theorem category_retimed (r : Record) : (r.retimed t).category = r.category := rfl

theorem hasVariant_retimed (r : Record) (text : String) :
    (r.retimed t).hasVariant text = r.hasVariant text := by
  simp [hasVariant, retimed, Variant.retimed, Function.comp_def]

theorem absorb_retimed (known candidate : Record) (now : Instant) :
    (known.absorb candidate now).retimed t = (known.retimed t).absorb (candidate.retimed t) t := by
  have spelled := known.hasVariant_retimed t candidate.raw
  unfold absorb
  rw [show (candidate.retimed t).raw = candidate.raw from rfl, spelled]
  split
  · rfl
  · simp only [retimed, List.map_append, List.map_take]

theorem merge_retimed (candidate : Record) (known : Option Record) (now : Instant) :
    (candidate.merge known now).1.retimed t =
      ((candidate.retimed t).merge (known.map (retimed t)) t).1 := by
  unfold merge
  rw [category_retimed]
  split
  · rfl
  · cases known with
    | none => rfl
    | some known => exact absorb_retimed t known candidate now

/-- What sightings come to does not depend on their times, save for the times in it. -/
theorem mergeAll_retimed (known : Option Record) (sightings : List (Record × Instant)) :
    (mergeAll known sightings).map (retimed t) =
      mergeAll (known.map (retimed t)) (sightings.map (retime t)) := by
  induction sightings generalizing known with
  | nil => rfl
  | cons sighting rest ih =>
    rw [mergeAll_cons, ih, List.map_cons, mergeAll_cons, Option.map_some, merge_retimed]
    rfl

end

/-- Holds when a candidate has nothing that the record lacks. -/
structure Knows (r candidate : Record) : Prop where
  sources : ∀ name ∈ candidate.sources, name ∈ r.sources
  tags : ∀ tag ∈ candidate.tags, tag ∈ r.tags
  spelled : r.hasVariant candidate.raw = true

theorem IsCandidate.knows_self {candidate : Record} (built : candidate.IsCandidate) :
    candidate.Knows candidate := by
  obtain ⟨v, only, text⟩ := built.variants
  refine ⟨fun _ member => member, fun _ member => member, ?_⟩
  rw [hasVariant_iff, only, List.map_singleton, text]
  exact List.mem_singleton_self _

section
variable {r known candidate : Record} {now : Instant}

/-- A candidate that is known moves only the time of the last sighting. -/
theorem Knows.absorb_eq (knows : known.Knows candidate) :
    known.absorb candidate now = { known with updated := now } := by
  rw [absorb, if_pos knows.spelled, Names.union_eq_self knows.sources, Names.union_eq_self knows.tags]

theorem Knows.absorb (knows : known.Knows r) : (known.absorb candidate now).Knows r := by
  refine ⟨?_, ?_, ?_⟩
  · exact fun name member => Names.mem_union.mpr (Or.inr (knows.sources name member))
  · exact fun tag member => Names.mem_union.mpr (Or.inr (knows.tags tag member))
  · have spelled := hasVariant_iff.mp knows.spelled
    rw [hasVariant_iff, Record.absorb]
    split
    · exact spelled
    · rw [List.map_append]
      exact List.mem_append_left _ spelled

theorem Knows.of_retimed {t : Instant} {other : Record} (knows : r.Knows other)
    (same : other.retimed t = candidate.retimed t) : r.Knows candidate := by
  simp only [retimed, mk.injEq] at same
  obtain ⟨raw, -, -, -, sources, -, -, -, -, tags, -⟩ := same
  exact ⟨sources ▸ knows.sources, tags ▸ knows.tags, raw ▸ knows.spelled⟩

theorem knows_absorb (built : candidate.IsCandidate) : (known.absorb candidate now).Knows candidate := by
  refine ⟨?_, ?_, ?_⟩
  · exact fun name member => Names.mem_union.mpr (Or.inl member)
  · exact fun tag member => Names.mem_union.mpr (Or.inl member)
  · unfold Record.absorb
    rw [hasVariant_iff]
    by_cases spelled : known.hasVariant candidate.raw = true
    · rw [if_pos spelled]
      exact hasVariant_iff.mp spelled
    · obtain ⟨v, only, text⟩ := built.variants
      simp [spelled, only, text]

end

section
variable {sightings : List (Record × Instant)}

/-- Sightings that are not custom are all known to the record that they leave. -/
theorem knows_mergeAll (known : Record) (plain : ∀ s ∈ sightings, s.1.category ≠ .custom)
    (built : ∀ s ∈ sightings, s.1.IsCandidate) :
    ∃ r, mergeAll (some known) sightings = some r ∧ (∀ c, known.Knows c → r.Knows c) ∧
      ∀ s ∈ sightings, r.Knows s.1 := by
  induction sightings generalizing known with
  | nil => exact ⟨known, rfl, fun _ knows => knows, by simp⟩
  | cons sighting rest ih =>
    obtain ⟨candidate, now⟩ := sighting
    rw [List.forall_mem_cons] at plain built
    obtain ⟨r, merged, kept, new⟩ := ih (known.absorb candidate now) plain.2 built.2
    refine ⟨r, ?_, fun c knows => kept c knows.absorb, ?_⟩
    · rw [mergeAll_cons, merge, if_neg plain.1]
      exact merged
    · exact List.forall_mem_cons.mpr ⟨kept candidate (knows_absorb built.1), new⟩

theorem knows_of_mergeAll {known : Option Record} {r : Record}
    (plain : ∀ s ∈ sightings, s.1.category ≠ .custom) (built : ∀ s ∈ sightings, s.1.IsCandidate)
    (merged : mergeAll known sightings = some r) : ∀ s ∈ sightings, r.Knows s.1 := by
  cases known with
  | some known =>
    obtain ⟨_, same, -, knows⟩ := knows_mergeAll known plain built
    rw [merged] at same
    cases same
    exact knows
  | none =>
    cases sightings with
    | nil => simp
    | cons sighting rest =>
      obtain ⟨first, now⟩ := sighting
      rw [List.forall_mem_cons] at plain built
      obtain ⟨_, same, kept, knows⟩ := knows_mergeAll first plain.2 built.2
      rw [mergeAll_cons, merge, if_neg plain.1] at merged
      rw [merged] at same
      cases same
      exact List.forall_mem_cons.mpr ⟨kept first built.1.knows_self, knows⟩

/-- Sightings that are all known move only the time of the last sighting. -/
theorem mergeAll_of_knows {r : Record} (plain : ∀ s ∈ sightings, s.1.category ≠ .custom)
    (knows : ∀ s ∈ sightings, r.Knows s.1) :
    ∃ now, mergeAll (some r) sightings = some { r with updated := now } := by
  induction sightings generalizing r with
  | nil => exact ⟨r.updated, rfl⟩
  | cons sighting rest ih =>
    obtain ⟨candidate, now⟩ := sighting
    rw [List.forall_mem_cons] at plain knows
    have still : ∀ s ∈ rest, ({ r with updated := now } : Record).Knows s.1 := fun s member =>
      ⟨(knows.2 s member).sources, (knows.2 s member).tags, (knows.2 s member).spelled⟩
    obtain ⟨last, merged⟩ := ih plain.2 still
    refine ⟨last, ?_⟩
    rw [mergeAll_cons, merge, if_neg plain.1]
    simp only [knows.1.absorb_eq, merged]

end

/-- What was known before a custom sighting does not count. -/
theorem mergeAll_congr_of_custom {sightings : List (Record × Instant)}
    (custom : ¬ ∀ s ∈ sightings, s.1.category ≠ .custom) (known other : Option Record) :
    mergeAll known sightings = mergeAll other sightings := by
  cases found : lastCustom sightings with
  | none => exact absurd (lastCustom_eq_none.mp found) custom
  | some last =>
    obtain ⟨isCustom, -, earlier, now, rfl⟩ := lastCustom_eq_some found
    rw [mergeAll_of_custom isCustom, mergeAll_of_custom isCustom]

theorem exists_twin {t : Instant} {these others : List (Record × Instant)} {s : Record × Instant}
    (alike : these.map (retime t) = others.map (retime t)) (member : s ∈ these) :
    ∃ twin ∈ others, twin.1.retimed t = s.1.retimed t := by
  have listed : retime t s ∈ others.map (retime t) := alike ▸ List.mem_map_of_mem member
  obtain ⟨twin, present, same⟩ := List.mem_map.mp listed
  exact ⟨twin, present, congrArg Prod.fst same⟩

/-- Sightings once more, at other times: the record that they left is left again, save for times. Where none
of them is custom, only the time of the last sighting has moved. -/
theorem mergeAll_again {known : Option Record} {r : Record} {t : Instant}
    {sightings again : List (Record × Instant)} (alike : again.map (retime t) = sightings.map (retime t))
    (built : ∀ s ∈ sightings, s.1.IsCandidate) (merged : mergeAll known sightings = some r) :
    ∃ r', mergeAll (some r) again = some r' ∧ r'.retimed t = r.retimed t ∧
      ((∀ s ∈ again, s.1.category ≠ .custom) → ∃ now, r' = { r with updated := now }) := by
  by_cases plain : ∀ s ∈ again, s.1.category ≠ .custom
  -- The record knows every sighting already.
  · have ordinary : ∀ s ∈ sightings, s.1.category ≠ .custom := by
      intro s member
      obtain ⟨twin, present, same⟩ := exists_twin alike.symm member
      have category : twin.1.category = s.1.category := by
        rw [← category_retimed t twin.1, same, category_retimed]
      exact category ▸ plain twin present
    have knows : ∀ s ∈ again, r.Knows s.1 := by
      intro s member
      obtain ⟨twin, present, same⟩ := exists_twin alike member
      exact (knows_of_mergeAll ordinary built merged twin present).of_retimed same
    obtain ⟨now, final⟩ := mergeAll_of_knows plain knows
    exact ⟨_, final, rfl, fun _ => ⟨now, rfl⟩⟩
  -- The last custom sighting starts the record anew both times.
  · have final : (mergeAll (some r) again).map (retimed t) = some (r.retimed t) := by
      calc
        (mergeAll (some r) again).map (retimed t) = (mergeAll known again).map (retimed t) := by
          rw [mergeAll_congr_of_custom plain (some r) known]
        _ = mergeAll (known.map (retimed t)) (sightings.map (retime t)) := by
          rw [mergeAll_retimed, alike]
        _ = some (r.retimed t) := by rw [← mergeAll_retimed, merged, Option.map_some]
    obtain ⟨r', reached, same⟩ := Option.map_eq_some_iff.mp final
    exact ⟨r', reached, same, fun ordinary => absurd ordinary plain⟩

end Record

end Blocklist
