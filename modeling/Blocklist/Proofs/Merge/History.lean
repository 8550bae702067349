import Blocklist.Merge
import Blocklist.Proofs.Record.Candidate

/-!
The record of a rule after any number of sightings. A custom sighting starts the record anew, so that a
history counts from its last custom sighting on; without one it counts from the record known before, or
else from the first sighting. Main statement: the record is that base with what the later sightings add.
-/

namespace Blocklist.Record

/-- The record after sightings, each merged at its time into what is known by then. -/
def mergeAll (known : Option Record) (sightings : List (Record × Instant)) : Option Record :=
  sightings.foldl (fun known sighting => some (sighting.1.merge known sighting.2).1) known

/-- The last custom sighting and those after it. -/
def lastCustom : List (Record × Instant) → Option (Record × List (Record × Instant))
  | [] => none
  | (candidate, _) :: rest =>
    match lastCustom rest with
    | some found => some found
    | none => if candidate.category = .custom then some (candidate, rest) else none

/-- The record that a history counts from, and the sightings that it counts. -/
def historyBase (existing : Option Record) (sightings : List (Record × Instant)) :
    Option (Record × List (Record × Instant)) :=
  match lastCustom sightings, existing, sightings with
  | some found, _, _ => some found
  | none, some known, _ => some (known, sightings)
  | none, none, (first, _) :: rest => some (first, rest)
  | none, none, [] => none

/-- The spellings whose text is neither known nor that of an earlier one of them. -/
def newSpellings (known : List String) : List Variant → List Variant
  | [] => []
  | v :: rest =>
    if v.text ∈ known then newSpellings known rest
    else v :: newSpellings (known ++ [v.text]) rest

/-- The base of a history with what the later sightings add to it. -/
def settled (base : Record) (later : List (Record × Instant)) : Record :=
  { base with
    sources := base.sources.insertAll (later.flatMap fun s => s.1.sources.toList)
    tags := base.tags.insertAll (later.flatMap fun s => s.1.tags.toList)
    updated := (later.getLast?.map Prod.snd).getD base.updated
    variants := base.variants ++
      newSpellings (base.variants.map Variant.text) (later.flatMap fun s => s.1.variants) }

theorem mergeAll_cons (known : Option Record) (sighting : Record × Instant)
    (rest : List (Record × Instant)) :
    mergeAll known (sighting :: rest) = mergeAll (some (sighting.1.merge known sighting.2).1) rest :=
  rfl

theorem mergeAll_append (known : Option Record) (earlier rest : List (Record × Instant)) :
    mergeAll known (earlier ++ rest) = mergeAll (mergeAll known earlier) rest :=
  List.foldl_append

/-- What was known before a custom sighting does not count after it. -/
theorem mergeAll_of_custom {candidate : Record} (custom : candidate.category = .custom)
    (known : Option Record) (earlier later : List (Record × Instant)) (now : Instant) :
    mergeAll known (earlier ++ (candidate, now) :: later) = mergeAll (some candidate) later := by
  rw [mergeAll_append, mergeAll_cons]
  simp only [merge, if_pos custom]

theorem category_merge (candidate known : Record) (now : Instant) :
    (candidate.merge (some known) now).1.category =
      if candidate.category = .custom then .custom else known.category := by
  unfold merge
  split
  next custom => exact custom
  next => rfl

theorem custom_mergeAll {known : Record} (custom : known.category = .custom)
    (sightings : List (Record × Instant)) :
    ∃ r, mergeAll (some known) sightings = some r ∧ r.category = .custom := by
  induction sightings generalizing known with
  | nil => exact ⟨known, rfl, custom⟩
  | cons sighting rest ih =>
    apply ih
    rw [category_merge, custom, ite_self]

theorem lastCustom_eq_none {sightings : List (Record × Instant)} :
    lastCustom sightings = none ↔ ∀ s ∈ sightings, s.1.category ≠ .custom := by
  induction sightings with
  | nil => simp [lastCustom]
  | cons sighting rest ih =>
    rw [List.forall_mem_cons, ← ih, lastCustom]
    cases lastCustom rest with
    | some found => simp
    | none => simp

theorem lastCustom_eq_some {sightings later : List (Record × Instant)} {custom : Record}
    (found : lastCustom sightings = some (custom, later)) :
    custom.category = .custom ∧ (∀ s ∈ later, s.1.category ≠ .custom) ∧
      ∃ earlier now, sightings = earlier ++ (custom, now) :: later := by
  induction sightings with
  | nil => simp [lastCustom] at found
  | cons sighting rest ih =>
    obtain ⟨candidate, now⟩ := sighting
    rw [lastCustom] at found
    cases further : lastCustom rest with
    | some last =>
      simp only [further] at found
      obtain ⟨isCustom, plain, earlier, time, parts⟩ := ih (further.trans found)
      exact ⟨isCustom, plain, (candidate, now) :: earlier, time, by rw [parts, List.cons_append]⟩
    | none =>
      simp only [further, Option.ite_none_right_eq_some, Option.some.injEq, Prod.mk.injEq] at found
      obtain ⟨isCustom, rfl, rfl⟩ := found
      exact ⟨isCustom, lastCustom_eq_none.mp further, [], now, rfl⟩

theorem hasVariant_iff {r : Record} {text : String} :
    r.hasVariant text = true ↔ text ∈ r.variants.map Variant.text := by
  simp [hasVariant]

/-- The first of the later sightings is absorbed by the base; the others count from there. -/
theorem settled_cons (base candidate : Record) (now : Instant) (rest : List (Record × Instant))
    (built : candidate.IsCandidate) :
    settled base ((candidate, now) :: rest) = settled (base.absorb candidate now) rest := by
  obtain ⟨v, only, text⟩ := built.variants
  have times : (((candidate, now) :: rest).getLast?.map Prod.snd).getD base.updated =
      (rest.getLast?.map Prod.snd).getD now := by
    cases rest with
    | nil => rfl
    | cons next rest =>
      rw [List.getLast?_cons_cons, List.getLast?_cons]
      rfl
  have spellings : base.variants ++ newSpellings (base.variants.map Variant.text)
        (((candidate, now) :: rest).flatMap fun s => s.1.variants) =
      (base.absorb candidate now).variants ++
        newSpellings ((base.absorb candidate now).variants.map Variant.text)
          (rest.flatMap fun s => s.1.variants) := by
    rw [List.flatMap_cons, only, List.singleton_append, newSpellings, text, absorb]
    by_cases known : base.hasVariant candidate.raw = true
    · rw [if_pos (hasVariant_iff.mp known)]
      simp only [if_pos known]
    · rw [if_neg (fun member => known (hasVariant_iff.mpr member))]
      simp only [if_neg known, only, List.take_succ_cons, List.take_zero, List.map_append,
        List.map_cons, List.map_nil, text, List.append_assoc, List.singleton_append]
  unfold settled
  rw [times, spellings]
  simp only [absorb, Names.union, Names.insertAll, List.flatMap_cons, List.foldl_append]

theorem mergeAll_plain (base : Record) (later : List (Record × Instant))
    (plain : ∀ s ∈ later, s.1.category ≠ .custom) (built : ∀ s ∈ later, s.1.IsCandidate) :
    mergeAll (some base) later = some (settled base later) := by
  -- Every sighting that is absorbed makes a new base, so the induction is over all of them.
  induction later generalizing base with
  | nil => simp [mergeAll, settled, newSpellings, Names.insertAll]
  | cons sighting rest ih =>
    obtain ⟨candidate, now⟩ := sighting
    rw [List.forall_mem_cons] at plain built
    rw [mergeAll_cons, merge, if_neg plain.1, settled_cons base candidate now rest built.1]
    exact ih _ plain.2 built.2

theorem mergeAll_historyBase {existing : Option Record} {sightings : List (Record × Instant)}
    (nonempty : sightings ≠ []) (built : ∀ s ∈ sightings, s.1.IsCandidate) :
    ∃ base later, historyBase existing sightings = some (base, later) ∧
      mergeAll existing sightings = some (settled base later) := by
  cases found : lastCustom sightings with
  | some last =>
    obtain ⟨custom, later⟩ := last
    obtain ⟨isCustom, plain, earlier, now, rfl⟩ := lastCustom_eq_some found
    refine ⟨custom, later, by simp only [historyBase, found], ?_⟩
    rw [mergeAll_of_custom isCustom]
    exact mergeAll_plain custom later plain (fun s member => built s (by simp [member]))
  | none =>
    have plain := lastCustom_eq_none.mp found
    cases existing with
    | some known =>
      exact ⟨known, sightings, by simp only [historyBase, found],
        mergeAll_plain known sightings plain built⟩
    | none =>
      cases sightings with
      | nil => exact absurd rfl nonempty
      | cons sighting rest =>
        obtain ⟨first, now⟩ := sighting
        rw [List.forall_mem_cons] at plain built
        refine ⟨first, rest, by simp only [historyBase, found], ?_⟩
        rw [mergeAll_cons, merge, if_neg plain.1]
        exact mergeAll_plain first rest plain.2 built.2

/-- The record after any history is the base of the history with what the later sightings add; a custom
record stays custom, and a custom sighting makes everything before it forgotten. -/
theorem mergeAll_eq_settled (existing : Option Record) (sightings : List (Record × Instant))
    (nonempty : sightings ≠ []) (built : ∀ s ∈ sightings, s.1.IsCandidate) :
    (∃ base later, historyBase existing sightings = some (base, later) ∧
        mergeAll existing sightings = some (settled base later)) ∧
      (∀ earlier rest r, sightings = earlier ++ rest → mergeAll existing earlier = some r →
        r.category = .custom →
          ∃ final, mergeAll existing sightings = some final ∧ final.category = .custom) ∧
      (∀ earlier custom now later, sightings = earlier ++ (custom, now) :: later →
        custom.category = .custom →
          mergeAll existing sightings = mergeAll (some custom) later) := by
  refine ⟨mergeAll_historyBase nonempty built, ?_, ?_⟩
  · rintro earlier rest r rfl reached custom
    rw [mergeAll_append, reached]
    exact custom_mergeAll custom rest
  · rintro earlier custom now later rfl isCustom
    exact mergeAll_of_custom isCustom existing earlier later now

/-- A rule that one's own list takes over and that another list then spells with a blank at its end. -/
def sampledHistory : List (Record × Instant) :=
  [sampled "||a.com^" .privacy 0, sampled "||a.com^" .custom 1,
    sampled "||a.com^ " .advertising 2].map fun r => (r, r.added)

theorem mergeAll_sampledHistory :
    sampledHistory ≠ [] ∧ (∀ s ∈ sampledHistory, s.1.IsCandidate) ∧
      ∃ base later, historyBase none sampledHistory = some (base, later) ∧
        mergeAll none sampledHistory = some (settled base later) ∧
        (settled base later).variants.map Variant.text = ["||a.com^", "||a.com^ "] := by
  have nonempty : sampledHistory ≠ [] := List.cons_ne_nil _ _
  have built : ∀ s ∈ sampledHistory, s.1.IsCandidate := by
    intro s member
    obtain ⟨r, listed, rfl⟩ := List.mem_map.mp member
    simp only [List.mem_cons, List.not_mem_nil, or_false] at listed
    rcases listed with rfl | rfl | rfl
    · exact ⟨_, _, _, rfl⟩
    · exact ⟨_, _, _, rfl⟩
    · exact ⟨_, _, _, rfl⟩
  obtain ⟨⟨base, later, counted, merged⟩, -, -⟩ :=
    mergeAll_eq_settled none sampledHistory nonempty built
  refine ⟨nonempty, built, base, later, counted, merged, ?_⟩
  have parts : historyBase none sampledHistory =
      some (sampled "||a.com^" .custom 1,
        [(sampled "||a.com^ " .advertising 2, (sampled "||a.com^ " .advertising 2).added)]) := rfl
  rw [parts] at counted
  cases counted
  rfl

end Blocklist.Record
