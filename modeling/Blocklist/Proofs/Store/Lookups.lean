import Blocklist.Proofs.Store.Changes
import Blocklist.Proofs.Store.Ranking

/-!
Look-ups by fingerprint seen on the list of records. Main statements: a fingerprint leads to the record
that has it, what it leads to after a record is put in or a spelling is added, and what adding a spelling
does to the list.
-/

namespace Blocklist

namespace Record

/-- The record with one more spelling, unless it has one with this text. -/
def spell (r : Record) (v : Variant) : Record :=
  if r.hasVariant v.text then r else { r with variants := r.variants ++ [v] }

@[simp] theorem spell_hash (r : Record) (v : Variant) : (r.spell v).hash = r.hash := by
  unfold spell
  split <;> rfl

@[simp] theorem spell_raw (r : Record) (v : Variant) : (r.spell v).raw = r.raw := by
  unfold spell
  split <;> rfl

/-- The list with a spelling added to the records of a fingerprint. -/
def spellIn (hash : String) (v : Variant) (xs : List Record) : List Record :=
  xs.map fun r => if r.hash = hash then r.spell v else r

section
variable {hash : String} {v : Variant} {xs : List Record}

theorem spellIn_hash (r : Record) : (if r.hash = hash then r.spell v else r).hash = r.hash := by
  split
  · exact spell_hash r v
  · rfl

theorem spellIn_raw (r : Record) : (if r.hash = hash then r.spell v else r).raw = r.raw := by
  split
  · exact spell_raw r v
  · rfl

theorem map_hash_spellIn : (spellIn hash v xs).map Record.hash = xs.map Record.hash := by
  rw [spellIn, List.map_map]
  exact List.map_congr_left fun r _ => spellIn_hash r

theorem spellIn_of_not_mem (absent : hash ∉ xs.map Record.hash) : spellIn hash v xs = xs := by
  refine (List.map_congr_left ?_).trans xs.map_id
  intro r member
  have other : r.hash ≠ hash := fun same => absent (same ▸ List.mem_map_of_mem member)
  rw [if_neg other, id_eq]

theorem spellIn_of_getElem? {i : Nat} {r : Record} (distinct : (xs.map Record.hash).Nodup)
    (found : xs[i]? = some r) (same : r.hash = hash) : spellIn hash v xs = xs.set i (r.spell v) := by
  induction xs generalizing i with
  | nil => simp at found
  | cons x xs ih =>
    rw [List.map_cons, List.nodup_cons] at distinct
    cases i with
    | zero =>
      have here : x = r := by simpa using found
      have rest : spellIn hash v xs = xs := spellIn_of_not_mem (same ▸ here ▸ distinct.1)
      rw [List.set_cons_zero, spellIn, List.map_cons, if_pos (here ▸ same), here, ← spellIn, rest]
    | succ i =>
      rw [List.getElem?_cons_succ] at found
      have other : x.hash ≠ hash := by
        intro equal
        apply distinct.1
        rw [equal, ← same]
        exact List.mem_map_of_mem (List.mem_of_getElem? found)
      rw [List.set_cons_succ, ← ih distinct.2 found, spellIn, List.map_cons, if_neg other, spellIn]

theorem find?_hash_eq_some_iff {r : Record} (distinct : (xs.map Record.hash).Nodup) :
    xs.find? (fun x => x.hash = hash) = some r ↔ r ∈ xs ∧ r.hash = hash := by
  constructor
  · intro found
    exact ⟨List.mem_of_find?_eq_some found, by simpa using List.find?_some found⟩
  · rintro ⟨member, same⟩
    cases found : xs.find? fun x => x.hash = hash with
    | none => exact absurd same (by simpa using List.find?_eq_none.mp found r member)
    | some q =>
      have equal : q.hash = r.hash := by simpa [same] using List.find?_some found
      rw [List.inj_on_of_nodup_map distinct (List.mem_of_find?_eq_some found) member equal]

end

theorem find?_hash_placeIn (r : Record) (xs : List Record) (hash : String) :
    (placeIn r xs).find? (fun x => x.hash = hash) =
      if hash = r.hash then some r else xs.find? (fun x => x.hash = hash) := by
  induction xs with
  | nil =>
    by_cases new : hash = r.hash
    · simp [placeIn, new]
    · simp [placeIn, new, Ne.symm new]
  | cons x xs ih =>
    by_cases same : x.hash = r.hash
    · by_cases new : hash = r.hash
      · simp [placeIn, same, new]
      · simp [placeIn, same, new, Ne.symm new]
    · rw [placeIn, if_neg same]
      by_cases here : x.hash = hash
      · have old : hash ≠ r.hash := here ▸ same
        simp [here, old]
      · rw [List.find?_cons_of_neg (by simpa using here), ih,
          List.find?_cons_of_neg (by simpa using here)]

theorem find?_hash_spellIn (v : Variant) (xs : List Record) (hash other : String) :
    (spellIn hash v xs).find? (fun x => x.hash = other) =
      if other = hash then (xs.find? fun x => x.hash = other).map fun r => r.spell v
      else xs.find? fun x => x.hash = other := by
  have passes : ((fun x : Record => decide (x.hash = other)) ∘
      fun r => if r.hash = hash then r.spell v else r) = fun x => decide (x.hash = other) := by
    funext r
    rw [Function.comp_apply, spellIn_hash]
  rw [spellIn, List.find?_map, passes]
  cases found : xs.find? fun x => x.hash = other with
  | none => simp
  | some r =>
    have same : r.hash = other := by simpa using List.find?_some found
    rw [Option.map_some, Option.map_some, same]
    split <;> rfl

end Record

/-- The index leads to the record that has the fingerprint. -/
theorem Index.Tracks.bind_find? {index : Index} {records : List Record}
    (tracks : index.Tracks records) (hash : String) :
    ((index.find? hash).bind fun i => records[i]?) = records.find? fun r => r.hash = hash := by
  cases entry : index.find? hash with
  | none =>
    have absent := tracks.not_mem_of_none entry
    rw [Option.bind_none, eq_comm, List.find?_eq_none]
    intro r member same
    exact absent (List.mem_map.mpr ⟨r, member, by simpa using same⟩)
  | some i =>
    obtain ⟨r, position, same⟩ := (tracks hash i).mp entry
    rw [Option.bind_some, position, eq_comm]
    exact (Record.find?_hash_eq_some_iff tracks.nodup).mpr ⟨List.mem_of_getElem? position, same⟩

namespace Store

theorem all_eq_records (s : Store) : s.all = s.records := Selection.choose_default s.records

variable {s : Store}

/-- A fingerprint leads to the record that has it. -/
theorem findByHash_eq_find? (wellFormed : s.WellFormed) (hash : String) :
    s.findByHash hash = s.records.find? fun r => r.hash = hash :=
  wellFormed.tracks.bind_find? hash

theorem findByHash_upsert (wellFormed : s.WellFormed) (r : Record) (hash : String) :
    (s.upsert r).findByHash hash = if hash = r.hash then some r else s.findByHash hash := by
  rw [findByHash_eq_find? (wellFormed.upsert r), records_upsert wellFormed,
    Record.find?_hash_placeIn, findByHash_eq_find? wellFormed]

/-- A spelling is added exactly when its fingerprint leads to a record without its text. -/
theorem appendVariant_fst (s : Store) (hash : String) (v : Variant) :
    (s.appendVariant hash v).1 = (s.findByHash hash).any fun r => !r.hasVariant v.text := by
  unfold appendVariant findByHash
  cases s.byHash.find? hash with
  | none => rfl
  | some i =>
    simp only [Option.bind_some]
    cases s.records[i]? with
    | none => rfl
    | some r =>
      cases known : r.hasVariant v.text
      · simp [known]
      · simp [known]

theorem appendVariant_unchanged {hash : String} {v : Variant}
    (refused : (s.appendVariant hash v).1 = false) : (s.appendVariant hash v).2 = s := by
  rcases appendVariant_cases s hash v with ⟨i, r, -, -, -, result⟩ | result
  · rw [result] at refused
    cases refused
  · rw [result]

theorem records_appendVariant (wellFormed : s.WellFormed) (hash : String) (v : Variant) :
    (s.appendVariant hash v).2.records = Record.spellIn hash v s.records := by
  unfold appendVariant
  cases entry : s.byHash.find? hash with
  | none => rw [Record.spellIn_of_not_mem (wellFormed.tracks.not_mem_of_none entry)]
  | some i =>
    obtain ⟨r, position, same⟩ := (wellFormed.tracks hash i).mp entry
    rw [Record.spellIn_of_getElem? wellFormed.tracks.nodup position same, Record.spell]
    simp only [position]
    split
    · obtain ⟨inside, here⟩ := List.getElem?_eq_some_iff.mp position
      rw [← here, List.set_getElem_self]
    · rfl

theorem findByHash_appendVariant (wellFormed : s.WellFormed) (hash other : String) (v : Variant) :
    (s.appendVariant hash v).2.findByHash other =
      if other = hash then (s.findByHash other).map fun r => r.spell v else s.findByHash other := by
  rw [findByHash_eq_find? (wellFormed.appendVariant hash v), records_appendVariant wellFormed,
    Record.find?_hash_spellIn, findByHash_eq_find? wellFormed]

end Store

end Blocklist
