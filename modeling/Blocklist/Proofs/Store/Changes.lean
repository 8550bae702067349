import Blocklist.Proofs.Store.Positions

/-!
The states that a store in memory can reach: what any changes, in any order, make of an empty store. Main
statement: the indexes of such a store lead where they should.
-/

namespace Blocklist.Store

/-- One change of a store. -/
inductive Change where
  | upsert (r : Record)
  | upsertMany (rs : List Record)
  | appendVariant (hash : String) (v : Variant)
  | restore (rs : List Record)
  | clear

/-- The store after a change. -/
def change (s : Store) : Change → Store
  | .upsert r => s.upsert r
  | .upsertMany rs => s.upsertMany rs
  | .appendVariant hash v => (s.appendVariant hash v).2
  | .restore rs => ofRecords rs
  | .clear => {}

/-- The store after changes, one after the other. -/
def changeAll (s : Store) (changes : List Change) : Store := changes.foldl change s

/-- Holds of the stores that changes make of an empty one. -/
def Reachable (s : Store) : Prop := ∃ changes, s = changeAll {} changes

theorem reachable_ofRecords (rs : List Record) : (ofRecords rs).Reachable := ⟨[.restore rs], rfl⟩

theorem changeAll_append (s : Store) (changes later : List Change) :
    s.changeAll (changes ++ later) = (s.changeAll changes).changeAll later :=
  List.foldl_append

variable {s : Store}

theorem Reachable.changeAll (reachable : s.Reachable) (later : List Change) :
    (s.changeAll later).Reachable := by
  obtain ⟨changes, rfl⟩ := reachable
  exact ⟨changes ++ later, (changeAll_append {} changes later).symm⟩

/-- A record may change its spellings, and more, as long as it keeps fingerprint and text. -/
theorem WellFormed.replace {i : Nat} {old r : Record} (wellFormed : s.WellFormed)
    (found : s.records[i]? = some old) (sameHash : old.hash = r.hash) (sameText : old.raw = r.raw) :
    WellFormed { s with records := s.records.set i r } := by
  have inside : i < s.records.length := (List.getElem?_eq_some_iff.mp found).1
  refine ⟨wellFormed.tracks.set found sameHash, ?_⟩
  intro text j entry
  obtain ⟨x, there, equal⟩ := wellFormed.leads text j entry
  by_cases here : i = j
  · subst here
    rw [found] at there
    have same : old = x := Option.some.inj there
    exact ⟨r, List.getElem?_set_self inside, by rw [← sameText, same, equal]⟩
  · exact ⟨x, by rw [List.getElem?_set_ne here, there], equal⟩

/-- Everything that adding a spelling can do. -/
theorem appendVariant_cases (s : Store) (hash : String) (v : Variant) :
    (∃ i r, s.byHash.find? hash = some i ∧ s.records[i]? = some r ∧ r.hasVariant v.text = false ∧
      s.appendVariant hash v =
        (true, { s with records := s.records.set i { r with variants := r.variants ++ [v] } })) ∨
    s.appendVariant hash v = (false, s) := by
  unfold appendVariant
  cases found : s.byHash.find? hash with
  | none => exact Or.inr rfl
  | some i =>
    cases position : s.records[i]? with
    | none => exact Or.inr (by simp only [position])
    | some r =>
      by_cases known : r.hasVariant v.text = true
      · exact Or.inr (by simp only [position, if_pos known])
      · exact Or.inl ⟨i, r, rfl, position, by simpa using known,
          by simp only [position, if_neg known]⟩

theorem WellFormed.appendVariant (wellFormed : s.WellFormed) (hash : String) (v : Variant) :
    (s.appendVariant hash v).2.WellFormed := by
  rcases appendVariant_cases s hash v with ⟨i, r, -, position, -, result⟩ | result
  · rw [result]
    exact wellFormed.replace position rfl rfl
  · rw [result]
    exact wellFormed

theorem WellFormed.change (wellFormed : s.WellFormed) (c : Change) : (s.change c).WellFormed := by
  cases c with
  | upsert r => exact wellFormed.upsert r
  | upsertMany rs => exact wellFormed.upsertMany rs
  | appendVariant hash v => exact wellFormed.appendVariant hash v
  | restore rs => exact wellFormed_empty.upsertMany rs
  | clear => exact wellFormed_empty

theorem WellFormed.changeAll (wellFormed : s.WellFormed) (changes : List Change) :
    (s.changeAll changes).WellFormed := by
  induction changes generalizing s with
  | nil => exact wellFormed
  | cons c changes ih => exact ih (wellFormed.change c)

theorem Reachable.wellFormed (reachable : s.Reachable) : s.WellFormed := by
  obtain ⟨changes, rfl⟩ := reachable
  exact wellFormed_empty.changeAll changes

end Blocklist.Store
