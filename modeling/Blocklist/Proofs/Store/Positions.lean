import Blocklist.Proofs.Record.Placing
import Blocklist.Store.Basic

/-!
What the two indexes of a store in memory know. The index of fingerprints has every record's fingerprint
at its position and no other; what the index of texts has leads to a record with that text. Main
statements: every change keeps this, putting a record in places it in the list of records, and what each
look-up finds after a record is put in.
-/

namespace Blocklist

theorem getElem?_concat_iff {records : List Record} {r x : Record} {i : Nat} :
    (records ++ [r])[i]? = some x ↔ records[i]? = some x ∨ i = records.length ∧ x = r := by
  rcases Nat.lt_trichotomy i records.length with inside | atEnd | outside
  · rw [List.getElem?_append_left inside]
    simp [Nat.ne_of_lt inside]
  · subst atEnd
    simp [eq_comm]
  · have nothing : (records ++ [r])[i]? = none :=
      List.getElem?_eq_none (by rw [List.length_append, List.length_singleton]; omega)
    rw [nothing, List.getElem?_eq_none (Nat.le_of_lt outside)]
    simp [Nat.ne_of_gt outside]

/-- The index has the fingerprints of these records, each at the record's position, and no other. -/
def Index.Tracks (index : Index) (records : List Record) : Prop :=
  ∀ hash i, index.find? hash = some i ↔ ∃ r, records[i]? = some r ∧ r.hash = hash

namespace Index.Tracks

variable {index : Index} {records : List Record} {r old : Record} {i : Nat}

theorem empty : Index.Tracks {} [] := by
  intro hash i
  simp

theorem nodup (tracks : index.Tracks records) : (records.map Record.hash).Nodup := by
  rw [List.nodup_iff_getElem?_ne_getElem?]
  intro i j before inside same
  rw [List.length_map] at inside
  rw [List.getElem?_map, List.getElem?_map,
    List.getElem?_eq_getElem (Nat.lt_trans before inside), List.getElem?_eq_getElem inside] at same
  have equal : records[i].hash = records[j].hash := Option.some.inj same
  have first := (tracks records[j].hash i).mpr
    ⟨_, List.getElem?_eq_getElem (Nat.lt_trans before inside), equal⟩
  have second := (tracks records[j].hash j).mpr ⟨_, List.getElem?_eq_getElem inside, rfl⟩
  rw [first] at second
  have positions : i = j := Option.some.inj second
  omega

theorem not_mem_of_none {hash : String} (tracks : index.Tracks records)
    (absent : index.find? hash = none) : hash ∉ records.map Record.hash := by
  intro member
  obtain ⟨r, present, same⟩ := List.mem_map.mp member
  obtain ⟨i, found⟩ := List.mem_iff_getElem?.mp present
  have known := (tracks hash i).mpr ⟨r, found, same⟩
  rw [absent] at known
  cases known

theorem set (tracks : index.Tracks records) (found : records[i]? = some old)
    (same : old.hash = r.hash) : index.Tracks (records.set i r) := by
  intro hash j
  rw [tracks hash j]
  by_cases here : i = j
  · subst here
    have inside : i < records.length := (List.getElem?_eq_some_iff.mp found).1
    rw [List.getElem?_set_self inside, found]
    simp [same]
  · rw [List.getElem?_set_ne here]

theorem append (tracks : index.Tracks records) (absent : index.find? r.hash = none) :
    (index.insert r.hash records.length).Tracks (records ++ [r]) := by
  intro hash j
  rw [Index.find?_insert]
  by_cases same : hash = r.hash
  · subst same
    rw [if_pos rfl]
    constructor
    · intro position
      have atEnd : records.length = j := Option.some.inj position
      exact ⟨r, getElem?_concat_iff.mpr (Or.inr ⟨atEnd.symm, rfl⟩), rfl⟩
    · rintro ⟨x, found, equal⟩
      rcases getElem?_concat_iff.mp found with earlier | ⟨atEnd, -⟩
      · have known := (tracks r.hash j).mpr ⟨x, earlier, equal⟩
        rw [absent] at known
        cases known
      · rw [atEnd]
  · rw [if_neg same, tracks hash j]
    constructor
    · rintro ⟨x, found, equal⟩
      exact ⟨x, getElem?_concat_iff.mpr (Or.inl found), equal⟩
    · rintro ⟨x, found, equal⟩
      rcases getElem?_concat_iff.mp found with earlier | ⟨-, last⟩
      · exact ⟨x, earlier, equal⟩
      · exact absurd (last ▸ equal).symm same

theorem placeIn_of_some (tracks : index.Tracks records) (found : index.find? r.hash = some i) :
    Record.placeIn r records = records.set i r := by
  obtain ⟨old, position, same⟩ := (tracks r.hash i).mp found
  exact Record.placeIn_of_getElem? tracks.nodup position same

theorem placeIn_of_none (tracks : index.Tracks records) (absent : index.find? r.hash = none) :
    Record.placeIn r records = records ++ [r] :=
  Record.placeIn_of_fresh (tracks.not_mem_of_none absent)

end Index.Tracks

namespace Store

/-- The indexes lead where they should. The index of texts may lack texts: of two records with one text,
the later one takes the entry along when it is replaced. -/
structure WellFormed (s : Store) : Prop where
  tracks : s.byHash.Tracks s.records
  leads : ∀ text i, s.byRaw.find? text = some i → ∃ r, s.records[i]? = some r ∧ r.raw = text

theorem wellFormed_empty : WellFormed {} := ⟨Index.Tracks.empty, by simp⟩

variable {s : Store}

/-- Following an entry leads to a listed record of the entry's text. -/
theorem mem_of_entry {index : Index} {key : Record → String} {text : String} {r : Record}
    (leads : ∀ i, index.find? text = some i → ∃ x, s.records[i]? = some x ∧ key x = text)
    (found : ((index.find? text).bind fun i => s.records[i]?) = some r) :
    r ∈ s.records ∧ key r = text := by
  obtain ⟨i, entry, position⟩ := Option.bind_eq_some_iff.mp found
  obtain ⟨x, there, same⟩ := leads i entry
  rw [there] at position
  have equal : x = r := Option.some.inj position
  exact ⟨equal ▸ List.mem_of_getElem? there, equal ▸ same⟩

theorem mem_of_findByRaw {text : String} {r : Record} (wellFormed : s.WellFormed)
    (found : s.findByRaw text = some r) : r ∈ s.records ∧ r.raw = text :=
  mem_of_entry (wellFormed.leads text) found

theorem mem_of_findByHash {hash : String} {r : Record} (wellFormed : s.WellFormed)
    (found : s.findByHash hash = some r) : r ∈ s.records ∧ r.hash = hash :=
  mem_of_entry (fun i => (wellFormed.tracks hash i).mp) found

/-- Everything that putting a record in can do. -/
theorem upsert_cases (wellFormed : s.WellFormed) (r : Record) :
    (∃ i old, s.byHash.find? r.hash = some i ∧ s.records[i]? = some old ∧ old.hash = r.hash ∧
      s.upsert r = { s with
        records := s.records.set i r, byRaw := (s.byRaw.erase old.raw).insert r.raw i }) ∨
    (s.byHash.find? r.hash = none ∧
      s.upsert r = {
        records := s.records ++ [r]
        byHash := s.byHash.insert r.hash s.records.length
        byRaw := s.byRaw.insert r.raw s.records.length }) := by
  cases found : s.byHash.find? r.hash with
  | none => exact Or.inr ⟨rfl, by simp only [upsert, found]⟩
  | some i =>
    obtain ⟨old, position, same⟩ := (wellFormed.tracks r.hash i).mp found
    exact Or.inl ⟨i, old, rfl, position, same, by simp only [upsert, found, position]⟩

theorem records_upsert (wellFormed : s.WellFormed) (r : Record) :
    (s.upsert r).records = Record.placeIn r s.records := by
  rcases upsert_cases wellFormed r with ⟨i, old, found, -, -, result⟩ | ⟨absent, result⟩
  · rw [result, wellFormed.tracks.placeIn_of_some found]
  · rw [result, wellFormed.tracks.placeIn_of_none absent]

theorem WellFormed.leads_elsewhere {i j : Nat} {old : Record} {text : String}
    (wellFormed : s.WellFormed) (position : s.records[i]? = some old) (other : text ≠ old.raw)
    (entry : s.byRaw.find? text = some j) : i ≠ j := by
  obtain ⟨x, there, equal⟩ := wellFormed.leads text j entry
  intro here
  rw [← here, position] at there
  exact other (Option.some.inj there ▸ equal.symm)

theorem WellFormed.upsert (wellFormed : s.WellFormed) (r : Record) : (s.upsert r).WellFormed := by
  rcases upsert_cases wellFormed r with ⟨i, old, -, position, same, result⟩ | ⟨absent, result⟩
  · have inside : i < s.records.length := (List.getElem?_eq_some_iff.mp position).1
    rw [result]
    refine ⟨wellFormed.tracks.set position same, ?_⟩
    intro text j entry
    rw [Index.find?_insert, Index.find?_erase] at entry
    by_cases new : text = r.raw
    · rw [if_pos new] at entry
      have here : i = j := Option.some.inj entry
      subst here
      exact ⟨r, List.getElem?_set_self inside, new.symm⟩
    · rw [if_neg new] at entry
      by_cases gone : text = old.raw
      · rw [if_pos gone] at entry
        cases entry
      · rw [if_neg gone] at entry
        obtain ⟨x, there, equal⟩ := wellFormed.leads text j entry
        have elsewhere := wellFormed.leads_elsewhere position gone entry
        exact ⟨x, by rw [List.getElem?_set_ne elsewhere, there], equal⟩
  · rw [result]
    refine ⟨wellFormed.tracks.append absent, ?_⟩
    intro text j entry
    rw [Index.find?_insert] at entry
    by_cases new : text = r.raw
    · rw [if_pos new] at entry
      have here : s.records.length = j := Option.some.inj entry
      exact ⟨r, getElem?_concat_iff.mpr (Or.inr ⟨here.symm, rfl⟩), new.symm⟩
    · rw [if_neg new] at entry
      obtain ⟨x, there, equal⟩ := wellFormed.leads text j entry
      exact ⟨x, getElem?_concat_iff.mpr (Or.inl there), equal⟩

/-- After a record is put in, its text leads to it, the text of the record it replaced leads nowhere,
and any other text leads where it did. -/
theorem findByRaw_upsert (wellFormed : s.WellFormed) (r : Record) (text : String) :
    (s.upsert r).findByRaw text =
      if text = r.raw then some r
      else if (s.findByHash r.hash).map Record.raw = some text then none
      else s.findByRaw text := by
  rcases upsert_cases wellFormed r with ⟨i, old, found, position, -, result⟩ | ⟨absent, result⟩
  · have inside : i < s.records.length := (List.getElem?_eq_some_iff.mp position).1
    have replaced : s.findByHash r.hash = some old := by
      rw [findByHash, found, Option.bind_some, position]
    rw [replaced, result, findByRaw, Index.find?_insert, Index.find?_erase]
    by_cases new : text = r.raw
    · rw [if_pos new, if_pos new, Option.bind_some, List.getElem?_set_self inside]
    · rw [if_neg new, if_neg new, Option.map_some]
      by_cases gone : text = old.raw
      · rw [if_pos gone, if_pos (congrArg some gone.symm), Option.bind_none]
      · rw [if_neg gone, if_neg (fun same => gone (Option.some.inj same).symm), findByRaw]
        cases entry : s.byRaw.find? text with
        | none => rfl
        | some j =>
          have elsewhere := wellFormed.leads_elsewhere position gone entry
          rw [Option.bind_some, Option.bind_some, List.getElem?_set_ne elsewhere]
  · have unknown : s.findByHash r.hash = none := by rw [findByHash, absent, Option.bind_none]
    rw [unknown, result, findByRaw, Index.find?_insert]
    by_cases new : text = r.raw
    · rw [if_pos new, if_pos new, Option.bind_some, List.getElem?_concat_length]
    · rw [if_neg new, if_neg new, Option.map_none, if_neg (by simp), findByRaw]
      cases entry : s.byRaw.find? text with
      | none => rfl
      | some j =>
        obtain ⟨x, there, -⟩ := wellFormed.leads text j entry
        rw [Option.bind_some, Option.bind_some, there]
        exact getElem?_concat_iff.mpr (Or.inl there)

/-- Among keyed records no text is lost: only the text of the record that is put in leads elsewhere. -/
theorem findByRaw_upsert_of_keyed (wellFormed : s.WellFormed) (r : Record)
    (keyed : ∀ x ∈ s.records, x.hash = r.hash ↔ x.raw = r.raw) (text : String) :
    (s.upsert r).findByRaw text = if text = r.raw then some r else s.findByRaw text := by
  rw [findByRaw_upsert wellFormed]
  by_cases new : text = r.raw
  · rw [if_pos new, if_pos new]
  · rw [if_neg new, if_neg new, if_neg]
    intro replaced
    obtain ⟨old, found, same⟩ := Option.map_eq_some_iff.mp replaced
    obtain ⟨member, key⟩ := mem_of_findByHash wellFormed found
    exact new (same ▸ (keyed old member).mp key)

theorem WellFormed.upsertMany (wellFormed : s.WellFormed) (rs : List Record) :
    (s.upsertMany rs).WellFormed := by
  induction rs generalizing s with
  | nil => exact wellFormed
  | cons r rs ih => exact ih (wellFormed.upsert r)

theorem records_upsertMany (wellFormed : s.WellFormed) (rs : List Record) :
    (s.upsertMany rs).records = Record.placeAll s.records rs := by
  induction rs generalizing s with
  | nil => rfl
  | cons r rs ih =>
    have step := ih (wellFormed.upsert r)
    rw [records_upsert wellFormed r] at step
    exact step

/-- A store in which every text leads to the first record with that text. -/
structure Exact (s : Store) : Prop extends WellFormed s where
  finds : ∀ text, s.findByRaw text = s.records.find? fun r => r.raw = text

theorem exact_empty : Exact {} := ⟨wellFormed_empty, fun _ => rfl⟩

theorem Exact.upsert {r : Record} (exact : s.Exact)
    (keyed : ∀ x ∈ s.records, x.hash = r.hash ↔ x.raw = r.raw) : (s.upsert r).Exact := by
  refine ⟨exact.toWellFormed.upsert r, ?_⟩
  intro text
  rw [findByRaw_upsert_of_keyed exact.toWellFormed r keyed, records_upsert exact.toWellFormed,
    Record.find?_raw_placeIn keyed, exact.finds]

theorem Exact.upsertMany {rs : List Record} (exact : s.Exact)
    (keyed : Record.Keyed (s.records ++ rs)) : (s.upsertMany rs).Exact := by
  induction rs generalizing s with
  | nil => exact exact
  | cons r rs ih =>
    apply ih (exact.upsert keyed.head)
    rw [records_upsert exact.toWellFormed]
    exact keyed.placeIn rfl rfl

theorem ofRecords_exact {rs : List Record} (keyed : Record.Keyed rs)
    (distinct : (rs.map Record.hash).Nodup) :
    (ofRecords rs).Exact ∧ (ofRecords rs).records = rs := by
  refine ⟨exact_empty.upsertMany keyed, ?_⟩
  have placed : Record.placeAll [] rs = [] ++ rs := Record.placeAll_of_distinct distinct
  rw [ofRecords, records_upsertMany wellFormed_empty]
  exact placed

end Store

end Blocklist
