import Blocklist.Proofs.Record.Candidate
import Blocklist.Proofs.Store.Requests

/-!
Texts that lead to their records. As long as no two fingerprints ever shared a text, every record is found
by its text, whichever texts its fingerprint had before. Main statement: after any requests the index of
texts then leads from each text to the only record that has it, where the index of fingerprints leads too,
and from no other text anywhere.
-/

namespace Blocklist

namespace Record

/-- Holds of records of which any two with one text have one fingerprint. -/
def TextKeyed (records : List Record) : Prop :=
  ∀ a ∈ records, ∀ b ∈ records, a.raw = b.raw → a.hash = b.hash

/-- Holds of records with the fingerprint and the text of one of these. -/
def KeyIn (known : List Record) (r : Record) : Prop :=
  ∃ k ∈ known, k.hash = r.hash ∧ k.raw = r.raw

theorem KeyIn.of_mem {known : List Record} {r : Record} (member : r ∈ known) : KeyIn known r :=
  ⟨r, member, rfl, rfl⟩

theorem TextKeyed.hash_eq {known : List Record} {a b : Record} (keyed : TextKeyed known)
    (left : KeyIn known a) (right : KeyIn known b) (same : a.raw = b.raw) : a.hash = b.hash := by
  obtain ⟨k, listed, hash, raw⟩ := left
  obtain ⟨l, listed', hash', raw'⟩ := right
  rw [← hash, ← hash']
  exact keyed k listed l listed' (by rw [raw, raw', same])

end Record

namespace Store

variable {s t : Store} {known : List Record}

theorem findByRaw_appendVariant (sound : s.WellFormed) (hash text : String) (v : Variant) :
    (s.appendVariant hash v).2.findByRaw text =
      (s.findByRaw text).map fun r => if r.hash = hash then r.spell v else r := by
  have index : (s.appendVariant hash v).2.byRaw = s.byRaw := by
    rcases appendVariant_cases s hash v with ⟨i, r, -, -, -, result⟩ | result
    · rw [result]
    · rw [result]
  rw [findByRaw, findByRaw, index, records_appendVariant sound, Record.spellIn, Option.map_bind]
  congr 1
  funext i
  rw [Function.comp_apply, List.getElem?_map]

/-- Holds of stores in which the text of every record leads to it. The keys of all records are known. -/
structure Indexed (known : List Record) (s : Store) : Prop where
  wellFormed : s.WellFormed
  finds : ∀ r ∈ s.records, s.findByRaw r.raw = some r
  listed : ∀ r ∈ s.records, r.KeyIn known

namespace Indexed

theorem empty : Indexed known {} := ⟨wellFormed_empty, by simp, by simp⟩

/-- The records of such a store decide what every text leads to. -/
theorem findByRaw_eq (left : Indexed known s) (right : Indexed known t)
    (same : s.records = t.records) (text : String) : s.findByRaw text = t.findByRaw text := by
  cases found : s.findByRaw text with
  | some r =>
    obtain ⟨member, rfl⟩ := mem_of_findByRaw left.wellFormed found
    exact (right.finds r (same ▸ member)).symm
  | none =>
    cases other : t.findByRaw text with
    | none => rfl
    | some r =>
      obtain ⟨member, rfl⟩ := mem_of_findByRaw right.wellFormed other
      rw [left.finds r (same ▸ member)] at found
      cases found

theorem upsert (indexed : Indexed known s) (keyed : Record.TextKeyed known) {r : Record}
    (new : r.KeyIn known) : Indexed known (s.upsert r) := by
  have distinct := indexed.wellFormed.tracks.nodup
  have member : ∀ x ∈ (s.upsert r).records, x = r ∨ x ∈ s.records ∧ x.hash ≠ r.hash := by
    intro x there
    rw [records_upsert indexed.wellFormed, Record.mem_placeIn distinct] at there
    exact there
  refine ⟨indexed.wellFormed.upsert r, ?_, ?_⟩
  · intro x there
    rw [findByRaw_upsert indexed.wellFormed]
    rcases member x there with rfl | ⟨old, other⟩
    · rw [if_pos rfl]
    · have differs : x.raw ≠ r.raw := fun same =>
        other (keyed.hash_eq (indexed.listed x old) new same)
      rw [if_neg differs, if_neg, indexed.finds x old]
      -- The record that is replaced cannot have the text of `x`, which leads to `x`.
      intro replaced
      obtain ⟨gone, found, same⟩ := Option.map_eq_some_iff.mp replaced
      obtain ⟨present, hash⟩ := mem_of_findByHash indexed.wellFormed found
      have text := indexed.finds gone present
      rw [same, indexed.finds x old] at text
      exact other (Option.some.inj text ▸ hash)
  · intro x there
    rcases member x there with rfl | ⟨old, -⟩
    · exact new
    · exact indexed.listed x old

theorem upsertMany (indexed : Indexed known s) (keyed : Record.TextKeyed known) {rs : List Record}
    (new : ∀ r ∈ rs, r.KeyIn known) : Indexed known (s.upsertMany rs) := by
  induction rs generalizing s with
  | nil => exact indexed
  | cons r rs ih =>
    exact ih (indexed.upsert keyed (new r List.mem_cons_self))
      fun x member => new x (List.mem_cons_of_mem r member)

theorem appendVariant (indexed : Indexed known s) (hash : String) (v : Variant) :
    Indexed known (s.appendVariant hash v).2 := by
  have records := records_appendVariant indexed.wellFormed hash v
  refine ⟨indexed.wellFormed.appendVariant hash v, ?_, ?_⟩
  · intro x there
    rw [records] at there
    obtain ⟨r, member, rfl⟩ := List.mem_map.mp there
    rw [Record.spellIn_raw, findByRaw_appendVariant indexed.wellFormed, indexed.finds r member,
      Option.map_some]
  · intro x there
    rw [records] at there
    obtain ⟨r, member, rfl⟩ := List.mem_map.mp there
    obtain ⟨k, listed, hash, raw⟩ := indexed.listed r member
    exact ⟨k, listed, by rw [Record.spellIn_hash, hash], by rw [Record.spellIn_raw, raw]⟩

theorem change (indexed : Indexed known s) (keyed : Record.TextKeyed known) (q : Request)
    (new : q.records ⊆ known) : Indexed known (s.change q.change) := by
  cases q with
  | upsert r => exact indexed.upsert keyed (.of_mem (new List.mem_cons_self))
  | upsertMany rs => exact indexed.upsertMany keyed fun r member => .of_mem (new member)
  | appendVariant hash v => exact indexed.appendVariant hash v
  | clear => exact empty

theorem ofRecords (indexed : Indexed known s) (keyed : Record.TextKeyed known) :
    Indexed known (ofRecords s.records) :=
  empty.upsertMany keyed indexed.listed

theorem changeAll (indexed : Indexed known s) (keyed : Record.TextKeyed known)
    {requests : List Request} (new : requests.flatMap Request.records ⊆ known) :
    Indexed known (s.changeAll (requests.map Request.change)) := by
  induction requests generalizing s with
  | nil => exact indexed
  | cons q requests ih =>
    rw [List.flatMap_cons, List.append_subset] at new
    exact ih (indexed.change keyed q new.1) new.2

/-- Both indexes have the same position for a record. -/
theorem byRaw_eq_byHash (indexed : Indexed known s) {r : Record} (member : r ∈ s.records) :
    s.byRaw.find? r.raw = s.byHash.find? r.hash := by
  have found := indexed.finds r member
  obtain ⟨i, entry, position⟩ := Option.bind_eq_some_iff.mp found
  rw [entry, (indexed.wellFormed.tracks r.hash i).mpr ⟨r, position, rfl⟩]

theorem nodup_raw (indexed : Indexed known s) : (s.records.map Record.raw).Nodup := by
  have distinct : s.records.Nodup := indexed.wellFormed.tracks.nodup.of_map Record.hash
  refine distinct.map_on ?_
  intro a aMember b bMember same
  have first := indexed.finds a aMember
  rw [same, indexed.finds b bMember] at first
  exact (Option.some.inj first).symm

end Indexed

/-- Holds of stores whose index of texts is exact: it leads from a text to the only record that has the
text, which is the record that its fingerprint leads to, and from no other text anywhere. -/
structure ExactTexts (s : Store) : Prop where
  distinct : (s.all.map Record.raw).Nodup
  finds : ∀ text r, s.findByRaw text = some r ↔ r ∈ s.all ∧ r.raw = text
  isSome : ∀ text, (s.findByRaw text).isSome ↔ ∃ r ∈ s.all, r.raw = text
  findByHash : ∀ text r, s.findByRaw text = some r → s.findByHash r.hash = some r
  entries : ∀ r ∈ s.all, s.byRaw.find? r.raw = s.byHash.find? r.hash

theorem Indexed.exactTexts (indexed : Indexed known s) : s.ExactTexts := by
  have all := s.all_eq_records
  have finds : ∀ text r, s.findByRaw text = some r ↔ r ∈ s.all ∧ r.raw = text := by
    intro text r
    rw [all]
    constructor
    · exact mem_of_findByRaw indexed.wellFormed
    · rintro ⟨member, rfl⟩
      exact indexed.finds r member
  refine ⟨?_, finds, ?_, ?_, ?_⟩
  · rw [all]
    exact indexed.nodup_raw
  · intro text
    simp only [Option.isSome_iff_exists, finds]
  · intro text r found
    rw [finds, all] at found
    rw [findByHash_eq_find? indexed.wellFormed]
    exact (Record.find?_hash_eq_some_iff indexed.wellFormed.tracks.nodup).mpr ⟨found.1, rfl⟩
  · intro r member
    exact indexed.byRaw_eq_byHash (all ▸ member)

/-- If equal texts had equal fingerprints among all records that ever came into a store, then at every
point its index of texts is exact, even where one fingerprint came with several texts. -/
theorem changeAll_exactTexts (initial : List Record) (requests : List Request)
    (keyed : Record.TextKeyed (initial ++ requests.flatMap Request.records)) :
    ((Store.ofRecords initial).changeAll (requests.map Request.change)).ExactTexts := by
  have start : Indexed (initial ++ requests.flatMap Request.records) (Store.ofRecords initial) :=
    Indexed.empty.upsertMany keyed fun r member => .of_mem (List.mem_append_left _ member)
  exact (start.changeAll keyed (List.subset_append_right _ _)).exactTexts

/-- A rule with a blank after it, another rule, and the first one without the blank. -/
def respelled : List Request :=
  [.upsert (.sampled "||a.com^ " .advertising 0),
    .upsertMany [.sampled "||b.com^" .privacy 1, .sampled "||a.com^" .privacy 1]]

/-- The text with the blank leads nowhere once its fingerprint has the other text. -/
theorem changeAll_exactTexts_respelled :
    let s := (Store.ofRecords []).changeAll (respelled.map Request.change)
    s.ExactTexts ∧ s.size = 2 ∧ s.findByRaw "||a.com^ " = none ∧
      s.findByRaw "||a.com^" = some (.sampled "||a.com^" .privacy 1) := by
  intro s
  have keyed : Record.TextKeyed ([] ++ respelled.flatMap Request.records) := by
    unfold Record.TextKeyed
    decide +kernel
  exact ⟨changeAll_exactTexts [] respelled keyed, by decide +kernel⟩

end Store

end Blocklist
