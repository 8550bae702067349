import Blocklist.Proofs.Instant.RoundTrip
import Blocklist.Proofs.Json.RoundTrip
import Blocklist.Record.Json

/-!
Records read back from their JSON form. Each part of a record is read from the value that it is written
as, and all of these values are nested only a few levels deep. Main statement: the text of a list of
records is read as the list.
-/

namespace Blocklist

namespace Json

theorem listOf_map {item : Json → Option α} {write : α → Json} {xs : List α}
    (each : ∀ x, item (write x) = some x) : listOf item (.array (xs.map write)) = some xs := by
  rw [listOf, asList?, Option.bind_some]
  induction xs with
  | nil => rfl
  | cons x xs ih => simp [List.mapM_cons, each, ih]

theorem asStrings?_strings (texts : List String) : asStrings? (strings texts) = some texts :=
  listOf_map fun _ => rfl

theorem Plain.strings {depth : Nat} {texts : List String} : Plain (depth + 1) (strings texts) := by
  refine .array fun x member => ?_
  obtain ⟨text, -, rfl⟩ := List.mem_map.mp member
  exact .string

theorem Plain.map {depth : Nat} {write : α → Json} {xs : List α}
    (each : ∀ x, Plain depth (write x)) : Plain (depth + 1) (.array (xs.map write)) := by
  refine .array fun v member => ?_
  obtain ⟨x, -, rfl⟩ := List.mem_map.mp member
  exact each x

theorem areMeaningful_strings (texts : List String) : areMeaningful (texts.map .string) = true := by
  induction texts with
  | nil => rfl
  | cons text texts ih => simp [areMeaningful, isMeaningful, ih]

end Json

namespace Names

theorem insertName_of_forall_lt {name : String} {xs : List String} (last : ∀ x ∈ xs, x < name) :
    insertName name xs = xs ++ [name] := by
  induction xs with
  | nil => rfl
  | cons x xs ih =>
    have before : x < name := last x List.mem_cons_self
    rw [insertName, if_neg (String.lt_asymm before), if_neg (String.ne_of_lt before),
      ih fun y member => last y (List.mem_cons_of_mem x member), List.cons_append]

theorem toList_insertAll {s : Names} {names : List String}
    (sorted : (s.toList ++ names).Pairwise (· < ·)) :
    (s.insertAll names).toList = s.toList ++ names := by
  induction names generalizing s with
  | nil => rw [List.append_nil]; rfl
  | cons name names ih =>
    have last : ∀ x ∈ s.toList, x < name := fun x member =>
      (List.pairwise_append.mp sorted).2.2 x member name List.mem_cons_self
    have grown : (s.insert name).toList = s.toList ++ [name] := insertName_of_forall_lt last
    change ((s.insert name).insertAll names).toList = _
    rw [ih (by rwa [grown, List.append_assoc]), grown, List.append_assoc, List.singleton_append]

theorem ofList_toList (s : Names) : ofList s.toList = s := by
  have same : (ofList s.toList).toList = s.toList := toList_insertAll s.sorted
  generalize ofList s.toList = t at same
  cases s
  cases t
  cases same
  rfl

theorem ofJson?_toJson (s : Names) : ofJson? s.toJson = some s := by
  rw [ofJson?, toJson, Json.asStrings?_strings, Option.map_some, ofList_toList]

end Names

namespace Instant

theorem ofJson?_toJson (t : Instant) : ofJson? t.toJson = some t := by
  rw [ofJson?, toJson, Json.asString?, Option.bind_some, render, String.toList_ofList, read?_write]

end Instant

theorem Rule.Kind.ofJson?_name (kind : Rule.Kind) : ofJson? (.string kind.name) = some kind := by
  cases kind <;> decide

theorem Category.ofJson?_name (category : Category) :
    ofJson? (.string category.name) = some category := by
  cases category <;> decide

theorem Json.asInt32?_toInt (n : Int32) : asInt32? (.int n.toInt) = some n := by
  have low := Int32.le_toInt n
  have high := Int32.toInt_lt n
  have fits : isInt32 n.toInt = true := by
    simp only [isInt32, Bool.and_eq_true, decide_eq_true_eq]
    omega
  rw [asInt32?, int32?, if_pos fits, Int32.ofInt_toInt]

theorem Rule.Modifier.ofJson?_toJson (m : Rule.Modifier) : ofJson? m.toJson = some m := by
  cases m with
  | domain domains =>
    have read := Json.asStrings?_strings domains
    have meaningful := Json.areMeaningful_strings domains
    unfold Json.strings at read
    simp [ofJson?, toJson, ofFields?, Json.isMeaningful, Json.haveMeaning, Json.strings, meaningful,
      Json.fields, Json.member?, Json.required, Json.asString?, read]
  | value key given =>
    simp [ofJson?, toJson, ofFields?, Json.isMeaningful, Json.haveMeaning, Json.fields,
      Json.member?, Json.required, Json.asString?]
  | flag key =>
    simp [ofJson?, toJson, ofFields?, Json.isMeaningful, Json.haveMeaning, Json.fields,
      Json.member?, Json.required, Json.asString?]

theorem Variant.ofJson?_toJson (v : Variant) : ofJson? v.toJson = some v := by
  simp [ofJson?, toJson, Json.fields, Json.member?, Json.required, Json.fieldOr, Json.asString?,
    Instant.ofJson?_toJson, Names.ofJson?_toJson, Json.listOf_map Rule.Modifier.ofJson?_toJson]

theorem Origin.ofJson?_toJson (o : Origin) : ofJson? o.toJson = some o := by
  simp [ofJson?, toJson, Json.fields, Json.member?, Json.required, Json.asString?, Json.asBool?,
    Category.ofJson?_name, Json.asInt32?_toInt]

theorem Record.ofJson?_toJson (r : Record) : ofJson? r.toJson = some r := by
  -- A record without a domain has an object with one member less.
  obtain ⟨raw, kind, _ | domain, hash, sources, added, updated, enabled, origin, tags, variants⟩ := r
  all_goals
    simp [ofJson?, toJson, domainMembers, metadataJson, Json.fields, Json.member?, Json.required,
      Json.optionalField, Json.optional, Json.fieldOr, Json.asString?, Json.asBool?,
      Rule.Kind.ofJson?_name, Instant.ofJson?_toJson, Names.ofJson?_toJson, Origin.ofJson?_toJson,
      Json.listOf_map Variant.ofJson?_toJson]

/-! ## Depth -/

section
variable {depth : Nat}

theorem Rule.Modifier.plain_toJson (m : Rule.Modifier) : Json.Plain (depth + 2) m.toJson := by
  cases m with
  | domain domains =>
    refine .object ?_
    simp only [List.forall_mem_cons]
    exact ⟨.string, .strings, by simp⟩
  | value key given =>
    refine .object ?_
    simp only [List.forall_mem_cons]
    exact ⟨.string, .string, .string, by simp⟩
  | flag key =>
    refine .object ?_
    simp only [List.forall_mem_cons]
    exact ⟨.string, .string, by simp⟩

theorem Variant.plain_toJson (v : Variant) : Json.Plain (depth + 4) v.toJson := by
  refine .object ?_
  simp only [List.forall_mem_cons]
  exact ⟨.string, .string, .string, .map Rule.Modifier.plain_toJson, .strings, by simp⟩

theorem Origin.plain_toJson (o : Origin) : Json.Plain (depth + 1) o.toJson := by
  have low := Int32.le_toInt o.priority
  have high := Int32.toInt_lt o.priority
  have fits : isInt64 o.priority.toInt = true := by
    simp only [isInt64, Bool.and_eq_true, decide_eq_true_eq]
    omega
  refine .object ?_
  simp only [List.forall_mem_cons]
  exact ⟨.string, .int fits, .bool, .string, by simp⟩

namespace Record

theorem plain_metadataJson (r : Record) : Json.Plain (depth + 2) r.metadataJson := by
  refine .object ?_
  simp only [List.forall_mem_cons]
  exact ⟨.strings, .string, .string, .bool, r.origin.plain_toJson, .strings, by simp⟩

theorem plain_domainMembers (r : Record) : ∀ m ∈ r.domainMembers, Json.Plain depth m.2 := by
  unfold domainMembers
  split
  · simpa using .string
  · simp

theorem plain_toJson (r : Record) : Json.Plain (depth + 6) r.toJson := by
  refine .object ?_
  simp only [List.forall_mem_append, List.forall_mem_cons]
  exact ⟨⟨⟨.string, .string, by simp⟩, r.plain_domainMembers⟩, .string, r.plain_metadataJson,
    .map Variant.plain_toJson, by simp⟩

end Record

end

/-- The records that a list of records is written as are these records. -/
theorem Record.readList?_renderList (records : List Record) :
    readList? (renderList records) = some records := by
  have plain : Json.Plain 7 (.array (records.map toJson)) := .map plain_toJson
  have read := Json.parse?_print plain (by decide)
  rw [readList?, renderList, Json.render, String.toList_ofList, read, Option.bind_some]
  exact Json.listOf_map ofJson?_toJson

/-- The text of a list of records is not blank, since it opens with a bracket. -/
theorem Record.not_blank_renderList (records : List Record) :
    (renderList records).toList.all Text.isBlank = false := by
  have opening : ∃ rest, (Json.array (records.map toJson)).print = '[' :: rest := by
    cases records with
    | nil => exact ⟨_, rfl⟩
    | cons r records => exact ⟨_, rfl⟩
  obtain ⟨rest, first⟩ := opening
  rw [renderList, Json.render, String.toList_ofList, first, List.all_cons]
  rfl

end Blocklist
