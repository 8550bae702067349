import Blocklist.Json.Basic
import Blocklist.Json.Reader
import Blocklist.Proofs.Text.Digits

/-!
JSON values read back from their text. Main statement: a value whose numbers are integers of 64 bits and
which is nested no deeper than values may be is the value that its text spells.
-/

namespace Blocklist.Json

open Text

/-! ## Strings -/

section
variable {c : Char}

theorem hex4?_control (control : c.toNat < 0x20) :
    hex4? '0' '0' (hexDigit (c.toNat / 16)) (hexDigit (c.toNat % 16)) = some c.toNat := by
  have zero : hexValue? '0' = some 0 := rfl
  have sum : ((0 * 16 + 0) * 16 + c.toNat / 16) * 16 + c.toNat % 16 = c.toNat := by omega
  simp only [hex4?, zero, hexValue?_hexDigit (show c.toNat / 16 < 16 by omega),
    hexValue?_hexDigit (Nat.mod_lt c.toNat (show 0 < 16 by decide)), Option.bind_eq_bind,
    Option.bind_some, Option.pure_def, sum]

theorem ofEscape_control (control : c.toNat < 0x20) : Piece.ofEscape c.toNat = .char c := by
  have high : isHighHalf c.toNat = false := by
    simp only [isHighHalf, Bool.and_eq_false_iff, decide_eq_false_iff_not]
    omega
  have low : isLowHalf c.toNat = false := by
    simp only [isLowHalf, Bool.and_eq_false_iff, decide_eq_false_iff_not]
    omega
  rw [Piece.ofEscape, high, low, Char.ofNat_toNat]
  rfl

/-- A character that is written as it is, and so begins no escape and ends no string. -/
theorem pieces_cons {rest : List Char} (quote : c ≠ '"') (slash : c ≠ '\\')
    (visible : ¬c.toNat < 0x20) :
    pieces (c :: rest) = (pieces rest).map fun r => (.char c :: r.1, r.2) := by
  rw [pieces.eq_def]
  split
  · contradiction
  next first => cases first; contradiction
  next first => cases first; contradiction
  next first => cases first; contradiction
  next c' rest' _ _ _ first => cases first; exact if_neg visible

end

theorem pieces_escape (c : Char) (rest : List Char) :
    pieces (escape c ++ rest) = (pieces rest).map fun r => (.char c :: r.1, r.2) := by
  unfold escape
  by_cases quote : c = '"'
  · subst quote; simp [pieces, shortEscape?]
  by_cases slash : c = '\\'
  · subst slash; simp [pieces, shortEscape?]
  rw [if_neg quote, if_neg slash]
  by_cases feed : c = '\n'
  · subst feed; simp [pieces, shortEscape?]
  by_cases ret : c = '\r'
  · subst ret; simp [pieces, shortEscape?]
  by_cases tab : c = '\t'
  · subst tab; simp [pieces, shortEscape?]
  by_cases back : c = '\x08'
  · subst back; simp [pieces, shortEscape?]
  by_cases form : c = '\x0c'
  · subst form; simp [pieces, shortEscape?]
  rw [if_neg feed, if_neg ret, if_neg tab, if_neg back, if_neg form]
  by_cases control : c.toNat < 0x20
  · rw [if_pos control]
    simp only [List.cons_append, List.nil_append, pieces, hex4?_control control,
      ofEscape_control control]
  · rw [if_neg control, List.singleton_append, pieces_cons quote slash control]

theorem pieces_quoted (cs rest : List Char) :
    pieces (cs.flatMap escape ++ '"' :: rest) = some (cs.map .char, rest) := by
  induction cs with
  | nil => rfl
  | cons c cs ih =>
    rw [List.flatMap_cons, List.append_assoc, pieces_escape, ih]
    rfl

theorem joinPieces_char (cs : List Char) : joinPieces (cs.map .char) = some cs := by
  induction cs with
  | nil => rfl
  | cons c cs ih => rw [List.map_cons, joinPieces, ih, Option.map_some]

/-! ## Numbers -/

/-- What may follow a value inside a text: a comma, a closing mark, or nothing. -/
def Ends (rest : List Char) : Prop :=
  rest = [] ∨ ∃ c cs, rest = c :: cs ∧ (c = ',' ∨ c = ']' ∨ c = '}')

variable {rest : List Char}

theorem Ends.digits_eq_nil (ends : Ends rest) : digits rest = [] := by
  rcases ends with rfl | ⟨c, cs, rfl, rfl | rfl | rfl⟩ <;> rfl

theorem Ends.fractionDigits_eq (ends : Ends rest) : fractionDigits rest = some (none, rest) := by
  rcases ends with rfl | ⟨c, cs, rfl, rfl | rfl | rfl⟩ <;> rfl

theorem Ends.exponentPart_eq (ends : Ends rest) : exponentPart rest = some (none, rest) := by
  rcases ends with rfl | ⟨c, cs, rfl, rfl | rfl | rfl⟩ <;> rfl

theorem wholeDigits_natText (n : Nat) (stop : digits rest = []) :
    wholeDigits (natText n ++ rest) = some (natText n, rest) := by
  by_cases zero : n = 0
  · have noDigit : ¬(rest.head?.map Char.isDigit).getD false = true := by
      cases rest with
      | nil => simp
      | cons c cs => simpa [digits, List.takeWhile_cons] using stop
    rw [zero]
    exact if_neg noDigit
  · have leading := head?_natText (Nat.pos_of_ne_zero zero)
    have found : digits (natText n ++ rest) = natText n := digits_append (isDigit_natText n) stop
    rw [wholeDigits.eq_def]
    split
    next spelled =>
      cases first : natText n with
      | nil => exact absurd first (natText_ne_nil n)
      | cons d ds =>
        rw [first, List.cons_append] at spelled
        rw [first, (List.cons.inj spelled).1] at leading
        exact absurd rfl leading
    next =>
      simp only [found, List.isEmpty_iff, natText_ne_nil, List.drop_left, if_false]

theorem numberAfter_natText (negative : Bool) (n : Nat) (ends : Ends rest)
    (fits : isInt64 (if negative then -(n : Int) else n) = true)
    (spelled : negative = true → n ≠ 0) :
    numberAfter negative (natText n ++ rest) =
      some (.int (if negative then -(n : Int) else n), rest) := by
  have noZero : (negative && decide (n = 0)) = false := by
    cases negative with
    | false => rfl
    | true => simp [spelled rfl]
  simp only [numberAfter, wholeDigits_natText n ends.digits_eq_nil, ends.fractionDigits_eq,
    ends.exponentPart_eq, digitsValue_natText, Option.bind_eq_bind, Option.bind_some,
    Option.isNone_none, fits, noZero, Bool.and_self, Bool.not_false, if_true, Option.pure_def]

/-! ## Values -/

/-- Values nested in at most `depth` arrays and objects, whose numbers are integers of 64 bits. -/
inductive Plain : Nat → Json → Prop
  | null {depth : Nat} : Plain depth .null
  | bool {depth : Nat} {b : Bool} : Plain depth (.bool b)
  | int {depth : Nat} {n : Int} (fits : isInt64 n = true) : Plain depth (.int n)
  | string {depth : Nat} {s : String} : Plain depth (.string s)
  | array {depth : Nat} {xs : List Json} (each : ∀ x ∈ xs, Plain depth x) :
    Plain (depth + 1) (.array xs)
  | object {depth : Nat} {ms : List (String × Json)} (each : ∀ m ∈ ms, Plain depth m.2) :
    Plain (depth + 1) (.object ms)

variable {depth : Nat} {v : Json}

theorem print_int (n : Int) : print (.int n) = intText n := rfl

theorem print_string (s : String) : print (.string s) = quote s.toList := rfl

theorem print_array_cons (x : Json) (xs : List Json) :
    print (.array (x :: xs)) = '[' :: (x.print ++ printItems xs) := rfl

theorem print_object_cons (name : String) (x : Json) (ms : List (String × Json)) :
    print (.object ((name, x) :: ms)) =
      '{' :: (quote name.toList ++ ':' :: (x.print ++ printMembers ms)) := rfl

/-- The text of a value is read as the value, whatever may follow it. -/
def ReadsBack (v : Json) : Prop :=
  ∀ fuel rest, v.print.length ≤ fuel → Ends rest → value fuel (v.print ++ rest) = some (v, rest)

theorem skip_cons {c : Char} {cs : List Char} (seen : isSpace c = false) :
    skip (c :: cs) = c :: cs := by
  rw [skip, List.dropWhile_cons_of_neg (by simp [seen])]

theorem isSpace_of_isDigit {c : Char} (digit : c.isDigit = true) : isSpace c = false := by
  simp only [Char.isDigit, Bool.and_eq_true, decide_eq_true_eq] at digit
  have low : 48 ≤ c.toNat := digit.1
  have apart : ∀ d : Char, d.toNat < 48 → (c == d) = false := by
    intro d below
    rw [beq_eq_false_iff_ne]
    rintro rfl
    omega
  simp only [isSpace, apart ' ' (by decide), apart '\n' (by decide), apart '\t' (by decide),
    apart '\r' (by decide), Bool.or_self]

/-- No text of a value begins with white space or with the mark that closes an array. -/
theorem Plain.print_eq_cons (plain : Plain depth v) :
    ∃ c cs, v.print = c :: cs ∧ isSpace c = false ∧ c ≠ ']' := by
  cases plain with
  | null => exact ⟨'n', _, rfl, rfl, by decide⟩
  | @bool _ b => cases b <;> exact ⟨_, _, rfl, rfl, by decide⟩
  | @int _ n =>
    rw [print_int, intText]
    split
    · exact ⟨'-', _, rfl, rfl, by decide⟩
    · cases first : natText n.natAbs with
      | nil => exact absurd first (natText_ne_nil _)
      | cons d ds =>
        have digit : d.isDigit = true := isDigit_natText _ d (first ▸ List.mem_cons_self)
        refine ⟨d, ds, rfl, isSpace_of_isDigit digit, ?_⟩
        rintro rfl
        exact absurd digit (by decide)
  | string => exact ⟨'"', _, rfl, rfl, by decide⟩
  | @array _ xs => cases xs <;> exact ⟨'[', _, rfl, rfl, by decide⟩
  | @object _ ms => cases ms <;> exact ⟨'{', _, rfl, rfl, by decide⟩

theorem Plain.print_ne_nil (plain : Plain depth v) : v.print ≠ [] := by
  obtain ⟨c, cs, first, -⟩ := plain.print_eq_cons
  rw [first]
  exact List.cons_ne_nil c cs

/-- No text of a value is read without fuel, and none is empty. -/
theorem readsBack_of_succ (filled : v.print ≠ [])
    (read : ∀ fuel rest, v.print.length ≤ fuel + 1 → Ends rest →
      value (fuel + 1) (v.print ++ rest) = some (v, rest)) : ReadsBack v := by
  intro fuel rest enough ends
  cases fuel with
  | zero => exact absurd (List.length_eq_zero_iff.mp (Nat.le_zero.mp enough)) filled
  | succ fuel => exact read fuel rest enough ends

theorem value_digit {fuel : Nat} {c : Char} {cs : List Char} (digit : c.isDigit = true) :
    value (fuel + 1) (c :: cs) = numberAfter false (c :: cs) := by
  rw [value, skip_cons (isSpace_of_isDigit digit)]
  -- Every other way to begin a value has a mark of its own, and no mark is a digit.
  split
  all_goals first
    | rfl
    | next first => cases first <;> exact absurd digit (by decide)

theorem readsBack_int {n : Int} (fits : isInt64 n = true) : ReadsBack (.int n) := by
  refine readsBack_of_succ (show Plain 0 (.int n) from .int fits).print_ne_nil ?_
  intro fuel rest _ ends
  rw [print_int, intText]
  by_cases negative : n < 0
  · have back : -(n.natAbs : Int) = n := by omega
    have read := numberAfter_natText true n.natAbs ends
      (by rw [if_pos rfl, back]; exact fits) (fun _ => by omega)
    rw [if_pos rfl, back] at read
    rw [if_pos negative, List.cons_append, value, skip_cons rfl]
    exact read
  · have back : (n.natAbs : Int) = n := by omega
    have read := numberAfter_natText false n.natAbs ends
      (by rw [if_neg (by decide), back]; exact fits) (by simp)
    rw [if_neg (by decide), back] at read
    rw [if_neg negative, ← read]
    cases first : natText n.natAbs with
    | nil => exact absurd first (natText_ne_nil _)
    | cons d ds => exact value_digit (isDigit_natText _ d (first ▸ List.mem_cons_self))

theorem readsBack_null : ReadsBack .null := by
  refine readsBack_of_succ (show Plain 0 .null from .null).print_ne_nil ?_
  intro fuel rest _ _
  rfl

theorem readsBack_bool (b : Bool) : ReadsBack (.bool b) := by
  refine readsBack_of_succ (show Plain 0 (.bool b) from .bool).print_ne_nil ?_
  intro fuel rest _ _
  cases b <;> rfl

theorem readsBack_string (s : String) : ReadsBack (.string s) := by
  refine readsBack_of_succ (show Plain 0 (.string s) from .string).print_ne_nil ?_
  intro fuel rest _ _
  rw [print_string, quote, List.cons_append, List.cons_append, List.append_assoc, value,
    skip_cons rfl]
  simp only [List.singleton_append, pieces_quoted, Option.map_some, joinPieces_char,
    String.ofList_toList]

theorem ends_printItems (xs : List Json) (rest : List Char) : Ends (printItems xs ++ rest) := by
  cases xs with
  | nil => exact .inr ⟨']', rest, rfl, by simp⟩
  | cons x xs => exact .inr ⟨',', _, rfl, by simp⟩

theorem ends_printMembers (ms : List (String × Json)) (rest : List Char) :
    Ends (printMembers ms ++ rest) := by
  cases ms with
  | nil => exact .inr ⟨'}', rest, rfl, by simp⟩
  | cons m ms => exact .inr ⟨',', _, rfl, by simp⟩

theorem items_print {fuel : Nat} {x : Json} {xs : List Json} (rest : List Char)
    (read : ∀ y ∈ x :: xs, ReadsBack y) (enough : (x.print ++ printItems xs).length ≤ fuel) :
    items fuel (x.print ++ (printItems xs ++ rest)) = some (x :: xs, rest) := by
  induction xs generalizing fuel x with
  | nil =>
    rw [List.length_append, printItems, List.length_singleton] at enough
    obtain ⟨fuel, rfl⟩ : ∃ k, fuel = k + 1 := ⟨fuel - 1, by omega⟩
    rw [items, read x List.mem_cons_self fuel _ (by omega) (ends_printItems [] rest)]
    simp [printItems, skip, isSpace]
  | cons y ys ih =>
    rw [List.length_append, printItems, List.length_cons] at enough
    obtain ⟨fuel, rfl⟩ : ∃ k, fuel = k + 1 := ⟨fuel - 1, by omega⟩
    have later : items fuel (y.print ++ (printItems ys ++ rest)) = some (y :: ys, rest) :=
      ih (fun z member => read z (List.mem_cons_of_mem x member)) (by omega)
    rw [items, read x List.mem_cons_self fuel _ (by omega) (ends_printItems (y :: ys) rest)]
    simp [printItems, skip, isSpace, later]

theorem quote_append (cs rest : List Char) :
    quote cs ++ rest = '"' :: (cs.flatMap escape ++ '"' :: rest) := by
  rw [quote, List.cons_append, List.cons_append, List.append_assoc, List.singleton_append]

theorem members_print {fuel : Nat} {name : String} {x : Json} {ms : List (String × Json)}
    (rest : List Char) (read : ∀ m ∈ (name, x) :: ms, ReadsBack m.2)
    (enough : (quote name.toList ++ ':' :: (x.print ++ printMembers ms)).length ≤ fuel) :
    members fuel (quote name.toList ++ ':' :: (x.print ++ (printMembers ms ++ rest))) =
      some (((name, x) :: ms).map fun m => (some m.1, m.2), rest) := by
  have colon : ∀ cs, skip (':' :: cs) = ':' :: cs := fun _ => skip_cons rfl
  induction ms generalizing fuel name x with
  | nil =>
    rw [List.length_append, List.length_cons, List.length_append, printMembers,
      List.length_singleton] at enough
    obtain ⟨fuel, rfl⟩ : ∃ k, fuel = k + 1 := ⟨fuel - 1, by omega⟩
    have room : x.print.length ≤ fuel := by omega
    have valueRead : value fuel (x.print ++ (printMembers [] ++ rest)) =
        some (x, printMembers [] ++ rest) :=
      read (name, x) List.mem_cons_self fuel _ room (ends_printMembers [] rest)
    rw [quote_append, members, skip_cons rfl]
    simp only [pieces_quoted, Option.bind_eq_bind, Option.bind_some, colon, valueRead]
    simp [printMembers, skip, isSpace, joinPieces_char]
  | cons m ms ih =>
    obtain ⟨other, y⟩ := m
    rw [List.length_append, List.length_cons, List.length_append, printMembers,
      List.length_cons] at enough
    obtain ⟨fuel, rfl⟩ : ∃ k, fuel = k + 1 := ⟨fuel - 1, by omega⟩
    have room : x.print.length ≤ fuel := by omega
    have valueRead : value fuel (x.print ++ (printMembers ((other, y) :: ms) ++ rest)) =
        some (x, printMembers ((other, y) :: ms) ++ rest) :=
      read (name, x) List.mem_cons_self fuel _ room (ends_printMembers _ rest)
    have later : members fuel (quote other.toList ++ ':' :: (y.print ++ (printMembers ms ++ rest)))
        = some (((other, y) :: ms).map fun m => (some m.1, m.2), rest) :=
      ih (fun m member => read m (List.mem_cons_of_mem _ member)) (by omega)
    rw [quote_append, members, skip_cons rfl]
    simp only [pieces_quoted, Option.bind_eq_bind, Option.bind_some, colon, valueRead]
    simp [printMembers, skip, isSpace, joinPieces_char, later]

theorem ofMembers_named (ms : List (String × Json)) :
    ofMembers (ms.map fun m => (some m.1, m.2)) = .object ms := by
  have each : ((ms.map fun m => (some m.1, m.2)).mapM fun m : Option String × Json =>
      m.1.map fun name => (name, m.2)) = some ms := by
    induction ms with
    | nil => rfl
    | cons m ms ih => simp [List.mapM_cons, ih]
  rw [ofMembers, each]

theorem readsBack_array {xs : List Json} (each : ∀ x ∈ xs, Plain depth x)
    (read : ∀ x ∈ xs, ReadsBack x) : ReadsBack (.array xs) := by
  refine readsBack_of_succ (Plain.array each).print_ne_nil ?_
  intro fuel rest enough _
  cases xs with
  | nil => rfl
  | cons x xs =>
    obtain ⟨c, cs, first, seen, notClosing⟩ := (each x List.mem_cons_self).print_eq_cons
    rw [print_array_cons, List.length_cons] at enough
    have inside := items_print rest read (Nat.le_of_succ_le_succ enough)
    rw [print_array_cons, List.cons_append, List.append_assoc, value, skip_cons rfl]
    rw [first, List.cons_append] at inside ⊢
    simp only [skip_cons seen]
    split
    next closing => exact absurd (List.cons.inj closing).1 notClosing
    next => rw [inside, Option.map_some]

theorem readsBack_object {ms : List (String × Json)} (each : ∀ m ∈ ms, Plain depth m.2)
    (read : ∀ m ∈ ms, ReadsBack m.2) : ReadsBack (.object ms) := by
  refine readsBack_of_succ (Plain.object each).print_ne_nil ?_
  intro fuel rest enough _
  cases ms with
  | nil => rfl
  | cons m ms =>
    obtain ⟨name, x⟩ := m
    rw [print_object_cons, List.length_cons] at enough
    have inside := members_print rest read (Nat.le_of_succ_le_succ enough)
    rw [print_object_cons, List.cons_append, List.append_assoc, List.cons_append, List.append_assoc, value,
      skip_cons rfl]
    rw [quote_append] at inside ⊢
    simp only [skip_cons (show isSpace '"' = false from rfl)]
    change (members fuel _).map _ = _
    rw [inside, Option.map_some, ofMembers_named]

theorem Plain.readsBack (plain : Plain depth v) : ReadsBack v := by
  induction plain with
  | null => exact readsBack_null
  | @bool _ b => exact readsBack_bool b
  | int fits => exact readsBack_int fits
  | @string _ s => exact readsBack_string s
  | array each ih => exact readsBack_array each ih
  | object each ih => exact readsBack_object each ih

/-! ## Depth -/

theorem itemsWithin_eq_map (depth : Nat) (xs : List Json) :
    itemsWithin depth xs = xs.map (within depth) := by
  induction xs with
  | nil => rfl
  | cons x xs ih => rw [itemsWithin, ih, List.map_cons]

theorem membersWithin_eq_map (depth : Nat) (ms : List (String × Json)) :
    membersWithin depth ms = ms.map fun m => (m.1, m.2.within depth) := by
  induction ms with
  | nil => rfl
  | cons m ms ih => rw [membersWithin, ih, List.map_cons]

theorem Plain.within_eq_self (plain : Plain depth v) {limit : Nat} (reach : depth ≤ limit) :
    v.within limit = v := by
  induction plain generalizing limit with
  | null | bool | int | string => cases limit <;> rfl
  | array each ih =>
    obtain ⟨limit, rfl⟩ : ∃ k, limit = k + 1 := ⟨limit - 1, by omega⟩
    have same := List.map_congr_left fun x member => ih x member (Nat.le_of_succ_le_succ reach)
    rw [within, itemsWithin_eq_map, same, List.map_id']
  | object each ih =>
    obtain ⟨limit, rfl⟩ : ∃ k, limit = k + 1 := ⟨limit - 1, by omega⟩
    have same := List.map_congr_left fun m member =>
      congrArg (Prod.mk m.1) (ih m member (Nat.le_of_succ_le_succ reach))
    rw [within, membersWithin_eq_map, same, List.map_id']

/-- A value nested no deeper than values may be is read back from its text. -/
theorem parse?_print (plain : Plain depth v) (reach : depth ≤ deepest) :
    parse? v.print = some v := by
  have read := plain.readsBack (v.print.length + 1) [] (Nat.le_succ _) (.inl rfl)
  rw [List.append_nil] at read
  rw [parse?, read]
  simp [skip, plain.within_eq_self reach]

end Blocklist.Json
