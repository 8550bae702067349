import Blocklist.Record.Basic
import Mathlib.Data.List.Nodup

/-!
Lists of records keyed by fingerprint. Placing a record puts it where the record of its fingerprint
stands, or else at the end. Main statement: placing the records of a list, one of which was replaced or
appended before, is the same as replacing or appending it afterwards.
-/

namespace Blocklist.Record

/-- The list with a record at the place of the record of its fingerprint, or else at the end. -/
def placeIn (r : Record) : List Record → List Record
  | [] => [r]
  | x :: xs => if x.hash = r.hash then r :: xs else x :: placeIn r xs

/-- The list with these records placed one after the other. -/
def placeAll (xs : List Record) (rs : List Record) : List Record :=
  rs.foldl (fun placed r => placeIn r placed) xs

@[simp] theorem placeAll_nil (xs : List Record) : placeAll xs [] = xs := rfl

@[simp] theorem placeAll_cons (xs : List Record) (r : Record) (rs : List Record) :
    placeAll xs (r :: rs) = placeAll (placeIn r xs) rs := rfl

/-- The placed record takes the place of its namesake; the others stay. -/
theorem mem_placeIn {r x : Record} {xs : List Record} (distinct : (xs.map hash).Nodup) :
    x ∈ placeIn r xs ↔ x = r ∨ x ∈ xs ∧ x.hash ≠ r.hash := by
  induction xs with
  | nil => simp [placeIn]
  | cons y ys ih =>
    rw [List.map_cons, List.nodup_cons] at distinct
    by_cases same : y.hash = r.hash
    · rw [placeIn, if_pos same, List.mem_cons, List.mem_cons]
      constructor
      · rintro (here | later)
        · exact Or.inl here
        · refine Or.inr ⟨Or.inr later, fun equal => distinct.1 ?_⟩
          rw [same, ← equal]
          exact List.mem_map_of_mem later
      · rintro (here | ⟨rfl | later, different⟩)
        · exact Or.inl here
        · exact absurd same different
        · exact Or.inr later
    · rw [placeIn, if_neg same, List.mem_cons, List.mem_cons, ih distinct.2]
      constructor
      · rintro (rfl | rfl | ⟨later, different⟩)
        · exact Or.inr ⟨Or.inl rfl, same⟩
        · exact Or.inl rfl
        · exact Or.inr ⟨Or.inr later, different⟩
      · rintro (rfl | ⟨rfl | later, different⟩)
        · exact Or.inr (Or.inl rfl)
        · exact Or.inl rfl
        · exact Or.inr (Or.inr ⟨later, different⟩)

theorem placeIn_of_fresh {r : Record} {xs : List Record} (fresh : r.hash ∉ xs.map hash) :
    placeIn r xs = xs ++ [r] := by
  induction xs with
  | nil => rfl
  | cons x xs ih =>
    rw [List.map_cons, List.mem_cons, not_or] at fresh
    rw [placeIn, if_neg (Ne.symm fresh.1), ih fresh.2, List.cons_append]

theorem placeIn_of_getElem? {r old : Record} {xs : List Record} {i : Nat}
    (distinct : (xs.map hash).Nodup) (found : xs[i]? = some old) (same : old.hash = r.hash) :
    placeIn r xs = xs.set i r := by
  induction xs generalizing i with
  | nil => simp at found
  | cons x xs ih =>
    rw [List.map_cons, List.nodup_cons] at distinct
    cases i with
    | zero =>
      have here : x = old := by simpa using found
      rw [placeIn, if_pos (here ▸ same), List.set_cons_zero]
    | succ i =>
      rw [List.getElem?_cons_succ] at found
      have other : x.hash ≠ r.hash := by
        intro equal
        apply distinct.1
        rw [equal, ← same]
        exact List.mem_map_of_mem (List.mem_of_getElem? found)
      rw [placeIn, if_neg other, ih distinct.2 found, List.set_cons_succ]

theorem map_hash_placeIn (r : Record) (xs : List Record) :
    (placeIn r xs).map hash =
      if r.hash ∈ xs.map hash then xs.map hash else xs.map hash ++ [r.hash] := by
  induction xs with
  | nil => simp [placeIn]
  | cons x xs ih =>
    by_cases same : x.hash = r.hash
    · simp [placeIn, same]
    · rw [placeIn, if_neg same, List.map_cons, ih, List.map_cons]
      by_cases later : r.hash ∈ xs.map hash
      · rw [if_pos later, if_pos (List.mem_cons_of_mem _ later)]
      · have absent : r.hash ∉ x.hash :: xs.map hash := by
          rw [List.mem_cons, not_or]
          exact ⟨Ne.symm same, later⟩
        rw [if_neg later, if_neg absent, List.cons_append]

theorem hash_mem_placeIn {r : Record} {xs : List Record} {h : String} :
    h ∈ (placeIn r xs).map hash ↔ h = r.hash ∨ h ∈ xs.map hash := by
  rw [map_hash_placeIn]
  split
  next present =>
    constructor
    · exact Or.inr
    · rintro (rfl | member)
      · exact present
      · exact member
  next absent => simp [or_comm]

theorem nodup_placeIn (r : Record) {xs : List Record} (distinct : (xs.map hash).Nodup) :
    ((placeIn r xs).map hash).Nodup := by
  rw [map_hash_placeIn]
  split
  next => exact distinct
  next absent => simpa [List.nodup_append, distinct] using absent

/-- A record that is placed changes only the position of its namesake. -/
theorem getElem?_placeIn (r : Record) {x : Record} {xs : List Record} {i : Nat}
    (distinct : (xs.map hash).Nodup) (found : xs[i]? = some x) :
    (placeIn r xs)[i]? = some (if x.hash = r.hash then r else x) := by
  induction xs generalizing i with
  | nil => simp at found
  | cons y ys ih =>
    rw [List.map_cons, List.nodup_cons] at distinct
    by_cases here : y.hash = r.hash
    · rw [placeIn, if_pos here]
      cases i with
      | zero =>
        have first : y = x := by simpa using found
        rw [List.getElem?_cons_zero, if_pos (first ▸ here)]
      | succ i =>
        rw [List.getElem?_cons_succ] at found ⊢
        have other : x.hash ≠ r.hash := by
          intro same
          apply distinct.1
          rw [here, ← same]
          exact List.mem_map_of_mem (List.mem_of_getElem? found)
        rw [found, if_neg other]
    · rw [placeIn, if_neg here]
      cases i with
      | zero =>
        have first : y = x := by simpa using found
        rw [List.getElem?_cons_zero, first, if_neg (first ▸ here)]
      | succ i =>
        rw [List.getElem?_cons_succ] at found ⊢
        exact ih distinct.2 found

/-- A position holds the placed record of its fingerprint, if there is one. -/
theorem getElem?_placeAll {x : Record} {xs rs : List Record} {i : Nat}
    (distinct : (xs.map hash).Nodup) (placed : (rs.map hash).Nodup) (found : xs[i]? = some x) :
    (placeAll xs rs)[i]? = some ((rs.find? fun r => r.hash = x.hash).getD x) := by
  induction rs generalizing xs x with
  | nil => exact found
  | cons r rs ih =>
    rw [List.map_cons, List.nodup_cons] at placed
    have step := ih (nodup_placeIn r distinct) placed.2 (getElem?_placeIn r distinct found)
    rw [placeAll_cons, step]
    by_cases same : x.hash = r.hash
    -- The namesake is placed, and none of the rest takes its place.
    · have none : (rs.find? fun y => y.hash = r.hash) = none := by
        rw [List.find?_eq_none]
        intro y member equal
        exact placed.1 (List.mem_map.mpr ⟨y, member, by simpa using equal⟩)
      simp [same, none]
    · simp [same, Ne.symm same]

/-- The later of two records of one fingerprint counts. -/
theorem placeIn_placeIn {a b : Record} (same : b.hash = a.hash) (xs : List Record) :
    placeIn a (placeIn b xs) = placeIn a xs := by
  induction xs with
  | nil => simp [placeIn, same]
  | cons x xs ih =>
    by_cases here : x.hash = a.hash
    · simp [placeIn, here, same]
    · have further : x.hash ≠ b.hash := by rw [same]; exact here
      simp only [placeIn, if_neg here, if_neg further, ih]

theorem placeAll_of_distinct {xs rs : List Record} (distinct : ((xs ++ rs).map hash).Nodup) :
    placeAll xs rs = xs ++ rs := by
  induction rs generalizing xs with
  | nil => simp
  | cons r rs ih =>
    have shifted : xs ++ r :: rs = (xs ++ [r]) ++ rs := by simp
    have fresh : r.hash ∉ xs.map hash := by
      rw [List.map_append, List.nodup_append] at distinct
      intro member
      exact distinct.2.2 _ member r.hash (by simp) rfl
    rw [shifted] at distinct ⊢
    rw [placeAll_cons, placeIn_of_fresh fresh, ih distinct]

/-- Records of two fingerprints can be placed in either order once one of them has its place. -/
theorem placeIn_comm {a b : Record} {xs : List Record} (different : b.hash ≠ a.hash)
    (placed : a.hash ∈ xs.map hash) :
    placeIn a (placeIn b xs) = placeIn b (placeIn a xs) := by
  induction xs with
  | nil => simp at placed
  | cons x xs ih =>
    by_cases here : x.hash = a.hash
    · have further : x.hash ≠ b.hash := by rw [here]; exact Ne.symm different
      simp only [placeIn, if_neg further, if_pos here, if_neg (Ne.symm different)]
    · have later : a.hash ∈ xs.map hash :=
        (List.mem_cons.mp placed).resolve_left (Ne.symm here)
      by_cases there : x.hash = b.hash
      · simp only [placeIn, if_pos there, if_neg here, if_neg different]
      · simp only [placeIn, if_neg there, if_neg here, ih later]

/-- A record that has its place already may be placed after others instead of before them. -/
theorem placeIn_placeAll {r : Record} {xs rs : List Record} (absent : r.hash ∉ rs.map hash)
    (placed : r.hash ∈ xs.map hash) :
    placeIn r (placeAll xs rs) = placeAll (placeIn r xs) rs := by
  induction rs generalizing xs with
  | nil => rfl
  | cons x rs ih =>
    rw [List.map_cons, List.mem_cons, not_or] at absent
    have still : r.hash ∈ (placeIn x xs).map hash := hash_mem_placeIn.mpr (Or.inr placed)
    rw [placeAll_cons, placeAll_cons, ih absent.2 still, placeIn_comm (Ne.symm absent.1) placed]

/-- Replacing or appending among records that are placed later is the same as placing the record
after all of them. -/
theorem placeAll_placeIn {r : Record} {xs rs : List Record} (distinct : (rs.map hash).Nodup) :
    placeAll xs (placeIn r rs) = placeIn r (placeAll xs rs) := by
  induction rs generalizing xs with
  | nil => rfl
  | cons x rs ih =>
    rw [List.map_cons, List.nodup_cons] at distinct
    by_cases same : x.hash = r.hash
    -- The namesake had its place before the rest, and none of the rest takes it.
    · have absent : r.hash ∉ rs.map hash := same ▸ distinct.1
      have placed : r.hash ∈ (placeIn x xs).map hash :=
        hash_mem_placeIn.mpr (Or.inl same.symm)
      rw [placeIn, if_pos same, placeAll_cons, placeAll_cons, placeIn_placeAll absent placed,
        placeIn_placeIn same]
    · rw [placeIn, if_neg same, placeAll_cons, placeAll_cons, ih distinct.2]

theorem placeIn_subset (r : Record) (xs : List Record) : placeIn r xs ⊆ r :: xs := by
  induction xs with
  | nil => simp [placeIn]
  | cons x xs ih =>
    unfold placeIn
    split
    · exact List.cons_subset_cons _ (List.subset_cons_self _ _)
    · intro y member
      rcases List.mem_cons.mp member with here | later
      · simp [here]
      · rcases List.mem_cons.mp (ih later) with new | old
        · simp [new]
        · simp [old]

/-- Holds of records of which two have one fingerprint exactly when they have one text. -/
def Keyed (records : List Record) : Prop :=
  ∀ a ∈ records, ∀ b ∈ records, a.hash = b.hash ↔ a.raw = b.raw

instance (records : List Record) : Decidable (Keyed records) :=
  inferInstanceAs (Decidable (∀ a ∈ records, ∀ b ∈ records, a.hash = b.hash ↔ a.raw = b.raw))

theorem Keyed.of_keys {xs ys : List Record} (keyed : Keyed xs)
    (keys : ∀ y ∈ ys, ∃ x ∈ xs, x.hash = y.hash ∧ x.raw = y.raw) : Keyed ys := by
  intro a aMember b bMember
  obtain ⟨x, xMember, xHash, xText⟩ := keys a aMember
  obtain ⟨y, yMember, yHash, yText⟩ := keys b bMember
  rw [← xHash, ← yHash, ← xText, ← yText]
  exact keyed x xMember y yMember

theorem Keyed.mono {xs ys : List Record} (keyed : Keyed xs) (subset : ys ⊆ xs) : Keyed ys :=
  fun a aMember b bMember => keyed a (subset aMember) b (subset bMember)

theorem Keyed.head {xs rest : List Record} {r : Record} (keyed : Keyed (xs ++ r :: rest)) :
    ∀ x ∈ xs, x.hash = r.hash ↔ x.raw = r.raw :=
  fun x member => keyed x (List.mem_append_left _ member) r (by simp)

/-- A record that is placed under the key of the first of some more leaves the others keyed. -/
theorem Keyed.placeIn {xs rest : List Record} {r first : Record}
    (keyed : Keyed (xs ++ first :: rest)) (sameHash : r.hash = first.hash)
    (sameText : r.raw = first.raw) : Keyed (Record.placeIn r xs ++ rest) := by
  apply keyed.of_keys
  intro y member
  rcases List.mem_append.mp member with placed | later
  · rcases List.mem_cons.mp (placeIn_subset _ _ placed) with new | old
    · exact ⟨first, by simp, by rw [new, sameHash], by rw [new, sameText]⟩
    · exact ⟨y, by simp [old], rfl, rfl⟩
  · exact ⟨y, by simp [later], rfl, rfl⟩

theorem map_raw_placeIn {r : Record} {xs : List Record}
    (keyed : ∀ x ∈ xs, x.hash = r.hash ↔ x.raw = r.raw) :
    (placeIn r xs).map raw =
      if r.raw ∈ xs.map raw then xs.map raw else xs.map raw ++ [r.raw] := by
  induction xs with
  | nil => simp [placeIn]
  | cons x xs ih =>
    have rest := ih (fun y member => keyed y (List.mem_cons_of_mem _ member))
    have first := keyed x List.mem_cons_self
    by_cases same : x.hash = r.hash
    · simp [placeIn, same, first.mp same]
    · have different : r.raw ≠ x.raw := fun equal => same (first.mpr equal.symm)
      rw [placeIn, if_neg same, List.map_cons, rest, List.map_cons]
      simp only [List.mem_cons, different, false_or]
      split
      · rfl
      · rw [List.cons_append]

theorem find?_raw_placeIn {r : Record} {xs : List Record}
    (keyed : ∀ x ∈ xs, x.hash = r.hash ↔ x.raw = r.raw) (text : String) :
    (placeIn r xs).find? (fun x => x.raw = text) =
      if text = r.raw then some r else xs.find? (fun x => x.raw = text) := by
  induction xs with
  | nil =>
    by_cases new : text = r.raw
    · simp [placeIn, new]
    · simp [placeIn, new, Ne.symm new]
  | cons x xs ih =>
    have rest := ih (fun y member => keyed y (List.mem_cons_of_mem _ member))
    have first := keyed x List.mem_cons_self
    by_cases same : x.hash = r.hash
    · have text_x : x.raw = r.raw := first.mp same
      rw [placeIn, if_pos same]
      by_cases new : text = r.raw
      · simp [new]
      · simp [text_x, new, Ne.symm new]
    · have text_x : x.raw ≠ r.raw := fun equal => same (first.mpr equal)
      rw [placeIn, if_neg same]
      by_cases here : x.raw = text
      · have old : text ≠ r.raw := here ▸ text_x
        simp [here, old]
      · rw [List.find?_cons_of_neg (by simpa using here), rest,
          List.find?_cons_of_neg (by simpa using here)]

end Blocklist.Record
