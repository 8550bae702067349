/-!
Finite sets of names, kept in ascending order by code point, so that equal sets have equal lists. Main
statements: what is a member after an insertion, a union or a conversion from a list.
-/

namespace Blocklist

/-- The list with `name` at its place; nothing changes if it is there already. -/
def insertName (name : String) : List String → List String
  | [] => [name]
  | x :: xs => if name < x then name :: x :: xs else if x = name then x :: xs
      else x :: insertName name xs

theorem mem_insertName {name y : String} {xs : List String} :
    y ∈ insertName name xs ↔ y = name ∨ y ∈ xs := by
  induction xs with
  | nil => simp [insertName]
  | cons x xs ih =>
    unfold insertName
    split
    · simp
    · split
      · next h => subst h; simp
      · simp only [List.mem_cons, ih]
        constructor
        · rintro (h | h | h) <;> simp [h]
        · rintro (h | h | h) <;> simp [h]

theorem pairwise_insertName {name : String} {xs : List String} (h : xs.Pairwise (· < ·)) :
    (insertName name xs).Pairwise (· < ·) := by
  induction xs with
  | nil => simp [insertName]
  | cons x xs ih =>
    unfold insertName
    have hx := List.pairwise_cons.1 h
    split
    · next lt =>
      refine List.pairwise_cons.2 ⟨fun y hy => ?_, h⟩
      rcases List.mem_cons.1 hy with rfl | hy
      · exact lt
      · exact String.lt_trans lt (hx.1 y hy)
    · next notLt =>
      split
      · exact h
      · next ne =>
        refine List.pairwise_cons.2 ⟨fun y hy => ?_, ih hx.2⟩
        rcases mem_insertName.1 hy with rfl | hy
        · by_cases lt : x < y
          · exact lt
          · exact absurd (String.le_antisymm (String.not_lt.1 notLt) (String.not_lt.1 lt)) ne
        · exact hx.1 y hy

/-- A finite set of names. -/
structure Names where
  toList : List String
  sorted : toList.Pairwise (· < ·)
  deriving DecidableEq, Repr

namespace Names

def empty : Names := ⟨[], .nil⟩

instance : Inhabited Names := ⟨empty⟩

def insert (s : Names) (name : String) : Names :=
  ⟨insertName name s.toList, pairwise_insertName s.sorted⟩

def insertAll (s : Names) (names : List String) : Names := names.foldl insert s

def ofList (names : List String) : Names := empty.insertAll names

def union (s t : Names) : Names := s.insertAll t.toList

def contains (s : Names) (name : String) : Bool := s.toList.contains name

def size (s : Names) : Nat := s.toList.length

instance : Membership String Names := ⟨fun s name => name ∈ s.toList⟩

theorem mem_def {s : Names} {name : String} : name ∈ s ↔ name ∈ s.toList := Iff.rfl

@[simp] theorem not_mem_empty (name : String) : name ∉ empty := by simp [mem_def, empty]

@[simp] theorem mem_insert {s : Names} {name y : String} :
    y ∈ s.insert name ↔ y = name ∨ y ∈ s := mem_insertName

@[simp] theorem mem_insertAll {names : List String} {s : Names} {y : String} :
    y ∈ s.insertAll names ↔ y ∈ names ∨ y ∈ s := by
  induction names generalizing s with
  | nil => simp [insertAll]
  | cons x xs ih =>
    have step : s.insertAll (x :: xs) = (s.insert x).insertAll xs := rfl
    rw [step, ih, mem_insert, List.mem_cons]
    constructor
    · rintro (h | h | h) <;> simp [h]
    · rintro ((h | h) | h) <;> simp [h]

@[simp] theorem mem_ofList {names : List String} {y : String} : y ∈ ofList names ↔ y ∈ names := by
  simp [ofList]

@[simp] theorem mem_union {s t : Names} {y : String} : y ∈ s.union t ↔ y ∈ t ∨ y ∈ s :=
  mem_insertAll

@[simp] theorem contains_eq_true_iff {s : Names} {name : String} :
    s.contains name = true ↔ name ∈ s := by simp [contains, mem_def]

end Names

end Blocklist
