import Mathlib.Data.List.TakeWhile

/-!
Patterns that are matched with backtracking. The ways in which a pattern can take the start of a text are
tried in order, and a repetition takes as many characters as it can first. Main statements: what a sequence
takes first, when it begins with one character or with a repetition of any length.
-/

namespace Blocklist.Text

/-- Character classes in sequence, each taken once or repeated. -/
inductive Pattern where
  | one (test : Char → Bool)
  | repeated (least : Nat) (test : Char → Bool)
  | seq (first second : Pattern)

/-- The starts of a text with characters of a class only, the longest first, each with what follows it. -/
def runs (test : Char → Bool) : List Char → List (List Char × List Char)
  | [] => [([], [])]
  | c :: cs =>
    if test c then (runs test cs).map (fun run => (c :: run.1, run.2)) ++ [([], c :: cs)]
    else [([], c :: cs)]

namespace Pattern

/-- The ways in which a pattern takes the start of a text, in the order in which they are tried. -/
def tries : Pattern → List Char → List (List Char × List Char)
  | one _, [] => []
  | one test, c :: cs => if test c then [([c], cs)] else []
  | repeated least test, cs => (runs test cs).filter fun run => least ≤ run.1.length
  | seq first second, cs => (first.tries cs).flatMap fun run =>
      (second.tries run.2).map fun next => (run.1 ++ next.1, next.2)

/-- What a pattern takes from the start of a text. -/
def taken (pattern : Pattern) (cs : List Char) : Option (List Char) :=
  ((pattern.tries cs).map Prod.fst).head?

/-- What the group takes from the start of a text after something for the pattern in front of it. -/
def capturedHere (front group : Pattern) (cs : List Char) : Option (List Char) :=
  ((front.tries cs).flatMap fun run => (group.tries run.2).map Prod.fst).head?

/-- What the group takes at the leftmost place at which both patterns match. -/
def captured (front group : Pattern) : List Char → Option (List Char)
  | [] => capturedHere front group []
  | c :: cs => (capturedHere front group (c :: cs)).or (captured front group cs)

section
variable (test : Char → Bool) (pattern : Pattern)

theorem length_le_of_mem_runs (cs : List Char) :
    ∀ run ∈ runs test cs, run.1.length ≤ (cs.takeWhile test).length := by
  induction cs with
  | nil => simp [runs]
  | cons c cs ih =>
    intro run member
    by_cases inside : test c = true
    · rw [runs, if_pos inside, List.mem_append, List.mem_map, List.mem_singleton] at member
      rw [List.takeWhile_cons_of_pos inside, List.length_cons]
      rcases member with ⟨shorter, earlier, rfl⟩ | rfl
      · exact Nat.succ_le_succ (ih shorter earlier)
      · exact Nat.zero_le _
    · rw [runs, if_neg inside, List.mem_singleton] at member
      rw [member]
      exact Nat.zero_le _

theorem head?_runs (cs : List Char) :
    (runs test cs).head? = some (cs.takeWhile test, cs.dropWhile test) := by
  induction cs with
  | nil => rfl
  | cons c cs ih =>
    by_cases inside : test c = true
    · rw [runs, if_pos inside, List.head?_append, List.head?_map, ih,
        List.takeWhile_cons_of_pos inside, List.dropWhile_cons_of_pos inside]
      rfl
    · rw [runs, if_neg inside, List.takeWhile_cons_of_neg inside, List.dropWhile_cons_of_neg inside]
      rfl

theorem taken_repeated (least : Nat) (cs : List Char) :
    (repeated least test).taken cs =
      if least ≤ (cs.takeWhile test).length then some (cs.takeWhile test) else none := by
  obtain ⟨others, all⟩ := List.head?_eq_some_iff.mp (head?_runs test cs)
  rw [taken, tries]
  split
  next enough => rw [all, List.filter_cons_of_pos (by simpa using enough)]; rfl
  next few =>
    have nothing : (runs test cs).filter (fun run => least ≤ run.1.length) = [] := by
      apply List.filter_eq_nil_iff.mpr
      intro run member long
      have bound := length_le_of_mem_runs test cs run member
      exact few (Nat.le_trans (by simpa using long) bound)
    rw [nothing]
    rfl

theorem taken_seq_one_cons (c : Char) (cs : List Char) :
    (seq (one test) pattern).taken (c :: cs) =
      if test c then (pattern.taken cs).map (c :: ·) else none := by
  by_cases inside : test c = true
  · have tried : (seq (one test) pattern).tries (c :: cs) =
        (pattern.tries cs).map fun next => (c :: next.1, next.2) := by
      rw [tries, tries, if_pos inside, List.flatMap_singleton]
      rfl
    rw [if_pos inside, taken, tried, taken, List.head?_map, List.head?_map, List.head?_map,
      Option.map_map, Option.map_map]
    rfl
  · rw [if_neg inside, taken, tries, tries, if_neg inside]
    rfl

theorem tries_repeated (cs : List Char) : (repeated 0 test).tries cs = runs test cs := by
  rw [tries]
  apply List.filter_eq_self.mpr
  intro run _
  exact decide_eq_true (Nat.zero_le _)

theorem tries_seq_repeated (cs : List Char) :
    (seq (repeated 0 test) pattern).tries cs = (runs test cs).flatMap fun run =>
      (pattern.tries run.2).map fun next => (run.1 ++ next.1, next.2) := by
  rw [tries, tries_repeated]

/-- A repetition gives back one character after the other until the rest of the sequence matches. -/
theorem tries_seq_repeated_cons (c : Char) (cs : List Char) :
    (seq (repeated 0 test) pattern).tries (c :: cs) =
      if test c then
        ((seq (repeated 0 test) pattern).tries cs).map (fun run => (c :: run.1, run.2)) ++
          pattern.tries (c :: cs)
      else pattern.tries (c :: cs) := by
  have kept : (pattern.tries (c :: cs)).map (fun next => ([] ++ next.1, next.2)) =
      pattern.tries (c :: cs) := List.map_id' _
  rw [tries_seq_repeated, tries_seq_repeated, runs]
  split
  · rw [List.flatMap_append, List.flatMap_singleton, kept, List.flatMap_map, List.map_flatMap]
    simp only [List.map_map, Function.comp_def, List.cons_append]
  · rw [List.flatMap_singleton, kept]

theorem taken_seq_repeated_nil :
    (seq (repeated 0 test) pattern).taken [] = pattern.taken [] := by
  rw [taken, tries_seq_repeated, runs, List.flatMap_singleton]
  exact congrArg (fun tried => (List.map Prod.fst tried).head?) (List.map_id' _)

theorem taken_seq_repeated_cons (c : Char) (cs : List Char) :
    (seq (repeated 0 test) pattern).taken (c :: cs) =
      if test c then
        (((seq (repeated 0 test) pattern).taken cs).map (c :: ·)).or (pattern.taken (c :: cs))
      else pattern.taken (c :: cs) := by
  unfold taken
  rw [tries_seq_repeated_cons]
  split
  · simp only [List.map_append, List.head?_append, List.head?_map, Option.map_map, Function.comp_def]
  · rfl

theorem capturedHere_repeated_cons (c : Char) (cs : List Char) :
    capturedHere (repeated 0 test) pattern (c :: cs) =
      if test c then (capturedHere (repeated 0 test) pattern cs).or (pattern.taken (c :: cs))
      else pattern.taken (c :: cs) := by
  unfold capturedHere
  rw [tries_repeated, tries_repeated, runs]
  split
  · rw [List.flatMap_append, List.flatMap_map, List.flatMap_singleton, List.head?_append]
    rfl
  · rw [List.flatMap_singleton]
    rfl

end

end Pattern

end Blocklist.Text
