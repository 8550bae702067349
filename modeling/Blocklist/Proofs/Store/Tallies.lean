import Blocklist.Names
import Blocklist.Store.Selection
import Mathlib.Data.List.Induction

/-!
Tallies: counts listed by key. Main statements: raising one count raises the sum of all by as much, the keys
of a tally by name are the set of the names that were counted, and counting keys of ranks lists those that
occur by rank, each with the number of times it occurs.
-/

namespace Blocklist

/-- All counts of a tally together. -/
def tallied {κ : Type} : List (κ × Nat) → Nat
  | [] => 0
  | (_, n) :: rest => n + tallied rest

section
variable {κ : Type} [DecidableEq κ] (precedes : κ → κ → Bool) (key : κ) (n : Nat)

/-- It does not matter for the sum whether the key was there or where it goes. -/
theorem tallied_tally (counts : List (κ × Nat)) :
    tallied (tally precedes key n counts) = tallied counts + n := by
  induction counts with
  | nil => exact Nat.add_comm n 0
  | cons count rest ih =>
    obtain ⟨k, m⟩ := count
    unfold tally
    by_cases same : k = key
    · rw [if_pos same, tallied, tallied]
      omega
    · rw [if_neg same]
      by_cases before : precedes key k = true
      · rw [if_pos before, tallied, Nat.add_comm]
      · rw [if_neg before, tallied, ih, tallied, Nat.add_assoc]

end

theorem map_fst_tally (name : String) (n : Nat) (counts : List (String × Nat)) :
    (tally (fun a b => a < b) name n counts).map Prod.fst =
      insertName name (counts.map Prod.fst) := by
  induction counts with
  | nil => rfl
  | cons count rest ih =>
    obtain ⟨k, m⟩ := count
    rw [tally, List.map_cons, insertName]
    by_cases same : k = name
    · have notBefore : ¬name < k := same ▸ String.lt_irrefl k
      rw [if_pos same, if_neg notBefore, if_pos same, List.map_cons]
    · by_cases before : name < k
      · rw [if_neg same, if_pos (decide_eq_true before), if_pos before]
        rfl
      · rw [if_neg same, if_neg (by simpa using before), if_neg before, if_neg same, List.map_cons, ih]

section
variable {κ : Type} {precedes : κ → κ → Bool}

/-- Holds of an order of keys by ranks, no two keys having one rank. -/
structure OrderedBy (precedes : κ → κ → Bool) (rank : κ → Nat) : Prop where
  precedes_iff : ∀ a b, precedes a b = true ↔ rank a < rank b
  injective : ∀ a b, rank a = rank b → a = b

/-- Holds of counts whose keys stand in order, each but once. -/
def InOrder (precedes : κ → κ → Bool) (counts : List (κ × Nat)) : Prop :=
  counts.Pairwise fun a b => precedes a.1 b.1 = true

section
variable {rank : κ → Nat} (order : OrderedBy precedes rank) {key k : κ} {m : Nat}
  {rest : List (κ × Nat)}
include order

theorem InOrder.absent_of_head (inOrder : InOrder precedes ((key, m) :: rest)) (n : Nat) :
    (key, n) ∉ rest := by
  intro member
  have before := (order.precedes_iff _ _).mp ((List.pairwise_cons.mp inOrder).1 _ member)
  exact Nat.lt_irrefl _ before

theorem InOrder.absent_of_precedes (inOrder : InOrder precedes ((k, m) :: rest))
    (before : precedes key k = true) (n : Nat) : (key, n) ∉ (k, m) :: rest := by
  have first := (order.precedes_iff _ _).mp before
  intro member
  rcases List.mem_cons.mp member with same | later
  · rw [Prod.mk.injEq] at same
    rw [same.1] at first
    exact Nat.lt_irrefl _ first
  · have second := (order.precedes_iff _ _).mp ((List.pairwise_cons.mp inOrder).1 _ later)
    exact Nat.lt_asymm first second

end

end

section
variable {κ : Type} [DecidableEq κ] {precedes : κ → κ → Bool} {counts : List (κ × Nat)}

/-- The count of a key; a key without an entry counts nothing. -/
def countOf (counts : List (κ × Nat)) (key : κ) : Nat := (counts.lookup key).getD 0

theorem countOf_cons (k : κ) (m : Nat) (rest : List (κ × Nat)) (key : κ) :
    countOf ((k, m) :: rest) key = if key = k then m else countOf rest key := by
  unfold countOf
  rw [List.lookup_cons]
  by_cases same : key = k
  · simp [same]
  · have passed : (key == k) = false := by simp [same]
    rw [passed, if_neg same]

theorem countOf_of_absent {key : κ} (absent : ∀ n, (key, n) ∉ counts) : countOf counts key = 0 := by
  induction counts with
  | nil => rfl
  | cons count rest ih =>
    obtain ⟨k, m⟩ := count
    have other : key ≠ k := fun same => absent m (same ▸ List.mem_cons_self)
    rw [countOf_cons, if_neg other]
    exact ih fun n member => absent n (List.mem_cons_of_mem _ member)

section
variable {rank : κ → Nat} (order : OrderedBy precedes rank) {key k : κ} {m n : Nat}
include order

/-- Counting changes the entry of one key. -/
theorem mem_tally (inOrder : InOrder precedes counts) :
    (k, m) ∈ tally precedes key n counts ↔
      (k ≠ key ∧ (k, m) ∈ counts) ∨ (k = key ∧ m = countOf counts key + n) := by
  induction counts with
  | nil => simp [tally, countOf]
  | cons count rest ih =>
    obtain ⟨first, here⟩ := count
    have later := ih (List.pairwise_cons.mp inOrder).2
    unfold tally
    by_cases same : first = key
    · subst same
      have absent := inOrder.absent_of_head order m
      rw [if_pos rfl, countOf_cons, if_pos rfl, List.mem_cons, List.mem_cons, Prod.mk.injEq,
        Prod.mk.injEq]
      by_cases is : k = first
      · subst is
        simp [absent]
      · simp [is]
    · rw [if_neg same]
      by_cases before : precedes key first = true
      · have absent := inOrder.absent_of_precedes order before
        rw [if_pos before, countOf_of_absent absent, Nat.zero_add, List.mem_cons, Prod.mk.injEq]
        by_cases is : k = key
        · subst is
          simp [absent m]
        · simp [is]
      · rw [if_neg before, countOf_cons, if_neg (Ne.symm same), List.mem_cons, later, List.mem_cons,
          Prod.mk.injEq]
        by_cases is : k = key
        · subst is
          simp [Ne.symm same]
        · simp [is]

theorem InOrder.tally (inOrder : InOrder precedes counts) (key : κ) (n : Nat) :
    InOrder precedes (tally precedes key n counts) := by
  induction counts with
  | nil => exact List.pairwise_singleton _ _
  | cons count rest ih =>
    obtain ⟨first, here⟩ := count
    obtain ⟨ahead, inside⟩ := List.pairwise_cons.mp inOrder
    unfold Blocklist.tally
    by_cases same : first = key
    · rw [if_pos same]
      exact List.pairwise_cons.mpr ⟨ahead, inside⟩
    · rw [if_neg same]
      by_cases before : precedes key first = true
      · have ranked := (order.precedes_iff _ _).mp before
        rw [if_pos before]
        refine List.pairwise_cons.mpr ⟨fun e member => ?_, inOrder⟩
        rcases List.mem_cons.mp member with rfl | later
        · exact before
        · have behind := (order.precedes_iff _ _).mp (ahead e later)
          exact (order.precedes_iff _ _).mpr (Nat.lt_trans ranked behind)
      · -- The key's rank is neither that of the first entry nor below it.
        have ranked : rank first < rank key := by
          have notBelow := mt (order.precedes_iff key first).mpr before
          have notEqual := mt (order.injective first key) same
          omega
        rw [if_neg before]
        refine List.pairwise_cons.mpr ⟨fun e member => ?_, ih inside⟩
        rcases (mem_tally order inside).mp member with ⟨-, old⟩ | ⟨is, -⟩
        · exact ahead e old
        · rw [order.precedes_iff, is]
          exact ranked

/-- The other counts and the count of a key are all counts together. -/
theorem tallied_filter_ne (inOrder : InOrder precedes counts) (key : κ) :
    tallied (counts.filter fun e => e.1 ≠ key) + countOf counts key = tallied counts := by
  induction counts with
  | nil => rfl
  | cons count rest ih =>
    obtain ⟨k, m⟩ := count
    have later := ih (List.pairwise_cons.mp inOrder).2
    rw [countOf_cons]
    by_cases same : key = k
    · subst same
      have nothing := countOf_of_absent (inOrder.absent_of_head order)
      rw [nothing, Nat.add_zero] at later
      rw [if_pos rfl, List.filter_cons_of_neg (by simp), later, tallied, Nat.add_comm]
    · rw [if_neg same, List.filter_cons_of_pos (by simpa using Ne.symm same), tallied, tallied,
        Nat.add_assoc, later]

end

/-- Holds of the tally of these keys: those that occur, in order, each with the number of times it occurs. -/
structure TallyOf (precedes : κ → κ → Bool) (keys : List κ) (counts : List (κ × Nat)) : Prop where
  inOrder : InOrder precedes counts
  entries : ∀ key n, (key, n) ∈ counts ↔ 0 < n ∧ keys.count key = n
  sum : tallied counts = keys.length

section
variable {keys : List κ} (tells : TallyOf precedes keys counts)
include tells

theorem TallyOf.countOf_eq (key : κ) : countOf counts key = keys.count key := by
  cases found : counts.lookup key with
  | none =>
    have absent : (key, keys.count key) ∉ counts := by
      intro member
      have passed := List.lookup_eq_none_iff.mp found _ member
      simp at passed
    have none : ¬ 0 < keys.count key := fun some => absent ((tells.entries _ _).mpr ⟨some, rfl⟩)
    rw [countOf, found]
    change 0 = _
    omega
  | some n =>
    obtain ⟨before, after, split, -⟩ := List.lookup_eq_some_iff.mp found
    have member : (key, n) ∈ counts := split ▸ List.mem_append_right _ List.mem_cons_self
    rw [countOf, found, ((tells.entries key n).mp member).2]
    rfl

/-- One more key. -/
theorem TallyOf.concat {rank : κ → Nat} (order : OrderedBy precedes rank) (key : κ) :
    TallyOf precedes (keys ++ [key]) (tally precedes key 1 counts) where
  inOrder := tells.inOrder.tally order key 1
  entries k m := by
    rw [mem_tally order tells.inOrder, tells.countOf_eq, tells.entries, List.count_append,
      List.count_singleton]
    by_cases is : k = key
    · subst is
      simp
      omega
    · have other : ¬ (key == k) = true := by simpa using Ne.symm is
      simp [is, other]
  sum := by
    rw [tallied_tally, tells.sum, List.length_append, List.length_singleton]

end

/-- Counting keys one after the other gives their tally. -/
theorem tallyOf_foldl {rank : κ → Nat} (order : OrderedBy precedes rank) (keys : List κ) :
    TallyOf precedes keys (keys.foldl (fun counts key => tally precedes key 1 counts) []) := by
  induction keys using List.reverseRecOn with
  | nil =>
    refine ⟨List.Pairwise.nil, fun key n => iff_of_false List.not_mem_nil ?_, rfl⟩
    rintro ⟨some, none⟩
    rw [List.count_nil] at none
    omega
  | append_singleton keys key ih =>
    rw [List.foldl_append]
    exact ih.concat order key

end

end Blocklist
