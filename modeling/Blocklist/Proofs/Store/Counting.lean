import Blocklist.Proofs.Store.Tallies

/-!
What is counted over records, once by kind and category for a summary, and once by sorting out the
exceptions for the head of a document. Main statement: both count the same records, each of them once, and
the blocking rules of the head are all that the summary lists under other kinds than exceptions.
-/

namespace Blocklist

/-- Keys precede each other as they are listed if their ranks are their places in the list. -/
theorem OrderedBy.of_listed {κ : Type} {precedes : κ → κ → Bool} {rank : κ → Nat} {all : List κ}
    (listed : ∀ key, all[rank key]? = some key)
    (precedes_iff : ∀ a b, precedes a b = true ↔ rank a < rank b) : OrderedBy precedes rank where
  precedes_iff := precedes_iff
  injective a b same := by
    have first := listed a
    rw [same, listed b] at first
    exact (Option.some.inj first).symm

theorem Rule.Kind.orderedBy : OrderedBy Rule.Kind.precedes Rule.Kind.ctorIdx := by
  have listed : ∀ k : Rule.Kind, Rule.Kind.all[k.ctorIdx]? = some k := by
    intro k
    cases k <;> rfl
  exact .of_listed listed fun _ _ => decide_eq_true_iff

theorem Category.orderedBy : OrderedBy Category.precedes Category.ctorIdx := by
  have listed : ∀ c : Category, Category.all[c.ctorIdx]? = some c := by
    intro c
    cases c <;> rfl
  exact .of_listed listed fun _ _ => decide_eq_true_iff

section
variable (records : List Record)

theorem Summary.tallyOf_kinds :
    TallyOf Rule.Kind.precedes (records.map Record.kind) (Summary.ofRecords records).kinds := by
  have counted := tallyOf_foldl Rule.Kind.orderedBy (records.map Record.kind)
  rw [List.foldl_map] at counted
  exact counted

theorem Summary.tallyOf_categories :
    TallyOf Category.precedes (records.map Record.category) (Summary.ofRecords records).categories := by
  have counted := tallyOf_foldl Category.orderedBy (records.map Record.category)
  rw [List.foldl_map] at counted
  exact counted

/-- Sorting out the exceptions finds as many as are counted under their kind. -/
theorem length_filter_isException :
    (records.filter Record.isException).length = (records.map Record.kind).count .exception := by
  rw [← List.countP_eq_length_filter, List.count, List.countP_map]
  rfl

/-- Holds of a summary and of counts for the head of a document that tell the same of these records. -/
structure Summary.Agrees (summary : Summary) (stats : ListStats) (records : List Record) : Prop where
  total : summary.total = records.length
  headTotal : stats.totalRules = summary.total
  kinds : TallyOf Rule.Kind.precedes (records.map Record.kind) summary.kinds
  kindsSum : tallied summary.kinds = summary.total
  categories : TallyOf Category.precedes (records.map Record.category) summary.categories
  categoriesSum : tallied summary.categories = summary.total
  unblocking : stats.unblockingRules = countOf summary.kinds .exception
  blocking : stats.blockingRules = tallied (summary.kinds.filter fun e => e.1 ≠ .exception)
  /-- What is subtracted for the blocking rules is never more than there is. -/
  within : (records.filter Record.isException).length ≤ records.length
  apart : stats.blockingRules + stats.unblockingRules = stats.totalRules

/-- Whatever the records are, the summary of them and the counts for the head of a document agree. -/
theorem Summary.ofRecords_agrees :
    (Summary.ofRecords records).Agrees (ListStats.ofRecords records) records := by
  have kinds := Summary.tallyOf_kinds records
  have categories := Summary.tallyOf_categories records
  have kindsSum : tallied (Summary.ofRecords records).kinds = records.length :=
    kinds.sum.trans (List.length_map _)
  have exceptions : (records.filter Record.isException).length =
      countOf (Summary.ofRecords records).kinds .exception := by
    rw [length_filter_isException, kinds.countOf_eq]
  have within : (records.filter Record.isException).length ≤ records.length :=
    List.length_filter_le _ _
  have others := tallied_filter_ne Rule.Kind.orderedBy kinds.inOrder .exception
  rw [kindsSum, ← exceptions] at others
  refine ⟨rfl, rfl, kinds, kindsSum, categories, categories.sum.trans (List.length_map _), exceptions,
    ?_, within, Nat.sub_add_cancel within⟩
  change records.length - (records.filter Record.isException).length = _
  omega

end

end Blocklist
