import Blocklist.Document
import Blocklist.Proofs.Intake.Arrivals
import Blocklist.Proofs.Rule.Tokens
import Blocklist.Proofs.Text.Lines

/-!
Element hiding rules. Main statement: a rule that hides elements names no host, and its line blocks none of
the hosts to which it is limited, as long as its selector has no caret; with one it is taken for a rule that
names a host.
-/

namespace Blocklist.Rule

/-- A host name to which an element hiding rule is limited or, with a tilde, one that it leaves out. -/
def IsScopeName (name : List Char) : Prop :=
  ∃ host, (name = host ∨ name = '~' :: host) ∧ isBareHost host = true

/-- The element hiding rule for these names, or for all hosts if there are none. -/
def hidingLine (names : List (List Char)) (selector : List Char) : List Char :=
  Text.joinWith [','] names ++ ("##".toList ++ selector)

theorem isPrefixOf_eq_false {mark : Char} {marks line : List Char} (other : line.head? ≠ some mark) :
    (mark :: marks).isPrefixOf line = false := by
  rw [Bool.eq_false_iff]
  intro starts
  obtain ⟨rest, rfl⟩ := List.isPrefixOf_iff_prefix.mp starts
  exact other rfl

section
variable {names : List (List Char)} {selector : List Char}
  (limits : ∀ name ∈ names, IsScopeName name)
include limits

theorem mem_scope {c : Char} (member : c ∈ Text.joinWith [','] names) :
    isHostChar c = true ∨ c = ',' ∨ c = '~' := by
  rcases Text.mem_joinWith member with between | ⟨name, listed, within⟩
  · exact .inr (.inl (List.mem_singleton.mp between))
  · obtain ⟨host, spelled, bare⟩ := limits name listed
    rw [isBareHost, Bool.and_eq_true, List.all_eq_true] at bare
    rcases spelled with rfl | rfl
    · exact .inl (bare.2 c within)
    · rcases List.mem_cons.mp within with tilde | inside
      · exact .inr (.inr tilde)
      · exact .inl (bare.2 c inside)

theorem not_mem_scope {mark : Char} (outside : isHostChar mark = false)
    (other : mark ≠ ',' ∧ mark ≠ '~') : mark ∉ Text.joinWith [','] names := by
  intro member
  rcases mem_scope limits member with inside | comma | tilde
  · rw [outside] at inside
    cases inside
  · exact other.1 comma
  · exact other.2 tilde

/-- No mark that opens another kind of line opens an element hiding rule. -/
theorem head?_hidingLine {mark : Char} (outside : isHostChar mark = false)
    (other : mark ≠ ',' ∧ mark ≠ '~' ∧ mark ≠ '#') :
    (hidingLine names selector).head? ≠ some mark := by
  rw [hidingLine, List.head?_append]
  intro opens
  rcases Option.or_eq_some_iff.mp opens with first | ⟨-, first⟩
  · exact not_mem_scope limits outside ⟨other.1, other.2.1⟩ (List.mem_of_head? first)
  · exact other.2.2 (Option.some.inj first).symm

theorem mem_hidingLine_caret : '^' ∈ hidingLine names selector ↔ '^' ∈ selector := by
  have scope : '^' ∉ Text.joinWith [','] names := not_mem_scope limits (by decide) (by decide)
  rw [hidingLine, List.mem_append, List.mem_append]
  constructor
  · rintro (inScope | inSeparator | inSelector)
    · exact absurd inScope scope
    · exact absurd inSeparator (by decide)
    · exact inSelector
  · exact fun inSelector => .inr (.inr inSelector)

/-- The caret is looked for before the separator is. -/
theorem ofLine_hidingLine :
    Kind.ofLine (hidingLine names selector) = if '^' ∈ selector then .domain else .cosmetic := by
  have exception : "@@".toList.isPrefixOf (hidingLine names selector) = false :=
    isPrefixOf_eq_false (head?_hidingLine limits (by decide) (by decide))
  have anchored : "||".toList.isPrefixOf (hidingLine names selector) = false :=
    isPrefixOf_eq_false (head?_hidingLine limits (by decide) (by decide))
  have slashed : Kind.isSlashed (hidingLine names selector) = false := by
    have first : (hidingLine names selector).head? ≠ some '/' :=
      head?_hidingLine limits (by decide) (by decide)
    rw [Kind.isSlashed, beq_eq_false_iff_ne.mpr first, Bool.and_false, Bool.false_and]
  have separated : Text.occursIn "##".toList (hidingLine names selector) = true :=
    Text.occursIn_append _ _ _
  have caret : (hidingLine names selector).contains '^' = decide ('^' ∈ selector) := by
    rw [List.contains_eq_mem, decide_eq_decide]
    exact mem_hidingLine_caret limits
  rw [Kind.ofLine, exception, slashed, anchored, separated, caret]
  by_cases inside : '^' ∈ selector
  · rw [if_pos inside, decide_eq_true inside]
    rfl
  · rw [if_neg inside, decide_eq_false inside]
    rfl

theorem isRuleLine_hidingLine : isRuleLine (hidingLine names selector) = true := by
  have comment : (hidingLine names selector).head? ≠ some '!' :=
    head?_hidingLine limits (by decide) (by decide)
  have header : (hidingLine names selector).head? ≠ some '[' :=
    head?_hidingLine limits (by decide) (by decide)
  cases spelled : hidingLine names selector with
  | nil => simp [hidingLine] at spelled
  | cons c rest =>
    rw [spelled, List.head?_cons] at comment header
    have notComment : c ≠ '!' := fun same => comment (congrArg some same)
    have notHeader : c ≠ '[' := fun same => header (congrArg some same)
    simp [isRuleLine, notComment, notHeader]

theorem hostOf_hidingLine :
    hostOf (hidingLine names selector) = firstHost (hidingLine names selector) := by
  have plain : dropExceptionMark (hidingLine names selector) = hidingLine names selector := by
    unfold dropExceptionMark
    split
    next rest opened =>
      have first : (hidingLine names selector).head? ≠ some '@' :=
        head?_hidingLine limits (by decide) (by decide)
      rw [opened] at first
      exact absurd rfl first
    next => rfl
  have unanchored : anchoredText? (hidingLine names selector) = none := by
    apply anchoredText?_eq_none_iff.mpr
    intro rest opened
    have first : (hidingLine names selector).head? ≠ some '|' :=
      head?_hidingLine limits (by decide) (by decide)
    rw [plain] at opened
    rw [opened] at first
    exact first rfl
  have mixed : isBareHost (hidingLine names selector) = false := by
    have separator : '#' ∈ hidingLine names selector :=
      List.mem_append_right _ (List.mem_append_left _ (by decide))
    rw [isBareHost, Bool.and_eq_false_iff]
    refine .inr (Bool.eq_false_iff.mpr fun all => ?_)
    exact absurd (List.all_eq_true.mp all '#' separator) (by decide)
  rw [hostOf_unanchored unanchored, plain, mixed]
  rfl

end

/-- The separator of an element hiding rule comes into no line that blocks a host. -/
theorem separator_not_mem_blockingLine {f : Format} {host line : String}
    (clean : ∀ c ∈ host.toList, isHostChar c = true) (blocking : f.blockingLine host = some line) :
    '#' ∉ line.toList := by
  have outside : '#' ∉ host.toList := by
    intro member
    exact absurd (clean '#' member) (by decide)
  cases f with
  | adguard | abp => cases blocking
  | hosts | dnsmasq | unbound | bind | privoxy | shadowrocket =>
    cases blocking
    simp [String.toList_append, outside]

/-- An element hiding rule without a caret in its selector names no host and blocks none. One with a caret is
filed as a rule about a domain and names its first token. -/
theorem classify_hidingLine (declared : Category) (names : List (List Char)) (selector : List Char)
    (limits : ∀ name ∈ names, IsScopeName name) :
    ∃ rule, classify declared (hidingLine names selector) = some rule ∧
      rule.kind = (if '^' ∈ selector then .domain else .cosmetic) ∧
      ('^' ∈ selector →
        rule.domain = (firstHost (hidingLine names selector)).map String.ofList) ∧
      ('^' ∉ selector → rule.domain = none ∧
        ∀ (source : Source) (now : Instant) (f : Format),
          Document.ruleLine (.candidate rule source now) f =
              String.ofList (hidingLine names selector) ∧
            ∀ host : String, (∀ c ∈ host.toList, isHostChar c = true) →
              f.blockingLine host ≠ some (Document.ruleLine (.candidate rule source now) f)) := by
  have accepted : (classify declared (hidingLine names selector)).isSome = true := by
    rw [isSome_classify]
    exact isRuleLine_hidingLine limits
  obtain ⟨rule, classified⟩ := Option.isSome_iff_exists.mp accepted
  obtain ⟨kind, domain⟩ := kind_of_classify classified
  rw [ofLine_hidingLine limits] at kind domain
  refine ⟨rule, classified, kind, ?_, ?_⟩
  · intro caret
    rw [domain, if_pos caret, hostOf_hidingLine limits]
    rfl
  · intro plain
    rw [if_neg plain] at domain
    have unnamed : rule.domain = none := domain
    refine ⟨unnamed, fun source now f => ?_⟩
    have spelled : Document.ruleLine (.candidate rule source now) f =
        String.ofList (hidingLine names selector) := by
      rw [← raw_of_classify classified]
      simp only [Document.ruleLine, Record.candidate, unnamed]
    refine ⟨spelled, fun host clean blocking => ?_⟩
    apply separator_not_mem_blockingLine clean blocking
    rw [spelled, String.toList_ofList]
    exact List.mem_append_right _ (List.mem_append_left _ (by decide))

/-- The names of a rule for one host but not for a host under it. -/
def excludingNames : List (List Char) := ["example.com".toList, "~m.example.com".toList]

/-- A selector with slashes and pipes. -/
def linkSelector : List Char := "a[href*=\"//ads.example.net/\"] || b".toList

theorem classify_hidingLine_excluding :
    (∀ name ∈ excludingNames, IsScopeName name) ∧ '^' ∉ linkSelector ∧
      ∃ rule, classify .tracking (hidingLine excludingNames linkSelector) = some rule ∧
        rule.kind = .cosmetic ∧ rule.domain = none := by
  have limits : ∀ name ∈ excludingNames, IsScopeName name := by
    intro name member
    simp only [excludingNames, List.mem_cons, List.not_mem_nil, or_false] at member
    rcases member with rfl | rfl
    · exact ⟨"example.com".toList, .inl rfl, by decide⟩
    · exact ⟨"m.example.com".toList, .inr rfl, by decide⟩
  have plain : '^' ∉ linkSelector := by decide
  obtain ⟨rule, classified, kind, -, hidden⟩ :=
    classify_hidingLine .tracking excludingNames linkSelector limits
  rw [if_neg plain] at kind
  exact ⟨limits, plain, rule, classified, kind, (hidden plain).1⟩

/-- An element hiding rule whose selector tests how an attribute begins. -/
def attributed : Classified :=
  ⟨"example.com##a[href^=\"http://ads.\"]", .domain, some "example.com", [], [], .advertising⟩

/-- It blocks the host to which it is limited. -/
theorem classify_attributed :
    attributed.raw.toList =
        hidingLine ["example.com".toList] "a[href^=\"http://ads.\"]".toList ∧
      IsScopeName "example.com".toList ∧
      Text.trim attributed.raw.toList = attributed.raw.toList ∧
      '\n' ∉ attributed.raw.toList ∧
      classify .advertising attributed.raw.toList = some attributed ∧
      attributed.kind ≠ .cosmetic ∧ attributed.domain ≠ none ∧
      Document.ruleLine (.candidate attributed (Source.ofCategory "a" .advertising)
        (Date.sampled 0).start) .hosts = "0.0.0.0 example.com" :=
  ⟨by decide +kernel, ⟨"example.com".toList, .inl rfl, by decide⟩, by decide +kernel,
    by decide +kernel, by decide +kernel, by decide, by decide, by decide +kernel⟩

end Blocklist.Rule
