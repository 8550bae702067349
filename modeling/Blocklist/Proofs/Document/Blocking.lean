import Blocklist.Proofs.Document.Exceptions
import Blocklist.Proofs.Intake.Arrivals
import Blocklist.Proofs.Rule.Hosts

/-!
Blocking lines. Each is the fixed text of its format around a host. Main statement: the line of a rule that
names a host is that text around the host, on one line, and the host is free of syntax unless the rule is
anchored and has syntax in front of its first separator.
-/

namespace Blocklist

/-- What a format puts before and after a host. -/
def Format.frame? : Format → Option (String × String)
  | hosts => some ("0.0.0.0 ", "")
  | dnsmasq => some ("address=/", "/")
  | unbound => some ("local-zone: \"", "\" static")
  | bind => some ("zone \"", "\" \x7b type master; file \"null.zone.file\"; \x7d;")
  | privoxy => some ("\x7b +block \x7b ", " \x7d \x7d")
  | shadowrocket => some ("DOMAIN-SUFFIX,", ",REJECT")
  | adguard | abp => none

theorem Format.blockingLine_eq (f : Format) (host : String) :
    f.blockingLine host = f.frame?.map fun frame => frame.1 ++ host ++ frame.2 := by
  cases f with
  | hosts => exact congrArg some String.append_empty.symm
  | dnsmasq | unbound | bind | privoxy | shadowrocket | adguard | abp => rfl

theorem Format.not_mem_frame {f : Format} {before after : String}
    (framed : f.frame? = some (before, after)) : '\n' ∉ before.toList ∧ '\n' ∉ after.toList := by
  cases f with
  | adguard | abp => cases framed
  | hosts | dnsmasq | unbound | bind | privoxy | shadowrocket =>
    cases framed
    decide

namespace Rule

/-- What holds of a host that the rule on a line names. -/
structure NamesHost (line : List Char) (host : String) : Prop where
  filled : host ≠ ""
  within : host.toList <:+: line
  unseparated : ∀ c ∈ host.toList, endsAnchor c = false
  anchored : ∀ text, anchoredText? line = some text → host.toList = text
  plain : anchoredText? line = none → ∀ c ∈ host.toList, isHostChar c = true
  /-- Syntax comes into a host from the text of an anchored rule only. -/
  clean_iff : (∀ c ∈ host.toList, isSyntax c = false) ↔
    ∀ text, anchoredText? line = some text → ∀ c ∈ text, isSyntax c = false

variable {line : List Char}

theorem namesHost_of_hostOf {host : List Char} (named : hostOf line = some host) :
    NamesHost line (String.ofList host) := by
  have anchored : ∀ text, anchoredText? line = some text → host = text :=
    fun _ opened => eq_of_hostOf_anchored named opened
  have plain : anchoredText? line = none → ∀ c ∈ host, isHostChar c = true :=
    fun unopened => (infix_dropExceptionMark named unopened).2
  have filled : String.ofList host ≠ "" := by
    intro empty
    rw [String.ofList_eq_empty_iff] at empty
    exact hostOf_ne_nil line (empty ▸ named)
  rw [← String.toList_ofList (l := host)] at anchored plain
  refine ⟨filled, ?_, ?_, anchored, plain, ?_⟩
  · rw [String.toList_ofList]
    exact infix_of_hostOf named
  · rw [String.toList_ofList]
    exact endsAnchor_of_mem_hostOf named
  · constructor
    · intro clean text opened c member
      exact clean c (anchored text opened ▸ member)
    · intro clean c member
      cases opened : anchoredText? line with
      | none => exact isSyntax_of_isHostChar (plain opened c member)
      | some text => exact clean text opened c (anchored text opened ▸ member)

theorem namesHost_of_classify {declared : Category} {rule : Classified} {host : String}
    (accepted : classify declared line = some rule) (named : rule.domain = some host) :
    NamesHost line host := by
  rw [(kind_of_classify accepted).2] at named
  split at named
  · obtain ⟨cs, found, rfl⟩ := Option.map_eq_some_iff.mp named
    exact namesHost_of_hostOf found
  · cases named

end Rule

namespace Document

/-- The line of a rule that names a host is the format's text around that host. The formats without such a
text keep the rule's own, and no format makes two lines of one. -/
theorem ruleLine_of_named (declared : Category) (line : List Char) (rule : Rule.Classified)
    (source : Source) (now : Instant) (host : String)
    (accepted : Rule.classify declared line = some rule) (named : rule.domain = some host) :
    Rule.NamesHost line host ∧ ∀ f : Format,
      (∀ before after, f.frame? = some (before, after) →
        ruleLine (.candidate rule source now) f = before ++ host ++ after) ∧
      (f.frame? = none → ruleLine (.candidate rule source now) f = String.ofList line) ∧
      ('\n' ∉ line → '\n' ∉ (ruleLine (.candidate rule source now) f).toList) := by
  have names := Rule.namesHost_of_classify accepted named
  have filled : host.isEmpty = false := by
    rw [Bool.eq_false_iff]
    intro empty
    exact names.filled (String.isEmpty_iff.mp empty)
  have spelled : ∀ f : Format, ruleLine (.candidate rule source now) f =
      (f.frame?.map fun frame => frame.1 ++ host ++ frame.2).getD (String.ofList line) := by
    intro f
    rw [← Format.blockingLine_eq, ← Rule.raw_of_classify accepted]
    simp only [ruleLine, Record.candidate, named, filled, Bool.false_eq_true, if_false]
  refine ⟨names, fun f => ?_⟩
  rw [spelled]
  cases framed : f.frame? with
  | none =>
    refine ⟨by simp, fun _ => rfl, ?_⟩
    rw [Option.map_none, Option.getD_none, String.toList_ofList]
    exact id
  | some frame =>
    obtain ⟨before, after⟩ := frame
    refine ⟨?_, by simp, ?_⟩
    · intro _ _ same
      cases same
      rfl
    · intro oneLine broken
      have fixed := Format.not_mem_frame framed
      rw [Option.map_some, Option.getD_some, String.toList_append, String.toList_append,
        List.mem_append, List.mem_append] at broken
      rcases broken with (first | inside) | last
      · exact fixed.1 first
      · exact oneLine (names.within.subset inside)
      · exact fixed.2 last

/-- A rule with an address, from which the host token is taken. -/
def addressed : Rule.Classified :=
  ⟨"|https://cdn.example.io/ad.js$domain=a.com|b.com,*", .unknown, some "cdn.example.io",
    [.domain ["a.com", "b.com"], .flag "*"], [], .advertising⟩

theorem ruleLine_of_addressed :
    Rule.classify .advertising addressed.raw.toList = some addressed ∧
      Rule.NamesHost addressed.raw.toList "cdn.example.io" ∧
      ruleLine (.candidate addressed (Source.ofCategory "a" .advertising) (Date.sampled 0).start)
        .unbound = "local-zone: \"cdn.example.io\" static" := by
  have accepted : Rule.classify .advertising addressed.raw.toList = some addressed := by
    decide +kernel
  obtain ⟨names, lines⟩ := ruleLine_of_named .advertising addressed.raw.toList addressed
    (Source.ofCategory "a" .advertising) (Date.sampled 0).start "cdn.example.io" accepted rfl
  exact ⟨accepted, names, (lines .unbound).1 _ _ rfl⟩

/-- An anchored rule whose modifiers follow its host without a separator. -/
def optioned : Rule.Classified :=
  ⟨"||ads.example.com$third-party", .domain, some "ads.example.com$third-party",
    [.flag "third-party"], [], .advertising⟩

/-- Its modifiers stand in every blocking line. -/
theorem ruleLine_optioned :
    Text.trim optioned.raw.toList = optioned.raw.toList ∧ '\n' ∉ optioned.raw.toList ∧
      Rule.classify .advertising optioned.raw.toList = some optioned ∧
      (∃ host, optioned.domain = some host ∧ ∃ c ∈ host.toList, Rule.isSyntax c = true) ∧
      ∀ f ∈ [Format.hosts, .dnsmasq, .unbound, .bind, .privoxy, .shadowrocket],
        f.blockingLine "ads.example.com$third-party" = some (ruleLine (.candidate optioned
          (Source.ofCategory "a" .advertising) (Date.sampled 0).start) f) := by
  refine ⟨by decide +kernel, by decide +kernel, by decide +kernel, ?_, by decide +kernel⟩
  exact ⟨_, rfl, '$', by decide, by decide⟩

end Document

end Blocklist
