import Blocklist.Document
import Blocklist.Proofs.Record.Candidate
import Blocklist.Proofs.Rule.Tokens

/-!
Where a host begins and ends in its line. Main statement: no letter or digit stands in front of the host of a
rule without an anchor and no letter behind it, and it is all of its run of host characters exactly if the
rule is a bare host name or the run ends as tokens do. Otherwise the rule names the start of a longer host.
-/

namespace Blocklist.Rule

open Text (isAlnum isLetter)

theorem dropExceptionMark_cases (line : List Char) :
    dropExceptionMark line = line ∨ line = '@' :: '@' :: dropExceptionMark line := by
  unfold dropExceptionMark
  split
  · exact .inr rfl
  · exact .inl rfl

theorem IsTail.concat {tail : List Char} (shaped : IsTail tail) {c : Char} (letter : isLetter c = true) :
    IsTail (tail ++ [c]) := by
  obtain ⟨inside, letters, rfl, hosts, all, long⟩ := shaped
  refine ⟨inside, letters ++ [c], by simp, hosts, ?_, ?_⟩
  · intro d member
    rcases List.mem_append.mp member with earlier | last
    · exact all d earlier
    · rw [List.mem_singleton.mp last]
      exact letter
  · rw [List.length_append]
    exact Nat.le_add_right_of_le long

theorem IsToken.concat {token : List Char} (shaped : IsToken token) {c : Char}
    (letter : isLetter c = true) : IsToken (token ++ [c]) := by
  obtain ⟨first, tail, rfl, alnum, shaped⟩ := shaped
  exact ⟨first, tail ++ [c], rfl, alnum, shaped.concat letter⟩

theorem IsToken.cons {token : List Char} (shaped : IsToken token) {c : Char} (alnum : isAlnum c = true) :
    IsToken (c :: token) := by
  obtain ⟨first, tail, rfl, firstAlnum, shaped⟩ := shaped
  exact ⟨c, first :: tail, rfl, alnum, shaped.cons (isHostChar_of_isAlnum firstAlnum)⟩

namespace FirstToken

theorem exists_split {line token : List Char} {place : Nat} (first : FirstToken line token place) :
    ∃ before after, line = before ++ token ++ after ∧ before.length = place := by
  obtain ⟨after, rest⟩ := first.here
  obtain ⟨c, tail, rfl, -⟩ := first.shaped
  have inside : place ≤ line.length := by
    have lengths := congrArg List.length rest
    rw [List.cons_append, List.length_cons, List.length_drop] at lengths
    omega
  refine ⟨line.take place, after, ?_, List.length_take_of_le inside⟩
  rw [List.append_assoc, rest, List.take_append_drop]

variable {before token after : List Char}
  (first : FirstToken (before ++ token ++ after) token before.length)
include first

/-- A token with a letter or digit in front of it would have begun there. -/
theorem before_not_alnum {c : Char} (last : before.getLast? = some c) : isAlnum c = false := by
  obtain ⟨init, rfl⟩ := List.getLast?_eq_some_iff.mp last
  rw [Bool.eq_false_iff]
  intro alnum
  have shorter : init.length < (init ++ [c]).length := by
    rw [List.length_append]
    exact Nat.lt_succ_self _
  apply first.leftmost init.length shorter (c :: token) (first.shaped.cons alnum)
  have there : init ++ [c] ++ token ++ after = init ++ (c :: token ++ after) := by
    simp only [List.append_assoc, List.cons_append, List.nil_append]
  rw [there, List.drop_left]
  exact List.prefix_append _ _

/-- The token does not go on behind its place, as it is the longest there. -/
theorem not_isToken_of_longer {more : List Char} (within : more <+: after) (filled : more ≠ []) :
    ¬IsToken (token ++ more) := by
  intro shaped
  have starts : token ++ more <+: (before ++ token ++ after).drop before.length := by
    rw [List.append_assoc, List.drop_left]
    exact (List.prefix_append_right_inj token).mpr within
  have bound := (first.longest (token ++ more) shaped starts).length_le
  have more_pos := List.length_pos_iff.mpr filled
  rw [List.length_append] at bound
  omega

theorem after_not_letter {c : Char} (next : after.head? = some c) : isLetter c = false := by
  obtain ⟨others, rfl⟩ := List.head?_eq_some_iff.mp next
  rw [Bool.eq_false_iff]
  intro letter
  have within : [c] <+: c :: others := ⟨others, rfl⟩
  exact first.not_isToken_of_longer within (List.cons_ne_nil c []) (first.shaped.concat letter)

theorem ends_iff :
    (∀ c, after.head? = some c → isHostChar c = false) ↔
      IsToken (token ++ after.takeWhile isHostChar) := by
  constructor
  · intro stops
    have nothing : after.takeWhile isHostChar = [] := by
      cases after with
      | nil => rfl
      | cons c after => rw [List.takeWhile_cons_of_neg (by simp [stops c rfl])]
    rw [nothing, List.append_nil]
    exact first.shaped
  · intro shaped c next
    obtain ⟨others, rfl⟩ := List.head?_eq_some_iff.mp next
    rw [Bool.eq_false_iff]
    intro inside
    refine first.not_isToken_of_longer (List.takeWhile_prefix _) ?_ shaped
    rw [List.takeWhile_cons_of_pos inside]
    exact List.cons_ne_nil _ _

end FirstToken

/-- How the host of a rule without an anchor stands in its line. -/
structure StandsIn (line host before after : List Char) : Prop where
  split : line = before ++ host ++ after
  opens : ∀ c, before.getLast? = some c → isAlnum c = false
  ends : ∀ c, after.head? = some c → isLetter c = false
  /-- The host is all of its run of host characters only if the run ends as a token does. -/
  whole_iff : (∀ c, after.head? = some c → isHostChar c = false) ↔
    isBareHost (dropExceptionMark line) = true ∨ IsToken (host ++ after.takeWhile isHostChar)

theorem hostOf_standsIn (line host : List Char) (unanchored : ¬['|', '|'] <+: dropExceptionMark line)
    (named : hostOf line = some host) : ∃ before after, StandsIn line host before after := by
  rw [hostOf_unanchored (anchoredText?_eq_none_of_unanchored unanchored)] at named
  by_cases bare : isBareHost (dropExceptionMark line) = true
  · rw [if_pos bare] at named
    cases named
    rcases dropExceptionMark_cases line with same | marked
    · exact ⟨[], [], by simp [same], by simp, by simp, by simp [bare]⟩
    · refine ⟨['@', '@'], [], by simpa using marked, ?_, by simp, by simp [bare]⟩
      intro c last
      cases last
      rfl
  · rw [if_neg bare, firstHost_dropExceptionMark] at named
    obtain ⟨place, first⟩ := firstHost_eq_some_iff.mp named
    obtain ⟨before, after, rfl, rfl⟩ := first.exists_split
    refine ⟨before, after, rfl, fun _ => first.before_not_alnum, fun _ => first.after_not_letter, ?_⟩
    rw [first.ends_iff, or_iff_right bare]

/-- A line of a hosts file. The last label of its host has a digit and hyphens. -/
def encoded : Classified :=
  ⟨"0.0.0.0 ads.example.xn--p1ai", .unknown, some "ads.example.xn", [], [], .advertising⟩

theorem hostOf_standsIn_encoded :
    ¬['|', '|'] <+: dropExceptionMark encoded.raw.toList ∧
      hostOf encoded.raw.toList = some "ads.example.xn".toList ∧
      ∃ before after, StandsIn encoded.raw.toList "ads.example.xn".toList before after := by
  have unanchored : ¬['|', '|'] <+: dropExceptionMark encoded.raw.toList := by decide
  have named : hostOf encoded.raw.toList = some "ads.example.xn".toList := by decide +kernel
  exact ⟨unanchored, named, hostOf_standsIn _ _ unanchored named⟩

/-- Its host is cut within that label, and another host is blocked. -/
theorem hostOf_cuts_encoded :
    Rule.classify .advertising encoded.raw.toList = some encoded ∧
      isBareHost (dropExceptionMark encoded.raw.toList) = false ∧
      hostOf encoded.raw.toList = some "ads.example.xn".toList ∧
      (∀ before after, encoded.raw.toList = before ++ "ads.example.xn".toList ++ after →
        ∃ c, after.head? = some c ∧ isHostChar c = true) ∧
      Document.ruleLine (.candidate encoded (Source.ofCategory "a" .advertising)
        (Date.sampled 0).start) .hosts = "0.0.0.0 ads.example.xn" := by
  have everywhere : ∀ place ≤ encoded.raw.toList.length,
      "ads.example.xn".toList <+: encoded.raw.toList.drop place →
        (encoded.raw.toList.drop (place + 14)).head? = some '-' := by decide +kernel
  refine ⟨by decide +kernel, by decide, by decide +kernel, ?_, by decide +kernel⟩
  intro before after split
  have within : before.length ≤ encoded.raw.toList.length := by
    rw [split, List.append_assoc, List.length_append]
    exact Nat.le_add_right _ _
  have next := everywhere before.length within
  rw [split, List.append_assoc, List.drop_left, List.drop_length_add_append] at next
  exact ⟨'-', next (List.prefix_append _ _), by decide⟩

end Blocklist.Rule
