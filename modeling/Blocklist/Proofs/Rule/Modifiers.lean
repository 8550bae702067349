import Blocklist.Proofs.Text.Separators
import Blocklist.Rule.Classified

/-!
Modifiers read from a rule and written again. Main statements: only the equals sign of an empty value is
lost, and a list of modifiers is read back from its written form exactly if that form spells each of them.
-/

namespace Blocklist.Rule.Modifier

/-- The token without its equals sign, if that is the only one and nothing follows it. -/
def shortened (token : List Char) : List Char :=
  if token.count '=' = 1 ∧ token.getLast? = some '=' then token.dropLast else token

/-- Holds of texts without any of these characters. -/
def Lacks (marks : List Char) (text : String) : Prop := ∀ mark ∈ marks, mark ∉ text.toList

/-- Holds of modifiers that their token spells: no separator is part of a name, a value or a domain, and
what stands behind an equals sign is neither empty nor taken for something else. -/
def Spelled : Modifier → Prop
  | domain domains =>
    domains ≠ [] ∧ Text.joinWith ['|'] (domains.map String.toList) ≠ [] ∧
      ∀ d ∈ domains, Lacks [',', '|', '$'] d
  | value key given =>
    Lacks [',', '=', '$'] key ∧ key ≠ "domain" ∧ given ≠ "" ∧ Lacks [',', '$'] given
  | flag key => Lacks [',', '=', '$'] key

section
variable {token key : List Char}

theorem ofToken_of_not_mem (absent : '=' ∉ token) : ofToken token = flag (String.ofList token) := by
  rw [ofToken, Text.splitOnce_of_not_mem absent]

theorem ofToken_nil (absent : '=' ∉ key) : ofToken (key ++ ['=']) = flag (String.ofList key) := by
  rw [ofToken, Text.splitOnce_append absent]

theorem ofToken_cons (absent : '=' ∉ key) (c : Char) (given : List Char) :
    ofToken (key ++ '=' :: c :: given) =
      if key = "domain".toList then domain ((Text.splitAt '|' (c :: given)).map String.ofList)
      else value (String.ofList key) (String.ofList (c :: given)) := by
  rw [ofToken, Text.splitOnce_append absent]

/-- A token has no equals sign, or nothing behind its first one, or something. -/
theorem token_cases (token : List Char) :
    '=' ∉ token ∨ (∃ key, '=' ∉ key ∧ token = key ++ ['=']) ∨
      ∃ key c given, '=' ∉ key ∧ token = key ++ '=' :: c :: given := by
  by_cases member : '=' ∈ token
  · obtain ⟨key, given, shape, absent⟩ := List.eq_append_cons_of_mem member
    cases given with
    | nil => exact .inr (.inl ⟨key, absent, shape⟩)
    | cons c given => exact .inr (.inr ⟨key, c, given, absent, shape⟩)
  · exact .inl member

theorem shortened_of_not_mem (absent : '=' ∉ token) : shortened token = token := by
  rw [shortened, List.count_eq_zero.mpr absent]
  exact if_neg fun one => absurd one.1 Nat.zero_ne_one

theorem shortened_nil (absent : '=' ∉ key) : shortened (key ++ ['=']) = key := by
  have once : (key ++ ['=']).count '=' = 1 := by
    rw [List.count_append, List.count_eq_zero.mpr absent]
    rfl
  rw [shortened, if_pos ⟨once, List.getLast?_concat⟩, List.dropLast_concat]

theorem shortened_cons (key : List Char) (c : Char) (given : List Char) :
    shortened (key ++ '=' :: c :: given) = key ++ '=' :: c :: given := by
  rw [shortened]
  refine if_neg fun ⟨once, ends⟩ => ?_
  have last : '=' ∈ c :: given := by
    rw [List.getLast?_append_cons, List.getLast?_cons_cons] at ends
    exact List.mem_of_getLast? ends
  have more := List.count_pos_iff.mpr last
  rw [List.count_append, List.count_cons_self] at once
  omega

theorem domainMark : "domain=".toList = "domain".toList ++ ['='] := by decide

theorem toList_map_ofList (pieces : List (List Char)) :
    (pieces.map String.ofList).map String.toList = pieces := by
  rw [List.map_map]
  exact List.map_id'' (fun _ => String.toList_ofList) pieces

theorem ofList_map_toList (texts : List String) :
    (texts.map String.toList).map String.ofList = texts := by
  rw [List.map_map]
  exact List.map_id'' (fun _ => String.ofList_toList) texts

theorem token_domain (domains : List String) :
    (domain domains).token =
      "domain".toList ++ '=' :: Text.joinWith ['|'] (domains.map String.toList) := by
  change "domain=".toList ++ _ = _
  rw [domainMark, List.append_assoc, List.singleton_append]

theorem token_value (key given : String) : (value key given).token = key.toList ++ '=' :: given.toList :=
  rfl

/-- Reading a token and writing it again loses the equals sign of an empty value only. -/
theorem token_ofToken (token : List Char) : (ofToken token).token = shortened token := by
  rcases token_cases token with absent | ⟨key, absent, rfl⟩ | ⟨key, c, given, absent, rfl⟩
  · rw [ofToken_of_not_mem absent, shortened_of_not_mem absent]
    exact String.toList_ofList
  · rw [ofToken_nil absent, shortened_nil absent]
    exact String.toList_ofList
  · rw [ofToken_cons absent, shortened_cons]
    by_cases named : key = "domain".toList
    · rw [if_pos named, token_domain, toList_map_ofList, Text.joinWith_splitAt, named]
    · rw [if_neg named, token_value, String.toList_ofList, String.toList_ofList]

theorem lacks_ofList {marks cs : List Char} :
    Lacks marks (String.ofList cs) ↔ ∀ mark ∈ marks, mark ∉ cs := by
  rw [Lacks, String.toList_ofList]

/-- Whatever is read from a token without separators is spelled by a token. -/
theorem spelled_ofToken (comma : ',' ∉ token) (dollar : '$' ∉ token) : (ofToken token).Spelled := by
  rcases token_cases token with absent | ⟨key, absent, rfl⟩ | ⟨key, c, given, absent, rfl⟩
  · rw [ofToken_of_not_mem absent]
    exact lacks_ofList.mpr (by simp [comma, absent, dollar])
  · rw [List.mem_append, not_or] at comma dollar
    rw [ofToken_nil absent]
    exact lacks_ofList.mpr (by simp [comma, absent, dollar])
  · rw [List.mem_append, List.mem_cons, not_or, not_or] at comma dollar
    rw [ofToken_cons absent]
    by_cases named : key = "domain".toList
    · rw [if_pos named]
      refine ⟨?_, ?_, ?_⟩
      · rw [ne_eq, List.map_eq_nil_iff]
        exact Text.splitAt_ne_nil '|' _
      · rw [toList_map_ofList, Text.joinWith_splitAt]
        exact List.cons_ne_nil c given
      · intro d listed
        obtain ⟨piece, cut, rfl⟩ := List.mem_map.mp listed
        -- A piece has no pipe, and no other mark that the value lacks.
        have inside := fun mark => mt (Text.mem_of_mem_splitAt (c := mark) cut)
        exact lacks_ofList.mpr
          (by simp [inside ',' comma.2.2, inside '$' dollar.2.2, Text.not_mem_of_mem_splitAt cut])
    · rw [if_neg named]
      refine ⟨lacks_ofList.mpr (by simp [comma.1, absent, dollar.1]), ?_, ?_,
        lacks_ofList.mpr (by simpa using And.intro comma.2.2 dollar.2.2)⟩
      · rintro same
        exact named (by rw [← same, String.toList_ofList])
      · intro empty
        have spelled := congrArg String.toList empty
        rw [String.toList_ofList] at spelled
        cases spelled

end

theorem ofToken_token {modifier : Modifier} (spelled : modifier.Spelled) :
    ofToken modifier.token = modifier := by
  cases modifier with
  | domain domains =>
    obtain ⟨some, filled, single⟩ := spelled
    have cut : Text.splitAt '|' (Text.joinWith ['|'] (domains.map String.toList)) =
        domains.map String.toList := by
      refine Text.splitAt_joinWith (mt List.map_eq_nil_iff.mp some) ?_
      intro piece listed
      obtain ⟨d, member, rfl⟩ := List.mem_map.mp listed
      exact single d member '|' (by simp)
    obtain ⟨c, given, joined⟩ := List.exists_cons_of_ne_nil filled
    rw [joined] at cut
    rw [token_domain, joined, ofToken_cons (by decide), if_pos rfl, cut, ofList_map_toList]
  | value key given =>
    obtain ⟨plain, other, filled, -⟩ := spelled
    obtain ⟨c, rest, shape⟩ := List.exists_cons_of_ne_nil (mt String.toList_eq_nil_iff.mp filled)
    rw [token_value, shape, ofToken_cons (plain '=' (by simp)),
      if_neg (mt String.toList_inj.mp other), ← shape, String.ofList_toList, String.ofList_toList]
  | flag key =>
    change ofToken key.toList = _
    rw [ofToken_of_not_mem (spelled '=' (by simp)), String.ofList_toList]

theorem not_mem_token {modifier : Modifier} (spelled : modifier.Spelled) {mark : Char}
    (separates : mark = ',' ∨ mark = '$') : mark ∉ modifier.token := by
  have apart : mark ∈ [',', '$'] ∧ mark ∈ [',', '=', '$'] ∧ mark ∈ [',', '|', '$'] ∧
      mark ∉ "domain".toList ∧ mark ≠ '=' ∧ mark ∉ ['|'] := by
    rcases separates with rfl | rfl <;> decide
  obtain ⟨ofValue, ofName, ofDomain, notNamed, notEquals, notPipe⟩ := apart
  cases modifier with
  | domain domains =>
    rw [token_domain, List.mem_append, List.mem_cons, not_or, not_or]
    refine ⟨notNamed, notEquals, fun joined => ?_⟩
    rcases Text.mem_joinWith joined with between | ⟨piece, parts, within⟩
    · exact notPipe between
    · obtain ⟨d, member, rfl⟩ := List.mem_map.mp parts
      exact spelled.2.2 d member mark ofDomain within
  | value key given =>
    rw [token_value, List.mem_append, List.mem_cons, not_or, not_or]
    exact ⟨spelled.1 mark ofName, notEquals, spelled.2.2.2 mark ofValue⟩
  | flag key => exact spelled mark ofName

theorem ofLine_of_not_mem {line : List Char} (absent : '$' ∉ line) : ofLine line = [] := by
  rw [ofLine, Text.afterLast_of_not_mem absent]

theorem ofLine_append (front : List Char) {tail : List Char} (last : '$' ∉ tail) :
    ofLine (front ++ '$' :: tail) = (Text.splitAt ',' tail).map ofToken := by
  rw [ofLine, Text.afterLast_append last]

theorem write_ofLine (front : List Char) {tail : List Char} (last : '$' ∉ tail) :
    write (ofLine (front ++ '$' :: tail)) =
      Text.joinWith [','] ((Text.splitAt ',' tail).map shortened) := by
  rw [ofLine_append front last, write, List.map_map]
  exact congrArg _ (List.map_congr_left fun token _ => token_ofToken token)

theorem ofLine_write (front : List Char) {modifiers : List Modifier} (some : modifiers ≠ [])
    (spelled : ∀ m ∈ modifiers, m.Spelled) :
    ofLine (front ++ '$' :: write modifiers) = modifiers := by
  have single : ∀ token ∈ modifiers.map Modifier.token, ',' ∉ token := by
    intro token listed
    obtain ⟨m, member, rfl⟩ := List.mem_map.mp listed
    exact not_mem_token (spelled m member) (.inl rfl)
  have last : '$' ∉ write modifiers := by
    intro joined
    rcases Text.mem_joinWith joined with between | ⟨token, listed, within⟩
    · exact absurd between (by decide)
    · obtain ⟨m, member, rfl⟩ := List.mem_map.mp listed
      exact not_mem_token (spelled m member) (.inr rfl) within
  rw [ofLine_append front last, write, Text.splitAt_joinWith (mt List.map_eq_nil_iff.mp some) single,
    List.map_map]
  exact (List.map_congr_left fun m member => ofToken_token (spelled m member)).trans
    (List.map_id modifiers)

/-- What is read from a rule with a dollar sign is some modifiers, each of which a token spells. -/
theorem spelled_of_mem_ofLine {line : List Char} {modifier : Modifier}
    (member : modifier ∈ ofLine line) : modifier.Spelled := by
  by_cases marked : '$' ∈ line
  · obtain ⟨front, tail, rfl, last⟩ := Text.exists_append_last marked
    rw [ofLine_append front last] at member
    obtain ⟨token, cut, rfl⟩ := List.mem_map.mp member
    exact spelled_ofToken (Text.not_mem_of_mem_splitAt cut)
      (mt (Text.mem_of_mem_splitAt cut) last)
  · rw [ofLine_of_not_mem marked] at member
    cases member

theorem ofLine_ne_nil {line : List Char} (marked : '$' ∈ line) : ofLine line ≠ [] := by
  obtain ⟨front, tail, rfl, last⟩ := Text.exists_append_last marked
  rw [ofLine_append front last]
  exact mt List.map_eq_nil_iff.mp (Text.splitAt_ne_nil ',' tail)

/-- Reading and writing modifiers are inverse, but for the equals signs of empty values. -/
theorem ofLine_faithful (line front : List Char) (modifiers : List Modifier) :
    ('$' ∉ line → ofLine line = []) ∧
    ('$' ∈ line → ∃ before tokens, tokens ≠ [] ∧ (∀ token ∈ tokens, ',' ∉ token ∧ '$' ∉ token) ∧
      line = before ++ '$' :: Text.joinWith [','] tokens ∧
      write (ofLine line) = Text.joinWith [','] (tokens.map shortened)) ∧
    (ofLine (front ++ '$' :: write modifiers) = modifiers ↔
      modifiers ≠ [] ∧ ∀ m ∈ modifiers, m.Spelled) := by
  refine ⟨ofLine_of_not_mem, ?_, ?_⟩
  · intro marked
    obtain ⟨before, tail, rfl, last⟩ := Text.exists_append_last marked
    refine ⟨before, Text.splitAt ',' tail, Text.splitAt_ne_nil ',' tail, ?_, ?_,
      write_ofLine before last⟩
    · intro token cut
      exact ⟨Text.not_mem_of_mem_splitAt cut, mt (Text.mem_of_mem_splitAt cut) last⟩
    · rw [Text.joinWith_splitAt]
  · constructor
    · intro read
      rw [← read]
      exact ⟨ofLine_ne_nil (by simp), fun m => spelled_of_mem_ofLine⟩
    · rintro ⟨some, spelled⟩
      exact ofLine_write front some spelled

theorem ofLine_faithful_options :
    let line := "x$a=,=v,b=c=d".toList
    let written := [flag "domain", domain ["a.com", ""], value "" "c=d"]
    ('$' ∈ line ∧ ∃ before tokens, tokens ≠ [] ∧ (∀ token ∈ tokens, ',' ∉ token ∧ '$' ∉ token) ∧
      line = before ++ '$' :: Text.joinWith [','] tokens ∧
      write (ofLine line) = Text.joinWith [','] (tokens.map shortened)) ∧
    (written ≠ [] ∧ ∀ m ∈ written, m.Spelled) ∧
      ofLine ("/ad$/".toList ++ '$' :: write written) = written := by
  intro line written
  have marked : '$' ∈ line := by decide
  have spelled : written ≠ [] ∧ ∀ m ∈ written, m.Spelled := by
    refine ⟨List.cons_ne_nil _ _, ?_⟩
    simp [written, Spelled, Lacks, Text.joinWith]
  have faithful := ofLine_faithful line "/ad$/".toList written
  exact ⟨⟨marked, faithful.2.1 marked⟩, spelled, faithful.2.2.mpr spelled⟩

end Blocklist.Rule.Modifier
