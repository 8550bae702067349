import Blocklist.Proofs.Rule.Hosts
import Blocklist.Proofs.Text.Pattern

/-!
Host tokens. Main statements: what the search for a host finds is what a pattern captures that is matched
leftmost, with backtracking; and it is the longest token at the first place at which a token starts.
-/

namespace Blocklist.Rule

open Text (Pattern isAlnum isLetter)

/-- Host characters, then a dot and two or more letters. -/
def IsTail (text : List Char) : Prop :=
  ∃ inside letters, text = inside ++ '.' :: letters ∧ (∀ c ∈ inside, isHostChar c = true) ∧
    (∀ c ∈ letters, isLetter c = true) ∧ 2 ≤ letters.length

/-- A letter or digit, host characters, a dot and two or more letters. -/
def IsToken (text : List Char) : Prop :=
  ∃ first tail, text = first :: tail ∧ isAlnum first = true ∧ IsTail tail

/-- The longest token at the first place of a text at which one starts. -/
structure FirstToken (text token : List Char) (place : Nat) : Prop where
  shaped : IsToken token
  here : token <+: text.drop place
  leftmost : ∀ earlier < place, ∀ other, IsToken other → ¬other <+: text.drop earlier
  longest : ∀ other, IsToken other → other <+: text.drop place → other <+: token

/-- The end of a token, `[.][a-zA-Z]{2,}`. -/
def endPattern : Pattern := .seq (.one (· == '.')) (.repeated 2 isLetter)

/-- The pattern of a token, `[a-zA-Z0-9][a-zA-Z0-9.-]*[.][a-zA-Z]{2,}`. -/
def tokenPattern : Pattern := .seq (.one isAlnum) (.seq (.repeated 0 isHostChar) endPattern)

/-- The pipes in front of a token, `[|]*`. -/
def pipesPattern : Pattern := .repeated 0 (· == '|')

section
variable (cs : List Char)

theorem hostEnd_cons (c : Char) :
    hostEnd (c :: cs) =
      if c = '.' ∧ 2 ≤ (cs.takeWhile isLetter).length then some (c :: cs.takeWhile isLetter)
      else none := by
  by_cases dot : c = '.'
  · rw [dot, hostEnd]
    simp only [true_and]
  · rw [if_neg fun both => dot both.1, hostEnd]
    intro _ same
    exact dot (List.cons.inj same).1

theorem hostEnd_eq_taken : hostEnd cs = endPattern.taken cs := by
  cases cs with
  | nil => rfl
  | cons c cs =>
    rw [endPattern, Pattern.taken_seq_one_cons, Pattern.taken_repeated, hostEnd_cons]
    by_cases dot : c = '.'
    · rw [if_pos (beq_iff_eq.mpr dot)]
      split
      next long => rw [if_pos long.2]; rfl
      next short => rw [if_neg fun long => short ⟨dot, long⟩]; rfl
    · rw [if_neg fun both => dot both.1, if_neg (by simpa using dot)]

theorem hostTail_eq_taken :
    hostTail cs = (Pattern.seq (.repeated 0 isHostChar) endPattern).taken cs := by
  induction cs with
  | nil => rw [Pattern.taken_seq_repeated_nil, ← hostEnd_eq_taken]; rfl
  | cons c cs ih =>
    rw [Pattern.taken_seq_repeated_cons, ← ih, ← hostEnd_eq_taken, hostTail]
    by_cases inside : isHostChar c = true
    · rw [if_pos inside, if_pos inside]
      cases hostTail cs <;> rfl
    · have other : c ≠ '.' := by
        rintro rfl
        exact inside rfl
      rw [if_neg inside, if_neg inside, hostEnd_cons, if_neg fun both => other both.1]

theorem hostHere_eq_taken : hostHere cs = tokenPattern.taken cs := by
  cases cs with
  | nil => rfl
  | cons c cs => rw [tokenPattern, Pattern.taken_seq_one_cons, ← hostTail_eq_taken, hostHere]

theorem capturedHere_of_pipe {c : Char} (pipe : c = '|') :
    Pattern.capturedHere pipesPattern tokenPattern (c :: cs) =
      Pattern.capturedHere pipesPattern tokenPattern cs := by
  rw [pipesPattern, Pattern.capturedHere_repeated_cons, if_pos (beq_iff_eq.mpr pipe),
    ← hostHere_eq_taken, pipe]
  exact Option.or_none

theorem capturedHere_of_ne_pipe {c : Char} (other : c ≠ '|') :
    Pattern.capturedHere pipesPattern tokenPattern (c :: cs) = hostHere (c :: cs) := by
  rw [pipesPattern, Pattern.capturedHere_repeated_cons, if_neg (by simpa using other),
    hostHere_eq_taken]

/-- The search for a host is the leftmost match of its pattern. Where the match begins with pipes, the
token stands right behind them, and none begins before. -/
theorem firstHost_eq_captured : firstHost cs = Pattern.captured pipesPattern tokenPattern cs := by
  induction cs with
  | nil => rfl
  | cons c cs ih =>
    rw [firstHost_cons, ih, Pattern.captured]
    by_cases pipe : c = '|'
    · rw [capturedHere_of_pipe cs pipe, pipe]
      change Pattern.captured pipesPattern tokenPattern cs = _
      cases cs with
      | nil => rfl
      | cons d cs =>
        rw [Pattern.captured, ← Option.or_assoc, Option.or_self]
    · rw [capturedHere_of_ne_pipe cs pipe]

end

theorem IsTail.cons {c : Char} {tail : List Char} (shaped : IsTail tail) (inside : isHostChar c = true) :
    IsTail (c :: tail) := by
  obtain ⟨more, letters, rfl, hosts, last⟩ := shaped
  exact ⟨c :: more, letters, rfl, List.forall_mem_cons.mpr ⟨inside, hosts⟩, last⟩

theorem IsTail.dot_mem {tail : List Char} (shaped : IsTail tail) : '.' ∈ tail := by
  obtain ⟨inside, letters, rfl, -⟩ := shaped
  exact List.mem_append_right _ List.mem_cons_self

section
variable {cs tail host other : List Char}

theorem isTail_of_hostTail (found : hostTail cs = some tail) : IsTail tail := by
  induction cs generalizing tail with
  | nil => cases found
  | cons c cs ih =>
    rw [hostTail] at found
    split at found
    next inside =>
      cases later : hostTail cs with
      | none =>
        rw [later] at found
        dsimp only at found
        rw [hostEnd_cons] at found
        split at found
        next ends =>
          cases found
          exact ⟨[], cs.takeWhile isLetter, congrArg (· :: _) ends.1, by simp,
            fun _ member => List.mem_takeWhile_imp member, ends.2⟩
        next => cases found
      | some longer =>
        rw [later] at found
        cases found
        exact (ih later).cons inside
    next => cases found

/-- Every tail with which a text starts lies within the one that is found. -/
theorem prefix_hostTail (shaped : IsTail other) (starts : other <+: cs) :
    ∃ tail, hostTail cs = some tail ∧ other <+: tail := by
  obtain ⟨inside, letters, rfl, hosts, all, long⟩ := shaped
  induction inside generalizing cs with
  | nil =>
    obtain ⟨after, rfl⟩ := starts
    have point : isHostChar '.' = true := by decide
    rw [List.nil_append, List.cons_append, hostTail, if_pos point]
    have whole : letters <+: (letters ++ after).takeWhile isLetter := by
      rw [List.takeWhile_append_of_pos all]
      exact List.prefix_append _ _
    cases later : hostTail (letters ++ after) with
    | none =>
      have enough : 2 ≤ ((letters ++ after).takeWhile isLetter).length :=
        Nat.le_trans long whole.length_le
      refine ⟨'.' :: (letters ++ after).takeWhile isLetter, ?_, (List.prefix_cons_inj '.').mpr whole⟩
      dsimp only
      rw [hostEnd_cons, if_pos ⟨rfl, enough⟩]
    | some tail =>
      refine ⟨'.' :: tail, rfl, (List.prefix_cons_inj '.').mpr ?_⟩
      -- The tail has a dot, so it cannot end within the letters.
      rcases List.prefix_or_prefix_of_prefix (hostTail_eq_some later).1
        (List.prefix_append letters after) with within | beyond
      · have dot := all '.' (within.subset (isTail_of_hostTail later).dot_mem)
        exact absurd dot (by decide)
      · exact beyond
  | cons c inside ih =>
    rw [List.forall_mem_cons] at hosts
    obtain ⟨after, rfl⟩ := starts
    obtain ⟨tail, later, within⟩ := ih (List.prefix_append (inside ++ '.' :: letters) after) hosts.2
    refine ⟨c :: tail, ?_, (List.prefix_cons_inj c).mpr within⟩
    change hostTail (c :: (inside ++ '.' :: letters ++ after)) = _
    rw [hostTail, if_pos hosts.1, later]

theorem isToken_of_hostHere (found : hostHere cs = some host) : IsToken host := by
  cases cs with
  | nil => cases found
  | cons c cs =>
    rw [hostHere] at found
    split at found
    next first =>
      obtain ⟨tail, later, rfl⟩ := Option.map_eq_some_iff.mp found
      exact ⟨c, tail, rfl, first, isTail_of_hostTail later⟩
    next => cases found

/-- Every token with which a text starts lies within the one that is found. -/
theorem prefix_hostHere (shaped : IsToken other) (starts : other <+: cs) :
    ∃ host, hostHere cs = some host ∧ other <+: host := by
  obtain ⟨first, tail, rfl, alnum, shaped⟩ := shaped
  obtain ⟨after, rfl⟩ := starts
  obtain ⟨longer, later, within⟩ := prefix_hostTail shaped (List.prefix_append tail after)
  refine ⟨first :: longer, ?_, (List.prefix_cons_inj first).mpr within⟩
  rw [List.cons_append, hostHere, if_pos alnum, later]
  rfl

theorem firstHost_eq_none_iff :
    firstHost cs = none ↔ ∀ text, text <:+: cs → ¬IsToken text := by
  induction cs with
  | nil =>
    refine ⟨?_, fun _ => rfl⟩
    rintro - text within ⟨first, tail, rfl, -⟩
    exact absurd (List.infix_nil.mp within) (List.cons_ne_nil _ _)
  | cons c cs ih =>
    rw [firstHost_cons, Option.or_eq_none_iff, ih]
    constructor
    · rintro ⟨nowhere, later⟩ text within shaped
      rcases List.infix_cons_iff.mp within with here | beyond
      · obtain ⟨host, found, -⟩ := prefix_hostHere shaped here
        rw [nowhere] at found
        cases found
      · exact later text beyond shaped
    · intro barren
      refine ⟨?_, fun text within => barren text (List.infix_cons within)⟩
      cases found : hostHere (c :: cs) with
      | none => rfl
      | some host =>
        exact absurd (isToken_of_hostHere found) (barren host (hostHere_eq_some found).1.isInfix)

theorem FirstToken.unique {place further : Nat} (first : FirstToken cs host place)
    (again : FirstToken cs other further) : other = host := by
  have same : further = place := by
    rcases Nat.lt_trichotomy further place with before | same | after
    · exact absurd again.here (first.leftmost further before other again.shaped)
    · exact same
    · exact absurd first.here (again.leftmost place after host first.shaped)
  subst same
  have within := first.longest other again.shaped again.here
  exact within.eq_of_length_le (again.longest host first.shaped first.here).length_le

theorem exists_firstToken (found : firstHost cs = some host) : ∃ place, FirstToken cs host place := by
  induction cs with
  | nil => cases found
  | cons c cs ih =>
    rw [firstHost_cons] at found
    rcases Option.or_eq_some_iff.mp found with here | ⟨nowhere, later⟩
    · refine ⟨0, isToken_of_hostHere here, (hostHere_eq_some here).1, by simp, ?_⟩
      intro other shaped starts
      obtain ⟨longest, same, within⟩ := prefix_hostHere shaped starts
      rw [List.drop_zero, here] at same
      cases same
      exact within
    · obtain ⟨place, first⟩ := ih later
      refine ⟨place + 1, first.shaped, first.here, ?_, first.longest⟩
      intro earlier before other shaped starts
      cases earlier with
      | zero =>
        obtain ⟨host, same, -⟩ := prefix_hostHere shaped starts
        rw [List.drop_zero, nowhere] at same
        cases same
      | succ earlier => exact first.leftmost earlier (Nat.lt_of_succ_lt_succ before) other shaped starts

theorem firstHost_eq_some_iff : firstHost cs = some host ↔ ∃ place, FirstToken cs host place := by
  constructor
  · exact exists_firstToken
  · rintro ⟨place, first⟩
    cases found : firstHost cs with
    | none =>
      have within : host <:+: cs := first.here.isInfix.trans (List.drop_suffix place cs).isInfix
      exact absurd first.shaped (firstHost_eq_none_iff.mp found host within)
    | some other =>
      obtain ⟨further, again⟩ := exists_firstToken found
      rw [first.unique again]

end

theorem hostHere_mark (cs : List Char) : hostHere ('@' :: cs) = none := rfl

/-- The mark of an exception is no part of a token. -/
theorem firstHost_dropExceptionMark (line : List Char) :
    firstHost (dropExceptionMark line) = firstHost line := by
  unfold dropExceptionMark
  split
  next rest =>
    rw [firstHost_cons, firstHost_cons, hostHere_mark, hostHere_mark, Option.none_or, Option.none_or]
  next => rfl

theorem anchoredText?_eq_none_of_unanchored {line : List Char}
    (unanchored : ¬['|', '|'] <+: dropExceptionMark line) : anchoredText? line = none := by
  apply anchoredText?_eq_none_iff.mpr
  intro rest opened
  exact unanchored ⟨rest, opened.symm⟩

/-- The host of a rule that is neither anchored nor a bare host name is its first token. -/
theorem hostOf_eq_captured (line : List Char) (unanchored : ¬['|', '|'] <+: dropExceptionMark line)
    (mixed : isBareHost (dropExceptionMark line) = false) :
    hostOf line = Pattern.captured pipesPattern tokenPattern (dropExceptionMark line) ∧
      (hostOf line = none ↔ ∀ text, text <:+: line → ¬IsToken text) ∧
      ∀ host, hostOf line = some host ↔ ∃ place, FirstToken line host place := by
  have found : hostOf line = firstHost (dropExceptionMark line) := by
    rw [hostOf_unanchored (anchoredText?_eq_none_of_unanchored unanchored), mixed]
    rfl
  refine ⟨found.trans (firstHost_eq_captured _), ?_, ?_⟩
  · rw [found, firstHost_dropExceptionMark]
    exact firstHost_eq_none_iff
  · intro host
    rw [found, firstHost_dropExceptionMark]
    exact firstHost_eq_some_iff

/-- An exception with a host behind an address of digits, in which the search for a token starts and fails. -/
def forwarded : List Char := "@@|https://192.0.2.7/?to=cdn.example.io-1".toList

theorem hostOf_eq_captured_forwarded :
    ¬['|', '|'] <+: dropExceptionMark forwarded ∧ isBareHost (dropExceptionMark forwarded) = false ∧
      ∃ place, FirstToken forwarded "cdn.example.io".toList place := by
  have unanchored : ¬['|', '|'] <+: dropExceptionMark forwarded := by decide
  have mixed : isBareHost (dropExceptionMark forwarded) = false := by decide
  obtain ⟨-, -, some_iff⟩ := hostOf_eq_captured forwarded unanchored mixed
  exact ⟨unanchored, mixed, (some_iff _).mp (by decide +kernel)⟩

end Blocklist.Rule
