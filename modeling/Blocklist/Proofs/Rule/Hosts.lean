import Blocklist.Rule.Host
import Blocklist.Text.Basic
import Mathlib.Data.List.Infix
import Mathlib.Data.List.TakeWhile

/-!
What stands in a host that a rule names. Main statements: a host is a run of characters of the line; the
host of an anchored rule is the text up to the first separator, whatever is in it, and every other host
is made of letters, digits, dots and hyphens.
-/

namespace Blocklist

namespace Text

/-- A control character. -/
def isControl (c : Char) : Bool := c.toNat < 0x20 || (0x7F ≤ c.toNat && c.toNat ≤ 0x9F)

end Text

namespace Rule

/-- A character that no host has: a blank, a control character, or one that means something in a rule or in
a line of a published document. -/
def isSyntax (c : Char) : Bool :=
  Text.isBlank c || Text.isControl c ||
    ['$', '*', '|', ',', '"', '\x7b', '\x7d'].contains c

theorem toNat_of_isHostChar {c : Char} (inside : isHostChar c = true) :
    c.toNat = 45 ∨ c.toNat = 46 ∨ 48 ≤ c.toNat ∧ c.toNat ≤ 57 ∨ 65 ≤ c.toNat ∧ c.toNat ≤ 90 ∨
      97 ≤ c.toNat ∧ c.toNat ≤ 122 := by
  have upper : c.isUpper = decide (65 ≤ c.toNat ∧ c.toNat ≤ 90) := rfl
  have lower : c.isLower = (decide (97 ≤ c.toNat) && decide (c.toNat ≤ 122)) := rfl
  have spelled : isHostChar c = (((c.isUpper || c.isLower) || c.isDigit) || c == '.' || c == '-') :=
    rfl
  rw [spelled] at inside
  simp only [upper, lower, Bool.or_eq_true, Bool.and_eq_true, decide_eq_true_eq, beq_iff_eq,
    Char.isDigit_iff_toNat] at inside
  rcases inside with (((capital | small) | digit) | rfl) | rfl
  · exact .inr (.inr (.inr (.inl capital)))
  · exact .inr (.inr (.inr (.inr small)))
  · exact .inr (.inr (.inl digit))
  · exact .inr (.inl rfl)
  · exact .inl rfl

/-- None of the characters of a host token is syntax. -/
theorem isSyntax_of_isHostChar {c : Char} (inside : isHostChar c = true) : isSyntax c = false := by
  have range := toNat_of_isHostChar inside
  have blank : Text.isBlank c = false := by
    simp only [Text.isBlank, Bool.or_eq_false_iff, Bool.and_eq_false_iff, decide_eq_false_iff_not,
      beq_eq_false_iff_ne]
    omega
  have control : Text.isControl c = false := by
    simp only [Text.isControl, Bool.or_eq_false_iff, Bool.and_eq_false_iff, decide_eq_false_iff_not]
    omega
  have mark : c ∉ ['$', '*', '|', ',', '"', '\x7b', '\x7d'] := by
    intro member
    simp only [List.mem_cons, List.not_mem_nil, or_false] at member
    rcases member with rfl | rfl | rfl | rfl | rfl | rfl | rfl <;> simp at range
  rw [isSyntax, blank, control, Bool.false_or, Bool.false_or, List.contains_eq_mem, decide_eq_false mark]

theorem endsAnchor_of_isHostChar {c : Char} (inside : isHostChar c = true) : endsAnchor c = false := by
  have range := toNat_of_isHostChar inside
  simp only [endsAnchor, Bool.or_eq_false_iff, beq_eq_false_iff_ne]
  refine ⟨⟨?_, ?_⟩, ?_⟩ <;> rintro rfl <;> simp at range

section
variable {cs host tail : List Char}

theorem hostEnd_eq_some (found : hostEnd cs = some tail) :
    tail <+: cs ∧ ∀ c ∈ tail, isHostChar c = true := by
  unfold hostEnd at found
  split at found
  · next rest =>
    dsimp only at found
    split at found
    · cases found
      refine ⟨(List.prefix_cons_inj '.').mpr (List.takeWhile_prefix _), ?_⟩
      intro c member
      rcases List.mem_cons.mp member with rfl | letter
      · rfl
      · have isLetter : c.isAlpha = true := List.mem_takeWhile_imp letter
        simp [isHostChar, Text.isAlnum, Char.isAlphanum, isLetter]
    · cases found
  · cases found

theorem hostTail_eq_some (found : hostTail cs = some tail) :
    tail <+: cs ∧ ∀ c ∈ tail, isHostChar c = true := by
  induction cs generalizing tail with
  | nil => cases found
  | cons c cs ih =>
    rw [hostTail] at found
    split at found
    next inside =>
      cases later : hostTail cs with
      | none =>
        rw [later] at found
        exact hostEnd_eq_some found
      | some longer =>
        rw [later] at found
        cases found
        obtain ⟨starts, all⟩ := ih later
        exact ⟨(List.prefix_cons_inj c).mpr starts, List.forall_mem_cons.mpr ⟨inside, all⟩⟩
    next => cases found

theorem hostHere_eq_some (found : hostHere cs = some host) :
    host <+: cs ∧ ∀ c ∈ host, isHostChar c = true := by
  cases cs with
  | nil => cases found
  | cons c cs =>
    rw [hostHere] at found
    split at found
    next first =>
      obtain ⟨tail, later, rfl⟩ := Option.map_eq_some_iff.mp found
      obtain ⟨starts, all⟩ := hostTail_eq_some later
      exact ⟨(List.prefix_cons_inj c).mpr starts,
        List.forall_mem_cons.mpr ⟨isHostChar_of_isAlnum first, all⟩⟩
    next => cases found

theorem firstHost_eq_some (found : firstHost cs = some host) :
    host <:+: cs ∧ ∀ c ∈ host, isHostChar c = true := by
  induction cs with
  | nil => cases found
  | cons c cs ih =>
    rw [firstHost_cons] at found
    rcases Option.or_eq_some_iff.mp found with here | ⟨-, later⟩
    · obtain ⟨starts, all⟩ := hostHere_eq_some here
      exact ⟨starts.isInfix, all⟩
    · obtain ⟨within, all⟩ := ih later
      exact ⟨List.infix_cons within, all⟩

end

theorem dropExceptionMark_suffix (line : List Char) : dropExceptionMark line <:+ line := by
  unfold dropExceptionMark
  split
  · exact ⟨['@', '@'], rfl⟩
  · exact List.suffix_rfl

/-- What follows the anchor of a rule up to the first separator; `none` for a rule without an anchor. -/
def anchoredText? (line : List Char) : Option (List Char) :=
  match dropExceptionMark line with
  | '|' :: '|' :: rest => some (rest.takeWhile fun c => !endsAnchor c)
  | _ => none

section
variable {line host text : List Char}

theorem anchoredText?_eq_none_iff :
    anchoredText? line = none ↔ ∀ rest, dropExceptionMark line ≠ '|' :: '|' :: rest := by
  unfold anchoredText?
  split
  next rest opened =>
    constructor
    · intro plain
      cases plain
    · intro plain
      exact absurd opened (plain rest)
  next unopened => exact ⟨fun _ => unopened, fun _ => rfl⟩

theorem hostOf_anchored (anchored : anchoredText? line = some text) :
    hostOf line = if text.isEmpty then none else some text := by
  have opens : ∃ rest, dropExceptionMark line = '|' :: '|' :: rest := by
    by_contra unopened
    rw [anchoredText?_eq_none_iff.mpr (not_exists.mp unopened)] at anchored
    cases anchored
  obtain ⟨rest, opened⟩ := opens
  rw [anchoredText?, opened] at anchored
  have spelled : (rest.takeWhile fun c => !endsAnchor c) = text := Option.some.inj anchored
  rw [hostOf, opened, ← spelled]
  rfl

theorem hostOf_unanchored (plain : anchoredText? line = none) :
    hostOf line =
      if isBareHost (dropExceptionMark line) then some (dropExceptionMark line)
      else firstHost (dropExceptionMark line) := by
  have unopened := anchoredText?_eq_none_iff.mp plain
  unfold hostOf
  split
  next rest opened => exact absurd opened (unopened rest)
  next => rfl

theorem eq_of_hostOf_anchored (named : hostOf line = some host)
    (anchored : anchoredText? line = some text) : host = text := by
  rw [hostOf_anchored anchored] at named
  split at named
  · cases named
  · exact (Option.some.inj named).symm

theorem infix_dropExceptionMark (named : hostOf line = some host) (plain : anchoredText? line = none) :
    host <:+: dropExceptionMark line ∧ ∀ c ∈ host, isHostChar c = true := by
  rw [hostOf_unanchored plain] at named
  split at named
  next bare =>
    cases named
    rw [isBareHost, Bool.and_eq_true, List.all_eq_true] at bare
    exact ⟨List.infix_rfl, bare.2⟩
  next => exact firstHost_eq_some named

/-- A host is a run of characters of the line that names it. -/
theorem infix_of_hostOf (named : hostOf line = some host) : host <:+: line := by
  refine List.IsInfix.trans ?_ (dropExceptionMark_suffix line).isInfix
  cases anchored : anchoredText? line with
  | none => exact (infix_dropExceptionMark named anchored).1
  | some text =>
    rw [eq_of_hostOf_anchored named anchored]
    unfold anchoredText? at anchored
    split at anchored
    next rest opened =>
      cases anchored
      rw [opened]
      exact (List.takeWhile_prefix _).isInfix.trans (List.suffix_append ['|', '|'] rest).isInfix
    next => cases anchored

/-- No host has a separator in it. -/
theorem endsAnchor_of_mem_hostOf (named : hostOf line = some host) :
    ∀ c ∈ host, endsAnchor c = false := by
  cases anchored : anchoredText? line with
  | none => exact fun c member =>
      endsAnchor_of_isHostChar ((infix_dropExceptionMark named anchored).2 c member)
  | some text =>
    rw [eq_of_hostOf_anchored named anchored]
    unfold anchoredText? at anchored
    split at anchored
    next =>
      cases anchored
      intro c member
      simpa using List.mem_takeWhile_imp member
    next => cases anchored

end

end Rule

end Blocklist
