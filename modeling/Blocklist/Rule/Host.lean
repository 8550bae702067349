import Blocklist.Text.Basic

/-!
The host that a rule names. An anchored rule names the text up to the first separator, a bare host name
names itself, and any other rule names its leftmost host token.
-/

namespace Blocklist.Rule

def isHostChar (c : Char) : Bool := Text.isAlnum c || c == '.' || c == '-'

/-- The characters that end the host of an anchored rule. -/
def endsAnchor (c : Char) : Bool := c == '/' || c == ':' || c == '^'

def isBareHost (cs : List Char) : Bool := !cs.isEmpty && cs.all isHostChar

/-- The dot and the two or more letters that end a host token. -/
def hostEnd : List Char → Option (List Char)
  | '.' :: cs =>
    let letters := cs.takeWhile Text.isLetter
    if 2 ≤ letters.length then some ('.' :: letters) else none
  | _ => none

/-- The longest start of the text that is host characters, a dot and two or more letters. -/
def hostTail : List Char → Option (List Char)
  | [] => none
  | c :: cs =>
    if isHostChar c then
      match hostTail cs with
      | some tail => some (c :: tail)
      | none => hostEnd (c :: cs)
    else none

def hostHere : List Char → Option (List Char)
  | [] => none
  | c :: cs => if Text.isAlnum c then (hostTail cs).map (c :: ·) else none

/-- The host token with the leftmost start. Inside a barren run of host characters none starts. -/
def firstHostIn (barren : Bool) : List Char → Option (List Char)
  | [] => none
  | c :: cs =>
    if barren && isHostChar c then firstHostIn true cs
    else
      match hostHere (c :: cs) with
      | some host => some host
      | none => firstHostIn (Text.isAlnum c) cs

def firstHost (cs : List Char) : Option (List Char) := firstHostIn false cs

theorem isHostChar_of_isAlnum {c : Char} (h : Text.isAlnum c = true) : isHostChar c = true := by
  simp [isHostChar, h]

/-- What follows the first character of a run without a token has none either. -/
theorem hostTail_eq_none_of_cons {c : Char} {cs : List Char} (hc : isHostChar c = true)
    (h : hostTail (c :: cs) = none) : hostTail cs = none := by
  cases ht : hostTail cs with
  | none => rfl
  | some tail => simp [hostTail, hc, ht] at h

/-- A run that is called barren has to be so, and then calling it so makes no difference. -/
theorem firstHostIn_true {cs : List Char} (h : hostTail cs = none) :
    firstHostIn true cs = firstHostIn false cs := by
  induction cs with
  | nil => rfl
  | cons c cs ih =>
    by_cases hc : isHostChar c = true
    · have ht := hostTail_eq_none_of_cons hc h
      cases ha : Text.isAlnum c <;> simp [firstHostIn, hostHere, hc, ht, ha, ih ht]
    · simp [firstHostIn, hc]

theorem firstHost_cons (c : Char) (cs : List Char) :
    firstHost (c :: cs) = (hostHere (c :: cs)).or (firstHost cs) := by
  cases hh : hostHere (c :: cs) with
  | some host => simp [firstHost, firstHostIn, hh]
  | none =>
    cases ha : Text.isAlnum c with
    | false => simp [firstHost, firstHostIn, hh, ha]
    | true =>
      have ht : hostTail cs = none := by simpa [hostHere, ha] using hh
      simp [firstHost, firstHostIn, hh, ha, firstHostIn_true ht]

def dropExceptionMark : List Char → List Char
  | '@' :: '@' :: rest => rest
  | line => line

def hostOf (line : List Char) : Option (List Char) :=
  match dropExceptionMark line with
  | '|' :: '|' :: rest =>
    let host := rest.takeWhile fun c => !endsAnchor c
    if host.isEmpty then none else some host
  | body => if isBareHost body then some body else firstHost body

end Blocklist.Rule
