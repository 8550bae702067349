import Blocklist.Fetch
import Blocklist.Proofs.Gzip.Appending
import Blocklist.Proofs.Text.Repairing
import Blocklist.Proofs.Text.Utf8

/-!
Bodies that are text, and bodies of several packed members. Main statements: the bytes of a text are
delivered as that text, whatever it begins with, and of a body of several members the text of the first is
delivered, whatever the others hold.
-/

namespace Blocklist

theorem isGzip_iff (bytes : List UInt8) : isGzip bytes = true ↔ [0x1f, 0x8b] <+: bytes := by
  match bytes with
  | [] => simp [isGzip]
  | [_] => simp [isGzip]
  | a :: b :: rest =>
    rw [isGzip, Bool.and_eq_true, beq_iff_eq, beq_iff_eq, List.cons_prefix_cons,
      List.cons_prefix_cons, and_iff_left List.nil_prefix, eq_comm, eq_comm (a := b)]

/-- The second byte of the mark of a gzip file continues a character, and no character is open there. -/
theorem decode?_of_isGzip {bytes : List UInt8} (packed : isGzip bytes = true) :
    Text.decode? bytes = none := by
  obtain ⟨rest, rfl⟩ := (isGzip_iff bytes).mp packed
  have control : Text.decodeStep 0x1f (0x8b :: rest) = (1, some '\x1f') := rfl
  have astray : Text.decodeStep 0x8b rest = (1, none) := rfl
  change Text.decode? (0x1f :: 0x8b :: rest) = none
  rw [Text.decode?, control]
  change (Text.decode? (0x8b :: rest)).map _ = none
  rw [Text.decode?, astray]
  rfl

theorem isGzip_of_decode? {bytes : List UInt8} {cs : List Char}
    (decoded : Text.decode? bytes = some cs) : isGzip bytes = false := by
  rw [← Bool.not_eq_true]
  intro packed
  rw [decode?_of_isGzip packed] at decoded
  cases decoded

theorem decodeBody_of_decode? {bytes : List UInt8} {cs : List Char}
    (decoded : Text.decode? bytes = some cs) : decodeBody bytes = some cs := by
  rw [decodeBody, isGzip_of_decode? decoded, if_neg Bool.false_ne_true,
    Text.repair_of_decode? decoded]

/-- A body that is text is taken for text, has nothing to repair, and is delivered as it is. -/
theorem decodeBody_toUTF8 (s : String) :
    isGzip s.toUTF8.data.toList = false ∧
      Text.decode? s.toUTF8.data.toList = some s.toList ∧
      decodeBody s.toUTF8.data.toList = some s.toList := by
  have decoded : Text.decode? s.toUTF8.data.toList = some s.toList := by
    rw [← Text.encode_toList]
    exact Text.decode?_encode s.toList
  exact ⟨isGzip_of_decode? decoded, decoded, decodeBody_of_decode? decoded⟩

theorem isGzip_of_member? {bytes data rest : List UInt8}
    (read : Gzip.member? bytes = some (data, rest)) : isGzip bytes = true := by
  obtain ⟨packed, header, -⟩ := Option.bind_eq_some_iff.mp read
  unfold Gzip.skipHeader at header
  split at header
  next => rfl
  next => cases header

theorem decodeBody_of_member? {bytes data rest : List UInt8}
    (read : Gzip.member? bytes = some (data, rest)) : decodeBody bytes = some (Text.repair data) := by
  rw [decodeBody, if_pos (isGzip_of_member? read), read, Option.map_some]

/-- What stands behind the first member is neither read nor refused. -/
theorem decodeBody_member_append {bytes data rest : List UInt8}
    (read : Gzip.member? bytes = some (data, rest)) (behind : List UInt8) :
    decodeBody (bytes ++ behind) = some (Text.repair data) :=
  decodeBody_of_member? (Gzip.member?_append behind read)

/-- Only the first of two members is delivered. All of the data is delivered if the second member holds none,
and otherwise only if the data of the first is no text and that of the second begins no character. -/
theorem decodeBody_members {first second data more : List UInt8}
    (packed : Gzip.member? first = some (data, []))
    (further : Gzip.member? second = some (more, [])) :
    (∀ behind, decodeBody (first ++ behind) = some (Text.repair data)) ∧
      decodeBody second = some (Text.repair more) ∧
      (∀ text, Text.decode? data = some text →
        Text.repair (data ++ more) = text ++ Text.repair more) ∧
      (more = [] → decodeBody (first ++ second) = some (Text.repair (data ++ more))) ∧
      (decodeBody (first ++ second) = some (Text.repair (data ++ more)) →
        more = [] ∨ Text.decode? data = none ∧ ∀ b ∈ more, Text.isTail b = true) := by
  have delivered := decodeBody_member_append packed
  refine ⟨delivered, decodeBody_of_member? further, fun text decoded => ?_, fun none => ?_,
    fun whole => ?_⟩
  · exact Text.repair_append_of_decode? decoded more
  · rw [none, List.append_nil]
    exact delivered second
  · have same : Text.repair (data ++ more) = Text.repair data :=
      Option.some.inj (whole.symm.trans (delivered second))
    have tails : ∀ b ∈ more, Text.isTail b = true := by
      intro b present
      by_contra starts
      have longer := Text.length_repair_lt present (Bool.eq_false_iff.mpr starts) data
      rw [same] at longer
      exact Nat.lt_irrefl _ longer
    cases decoded : Text.decode? data with
    | none => exact .inr ⟨rfl, tails⟩
    | some text =>
      rw [Text.repair_append_of_decode? decoded, Text.repair_of_decode? decoded,
        List.append_right_eq_self] at same
      exact .inl (Text.repair_eq_nil_iff.mp same)

/-- A list of one rule in a member of its own. -/
def firstPart : List UInt8 :=
  [0x1f, 0x8b, 0x08, 0, 0, 0, 0, 0, 0x04, 0x03, 0x01, 0x09, 0x00, 0xf6, 0xff, 0x7c, 0x7c, 0x61, 0x2e,
    0x63, 0x6f, 0x6d, 0x5e, 0x0a, 0xd8, 0xa8, 0x33, 0x22, 0x09, 0, 0, 0]

/-- A list of another rule in a member of its own. -/
def secondPart : List UInt8 :=
  [0x1f, 0x8b, 0x08, 0, 0, 0, 0, 0, 0x04, 0x03, 0x01, 0x09, 0x00, 0xf6, 0xff, 0x7c, 0x7c, 0x62, 0x2e,
    0x63, 0x6f, 0x6d, 0x5e, 0x0a, 0x45, 0xb2, 0xdb, 0x13, 0x09, 0, 0, 0]

theorem member?_firstPart :
    Gzip.member? firstPart = some ("||a.com^\n".toUTF8.data.toList, []) := by
  decide +kernel

theorem member?_secondPart :
    Gzip.member? secondPart = some ("||b.com^\n".toUTF8.data.toList, []) := by
  decide +kernel

theorem decodeBody_members_twoParts :
    Gzip.member? firstPart = some ("||a.com^\n".toUTF8.data.toList, []) ∧
      Gzip.member? secondPart = some ("||b.com^\n".toUTF8.data.toList, []) ∧
      decodeBody (firstPart ++ secondPart) = some "||a.com^\n".toList ∧
      decodeBody secondPart = some "||b.com^\n".toList ∧
      decodeBody (firstPart ++ secondPart) ≠ some "||a.com^\n||b.com^\n".toList := by
  obtain ⟨delivered, alone, -, -, -⟩ := decodeBody_members member?_firstPart member?_secondPart
  have first : decodeBody (firstPart ++ secondPart) = some "||a.com^\n".toList :=
    (delivered secondPart).trans (by decide +kernel)
  refine ⟨member?_firstPart, member?_secondPart, first, alone.trans (by decide +kernel), ?_⟩
  rw [first]
  decide

/-- Two members that are packed files of their own, one put behind the other: the rule in the second is not
in the text. -/
theorem decodeBody_drops_secondPart :
    Gzip.member? firstPart = some ("||a.com^\n".toUTF8.data.toList, []) ∧
      Gzip.member? secondPart = some ("||b.com^\n".toUTF8.data.toList, []) ∧
      decodeBody (firstPart ++ secondPart) ≠ some (Text.repair
        ("||a.com^\n".toUTF8.data.toList ++ "||b.com^\n".toUTF8.data.toList)) := by
  refine ⟨member?_firstPart, member?_secondPart, ?_⟩
  rw [decodeBody_member_append member?_firstPart]
  decide +kernel

end Blocklist
