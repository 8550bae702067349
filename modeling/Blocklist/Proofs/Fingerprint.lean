import Mathlib.Data.List.Basic
import Blocklist.Fingerprint
import Blocklist.Proofs.Record.Placing
import Blocklist.Proofs.Text.Trimming

/-!
Fingerprints tell trimmed texts apart as far as the hash function does. Main statements: a padded message
is a whole number of blocks, a fingerprint is sixty-four small hexadecimal digits that spell the digest of
the trimmed text, and records stored under the fingerprints of their texts are keyed, unless two of the texts
have one digest.
-/

namespace Blocklist.Sha256

theorem length_bigEndian (count n : Nat) : (bigEndian count n).length = count := by
  induction count generalizing n with
  | zero => rfl
  | succ count ih => rw [bigEndian, List.length_append, ih, List.length_singleton]

/-- The zeros fill up what the message, its mark and its length leave of the last block. -/
theorem length_pad (message : List UInt8) :
    (pad message).length = 64 * ((message.length + 72) / 64) := by
  simp only [pad, List.length_append, List.length_cons, List.length_replicate, length_bigEndian]
  unfold zeroCount
  omega

theorem length_wordsOf (bytes : List UInt8) : (wordsOf bytes).length = bytes.length / 4 := by
  fun_induction wordsOf bytes with
  | case1 a b c d rest ih =>
    simp only [List.length_cons, ih]
    omega
  | case2 bytes short =>
    have few : bytes.length < 4 := by
      match bytes with
      | [] | [_] | [_, _] | [_, _, _] => simp
      | a :: b :: c :: d :: rest => exact absurd rfl (short a b c d rest)
    rw [List.length_nil, Nat.div_eq_of_lt few]

/-- No word of a padded message is left over when its blocks are absorbed. -/
theorem blocks_dvd_words (message : List UInt8) : 16 ∣ (wordsOf (pad message)).length := by
  rw [length_wordsOf, length_pad]
  omega

theorem length_digest (message : List UInt8) : (digest message).length = 32 := by
  simp only [digest, State.words, List.flatMap_cons, List.flatMap_nil, List.length_append,
    length_bigEndian, List.length_nil]

end Blocklist.Sha256

namespace Blocklist

theorem hexDigit_injective {m n : Nat} (first : m < 16) (second : n < 16)
    (same : Text.hexDigit m = Text.hexDigit n) : m = n := by
  have table : ∀ i j : Fin 16, Text.hexDigit i = Text.hexDigit j → i = j := by decide
  exact congrArg Fin.val (table ⟨m, first⟩ ⟨n, second⟩ same)

theorem hexByte_injective {a b : UInt8} (same : hexByte a = hexByte b) : a = b := by
  simp only [hexByte, List.cons.injEq, and_true] at same
  have small : a.toNat < 256 ∧ b.toNat < 256 := ⟨a.toNat_lt, b.toNat_lt⟩
  have high := hexDigit_injective (by omega) (by omega) same.1
  have low := hexDigit_injective (by omega) (by omega) same.2
  apply UInt8.toNat_inj.mp
  omega

theorem hexBytes_injective {xs ys : List UInt8} (same : xs.flatMap hexByte = ys.flatMap hexByte) :
    xs = ys := by
  induction xs generalizing ys with
  | nil =>
    cases ys with
    | nil => rfl
    | cons y ys => simp [hexByte] at same
  | cons x xs ih =>
    cases ys with
    | nil => simp [hexByte] at same
    | cons y ys =>
      rw [List.flatMap_cons, List.flatMap_cons] at same
      obtain ⟨here, rest⟩ := List.append_inj same rfl
      rw [hexByte_injective here, ih rest]

/-- Holds of the small hexadecimal digits. -/
def IsHexDigit (c : Char) : Prop := ('0' ≤ c ∧ c ≤ '9') ∨ ('a' ≤ c ∧ c ≤ 'f')

instance (c : Char) : Decidable (IsHexDigit c) :=
  inferInstanceAs (Decidable (('0' ≤ c ∧ c ≤ '9') ∨ ('a' ≤ c ∧ c ≤ 'f')))

theorem isHexDigit_hexDigit {n : Nat} (small : n < 16) : IsHexDigit (Text.hexDigit n) := by
  have table : ∀ i : Fin 16, IsHexDigit (Text.hexDigit i) := by decide
  exact table ⟨n, small⟩

/-- A byte below sixteen has two digits as well. -/
theorem isHexDigit_of_mem_hexByte {b : UInt8} {c : Char} (member : c ∈ hexByte b) : IsHexDigit c := by
  have small : b.toNat < 256 := b.toNat_lt
  simp only [hexByte, List.mem_cons, List.not_mem_nil, or_false] at member
  rcases member with rfl | rfl
  · exact isHexDigit_hexDigit (by omega)
  · exact isHexDigit_hexDigit (by omega)

theorem length_hexBytes (bytes : List UInt8) : (bytes.flatMap hexByte).length = 2 * bytes.length := by
  induction bytes with
  | nil => rfl
  | cons b bytes ih =>
    rw [List.flatMap_cons, List.length_append, ih, List.length_cons, hexByte]
    simp only [List.length_cons, List.length_nil]
    omega

theorem toList_fingerprint (text : String) :
    (fingerprint text).toList =
      (Sha256.digest (Text.encode (Text.trim text.toList))).flatMap hexByte := by
  rw [fingerprint, String.toList_ofList]

/-- Fingerprints differ just when the digests of the trimmed texts do. -/
theorem fingerprint_eq_iff {a b : String} :
    fingerprint a = fingerprint b ↔
      Sha256.digest (Text.encode (Text.trim a.toList)) =
        Sha256.digest (Text.encode (Text.trim b.toList)) := by
  constructor
  · exact fun same => hexBytes_injective (String.ofList_injective same)
  · intro same
    rw [fingerprint, fingerprint, same]

theorem fingerprint_congr {a b : String} (same : Text.trim a.toList = Text.trim b.toList) :
    fingerprint a = fingerprint b := by
  rw [fingerprint_eq_iff, same]

theorem fingerprint_trimmed (text : String) : fingerprint (Text.trimmed text) = fingerprint text := by
  apply fingerprint_congr
  rw [Text.trimmed, String.toList_ofList, Text.trim_trim]

/-- Every fingerprint is sixty-four small hexadecimal digits, and blanks around a text do not change it:
it tells the digest of the trimmed text and nothing else. -/
theorem fingerprint_wellFormed (text : String) :
    (fingerprint text).length = 64 ∧
      (∀ c ∈ (fingerprint text).toList, IsHexDigit c) ∧
      (∀ before after : String, Text.isBlankText before = true → Text.isBlankText after = true →
        fingerprint (before ++ text ++ after) = fingerprint (Text.trimmed text)) ∧
      fingerprint (Text.trimmed text) = fingerprint text ∧
      ∀ other, fingerprint other = fingerprint text ↔
        Sha256.digest (Text.encode (Text.trim other.toList)) =
          Sha256.digest (Text.encode (Text.trim text.toList)) := by
  refine ⟨?_, ?_, ?_, fingerprint_trimmed text, fun _ => fingerprint_eq_iff⟩
  · rw [← String.length_toList, toList_fingerprint, length_hexBytes, Sha256.length_digest]
  · intro c member
    rw [toList_fingerprint] at member
    obtain ⟨b, -, digit⟩ := List.mem_flatMap.mp member
    exact isHexDigit_of_mem_hexByte digit
  · intro before after blank blankToo
    rw [fingerprint_trimmed]
    apply fingerprint_congr
    rw [String.toList_append, String.toList_append, List.append_assoc]
    exact Text.trim_padded text.toList (List.all_eq_true.mp blank) (List.all_eq_true.mp blankToo)

/-- A line with a tab and a no-break space in front, and an ideographic space and a return behind. -/
theorem fingerprint_wellFormed_padded :
    Text.isBlankText "\t\u00A0" = true ∧ Text.isBlankText "\u3000\r" = true ∧
      fingerprint ("\t\u00A0" ++ "||a.com^" ++ "\u3000\r") = fingerprint "||a.com^" := by
  have blank : Text.isBlankText "\t\u00A0" = true := by decide +kernel
  have blankToo : Text.isBlankText "\u3000\r" = true := by decide +kernel
  obtain ⟨-, -, padded, trimmed, -⟩ := fingerprint_wellFormed "||a.com^"
  exact ⟨blank, blankToo, (padded _ _ blank blankToo).trans trimmed⟩

/-- Holds of texts of which no two have the same digest. -/
def CollisionFree (texts : List String) : Prop :=
  ∀ a ∈ texts, ∀ b ∈ texts,
    Sha256.digest (Text.encode a.toList) = Sha256.digest (Text.encode b.toList) → a = b

instance (texts : List String) : Decidable (CollisionFree texts) :=
  inferInstanceAs (Decidable (∀ a ∈ texts, ∀ b ∈ texts,
    Sha256.digest (Text.encode a.toList) = Sha256.digest (Text.encode b.toList) → a = b))

theorem CollisionFree.mono {texts fewer : List String} (free : CollisionFree texts)
    (subset : fewer ⊆ texts) : CollisionFree fewer :=
  fun a aMember b bMember => free a (subset aMember) b (subset bMember)

/-- Holds of texts that no blank begins or ends. -/
def IsTrimmed (text : String) : Prop := Text.trim text.toList = text.toList

theorem isTrimmed_ofList_trim (cs : List Char) : IsTrimmed (String.ofList (Text.trim cs)) := by
  rw [IsTrimmed, String.toList_ofList, Text.trim_trim]

theorem digest_eq_of_fingerprint {a b : String} (trimmedA : IsTrimmed a) (trimmedB : IsTrimmed b)
    (same : fingerprint a = fingerprint b) :
    Sha256.digest (Text.encode a.toList) = Sha256.digest (Text.encode b.toList) := by
  rw [fingerprint_eq_iff, trimmedA, trimmedB] at same
  exact same

namespace Record

/-- Holds of records that are stored under the fingerprints of their texts. -/
def Fingerprinted (records : List Record) : Prop := ∀ r ∈ records, r.hash = fingerprint r.raw

instance (records : List Record) : Decidable (Fingerprinted records) :=
  inferInstanceAs (Decidable (∀ r ∈ records, r.hash = fingerprint r.raw))

theorem keyed_of_collisionFree {records : List Record} {texts : List String}
    (free : CollisionFree texts) (trimmed : ∀ text ∈ texts, IsTrimmed text)
    (fingerprinted : Fingerprinted records) (listed : ∀ r ∈ records, r.raw ∈ texts) :
    Keyed records := by
  intro a aMember b bMember
  rw [fingerprinted a aMember, fingerprinted b bMember]
  constructor
  · intro same
    have aListed := listed a aMember
    have bListed := listed b bMember
    exact free _ aListed _ bListed
      (digest_eq_of_fingerprint (trimmed _ aListed) (trimmed _ bListed) same)
  · exact congrArg fingerprint

end Record

end Blocklist
