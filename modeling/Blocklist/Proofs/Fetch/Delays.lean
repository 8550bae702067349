import Blocklist.Fetch

/-!
Delays between attempts, computed without rounding. Main statement: a delay is the first one times a power
of two that is cut off at 32 bits, and there is none exactly if its seconds do not fit in 64 bits.
-/

namespace Blocklist

namespace Duration

theorem wholeSeconds (d : Duration) (factor : Nat) :
    d.totalNanos * factor / 1000000000 = d.seconds * factor + d.nanos * factor / 1000000000 := by
  have spread : d.totalNanos * factor = 1000000000 * (d.seconds * factor) + d.nanos * factor := by
    rw [totalNanos, Nat.add_mul, Nat.mul_right_comm, Nat.mul_comm (d.seconds * factor)]
  rw [spread, Nat.mul_add_div (by decide)]

theorem nanosLeft (d : Duration) (factor : Nat) :
    d.totalNanos * factor % 1000000000 = d.nanos * factor % 1000000000 := by
  rw [totalNanos, Nat.add_mul, Nat.mul_right_comm, Nat.mul_add_mod_self_right]

/-- Carrying nanoseconds into seconds loses nothing. -/
theorem times?_eq (d : Duration) (factor : Nat) :
    d.times? factor = ofNanos? (d.totalNanos * factor) := by
  simp only [times?, ofNanos?, wholeSeconds, nanosLeft]

theorem ofNanos?_eq_none_iff {total : Nat} :
    ofNanos? total = none ↔ 0xFFFFFFFFFFFFFFFF < total / 1000000000 := by
  unfold ofNanos?
  split
  next fits => exact iff_of_false (Option.some_ne_none _) (by omega)
  next beyond => exact iff_of_true rfl (by omega)

theorem totalNanos_of_ofNanos? {total : Nat} {d : Duration} (made : ofNanos? total = some d) :
    d.totalNanos = total := by
  unfold ofNanos? at made
  split at made
  next =>
    cases made
    exact Nat.div_add_mod' total 1000000000
  next => cases made

end Duration

namespace RetryPolicy

theorem factor_eq (attempt : Nat) : factor attempt = min (Nat.pow 2 attempt) 0xFFFFFFFF := by
  unfold factor
  split
  next early =>
    have small : Nat.pow 2 attempt ≤ Nat.pow 2 31 :=
      Nat.pow_le_pow_right (by decide) (Nat.le_of_lt_succ early)
    have last : Nat.pow 2 31 ≤ 0xFFFFFFFF := by decide
    omega
  next late =>
    have large : Nat.pow 2 32 ≤ Nat.pow 2 attempt :=
      Nat.pow_le_pow_right (by decide) (Nat.le_of_not_lt late)
    have first : 0xFFFFFFFF ≤ Nat.pow 2 32 := by decide
    omega

theorem factor_mono {attempt later : Nat} (after : attempt ≤ later) : factor attempt ≤ factor later := by
  have powers : Nat.pow 2 attempt ≤ Nat.pow 2 later := Nat.pow_le_pow_right (by decide) after
  rw [factor_eq, factor_eq]
  omega

/-- The nanoseconds of the first delay times the factor after an attempt. -/
def exactNanos (policy : RetryPolicy) (attempt : Nat) : Nat :=
  policy.baseDelay.totalNanos * min (Nat.pow 2 attempt) 0xFFFFFFFF

variable {policy : RetryPolicy} {attempt : Nat}

theorem delayAfter_eq : policy.delayAfter attempt = Duration.ofNanos? (policy.exactNanos attempt) := by
  rw [delayAfter, Duration.times?_eq, factor_eq, exactNanos]

theorem exactNanos_mono (policy : RetryPolicy) {attempt later : Nat} (after : attempt ≤ later) :
    policy.exactNanos attempt ≤ policy.exactNanos later := by
  unfold exactNanos
  rw [← factor_eq, ← factor_eq]
  exact Nat.mul_le_mul_left _ (factor_mono after)

/-- A first delay of fewer than two to the power of 32 seconds never overflows. -/
theorem exactNanos_of_short (short : policy.baseDelay.seconds < 0x100000000) (attempt : Nat) :
    policy.exactNanos attempt / 1000000000 ≤ 0xFFFFFFFFFFFFFFFF := by
  have base : policy.baseDelay.totalNanos ≤ 0x100000000 * 1000000000 := by
    have rest := policy.baseDelay.nanos_range
    unfold Duration.totalNanos
    omega
  have product : policy.exactNanos attempt ≤ 0x100000000 * 1000000000 * 0xFFFFFFFF :=
    Nat.mul_le_mul base (Nat.min_le_right _ _)
  omega

theorem delayAfter_isSome_of_short (short : policy.baseDelay.seconds < 0x100000000) (attempt : Nat) :
    (policy.delayAfter attempt).isSome = true := by
  rw [Option.isSome_iff_ne_none, delayAfter_eq, ne_eq, Duration.ofNanos?_eq_none_iff]
  exact Nat.not_lt.mpr (exactNanos_of_short short attempt)

/-- What the delays of a policy are, and when there is none. -/
structure BacksOff (policy : RetryPolicy) : Prop where
  overflows_iff : ∀ attempt,
    policy.delayAfter attempt = none ↔ 0xFFFFFFFFFFFFFFFF < policy.exactNanos attempt / 1000000000
  exact : ∀ attempt delay, policy.delayAfter attempt = some delay →
    delay.totalNanos = policy.exactNanos attempt ∧ delay.nanos < 1000000000
  grows : ∀ attempt later delay, attempt ≤ later → policy.delayAfter later = some delay →
    ∃ earlier, policy.delayAfter attempt = some earlier ∧ earlier.totalNanos ≤ delay.totalNanos
  lasts : policy.baseDelay.seconds < 0x100000000 →
    ∀ attempt, (policy.delayAfter attempt).isSome = true

theorem backsOff (policy : RetryPolicy) : policy.BacksOff where
  overflows_iff attempt := by rw [delayAfter_eq, Duration.ofNanos?_eq_none_iff]
  exact attempt delay found := by
    rw [delayAfter_eq] at found
    exact ⟨Duration.totalNanos_of_ofNanos? found, delay.nanos_range⟩
  grows attempt later delay after found := by
    have grown := policy.exactNanos_mono after
    rw [delayAfter_eq] at found
    have fits : ¬ 0xFFFFFFFFFFFFFFFF < policy.exactNanos later / 1000000000 := by
      rw [← Duration.ofNanos?_eq_none_iff, found]
      exact Option.some_ne_none delay
    cases early : policy.delayAfter attempt with
    | none =>
      rw [delayAfter_eq, Duration.ofNanos?_eq_none_iff] at early
      omega
    | some earlier =>
      rw [delayAfter_eq] at early
      refine ⟨earlier, rfl, ?_⟩
      rw [Duration.totalNanos_of_ofNanos? found, Duration.totalNanos_of_ofNanos? early]
      exact grown
  lasts short attempt := delayAfter_isSome_of_short short attempt

/-- Half of the largest span can be doubled once, and its nanoseconds carry. -/
example :
    let policy : RetryPolicy := ⟨3, ⟨0x7FFFFFFFFFFFFFFF, 999999999, by decide, by decide⟩⟩
    policy.delayAfter 1 = some ⟨0xFFFFFFFFFFFFFFFF, 999999998, by decide, by decide⟩ ∧
      policy.delayAfter 2 = none := by decide

end RetryPolicy

end Blocklist
