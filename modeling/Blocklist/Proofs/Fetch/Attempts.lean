import Blocklist.Fetch

/-!
The attempts of a fetch one by one. Main statements: a fetch comes to what the first request that is
answered well brings, or to the failure of the last one that is allowed.
-/

namespace Blocklist

theorem RetryPolicy.attempts_pos (policy : RetryPolicy) : 0 < policy.attempts :=
  Nat.le_max_left 1 policy.maxAttempts

namespace Client

variable {ω : Type} (client : Client ω) (policy : RetryPolicy) (url : String) (world : ω)

/-- The world in which a request is sent after so many that failed, with the pauses between them. -/
def worldAfter : Nat → ω
  | 0 => world
  | failed + 1 =>
    let answered := (client.get url (worldAfter failed)).2
    match policy.delayAfter failed with
    | some delay => client.pause delay answered
    | none => answered

/-- The answer to the request that is sent after so many that failed. -/
def response (failed : Nat) : Except FetchFailure (List UInt8) :=
  (client.get url (client.worldAfter policy url world failed)).1

/-- Holds when none of the first so many requests is answered well. -/
def Failing (count : Nat) : Prop :=
  ∀ i < count, ∃ failure, client.response policy url world i = .error failure

variable {client policy url world}

theorem get_worldAfter {made : Nat} {answer : Except FetchFailure (List UInt8)}
    (answered : client.response policy url world made = answer) :
    client.get url (client.worldAfter policy url world made) =
      (answer, (client.get url (client.worldAfter policy url world made)).2) :=
  Prod.ext answered rfl

/-- A failed attempt that is not the last one leads to the next after a pause. -/
theorem attempt_of_failed {left made : Nat} {failure : FetchFailure}
    (failed : client.response policy url world made = .error failure)
    (waits : (policy.delayAfter made).isSome = true) :
    client.attempt policy url (left + 1) made (client.worldAfter policy url world made) =
      client.attempt policy url left (made + 1) (client.worldAfter policy url world (made + 1)) := by
  obtain ⟨delay, found⟩ := Option.isSome_iff_exists.mp waits
  rw [attempt, get_worldAfter failed, worldAfter, found]

theorem attempt_of_failing {count : Nat} (failing : client.Failing policy url world count)
    (waits : ∀ i < count, (policy.delayAfter i).isSome = true) (left : Nat) :
    client.attempt policy url (left + count) 0 world =
      client.attempt policy url left count (client.worldAfter policy url world count) := by
  induction count generalizing left with
  | zero => rfl
  | succ count ih =>
    have before := ih (fun i below => failing i (Nat.lt_succ_of_lt below))
      (fun i below => waits i (Nat.lt_succ_of_lt below)) (left + 1)
    obtain ⟨failure, failed⟩ := failing count (Nat.lt_succ_self count)
    rw [← Nat.add_assoc, Nat.add_right_comm, before,
      attempt_of_failed failed (waits count (Nat.lt_succ_self count))]

/-- The first body that arrives ends the fetch. -/
theorem fetch_of_ok {i : Nat} {body : List UInt8} (within : i < policy.attempts)
    (waits : ∀ j < i, (policy.delayAfter j).isSome = true)
    (failing : client.Failing policy url world i)
    (arrived : client.response policy url world i = .ok body) :
    client.fetch policy url world =
      (attempt.received url i body, (client.get url (client.worldAfter policy url world i)).2) := by
  obtain ⟨left, rest⟩ := Nat.exists_eq_add_of_le' (Nat.le_sub_one_of_lt within)
  rw [fetch, rest, attempt_of_failing failing waits]
  cases left with
  | zero => rw [attempt, get_worldAfter arrived]
  | succ left => rw [attempt, get_worldAfter arrived]

/-- A fetch without a body comes to the failure of its last request. -/
theorem fetch_of_error {last : FetchFailure}
    (waits : ∀ j < policy.attempts - 1, (policy.delayAfter j).isSome = true)
    (failing : client.Failing policy url world (policy.attempts - 1))
    (failed : client.response policy url world (policy.attempts - 1) = .error last) :
    client.fetch policy url world =
      (.error (.fetch url policy.attempts (.request last)),
        (client.get url (client.worldAfter policy url world (policy.attempts - 1))).2) := by
  have spent := attempt_of_failing failing waits 0
  rw [Nat.zero_add] at spent
  rw [fetch, spent, attempt, get_worldAfter failed, Nat.sub_add_cancel policy.attempts_pos]

end Client

end Blocklist
