import Blocklist.Proofs.Fetch.Answers
import Blocklist.Proofs.Fetch.Delays

/-!
Fetches with any answers. Main statement: the first request that is answered well is the last one that is
sent and its body decides the fetch; otherwise as many requests are sent as are allowed, and the failure of
the last one is told.
-/

namespace Blocklist

theorem RetryPolicy.patient_of_short {policy : RetryPolicy}
    (short : policy.baseDelay.seconds < 0x100000000) : policy.Patient :=
  fun attempt _ => delayAfter_isSome_of_short short attempt

namespace Client

variable {ω : Type} {client : Client ω} {policy : RetryPolicy} {url : String} {world : ω}

/-- The addresses that a fetch asks for, request by request. -/
def asked (client : Client ω) (policy : RetryPolicy) (url : String) (world : ω) : List String :=
  (client.noting.fetch policy url ([], world)).2.1

theorem Failing.noting {count : Nat} (failing : client.Failing policy url world count) :
    client.noting.Failing policy url ([], world) count := by
  intro i below
  rw [response_noting]
  exact failing i below

/-- What a fetch comes to and whom it asks, by the index of its first good answer. -/
theorem fetched_of_ok {i : Nat} {body : List UInt8} (patient : policy.Patient)
    (within : i < policy.attempts) (failing : client.Failing policy url world i)
    (arrived : client.response policy url world i = .ok body) :
    client.fetched policy world url = attempt.received url i body ∧
      client.asked policy url world = List.replicate (i + 1) url := by
  have waits : ∀ j < i, (policy.delayAfter j).isSome = true :=
    fun j before => patient j (by omega)
  rw [← response_noting client policy url ([], world)] at arrived
  rw [fetched, client.fetch_noting policy url ([], world), asked,
    fetch_of_ok within waits failing.noting arrived]
  exact ⟨rfl, notes_get client policy url ([], world) i⟩

theorem fetched_of_error {last : FetchFailure} (patient : policy.Patient)
    (failing : client.Failing policy url world policy.attempts)
    (failed : client.response policy url world (policy.attempts - 1) = .error last) :
    client.fetched policy world url = .error (.fetch url policy.attempts (.request last)) ∧
      client.asked policy url world = List.replicate policy.attempts url := by
  have before : client.Failing policy url world (policy.attempts - 1) :=
    fun i below => failing i (by omega)
  rw [← response_noting client policy url ([], world)] at failed
  rw [fetched, client.fetch_noting policy url ([], world), asked,
    fetch_of_error patient before.noting failed]
  refine ⟨rfl, ?_⟩
  rw [notes_get, Nat.sub_add_cancel policy.attempts_pos]
  rfl

/-- A fetch is decided by the first of its answers that is a body, or else by the last one. -/
theorem fetch_exact (client : Client ω) (patient : policy.Patient) (url : String) (world : ω) :
    (∀ i < max 1 policy.maxAttempts, ∀ body, client.Failing policy url world i →
      client.response policy url world i = .ok body →
        client.asked policy url world = List.replicate (i + 1) url ∧
        (∀ text, decodeBody body = some text → client.fetched policy world url = .ok text) ∧
        (decodeBody body = none →
          client.fetched policy world url = .error (.fetch url (i + 1) .undecodable))) ∧
    (client.Failing policy url world (max 1 policy.maxAttempts) →
      client.asked policy url world = List.replicate (max 1 policy.maxAttempts) url ∧
      ∃ last cause,
        client.response policy url world (max 1 policy.maxAttempts - 1) = .error last ∧
        client.fetched policy world url =
          .error (.fetch url (max 1 policy.maxAttempts) cause) ∧
        cause.message = last.message) := by
  constructor
  · intro i within body failing arrived
    obtain ⟨result, requests⟩ := fetched_of_ok patient within failing arrived
    refine ⟨requests, ?_, ?_⟩
    · intro text decoded
      rw [result, attempt.received, decoded]
    · intro broken
      rw [result, attempt.received, broken]
  · intro failing
    obtain ⟨last, failed⟩ :=
      failing (max 1 policy.maxAttempts - 1) (by omega)
    obtain ⟨result, requests⟩ := fetched_of_error patient failing failed
    exact ⟨requests, last, .request last, failed, result, rfl⟩

/-- The client that gives these answers one after the other; the world counts the requests. -/
def scripted (answers : Nat → Except FetchFailure (List UInt8)) : Client Nat where
  get _ made := (answers made, made + 1)
  pause _ made := made

theorem worldAfter_scripted (answers : Nat → Except FetchFailure (List UInt8))
    (policy : RetryPolicy) (url : String) (made : Nat) :
    (scripted answers).worldAfter policy url 0 made = made := by
  induction made with
  | zero => rfl
  | succ made ih =>
    rw [worldAfter, ih]
    cases policy.delayAfter made <;> rfl

/-- A client may give any answers whatsoever. -/
theorem response_scripted (answers : Nat → Except FetchFailure (List UInt8))
    (policy : RetryPolicy) (url : String) (made : Nat) :
    (scripted answers).response policy url 0 made = answers made :=
  congrArg answers (worldAfter_scripted answers policy url made)

/-- Two failures, and then the mark of a gzip file without the file. -/
def flaky : Client Nat :=
  scripted fun
    | 0 => .error (.status 503)
    | 1 => .error (.transport "connection reset")
    | _ => .ok [0x1f, 0x8b]

theorem fetch_exact_flaky :
    let url := "https://lists.example/a.txt"
    let once : RetryPolicy := { RetryPolicy.standard with maxAttempts := 0 }
    (RetryPolicy.standard.Patient ∧ flaky.Failing .standard url 0 2 ∧
      flaky.response .standard url 0 2 = .ok [0x1f, 0x8b] ∧ decodeBody [0x1f, 0x8b] = none ∧
      flaky.asked .standard url 0 = [url, url, url] ∧
      flaky.fetched .standard 0 url = .error (.fetch url 3 .undecodable)) ∧
    (once.Patient ∧ flaky.Failing once url 0 1 ∧ flaky.asked once url 0 = [url] ∧
      ∃ cause, flaky.fetched once 0 url = .error (.fetch url 1 cause) ∧
        cause.message = "HTTP error! status: 503") := by
  intro url once
  have patient : RetryPolicy.standard.Patient := RetryPolicy.patient_of_short (by decide)
  have failing : flaky.Failing .standard url 0 2
    | 0, _ => ⟨_, response_scripted _ _ _ 0⟩
    | 1, _ => ⟨_, response_scripted _ _ _ 1⟩
  have arrived : flaky.response .standard url 0 2 = .ok [0x1f, 0x8b] := response_scripted _ _ _ 2
  have broken : decodeBody [0x1f, 0x8b] = none := rfl
  have told := (fetch_exact flaky patient url 0).1 2 (by decide) _ failing arrived
  have patientOnce : once.Patient := RetryPolicy.patient_of_short (by decide)
  have first : flaky.response once url 0 0 = .error (.status 503) := response_scripted _ _ _ 0
  have failingOnce : flaky.Failing once url 0 1
    | 0, _ => ⟨_, first⟩
  obtain ⟨requests, last, cause, failed, result, wording⟩ :=
    (fetch_exact flaky patientOnce url 0).2 failingOnce
  have same : last = .status 503 := Except.error.inj (failed.symm.trans first)
  rw [same] at wording
  exact ⟨⟨patient, failing, arrived, broken, told.1, told.2.2 broken⟩,
    patientOnce, failingOnce, requests, cause, result, wording⟩

end Client

end Blocklist
