import Blocklist.Proofs.Fetch.Attempts

/-!
Fetches from addresses that answer in one way only, and clients that note which addresses they are asked
for. Main statements: what such a fetch comes to depends on the address only and concerns one source only,
it asks once or until no attempt is left, and a client that notes what it is asked for does the same.
-/

namespace Blocklist

namespace RetryPolicy

/-- Holds of policies of which no delay between two attempts overflows. -/
def Patient (policy : RetryPolicy) : Prop :=
  ∀ attempt < policy.attempts - 1, (policy.delayAfter attempt).isSome = true

instance (policy : RetryPolicy) : Decidable policy.Patient :=
  inferInstanceAs (Decidable (∀ attempt < policy.attempts - 1, _))

/-- How often an address with this answer is asked. -/
def tries (policy : RetryPolicy) : Except FetchFailure (List UInt8) → Nat
  | .ok _ => 1
  | .error _ => policy.attempts

theorem tries_bounds (policy : RetryPolicy) (answer : Except FetchFailure (List UInt8)) :
    1 ≤ policy.tries answer ∧ policy.tries answer ≤ max 1 policy.maxAttempts := by
  cases answer with
  | ok body => exact ⟨Nat.le_refl 1, Nat.le_max_left _ _⟩
  | error failure => exact ⟨Nat.le_max_left _ _, Nat.le_refl _⟩

/-- What a fetch from an address with this answer comes to. -/
def outcome (policy : RetryPolicy) (url : String) :
    Except FetchFailure (List UInt8) → Except Error (List Char)
  | .ok body => Client.attempt.received url 0 body
  | .error failure => .error (.fetch url policy.attempts (.request failure))

theorem isSourceScoped_of_outcome {policy : RetryPolicy} {url : String}
    {answer : Except FetchFailure (List UInt8)} {e : Error}
    (failed : policy.outcome url answer = .error e) : e.isSourceScoped = true := by
  cases answer with
  | ok body =>
    simp only [outcome, Client.attempt.received] at failed
    split at failed
    · cases failed
    · cases failed
      rfl
  | error failure =>
    cases failed
    rfl

end RetryPolicy

namespace Client

variable {ω : Type} {client : Client ω} {answer : String → Except FetchFailure (List UInt8)}
  {policy : RetryPolicy} {url : String}

/-- Holds of clients whose answer depends on the address only. -/
def Answers (client : Client ω) (answer : String → Except FetchFailure (List UInt8)) : Prop :=
  ∀ url world, (client.get url world).1 = answer url

/-- What fetches come to, as far as this state of the world outside decides it. -/
def fetched (client : Client ω) (policy : RetryPolicy) (world : ω) (url : String) :
    Except Error (List Char) :=
  (client.fetch policy url world).1

/-- The client that also notes each address that it is asked for. -/
def noting (client : Client ω) : Client (List String × ω) where
  get url noted :=
    let asked := client.get url noted.2
    (asked.1, noted.1 ++ [url], asked.2)
  pause delay noted := (noted.1, client.pause delay noted.2)

theorem Answers.noting (answers : client.Answers answer) : client.noting.Answers answer :=
  fun url noted => answers url noted.2

/-- Noting what is asked for changes no answer and nothing outside. -/
theorem attempt_noting (client : Client ω) (policy : RetryPolicy) (url : String) (left made : Nat)
    (noted : List String × ω) :
    client.attempt policy url left made noted.2 =
      ((client.noting.attempt policy url left made noted).1,
        (client.noting.attempt policy url left made noted).2.2) := by
  induction left generalizing made noted with
  | zero =>
    simp only [attempt, noting]
    rcases client.get url noted.2 with ⟨_ | _, after⟩ <;> rfl
  | succ left ih =>
    simp only [attempt, noting]
    rcases client.get url noted.2 with ⟨failure | body, after⟩
    · cases policy.delayAfter made with
      | none => rfl
      | some delay => exact ih (made + 1) (noted.1 ++ [url], client.pause delay after)
    · rfl

theorem fetch_noting (client : Client ω) (policy : RetryPolicy) (url : String)
    (noted : List String × ω) :
    client.fetch policy url noted.2 =
      ((client.noting.fetch policy url noted).1, (client.noting.fetch policy url noted).2.2) :=
  client.attempt_noting policy url _ 0 noted

theorem worldAfter_noting (client : Client ω) (policy : RetryPolicy) (url : String)
    (noted : List String × ω) (made : Nat) :
    client.noting.worldAfter policy url noted made =
      (noted.1 ++ List.replicate made url, client.worldAfter policy url noted.2 made) := by
  induction made with
  | zero => rw [List.replicate_zero, List.append_nil, worldAfter, worldAfter]
  | succ made ih =>
    rw [worldAfter, ih, worldAfter, List.replicate_succ', ← List.append_assoc]
    cases policy.delayAfter made <;> rfl

theorem response_noting (client : Client ω) (policy : RetryPolicy) (url : String)
    (noted : List String × ω) (made : Nat) :
    client.noting.response policy url noted made = client.response policy url noted.2 made := by
  rw [response, worldAfter_noting]
  rfl

/-- What is noted when one more request is sent after so many that failed. -/
theorem notes_get (client : Client ω) (policy : RetryPolicy) (url : String)
    (noted : List String × ω) (made : Nat) :
    (client.noting.get url (client.noting.worldAfter policy url noted made)).2.1 =
      noted.1 ++ List.replicate (made + 1) url := by
  rw [worldAfter_noting, List.replicate_succ', ← List.append_assoc]
  rfl

theorem Answers.response (answers : client.Answers answer) (policy : RetryPolicy) (url : String)
    (world : ω) (made : Nat) : client.response policy url world made = answer url :=
  answers url _

/-- A fetch from an address that answers in one way, with the addresses it asks for. -/
theorem fetch_of_answers (answers : client.Answers answer) (patient : policy.Patient)
    (url : String) (noted : List String × ω) :
    (client.noting.fetch policy url noted).1 = policy.outcome url (answer url) ∧
      (client.noting.fetch policy url noted).2.1 =
        noted.1 ++ List.replicate (policy.tries (answer url)) url := by
  have always := answers.noting.response policy url noted
  cases found : answer url with
  | ok body =>
    rw [found] at always
    rw [fetch_of_ok policy.attempts_pos (by simp) (fun i below => absurd below (Nat.not_lt_zero i))
      (always 0)]
    exact ⟨rfl, notes_get client policy url noted 0⟩
  | error failure =>
    rw [found] at always
    rw [fetch_of_error patient (fun i _ => ⟨failure, always i⟩) (always _)]
    refine ⟨rfl, ?_⟩
    rw [notes_get, Nat.sub_add_cancel policy.attempts_pos]
    rfl

theorem fetched_eq_outcome (answers : client.Answers answer) (patient : policy.Patient)
    (url : String) (world : ω) :
    client.fetched policy world url = policy.outcome url (answer url) := by
  rw [fetched, client.fetch_noting policy url ([], world)]
  exact (fetch_of_answers answers patient url ([], world)).1

/-- Holds of clients from which a fetch comes to the same whenever it is made. -/
def Steady (client : Client ω) (policy : RetryPolicy) : Prop :=
  ∀ url world later, client.fetched policy world url = client.fetched policy later url

theorem Answers.steady (answers : client.Answers answer) (patient : policy.Patient) :
    client.Steady policy := by
  intro url world later
  rw [fetched_eq_outcome answers patient, fetched_eq_outcome answers patient]

end Client

end Blocklist
