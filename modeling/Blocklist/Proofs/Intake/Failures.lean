import Blocklist.Proofs.Intake.Growth

/-!
What can end a run early. Main statements: an error of the store's kind comes from a write that failed,
never from outside, and so a run over a store in memory does not end with one.
-/

namespace Blocklist

namespace Client

variable {ω : Type} (client : Client ω) (policy : RetryPolicy) (url : String) (fault : StoreFault)

theorem received_ne_store (made : Nat) (body : List UInt8) :
    attempt.received url made body ≠ .error (.store fault) := by
  unfold attempt.received
  cases decodeBody body with
  | some text => simp
  | none => simp

theorem attempt_ne_store (left made : Nat) (world : ω) :
    (client.attempt policy url left made world).1 ≠ .error (.store fault) := by
  induction left generalizing made world with
  | zero =>
    unfold attempt
    rcases client.get url world with ⟨failure | body, after⟩
    · simp
    · exact received_ne_store url fault made body
  | succ left ih =>
    unfold attempt
    rcases client.get url world with ⟨failure | body, after⟩
    · cases policy.delayAfter made with
      | none => simp
      | some delay => exact ih (made + 1) (client.pause delay after)
    · exact received_ne_store url fault made body

end Client

namespace Intake

variable {σ ω : Type} [RecordStore σ]

theorem arrival_ne_store (outside : Outside ω) (policy : RetryPolicy) (entry : SourceEntry)
    (world : ω) (fault : StoreFault) :
    (arrival outside policy entry world).1 ≠ .error (.store fault) := by
  unfold arrival
  by_cases enabled : entry.isEnabled = true
  · rw [if_pos enabled]
    cases entry.resolve with
    | error e => simp
    | ok source =>
      rcases fetched : outside.fetch policy source.url world with ⟨e | body, after⟩
      · simp only [fetched]
        by_cases own : e.isSourceScoped = true
        · simp [own]
        · have other := outside.attempt_ne_store policy source.url fault (policy.attempts - 1) 0 world
          rw [← Client.fetch, fetched] at other
          simpa [own] using other
      · simp [fetched]
  · rw [if_neg enabled]
    simp

theorem takeBody_error [Backed σ] {a : Arrival} {seen : Names} {store : σ} {e : Error}
    (failed : (takeBody a.source a.time a.body seen store).outcome = .error e) :
    ∃ fault, e = .store fault := by
  rw [takeBody_outcome] at failed
  rcases (batchOf store a.time a.candidates).flush_cases store with
    ⟨-, flushed⟩ | ⟨after, -, flushed⟩ | ⟨_, after, broken, flushed⟩
  · rw [flushed] at failed
    cases failed
  · rw [flushed] at failed
    cases failed
  · rw [flushed] at failed
    cases failed
    exact Backed.fault store _ e (by rw [broken])

theorem steps_eq_error_iff {outside : Outside ω} {policy : RetryPolicy} {entries : List SourceEntry}
    {store : σ} {world : ω} {e : Error} :
    (steps outside policy entries { store, world }).1 = .error e ↔
      entries ≠ [] ∧ (run outside policy entries store world).1 = .error e := by
  cases entries with
  | nil => simp [steps]
  | cons entry entries =>
    rw [run, if_neg (by simp)]
    rcases steps outside policy (entry :: entries) { store, world } with ⟨_ | _, after⟩
    · simp
    · simp

theorem steps_memory_ne_store (outside : Outside ω) (policy : RetryPolicy)
    (entries : List SourceEntry) (p : Progress Store ω) (fault : StoreFault) :
    (steps outside policy entries p).1 ≠ .error (.store fault) := by
  induction entries generalizing p with
  | nil => simp [steps]
  | cons entry entries ih =>
    unfold steps
    obtain ⟨stats, stepped⟩ := step_eq outside policy entry p
    rcases arrived : arrival outside policy entry p.world with ⟨e | _ | a, world⟩
    · rw [arrived] at stepped
      rw [stepped]
      rintro broken
      cases broken
      exact arrival_ne_store outside policy entry p.world fault (by rw [arrived])
    · rw [arrived] at stepped
      rw [stepped]
      exact ih _
    · rw [arrived] at stepped
      rw [stepped]
      simp only [takeBody_outcome, Batch.flush_eq, Except.map]
      exact ih _

/-- A run over a store in memory does not fail in the store. -/
theorem run_memory_ne_store (outside : Outside ω) (policy : RetryPolicy)
    (entries : List SourceEntry) (store : Store) (world : ω) (fault : StoreFault) :
    (run outside policy entries store world).1 ≠ .error (.store fault) := by
  intro broken
  by_cases nothing : entries = []
  · rw [nothing] at broken
    cases broken
  · exact steps_memory_ne_store outside policy entries _ fault
      (steps_eq_error_iff.mpr ⟨nothing, broken⟩)

end Intake

end Blocklist
