import Blocklist.Proofs.Intake.Arrivals

/-!
Runs that go through all of their sources. Each source is disabled, fails by itself, or has its body taken
in, and nothing else can happen to the progress of the run. Main statement: such a run is a chain of these
steps, with the bodies that arrived.
-/

namespace Blocklist

namespace Intake

section
variable {σ ω : Type} [RecordStore σ]

/-- What handling a configured source can do to the progress of a run that goes on, with the body that was
taken in for it. -/
inductive Handled (entry : SourceEntry) (p : Progress σ ω) : Option Arrival → Progress σ ω → Prop where
  | disabled (off : entry.isEnabled = false) : Handled entry p none p
  | failed (on : entry.isEnabled = true) (name : String) (e : Error) (world : ω) :
    Handled entry p none { p with stats := p.stats.attempt.fail name e, world }
  | taken (on : entry.isEnabled = true) (a : Arrival) (counted : Nat × MergeCounts) (world : ω)
    (took : (takeBody a.source a.time a.body p.seen p.store).outcome = .ok counted) :
    Handled entry p (some a) {
      stats := p.stats.attempt.succeed a.source counted.1 counted.2
      seen := (takeBody a.source a.time a.body p.seen p.store).seen
      store := (takeBody a.source a.time a.body p.seen p.store).store
      world }

/-- The steps of a run over configured sources, with the bodies that were taken in. -/
inductive Ran : List SourceEntry → Progress σ ω → List Arrival → Progress σ ω → Prop where
  | nil (p : Progress σ ω) : Ran [] p [] p
  | cons {entry : SourceEntry} {entries : List SourceEntry} {p q r : Progress σ ω}
    {came : Option Arrival} {later : List Arrival} (handled : Handled entry p came q)
    (rest : Ran entries q later r) : Ran (entry :: entries) p (came.toList ++ later) r

variable {outside : Outside ω} {policy : RetryPolicy} {entry : SourceEntry}
  {entries : List SourceEntry} {p q : Progress σ ω}

theorem handled_of_step (done : step outside policy entry p = (.ok (), q)) :
    ∃ came, arrival outside policy entry p.world = (.ok came, q.world) ∧ Handled entry p came q := by
  unfold step at done
  unfold arrival
  cases on : entry.isEnabled with
  | false =>
    simp only [on, if_false, Bool.false_eq_true] at done ⊢
    cases done
    exact ⟨none, rfl, .disabled on⟩
  | true =>
    simp only [on, if_true] at done ⊢
    cases resolved : entry.resolve with
    | error e =>
      simp only [resolved] at done ⊢
      cases done
      exact ⟨none, rfl, .failed on _ e p.world⟩
    | ok source =>
      simp only [resolved, takeSource] at done ⊢
      rcases fetched : outside.fetch policy source.url p.world with ⟨e | body, after⟩
      · rw [fetched] at done
        cases own : e.isSourceScoped with
        | false =>
          simp only [own, if_false, Bool.false_eq_true] at done
          cases done
        | true =>
          simp only [own, if_true] at done ⊢
          cases done
          exact ⟨none, rfl, .failed on _ e after⟩
      · simp only [fetched] at done ⊢
        let a : Arrival := ⟨source, (outside.now after).1, body⟩
        cases took : (takeBody source (outside.now after).1 body p.seen p.store).outcome with
        | error e =>
          simp only [took] at done
          cases done
        | ok counted =>
          simp only [took] at done
          cases done
          exact ⟨some a, rfl, .taken on a counted (outside.now after).2 took⟩

theorem ran_of_steps (done : steps outside policy entries p = (.ok (), q)) :
    Ran entries p (arrivals outside policy entries p.world) q := by
  induction entries generalizing p with
  | nil =>
    cases done
    exact .nil _
  | cons entry entries ih =>
    rw [steps] at done
    rcases stepped : step outside policy entry p with ⟨e | _, r⟩
    · rw [stepped] at done
      cases done
    · rw [stepped] at done
      obtain ⟨came, arrived, handled⟩ := handled_of_step stepped
      rw [arrivals, arrived]
      exact .cons handled (ih done)

theorem steps_of_run {store : σ} {world : ω} {stats : RunStats}
    (done : (run outside policy entries store world).1 = .ok stats) :
    ∃ q, steps outside policy entries { store, world } = (.ok (), q) ∧
      stats = { q.stats with uniqueRules := q.seen.size } := by
  unfold run at done
  split at done
  · cases done
  · rcases stepped : steps outside policy entries { store, world } with ⟨e | _, q⟩
    · rw [stepped] at done
      cases done
    · rw [stepped] at done
      cases done
      exact ⟨q, rfl, rfl⟩

end

end Intake

end Blocklist
