import Blocklist.Proofs.Fetch.Answers
import Blocklist.Proofs.Intake.Growth

/-!
Sources that stand for themselves in a run. Where every address answers in one way and the store takes every
write, a run goes through all its sources. Main statement: it counts and lists as failed those that do
not resolve or cannot be fetched, asks for the addresses of the others that are enabled in their order,
and leaves what the bodies that came leave, as if no other source had been configured.
-/

namespace Blocklist

/-- The world in which each address asked for is noted. -/
def Outside.noting {ω : Type} (outside : Outside ω) : Outside (List String × ω) where
  toClient := outside.toClient.noting
  now noted := ((outside.now noted.2).1, noted.1, (outside.now noted.2).2)

@[simp] theorem Outside.noting_toClient {ω : Type} (outside : Outside ω) :
    outside.noting.toClient = outside.toClient.noting := rfl

@[simp] theorem Outside.noting_now {ω : Type} (outside : Outside ω) (noted : List String × ω) :
    outside.noting.now noted =
      ((outside.now noted.2).1, noted.1, (outside.now noted.2).2) := rfl

/-- Holds of stores whose bulk writes succeed, whatever was written before. -/
def RecordStore.Reliable {σ : Type} [RecordStore σ] (store : σ) : Prop :=
  ∀ (before : List (List Record)) (rs : List Record),
    (upsertMany (before.foldl (fun s rs => (upsertMany s rs).2) store) rs).1 = .ok ()

theorem RecordStore.Reliable.after {σ : Type} [RecordStore σ] {store : σ} (reliable : Reliable store)
    (rs : List Record) : Reliable (upsertMany store rs).2 :=
  fun before more => reliable (rs :: before) more

theorem Store.reliable (s : Store) : RecordStore.Reliable s := fun _ _ => rfl

/-- The statistics of a run in which no source was configured but those whose lists were taken in. -/
def RunStats.alone (s : RunStats) : RunStats :=
  { s with attempted := s.succeeded, failed := 0, errors := [] }

/-- The source that is asked for: that of an entry which is enabled and resolves. -/
def SourceEntry.asked? (entry : SourceEntry) : Option Source :=
  if entry.isEnabled then entry.resolve.toOption else none

def Arrival.content (a : Arrival) : Source × List Char := (a.source, a.body)

theorem Arrival.eq_of_map_eq {as bs : List Arrival} (contents : as.map content = bs.map content)
    (times : as.map time = bs.map time) : as = bs := by
  induction as generalizing bs with
  | nil => exact (List.map_eq_nil_iff.mp times.symm).symm
  | cons a as ih =>
    cases bs with
    | nil => cases times
    | cons b bs =>
      obtain ⟨source, time, body⟩ := a
      obtain ⟨source', time', body'⟩ := b
      simp only [List.map_cons, List.cons.injEq, content, Prod.mk.injEq] at contents times
      obtain ⟨⟨rfl, rfl⟩, contents⟩ := contents
      obtain ⟨rfl, times⟩ := times
      rw [ih contents times]

namespace Intake

section
variable {σ ω : Type} [RecordStore σ]

/-! ## Noted runs -/

def Progress.plain (p : Progress σ (List String × ω)) : Progress σ ω :=
  { p with world := p.world.2 }

theorem step_noting (outside : Outside ω) (policy : RetryPolicy) (entry : SourceEntry)
    (p : Progress σ (List String × ω)) :
    step outside policy entry p.plain =
      ((step outside.noting policy entry p).1, (step outside.noting policy entry p).2.plain) := by
  unfold step
  by_cases enabled : entry.isEnabled = true
  · rw [if_pos enabled, if_pos enabled]
    cases entry.resolve with
    | error e => rfl
    | ok source =>
      have noted := outside.fetch_noting policy source.url p.world
      simp only [takeSource, Progress.plain, noted, Outside.noting_toClient, Outside.noting_now]
      rcases outside.toClient.noting.fetch policy source.url p.world with ⟨e | body, after⟩
      · simp only
        cases e.isSourceScoped <;> rfl
      · simp only
        cases (takeBody source (outside.now after.2).1 body p.seen p.store).outcome <;> rfl
  · rw [if_neg enabled, if_neg enabled]

theorem steps_noting (outside : Outside ω) (policy : RetryPolicy) (entries : List SourceEntry)
    (p : Progress σ (List String × ω)) :
    steps outside policy entries p.plain =
      ((steps outside.noting policy entries p).1,
        (steps outside.noting policy entries p).2.plain) := by
  induction entries generalizing p with
  | nil => rfl
  | cons entry entries ih =>
    rw [steps, steps, step_noting]
    rcases step outside.noting policy entry p with ⟨e | _, q⟩
    · rfl
    · exact ih q

/-! ## What becomes of each source -/

/-- The failure of an entry that is enabled and does not resolve, or whose fetch fails. -/
def failure? (fetched : String → Except Error (List Char)) (entry : SourceEntry) :
    Option SourceFailure :=
  if entry.isEnabled then
    match entry.resolve with
    | .error e => some ⟨entry.displayName, e.message⟩
    | .ok source =>
      match fetched source.url with
      | .error e => some ⟨source.name, e.message⟩
      | .ok _ => none
  else none

/-- The source and the body of an entry that is enabled, resolves and is fetched. -/
def delivery? (fetched : String → Except Error (List Char)) (entry : SourceEntry) :
    Option (Source × List Char) :=
  entry.asked?.bind fun source => (fetched source.url).toOption.map fun body => (source, body)

def delivering (fetched : String → Except Error (List Char)) (entries : List SourceEntry) :
    List SourceEntry :=
  entries.filter fun entry => (delivery? fetched entry).isSome

def requests (policy : RetryPolicy) (answer : String → Except FetchFailure (List UInt8))
    (source : Source) : List String :=
  List.replicate (policy.tries (answer source.url)) source.url

section
variable (fetched : String → Except Error (List Char)) (entries : List SourceEntry)

theorem filterMap_delivering :
    (delivering fetched entries).filterMap (delivery? fetched) =
      entries.filterMap (delivery? fetched) := by
  rw [delivering, List.filterMap_filter]
  refine List.filterMap_congr fun entry _ => ?_
  cases delivery? fetched entry <;> rfl

theorem failure?_of_delivery {entry : SourceEntry} (came : (delivery? fetched entry).isSome = true) :
    failure? fetched entry = none := by
  unfold delivery? SourceEntry.asked? at came
  unfold failure?
  split
  next enabled =>
    rw [if_pos enabled] at came
    cases resolved : entry.resolve with
    | error e =>
      rw [resolved] at came
      cases came
    | ok source =>
      rw [resolved] at came
      cases got : fetched source.url with
      | error e =>
        simp only [Except.toOption, Option.bind_some, got] at came
        cases came
      | ok body => simp only [got]
  next => rfl

theorem filterMap_failure_delivering :
    (delivering fetched entries).filterMap (failure? fetched) = [] := by
  rw [List.filterMap_eq_nil_iff]
  intro entry member
  exact failure?_of_delivery fetched (List.mem_filter.mp member).2

/-- An enabled entry either fails or has its body come. -/
theorem length_filter_isEnabled :
    (entries.filter SourceEntry.isEnabled).length =
      (entries.filterMap (delivery? fetched)).length +
        (entries.filterMap (failure? fetched)).length := by
  induction entries with
  | nil => rfl
  | cons entry entries ih =>
    cases enabled : entry.isEnabled with
    | false => simp [delivery?, failure?, SourceEntry.asked?, enabled, ih]
    | true =>
      cases resolved : entry.resolve with
      | error e =>
        simp [delivery?, failure?, SourceEntry.asked?, enabled, resolved, Except.toOption, ih]
        omega
      | ok source =>
        cases got : fetched source.url with
        | error e =>
          simp [delivery?, failure?, SourceEntry.asked?, enabled, resolved, Except.toOption, got, ih]
          omega
        | ok body =>
          simp [delivery?, failure?, SourceEntry.asked?, enabled, resolved, Except.toOption, got, ih]
          omega

end

/-! ## What a run leaves -/

/-- What bodies that were taken in leave: their part of the statistics, the fingerprints seen, and the
store. -/
structure Holdings (σ : Type) where
  stats : RunStats
  seen : Names
  store : σ

def Holdings.receive (h : Holdings σ) (a : Arrival) : Holdings σ :=
  let result := takeBody a.source a.time a.body h.seen h.store
  match result.outcome with
  | .ok (rules, merges) =>
    ⟨h.stats.attempt.succeed a.source rules merges, result.seen, result.store⟩
  | .error _ => ⟨h.stats, result.seen, result.store⟩

def Progress.holdings (p : Progress σ ω) : Holdings σ := ⟨p.stats.alone, p.seen, p.store⟩

/-- How one progress accounts for entries and bodies that came since another. -/
structure Accounts (fetched : String → Except Error (List Char)) (entries : List SourceEntry)
    (came : List Arrival) (p q : Progress σ ω) : Prop where
  attempted : q.stats.attempted = p.stats.attempted + (entries.filter SourceEntry.isEnabled).length
  failed : q.stats.failed = p.stats.failed + (entries.filterMap (failure? fetched)).length
  errors : q.stats.errors = p.stats.errors ++ entries.filterMap (failure? fetched)
  succeeded : q.stats.succeeded = p.stats.succeeded + came.length
  delivered : came.map Arrival.content = entries.filterMap (delivery? fetched)
  holdings : q.holdings = came.foldl Holdings.receive p.holdings
  reliable : RecordStore.Reliable q.store

theorem Accounts.trans {fetched : String → Except Error (List Char)} {es fs : List SourceEntry}
    {as bs : List Arrival} {p q r : Progress σ ω} (first : Accounts fetched es as p q)
    (second : Accounts fetched fs bs q r) : Accounts fetched (es ++ fs) (as ++ bs) p r where
  attempted := by
    rw [second.attempted, first.attempted, List.filter_append, List.length_append, Nat.add_assoc]
  failed := by
    rw [second.failed, first.failed, List.filterMap_append, List.length_append, Nat.add_assoc]
  errors := by rw [second.errors, first.errors, List.filterMap_append, List.append_assoc]
  succeeded := by rw [second.succeeded, first.succeeded, List.length_append, Nat.add_assoc]
  delivered := by rw [List.map_append, first.delivered, second.delivered, List.filterMap_append]
  holdings := by rw [second.holdings, first.holdings, List.foldl_append]
  reliable := second.reliable

theorem takeBody_reliable {store : σ} (reliable : RecordStore.Reliable store) (a : Arrival)
    (seen : Names) :
    (∃ counted, (takeBody a.source a.time a.body seen store).outcome = .ok counted) ∧
      RecordStore.Reliable (takeBody a.source a.time a.body seen store).store := by
  rw [takeBody_outcome, takeBody_store]
  rcases (batchOf store a.time a.candidates).flush_cases store with
    ⟨-, flushed⟩ | ⟨after, made, flushed⟩ | ⟨e, after, broken, -⟩
  · rw [flushed]
    exact ⟨⟨_, rfl⟩, reliable⟩
  · rw [flushed]
    have later := reliable.after (batchOf store a.time a.candidates).records
    rw [made] at later
    exact ⟨⟨_, rfl⟩, later⟩
  · have never := reliable [] (batchOf store a.time a.candidates).records
    rw [List.foldl_nil, broken] at never
    cases never

section
variable {fetched : String → Except Error (List Char)} {entry : SourceEntry} {p : Progress σ ω}
  (reliable : RecordStore.Reliable p.store)
include reliable

theorem accounts_of_disabled (disabled : entry.isEnabled = false) :
    Accounts fetched [entry] [] p p := by
  have nothing : delivery? fetched entry = none := by
    simp [delivery?, SourceEntry.asked?, disabled]
  have fine : failure? fetched entry = none := by simp [failure?, disabled]
  constructor <;> simp [disabled, nothing, fine, reliable]

theorem accounts_of_failure {name : String} {e : Error} (world : ω)
    (enabled : entry.isEnabled = true) (failed : failure? fetched entry = some ⟨name, e.message⟩) :
    Accounts fetched [entry] [] p { p with stats := p.stats.attempt.fail name e, world } := by
  have nothing : delivery? fetched entry = none := by
    cases came : delivery? fetched entry with
    | none => rfl
    | some content =>
      have fine := failure?_of_delivery fetched (by rw [came, Option.isSome_some])
      rw [fine] at failed
      cases failed
  constructor <;> simp [enabled, failed, nothing, RunStats.fail, RunStats.attempt,
    Progress.holdings, RunStats.alone, reliable]

theorem accounts_of_delivery {a : Arrival} {counted : Nat × MergeCounts} (world : ω)
    (enabled : entry.isEnabled = true) (came : delivery? fetched entry = some a.content)
    (taken : (takeBody a.source a.time a.body p.seen p.store).outcome = .ok counted) :
    Accounts fetched [entry] [a] p {
      stats := p.stats.attempt.succeed a.source counted.1 counted.2
      seen := (takeBody a.source a.time a.body p.seen p.store).seen
      store := (takeBody a.source a.time a.body p.seen p.store).store
      world } := by
  have fine := failure?_of_delivery fetched (by rw [came, Option.isSome_some])
  have later := (takeBody_reliable reliable a p.seen).2
  have received : p.holdings.receive a = ⟨p.stats.alone.attempt.succeed a.source counted.1 counted.2,
      (takeBody a.source a.time a.body p.seen p.store).seen,
      (takeBody a.source a.time a.body p.seen p.store).store⟩ := by
    simp only [Holdings.receive, Progress.holdings, taken]
  refine ⟨?_, ?_, ?_, rfl, ?_, ?_, later⟩
  · simp [enabled, RunStats.succeed, RunStats.attempt]
  · simp [fine, RunStats.succeed, RunStats.attempt]
  · simp [fine, RunStats.succeed, RunStats.attempt]
  · simp [came]
  · rw [List.foldl_cons, List.foldl_nil, received]
    rfl

end

section
variable {answer : String → Except FetchFailure (List UInt8)} {policy : RetryPolicy}
  {outside : Outside ω} (answers : outside.Answers answer) (patient : policy.Patient)
include answers patient

theorem step_accounts (entry : SourceEntry) {p : Progress σ ω}
    (reliable : RecordStore.Reliable p.store) :
    ∃ came q, arrival outside policy entry p.world = (.ok came, q.world) ∧
      step outside policy entry p = (.ok (), q) ∧
      Accounts (fun url => policy.outcome url (answer url)) [entry] came.toList p q := by
  unfold arrival step
  cases enabled : entry.isEnabled with
  | false => exact ⟨none, p, rfl, rfl, accounts_of_disabled reliable enabled⟩
  | true =>
    cases resolved : entry.resolve with
    | error e =>
      have failed : failure? (fun url => policy.outcome url (answer url)) entry =
          some ⟨entry.displayName, e.message⟩ := by simp [failure?, enabled, resolved]
      exact ⟨none, { p with stats := p.stats.attempt.fail entry.displayName e }, rfl, rfl,
        accounts_of_failure reliable p.world enabled failed⟩
    | ok source =>
      have got := outside.fetched_eq_outcome answers patient source.url p.world
      simp only [if_true, takeSource]
      rcases fetched : outside.fetch policy source.url p.world with ⟨e | body, after⟩
      · rw [Client.fetched, fetched] at got
        have own := RetryPolicy.isSourceScoped_of_outcome got.symm
        have failed : failure? (fun url => policy.outcome url (answer url)) entry =
            some ⟨source.name, e.message⟩ := by simp [failure?, enabled, resolved, ← got]
        simp only [own, if_true]
        exact ⟨none, _, rfl, rfl, accounts_of_failure reliable after enabled failed⟩
      · rw [Client.fetched, fetched] at got
        let a : Arrival := ⟨source, (outside.now after).1, body⟩
        obtain ⟨counted, taken⟩ := (takeBody_reliable reliable a p.seen).1
        have came : delivery? (fun url => policy.outcome url (answer url)) entry = some a.content := by
          simp [delivery?, SourceEntry.asked?, enabled, resolved, Except.toOption, ← got, a,
            Arrival.content]
        simp only [show (takeBody source (outside.now after).1 body p.seen p.store).outcome =
          .ok counted from taken]
        exact ⟨some a, _, rfl, rfl,
          accounts_of_delivery reliable (outside.now after).2 enabled came taken⟩

/-- A run goes through all its sources, and what comes is accounted for. -/
theorem steps_accounts (entries : List SourceEntry) {p : Progress σ ω}
    (reliable : RecordStore.Reliable p.store) :
    ∃ q, steps outside policy entries p = (.ok (), q) ∧
      Accounts (fun url => policy.outcome url (answer url)) entries
        (arrivals outside policy entries p.world) p q := by
  induction entries generalizing p with
  | nil => exact ⟨p, rfl, by constructor <;> simp [arrivals, reliable]⟩
  | cons entry entries ih =>
    obtain ⟨came, q, arrived, stepped, first⟩ := step_accounts answers patient entry reliable
    obtain ⟨r, rest, second⟩ := ih first.reliable
    refine ⟨r, by simp only [steps, stepped, rest], ?_⟩
    rw [arrivals, arrived]
    exact first.trans second

theorem arrival_asked (entry : SourceEntry) (noted : List String × ω) :
    (arrival outside.noting policy entry noted).2.1 =
      noted.1 ++ entry.asked?.toList.flatMap (requests policy answer) := by
  unfold arrival SourceEntry.asked?
  cases entry.isEnabled with
  | false => simp
  | true =>
    cases entry.resolve with
    | error e => simp [Except.toOption]
    | ok source =>
      have asked := (Client.fetch_of_answers answers patient source.url noted).2
      simp only [if_true, Outside.noting_toClient]
      rcases fetched : outside.toClient.noting.fetch policy source.url noted with ⟨e | body, after⟩
      · rw [fetched] at asked
        simpa [Except.toOption, requests] using asked
      · rw [fetched] at asked
        simpa [Except.toOption, requests] using asked

/-- A run asks for the addresses of its sources in their order, and for no others. -/
theorem steps_asked (entries : List SourceEntry) {p : Progress σ (List String × ω)}
    (reliable : RecordStore.Reliable p.store) :
    (steps outside.noting policy entries p).2.world.1 =
      p.world.1 ++ (entries.filterMap SourceEntry.asked?).flatMap (requests policy answer) := by
  have noted : outside.noting.Answers answer := Client.Answers.noting answers
  induction entries generalizing p with
  | nil => simp [steps]
  | cons entry entries ih =>
    obtain ⟨came, q, arrived, stepped, first⟩ := step_accounts noted patient entry reliable
    have here := arrival_asked answers patient entry p.world
    rw [arrived] at here
    simp only [steps, stepped]
    calc
      (steps outside.noting policy entries q).2.world.1 =
          q.world.1 ++ (entries.filterMap SourceEntry.asked?).flatMap (requests policy answer) :=
        ih first.reliable
      _ = p.world.1 ++ (entry.asked?.toList ++ entries.filterMap SourceEntry.asked?).flatMap
          (requests policy answer) := by rw [here, List.flatMap_append, List.append_assoc]
      _ = _ := by cases asked : entry.asked? <;> simp [asked]

end

theorem Holdings.receive_store (h : Holdings σ) (a : Arrival) :
    (h.receive a).store = (takeBody a.source a.time a.body .empty h.store).store := by
  rw [receive, takeBody_store]
  cases (takeBody a.source a.time a.body h.seen h.store).outcome <;> rfl

theorem Holdings.foldl_receive_store (h : Holdings σ) (came : List Arrival) :
    (came.foldl receive h).store =
      came.foldl (fun s a => (takeBody a.source a.time a.body .empty s).store) h.store := by
  induction came generalizing h with
  | nil => rfl
  | cons a came ih => rw [List.foldl_cons, ih, receive_store, List.foldl_cons]

theorem Accounts.stats_eq_alone {fetched : String → Except Error (List Char)}
    {entries : List SourceEntry} {came : List Arrival} {p q : Progress σ ω} (start : p.stats = {})
    (accounts : Accounts fetched (delivering fetched entries) came p q) : q.stats = q.stats.alone := by
  have tried := accounts.attempted
  have failed := accounts.failed
  have errors := accounts.errors
  have succeeded := accounts.succeeded
  have lengths := congrArg List.length accounts.delivered
  rw [length_filter_isEnabled fetched, filterMap_failure_delivering] at tried
  rw [filterMap_failure_delivering] at failed errors
  rw [List.length_map] at lengths
  have all : q.stats.attempted = q.stats.succeeded := by
    rw [tried, succeeded, start, lengths]
    rfl
  rw [start] at failed errors
  calc
    q.stats = { q.stats with
        attempted := q.stats.attempted, failed := q.stats.failed, errors := q.stats.errors } := rfl
    _ = q.stats.alone := by rw [all, failed, errors]; rfl

/-- The entries whose bodies come leave the same by themselves, if the bodies come at the same times. -/
theorem Accounts.alone {ω' : Type} {fetched : String → Except Error (List Char)}
    {entries : List SourceEntry} {as bs : List Arrival} {p q : Progress σ ω} {p' q' : Progress σ ω'}
    (accounts : Accounts fetched entries as p q)
    (others : Accounts fetched (delivering fetched entries) bs p' q')
    (start : p'.stats = {}) (same : p'.holdings = p.holdings)
    (times : bs.map Arrival.time = as.map Arrival.time) :
    q'.stats = q.stats.alone ∧ q'.seen = q.seen ∧ q'.store = q.store := by
  have contents := others.delivered
  rw [filterMap_delivering, ← accounts.delivered] at contents
  have left := others.holdings
  rw [Arrival.eq_of_map_eq contents times, same, ← accounts.holdings] at left
  simp only [Progress.holdings, Holdings.mk.injEq] at left
  exact ⟨(others.stats_eq_alone start).trans left.1, left.2⟩

/-- Holds of the statistics and the store after a run in which every source stood for itself. -/
structure Isolated (outside : Outside ω) (policy : RetryPolicy)
    (answer : String → Except FetchFailure (List UInt8)) (entries : List SourceEntry) (store : σ)
    (world : ω) (stats : RunStats) (after : σ) : Prop where
  attempted : stats.attempted = (entries.filter SourceEntry.isEnabled).length
  failed : stats.failed = stats.errors.length
  errors : stats.errors = entries.filterMap (failure? (outside.fetched policy world))
  succeeded : stats.succeeded = (arrivals outside policy entries world).length
  /-- What came is what the addresses of the entries that are enabled and resolve gave. -/
  delivered : (arrivals outside policy entries world).map Arrival.content =
    entries.filterMap (delivery? (outside.fetched policy world))
  stored : after = (arrivals outside policy entries world).foldl
    (fun s a => (takeBody a.source a.time a.body .empty s).store) store
  /-- The same as without the other entries, if what comes then comes at the same times. -/
  alone : ∀ (ω' : Type) (other : Outside ω') (elsewhere : ω'), other.Answers answer →
    (arrivals other policy (delivering (outside.fetched policy world) entries) elsewhere).map
        Arrival.time = (arrivals outside policy entries world).map Arrival.time →
      let ran := run other policy (delivering (outside.fetched policy world) entries) store elsewhere
      ran.2.1 = after ∧
        (delivering (outside.fetched policy world) entries ≠ [] → ran.1 = .ok stats.alone)

theorem run_of_steps {outside : Outside ω} {policy : RetryPolicy} {entries : List SourceEntry}
    {store : σ} {world : ω} {q : Progress σ ω} (filled : entries ≠ [])
    (stepped : steps outside policy entries { store, world } = (.ok (), q)) :
    run outside policy entries store world =
      (.ok { q.stats with uniqueRules := q.seen.size }, q.store, q.world) := by
  rw [run, if_neg (by simpa using filled), stepped]

theorem isolated_of_accounts {outside : Outside ω} {policy : RetryPolicy}
    {answer : String → Except FetchFailure (List UInt8)} {entries : List SourceEntry} {store : σ}
    {world : ω} {q : Progress σ ω} (answers : outside.Answers answer) (patient : policy.Patient)
    (reliable : RecordStore.Reliable store)
    (accounts : Accounts (fun url => policy.outcome url (answer url)) entries
      (arrivals outside policy entries world) { store, world } q) :
    Isolated outside policy answer entries store world
      { q.stats with uniqueRules := q.seen.size } q.store := by
  have known : outside.fetched policy world = fun url => policy.outcome url (answer url) :=
    funext fun url => outside.fetched_eq_outcome answers patient url world
  have attempted := accounts.attempted
  have failed := accounts.failed
  have errors := accounts.errors
  have succeeded := accounts.succeeded
  have stored := congrArg Holdings.store accounts.holdings
  rw [Nat.zero_add] at attempted failed succeeded
  rw [List.nil_append] at errors
  rw [Holdings.foldl_receive_store] at stored
  refine ⟨attempted, ?_, ?_, succeeded, ?_, stored, ?_⟩
  · rw [failed, errors]
  · rw [known, errors]
  · rw [known, accounts.delivered]
  · intro ω' other elsewhere same
    rw [known]
    intro times
    let kept := delivering (fun url => policy.outcome url (answer url)) entries
    let start : Progress σ ω' := { store, world := elsewhere }
    obtain ⟨q', stepped, others⟩ := steps_accounts same patient kept (p := start) reliable
    obtain ⟨stats, seen, left⟩ := accounts.alone others rfl rfl times
    refine ⟨?_, fun filled => ?_⟩
    · rw [run_store, stepped, left]
    · rw [run_of_steps filled stepped, stats, seen]
      rfl

/-- Over a store that takes every write a run goes through all its sources, and each of them stands for
itself: those that do not resolve or cannot be fetched are counted and listed, the others that are enabled
are asked for in order, each once or as often as allowed, and what their bodies leave is left. -/
theorem run_isolated (outside : Outside ω) (policy : RetryPolicy)
    (answer : String → Except FetchFailure (List UInt8)) (entries : List SourceEntry) (store : σ)
    (world : ω) (filled : entries ≠ []) (answers : outside.Answers answer)
    (patient : policy.Patient) (reliable : RecordStore.Reliable store) :
    ∃ stats after later, run outside policy entries store world = (.ok stats, after, later) ∧
      Isolated outside policy answer entries store world stats after ∧
      run outside.noting policy entries store ([], world) = (.ok stats, after,
        (entries.filterMap SourceEntry.asked?).flatMap (requests policy answer), later) ∧
      ∀ source, ∃ n, requests policy answer source = List.replicate n source.url ∧
        1 ≤ n ∧ n ≤ max 1 policy.maxAttempts := by
  let start : Progress σ ω := { store, world }
  let noted : Progress σ (List String × ω) := { store, world := ([], world) }
  obtain ⟨q, stepped, accounts⟩ := steps_accounts answers patient entries (p := start) reliable
  refine ⟨{ q.stats with uniqueRules := q.seen.size }, q.store, q.world,
    run_of_steps filled stepped, isolated_of_accounts answers patient reliable accounts, ?_, ?_⟩
  · have plain : steps outside policy entries start = _ := steps_noting outside policy entries noted
    have asked := steps_asked answers patient entries (p := noted) reliable
    rcases ran : steps outside.noting policy entries noted with ⟨done, r⟩
    rw [ran] at plain asked
    rw [stepped, Prod.mk.injEq] at plain
    obtain ⟨rfl, rfl⟩ := plain
    rw [List.nil_append] at asked
    rw [run_of_steps filled ran, ← asked]
    rfl
  · exact fun source => ⟨_, rfl, policy.tries_bounds (answer source.url)⟩

def twoAnswers (url : String) : Except FetchFailure (List UInt8) :=
  (Outside.twoLists.get url ()).1

/-- Two lists, an address that is not there, and two entries that are not asked for. -/
def mixedEntries : List SourceEntry :=
  [.base, .gone, { SourceEntry.base with name := none }, { SourceEntry.own with enabled := some false },
    .own]

theorem run_isolated_mixedEntries :
    mixedEntries ≠ [] ∧ Outside.twoLists.Answers twoAnswers ∧ RetryPolicy.standard.Patient ∧
      RecordStore.Reliable ({} : Store) ∧
      (∃ stats after later,
        run .twoLists .standard mixedEntries ({} : Store) () = (.ok stats, after, later) ∧
        Isolated .twoLists .standard twoAnswers mixedEntries {} () stats after) ∧
      (mixedEntries.filterMap (failure? (Outside.twoLists.fetched .standard ()))).map
        SourceFailure.source = ["gone", "<unnamed>"] ∧
      (mixedEntries.filterMap SourceEntry.asked?).flatMap (requests .standard twoAnswers) =
        ["https://lists.example/base", "https://lists.example/gone", "https://lists.example/gone",
          "https://lists.example/gone", "https://lists.example/own"] := by
  have filled : mixedEntries ≠ [] := List.cons_ne_nil _ _
  have answers : Outside.twoLists.Answers twoAnswers := fun _ _ => rfl
  have patient : RetryPolicy.standard.Patient := by decide
  have reliable := Store.reliable {}
  obtain ⟨stats, after, later, ran, isolated, -⟩ := run_isolated .twoLists .standard twoAnswers
    mixedEntries ({} : Store) () filled answers patient reliable
  refine ⟨filled, answers, patient, reliable, ⟨stats, after, later, ran, isolated⟩, ?_, ?_⟩
  · decide +kernel
  · decide +kernel

end

end Intake

end Blocklist
