import SupportOps.Python.Actions

/-!
# The retry loop

`execute_action_with_retry`: one action is attempted until it has succeeded or failed. Each
iteration reads the clock anew. The loop is given a number of iterations; a bound on the
attempts that are left is enough of them for every state but `skipped`, which the loop does
not leave.
-/
namespace SupportOps.Python

open Library

/-- The arguments of `execute_action_with_retry`, and the clock its iterations read. -/
structure RetryArgs where
  maxAttempts : Nat
  clock : Nat → Instant

/-- What the `i`-th iteration passes to `execute_action_once`. -/
def RetryArgs.once (args : RetryArgs) (i : Nat) : PassArgs where
  limit := 1
  maxAttempts := args.maxAttempts
  retryDelay := 0
  leaseSeconds := 0
  now := args.clock i
  leaseId := ""

/-- What a loop that returned has done. -/
structure RetryRun where
  action : Action
  store : Store
  calls : List (Nat × TransportReply)

/-- The loop from its `i`-th iteration on; `none` if it has not ended after `fuel` iterations. -/
def retryLoop (args : RetryArgs) (transport : Transport) :
    (fuel i : Nat) → Action → Store → Option (Except ExecuteError RetryRun)
  | 0, _, _, _ => none
  | fuel + 1, i, a, s =>
    if a.state = .succeeded ∨ a.state = .failed then some (.ok ⟨a, s, []⟩)
    else
      match executeActionOnce (args.once i) transport a with
      | .error e => some (.error e)
      | .ok (b, audits) =>
        let s := s.write (.updateAction (a.flush b) :: audits.map .insertAudit)
        (retryLoop args transport fuel (i + 1) b s).map fun outcome =>
          outcome.map fun run =>
            { run with calls := transportCalls (args.once i) transport a ++ run.calls }

/-- `execute_action_with_retry` -/
def executeActionWithRetry (args : RetryArgs) (transport : Transport) (fuel : Nat) (a : Action)
    (s : Store) : Option (Except ExecuteError RetryRun) :=
  if args.maxAttempts < 1 then some (.error .maxAttempts)
  else retryLoop args transport fuel 0 a s

/-- `execute_action_with_retry` on each of the actions, the `i`-th call with its own clock. -/
def executeEach (args : Nat → RetryArgs) (transport : Transport) (fuel : Nat) :
    Nat → List Action → Store → Option (Except ExecuteError Store)
  | _, [], s => some (.ok s)
  | i, a :: actions, s =>
    match executeActionWithRetry (args i) transport fuel a s with
    | none => none
    | some (.error e) => some (.error e)
    | some (.ok run) => executeEach args transport fuel (i + 1) actions run.store

/-! ## One iteration -/

/-- A delay of zero has a time. -/
theorem RetryArgs.once_timed (args : RetryArgs) (i : Nat) : (args.once i).Timed := by
  rw [PassArgs.Timed, once, plus_zero]
  rfl

theorem RetryArgs.not_overflows (args : RetryArgs) (i : Nat) (a : Action) (succeeded : Bool) :
    a.overflows (args.once i) succeeded = false := by
  have timed : (plus (args.once i).now (args.once i).retryDelay).isSome := args.once_timed i
  simp [Action.overflows, Option.isNone_eq_false_iff.mpr timed]

/-- The row an attempt leaves does not depend on its lease. -/
theorem Action.outcome_eq (args : PassArgs) (a : Action) (succeeded : Bool) (detail : String) :
    a.outcome args succeeded detail = a.attempt.settled args succeeded detail := by
  unfold outcome settled
  split
  · rfl
  · exact if_congr Iff.rfl rfl rfl

/-- The store after one attempt of the loop on a row. -/
def Store.retried (s : Store) (args : PassArgs) (a b : Action) : Store :=
  s.write [.updateAction (a.flush b), .insertAudit (b.executed args.now)]

section Iteration

variable {args : RetryArgs} {transport : Transport} {a : Action}

theorem retryLoop_finished (fuel i : Nat) (s : Store)
    (finished : a.state = .succeeded ∨ a.state = .failed) :
    retryLoop args transport (fuel + 1) i a s = some (.ok ⟨a, s, []⟩) := by
  rw [retryLoop, if_pos finished]

/-- An unfinished action is attempted, and the loop goes on with what the attempt left. -/
theorem retryLoop_attempt (fuel i : Nat) (s : Store) {succeeded : Bool} {detail : String}
    (positive : 1 ≤ args.maxAttempts) (unfinished : a.finished = false)
    (outcome : (transport a.attempt).outcome = some (succeeded, detail)) :
    retryLoop args transport (fuel + 1) i a s =
      (retryLoop args transport fuel (i + 1) (a.outcome (args.once i) succeeded detail)
        (s.retried (args.once i) a (a.outcome (args.once i) succeeded detail))).map fun o =>
          o.map fun run => { run with calls := (a.id, transport a.attempt) :: run.calls } := by
  have running : ¬ (a.state = .succeeded ∨ a.state = .failed) := by
    simp only [Action.finished, decide_eq_false_iff_not] at unfinished
    tauto
  have attempts : ¬ (args.once i).maxAttempts < 1 := Nat.not_lt.mpr positive
  rw [retryLoop, if_neg running]
  simp [executeActionOnce, transportCalls, attempts, unfinished, outcome, args.not_overflows,
    Action.outcome_eq, Store.retried]

theorem retryLoop_raises (fuel i : Nat) (s : Store) (positive : 1 ≤ args.maxAttempts)
    (unfinished : a.finished = false) (raised : (transport a.attempt).outcome = none) :
    retryLoop args transport (fuel + 1) i a s = some (.error .transport) := by
  have running : ¬ (a.state = .succeeded ∨ a.state = .failed) := by
    simp only [Action.finished, decide_eq_false_iff_not] at unfinished
    tauto
  have attempts : ¬ (args.once i).maxAttempts < 1 := Nat.not_lt.mpr positive
  rw [retryLoop, if_neg running]
  simp [executeActionOnce, attempts, unfinished, raised]

/-- A flush without a changed column writes nothing. -/
theorem Store.write_flush_self (s : Store) (a : Action) :
    s.write [.updateAction (a.flush a)] = s := by
  have same : ∀ r : Action, (a.flush a).apply r = r := by
    intro r
    simp [Action.flush, ActionUpdate.apply]
  have rows : s.actions.modify a.id (a.flush a).apply (a.flush a).key_apply = s.actions := by
    refine Table.ext ?_
    rw [Table.rows_modify]
    refine (List.map_congr_left fun r _ => ?_).trans (List.map_id _)
    rw [same, ite_self]
    rfl
  change { s with actions := s.actions.modify a.id (a.flush a).apply (a.flush a).key_apply } = s
  rw [rows]

/-- A skipped action is never attempted and never left. -/
theorem retryLoop_skipped (positive : 1 ≤ args.maxAttempts) (skipped : a.state = .skipped)
    (fuel i : Nat) (s : Store) : retryLoop args transport fuel i a s = none := by
  induction fuel generalizing i s with
  | zero => rfl
  | succ fuel ih =>
    have attempts : ¬ (args.once i).maxAttempts < 1 := Nat.not_lt.mpr positive
    have finished : a.finished = true := by simp [Action.finished, skipped]
    have once : executeActionOnce (args.once i) transport a = .ok (a, []) := by
      simp [executeActionOnce, attempts, finished]
    rw [retryLoop, if_neg (by simp [skipped]), once]
    simp only [List.map_nil, Store.write_flush_self, ih, Option.map_none]

/-- The states in which the loop is left, attempted, or stuck. -/
theorem Action.cases_finished (a : Action) :
    (a.state = .succeeded ∨ a.state = .failed) ∨ a.state = .skipped ∨ a.finished = false := by
  cases state : a.state <;> simp [Action.finished, state]

end Iteration

/-! ## Whole loops -/

section Loop

variable {args : RetryArgs} {transport : Transport}

@[simp] theorem Action.outcome_id (args : PassArgs) (a : Action) (succeeded : Bool)
    (detail : String) : (a.outcome args succeeded detail).id = a.id := by
  simp [Action.outcome_eq, Action.attempt]

@[simp] theorem Action.outcome_incidentId (args : PassArgs) (a : Action) (succeeded : Bool)
    (detail : String) : (a.outcome args succeeded detail).incidentId = a.incidentId := by
  simp [Action.outcome_eq, Action.attempt]

@[simp] theorem Action.outcome_attempts (args : PassArgs) (a : Action) (succeeded : Bool)
    (detail : String) : (a.outcome args succeeded detail).attempts = a.attempts + 1 := by
  simp [Action.outcome_eq, Action.attempt]

/-- The rows after an attempt of the loop. -/
theorem Store.rows_retried {s : Store} {a : Action} (args : PassArgs)
    (current : s.actions.find? a.id = some a) (succeeded : Bool) (detail : String) :
    (s.retried args a (a.outcome args succeeded detail)).actions.rows =
      s.actions.rows.map fun r => if r.id = a.id then a.outcome args succeeded detail else r :=
  s.rows_flush_action (a.outcome args succeeded detail) current
    (by simp) (by simp [Action.outcome_eq, Action.attempt])
    (by simp [Action.outcome_eq, Action.attempt]) (by simp [Action.outcome_eq, Action.attempt])

theorem Store.find?_retried {s : Store} {a : Action} (args : PassArgs)
    (current : s.actions.find? a.id = some a) (succeeded : Bool) (detail : String) (k : Nat) :
    (s.retried args a (a.outcome args succeeded detail)).actions.find? k =
      if k = a.id then some (a.outcome args succeeded detail) else s.actions.find? k :=
  Table.find?_of_rows_replace current (a.outcome_id args succeeded detail)
    (s.rows_retried args current succeeded detail) k

/-- What one attempt on an unfinished, stored row keeps, a loop that returns keeps; the row it
returns is stored. -/
theorem retryLoop_invariant {I : Store → Prop}
    (kept : ∀ s i a succeeded detail, I s → s.actions.find? a.id = some a → a.finished = false →
      (transport a.attempt).outcome = some (succeeded, detail) →
      I (s.retried (args.once i) a (a.outcome (args.once i) succeeded detail)))
    (positive : 1 ≤ args.maxAttempts) (fuel : Nat) :
    ∀ {i : Nat} {a : Action} {s : Store} {run : RetryRun}, I s →
      s.actions.find? a.id = some a →
      retryLoop args transport fuel i a s = some (.ok run) →
      I run.store ∧ run.store.actions.find? a.id = some run.action := by
  induction fuel with
  | zero => intro i a s run _ _ h; cases h
  | succ fuel ih =>
    intro i a s run start current h
    rcases a.cases_finished with ended | skipped | unfinished
    · rw [retryLoop_finished fuel i s ended] at h
      cases h
      exact ⟨start, current⟩
    · rw [retryLoop_skipped positive skipped] at h
      cases h
    · cases outcome : (transport a.attempt).outcome with
      | none => rw [retryLoop_raises fuel i s positive unfinished outcome] at h; cases h
      | some result =>
        obtain ⟨succeeded, detail⟩ := result
        rw [retryLoop_attempt fuel i s positive unfinished outcome] at h
        obtain ⟨ended, here, rest⟩ := Option.map_eq_some_iff.mp h
        cases ended with
        | error e => cases rest
        | ok later =>
          cases rest
          have next := s.find?_retried (args.once i) current succeeded detail a.id
          rw [if_pos rfl, ← a.outcome_id (args.once i) succeeded detail] at next
          obtain ⟨inside, stored⟩ :=
            ih (kept s i a succeeded detail start current unfinished outcome) next here
          rw [a.outcome_id] at stored
          exact ⟨inside, stored⟩

theorem executeActionWithRetry_eq (positive : 1 ≤ args.maxAttempts) (fuel : Nat) (a : Action)
    (s : Store) :
    executeActionWithRetry args transport fuel a s = retryLoop args transport fuel 0 a s :=
  if_neg (Nat.not_lt.mpr positive)

/-- What one attempt on an unfinished, stored row keeps, a call that returns keeps. -/
theorem executeActionWithRetry_invariant {I : Store → Prop}
    (kept : ∀ s i a succeeded detail, I s → s.actions.find? a.id = some a → a.finished = false →
      (transport a.attempt).outcome = some (succeeded, detail) →
      I (s.retried (args.once i) a (a.outcome (args.once i) succeeded detail)))
    {fuel : Nat} {a : Action} {s : Store} {run : RetryRun} (start : I s)
    (current : s.actions.find? a.id = some a)
    (h : executeActionWithRetry args transport fuel a s = some (.ok run)) :
    I run.store ∧ run.store.actions.find? a.id = some run.action := by
  unfold executeActionWithRetry at h
  split at h
  · cases h
  · next positive => exact retryLoop_invariant kept (Nat.not_lt.mp positive) fuel start current h

/-- After an attempt that was the last one allowed, the action is finished. -/
theorem Action.ended_or_lt (args : PassArgs) (a : Action) (succeeded : Bool) (detail : String) :
    ((a.outcome args succeeded detail).state = .succeeded ∨
      (a.outcome args succeeded detail).state = .failed) ∨
    (a.outcome args succeeded detail).finished = false ∧ a.attempts + 1 < args.maxAttempts := by
  cases open_ : (a.outcome args succeeded detail).finished with
  | false =>
    rw [a.outcome_eq] at open_
    exact .inr ⟨rfl, Action.attempts_lt_of_settled_unfinished args a.attempt succeeded detail open_⟩
  | true =>
    rcases (a.outcome args succeeded detail).cases_finished with ended | skipped | unfinished
    · exact .inl ended
    · rw [a.outcome_eq, Action.settled_state] at skipped
      split at skipped
      · cases skipped
      · split at skipped <;> cases skipped
    · rw [open_] at unfinished; cases unfinished

/-- One iteration for each attempt that is left, and one to leave the loop, are enough. -/
theorem retryLoop_isSome (positive : 1 ≤ args.maxAttempts) (fuel : Nat) :
    ∀ (i : Nat) (a : Action) (s : Store), a.state ≠ .skipped →
      max 1 (args.maxAttempts - a.attempts) < fuel →
      (retryLoop args transport fuel i a s).isSome := by
  induction fuel with
  | zero => intro i a s _ enough; omega
  | succ fuel ih =>
    intro i a s going enough
    rcases a.cases_finished with ended | skipped | unfinished
    · rw [retryLoop_finished fuel i s ended]; rfl
    · exact absurd skipped going
    · cases outcome : (transport a.attempt).outcome with
      | none => rw [retryLoop_raises fuel i s positive unfinished outcome]; rfl
      | some result =>
        obtain ⟨succeeded, detail⟩ := result
        rw [retryLoop_attempt fuel i s positive unfinished outcome, Option.isSome_map]
        obtain ⟨fuel, rfl⟩ : ∃ n, fuel = n + 1 := ⟨fuel - 1, by omega⟩
        rcases a.ended_or_lt (args.once i) succeeded detail with ended | ⟨open_, left⟩
        · rw [retryLoop_finished fuel (i + 1) _ ended]; rfl
        · have left : a.attempts + 1 < args.maxAttempts := left
          refine ih (i + 1) _ _ ?_ ?_
          · intro skipped
            simp [Action.finished, skipped] at open_
          · rw [Action.outcome_attempts]; omega

/-- The loop on an action that is not skipped returns a finished action, after as many transport
calls as there were attempts left, but at least one on an unfinished action. -/
theorem retryLoop_returns (positive : 1 ≤ args.maxAttempts) (calm : transport.Calm) (fuel : Nat) :
    ∀ (i : Nat) (a : Action) (s : Store), a.state ≠ .skipped →
      max 1 (args.maxAttempts - a.attempts) < fuel →
      ∃ run, retryLoop args transport fuel i a s = some (.ok run) ∧
        (run.action.state = .succeeded ∨ run.action.state = .failed) ∧
        run.calls.length ≤ max 1 (args.maxAttempts - a.attempts) := by
  induction fuel with
  | zero => intro i a s _ enough; omega
  | succ fuel ih =>
    intro i a s going enough
    rcases a.cases_finished with ended | skipped | unfinished
    · exact ⟨_, retryLoop_finished fuel i s ended, ended, Nat.zero_le _⟩
    · exact absurd skipped going
    · obtain ⟨succeeded, detail, outcome⟩ := calm.outcome a.attempt
      obtain ⟨fuel, rfl⟩ : ∃ n, fuel = n + 1 := ⟨fuel - 1, by omega⟩
      rw [retryLoop_attempt (fuel + 1) i s positive unfinished outcome]
      rcases a.ended_or_lt (args.once i) succeeded detail with ended | ⟨open_, left⟩
      · refine ⟨_, by rw [retryLoop_finished fuel (i + 1) _ ended]; rfl, ended, ?_⟩
        simp
      · have left : a.attempts + 1 < args.maxAttempts := left
        have next : (a.outcome (args.once i) succeeded detail).state ≠ .skipped := by
          intro skipped
          simp [Action.finished, skipped] at open_
        obtain ⟨run, returned, ended, calls⟩ :=
          ih (i + 1) (a.outcome (args.once i) succeeded detail)
            (s.retried (args.once i) a (a.outcome (args.once i) succeeded detail)) next
            (by rw [Action.outcome_attempts]; omega)
        refine ⟨{ run with calls := (a.id, transport a.attempt) :: run.calls },
          by rw [returned]; rfl, ended, ?_⟩
        rw [Action.outcome_attempts] at calls
        simp only [List.length_cons]
        omega

end Loop

/-! ## Termination -/

/-- No pass selects the action, and no attempt calls the transport for it. -/
def Action.NeverExecuted (a : Action) : Prop :=
  ∀ args, due args a = false ∧ ∀ transport, transportCalls args transport a = []

theorem Action.neverExecuted_of_finished {a : Action} (finished : a.finished = true) :
    a.NeverExecuted := by
  intro args
  constructor
  · by_contra selected
    rw [unfinished_of_due (by simpa using selected)] at finished
    cases finished
  · intro transport
    simp [transportCalls, finished]

/-- With a transport that returns or times out the loop ends, within the attempts that are left
and with an action that is never executed again, exactly if the action is not skipped. -/
theorem executeActionWithRetry_terminates_iff (args : RetryArgs) (transport : Transport)
    (positive : 1 ≤ args.maxAttempts) (calm : transport.Calm) (a : Action) (s : Store) :
    (∃ fuel run, executeActionWithRetry args transport fuel a s = some (.ok run) ∧
        run.calls.length ≤ max 1 (args.maxAttempts - a.attempts) ∧ run.action.NeverExecuted) ↔
      a.state ≠ .skipped := by
  have entered := @executeActionWithRetry_eq args transport positive
  constructor
  · rintro ⟨fuel, run, returned, -, -⟩ skipped
    rw [entered, retryLoop_skipped positive skipped] at returned
    cases returned
  · intro going
    obtain ⟨run, returned, ended, calls⟩ := retryLoop_returns positive calm
      (max 1 (args.maxAttempts - a.attempts) + 1) 0 a s going (Nat.lt_succ_self _)
    refine ⟨_, run, (entered _ a s).trans returned, calls, Action.neverExecuted_of_finished ?_⟩
    rcases ended with state | state <;> simp [Action.finished, state]

/-- An action that has failed once before. -/
def failedOnce : Action where
  id := 1
  incidentId := 1
  actionType := "create_ticket"
  state := .retry
  attempts := 1
  detail := "fail_once"
  nextAttemptAt := some 0
  leaseId := none
  leasedAt := none
  createdAt := 0
  updatedAt := 0

theorem executeActionWithRetry_failedOnce :
    ∃ fuel run, executeActionWithRetry ⟨3, fun _ => 0⟩ (defaultTransport 1) fuel failedOnce
        Store.empty = some (.ok run) ∧ run.calls.length ≤ 2 ∧ run.action.NeverExecuted :=
  (executeActionWithRetry_terminates_iff ⟨3, fun _ => 0⟩ (defaultTransport 1) (by decide)
    (calm_defaultTransport 1) failedOnce Store.empty).mpr (by decide)

/-- The loop on a skipped action does not return, however long it runs. -/
theorem retry_of_skipped_never_returns :
    ¬ ∃ fuel outcome, executeActionWithRetry ⟨3, fun _ => 0⟩ (defaultTransport 1) fuel
      { failedOnce with state := .skipped } Store.empty = some outcome := by
  rintro ⟨fuel, outcome, returned⟩
  have loops : executeActionWithRetry ⟨3, fun _ => 0⟩ (defaultTransport 1) fuel
      { failedOnce with state := .skipped } Store.empty = none :=
    retryLoop_skipped (by decide) rfl fuel 0 Store.empty
  rw [loops] at returned
  cases returned

end SupportOps.Python
