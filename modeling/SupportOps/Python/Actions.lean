import SupportOps.Python.Writes

/-!
# The action queue

`execute_action_once`, `process_due_actions` and `ActionWorker.run_once`. A transport answers
an attempt with a result or an exception; its answer may depend on the action row it is
given. The transport's timeout argument is part of the transport.
-/
namespace SupportOps.Python

open Library

/-- How a transport call ends. -/
inductive TransportReply where
  /-- `ActionAttemptResult` -/
  | result (succeeded : Bool) (detail : String)
  /-- `TimeoutError` -/
  | timeoutError (text : String)
  /-- `ActionTimeoutError` -/
  | actionTimeoutError (text : String)
  /-- any other exception -/
  | otherError
  deriving DecidableEq, Repr

abbrev Transport := Action → TransportReply

namespace TransportReply

/-- `succeeded` and `outcome_detail`, unless the exception is not caught. -/
def outcome : TransportReply → Option (Bool × String)
  | .result succeeded detail => some (succeeded, detail)
  | .timeoutError text => some (false, "timeout: " ++ text)
  | .actionTimeoutError text => some (false, text)
  | .otherError => none

/-- The transport reported success. -/
def reportsSuccess : TransportReply → Bool
  | .result succeeded _ => succeeded
  | _ => false

theorem outcome_eq_none_iff (r : TransportReply) : r.outcome = none ↔ r = .otherError := by
  cases r <;> simp [outcome]

theorem succeeded_of_outcome {r : TransportReply} {succeeded : Bool} {detail : String}
    (h : r.outcome = some (succeeded, detail)) : r.reportsSuccess = succeeded := by
  cases r <;> simp_all [outcome, reportsSuccess]

end TransportReply

/-- The transport returns or times out. -/
def Transport.Calm (transport : Transport) : Prop := ∀ a, transport a ≠ .otherError

theorem Transport.Calm.outcome {transport : Transport} (calm : transport.Calm) (a : Action) :
    ∃ succeeded detail, (transport a).outcome = some (succeeded, detail) := by
  obtain ⟨⟨succeeded, detail⟩, outcome⟩ := Option.ne_none_iff_exists'.mp fun none =>
    calm a ((TransportReply.outcome_eq_none_iff _).mp none)
  exact ⟨succeeded, detail, outcome⟩

/-- `part in text`. -/
def contains (part text : String) : Bool := search text.toList
where
  search : List Char → Bool
    | [] => part.toList.isPrefixOf []
    | c :: cs => part.toList.isPrefixOf (c :: cs) || search cs

/-- `default_transport`, given a timeout in microseconds. -/
def defaultTransport (timeout : Int) (action : Action) : TransportReply :=
  if timeout ≤ 0 then .actionTimeoutError "timeout must be positive"
  else if contains "permanent_failure" action.detail then
    .result false "synthetic permanent failure"
  else if (contains "fail_once" action.detail ||
      contains "transient_then_success" action.detail) && decide (action.attempts ≤ 1) then
    .result false "synthetic transient failure"
  else .result true ("synthetic " ++ action.actionType ++ " completed")

theorem calm_defaultTransport (timeout : Int) : Transport.Calm (defaultTransport timeout) := by
  intro a
  unfold defaultTransport
  split
  · simp
  · split
    · simp
    · split <;> simp

/-- The arguments of one `process_due_actions` call; `leaseId` is the fresh lease. Rows that its
query leaves in either order come as their ids do in `ties`. -/
structure PassArgs where
  limit : Nat
  maxAttempts : Nat
  retryDelay : Int
  leaseSeconds : Int
  now : Instant
  leaseId : String
  ties : List Nat := []
  deriving DecidableEq, Repr

namespace PassArgs

variable (args : PassArgs)

/-- `now - timedelta(seconds=lease_seconds)` -/
def staleLeaseBefore : Option Instant := plus args.now (-seconds args.leaseSeconds)

/-- The time of a repetition is a `datetime`. -/
def Timed : Prop := (plus args.now args.retryDelay).isSome

instance : Decidable args.Timed := inferInstanceAs (Decidable (_ = true))

end PassArgs

/-! ## One attempt -/

inductive ExecuteError where
  /-- `ValueError("max_attempts must be at least 1")` -/
  | maxAttempts
  /-- an exception of the transport that is not a timeout -/
  | transport
  /-- `OverflowError` of `datetime` arithmetic -/
  | overflow
  deriving DecidableEq, Repr

namespace Action

/-- The states `execute_action_once` leaves alone. -/
def finished (a : Action) : Bool :=
  a.state = .succeeded ∨ a.state = .failed ∨ a.state = .skipped

/-- `attempts += 1`, before the transport is called. -/
def attempt (a : Action) : Action := { a with attempts := a.attempts + 1 }

/-- No further attempt follows a failure of this one. -/
def lastAttempt (args : PassArgs) (a : Action) : Bool :=
  contains "permanent_failure" a.detail || decide (args.maxAttempts ≤ a.attempts)

/-- The lease given back. -/
def released (args : PassArgs) (a : Action) : Action :=
  { a with leaseId := none, leasedAt := none, updatedAt := args.now }

/-- The attempt is to be repeated at a time that is no `datetime`. -/
def overflows (args : PassArgs) (a : Action) (succeeded : Bool) : Bool :=
  !succeeded && !a.lastAttempt args && (plus args.now args.retryDelay).isNone

/-- The row after the outcome of an attempt that does not overflow. -/
def settled (args : PassArgs) (a : Action) (succeeded : Bool) (detail : String) : Action :=
  if succeeded then { a.released args with state := .succeeded, detail := detail }
  else if a.lastAttempt args then { a.released args with state := .failed, detail := detail }
  else
    { a.released args with
      state := .retry
      nextAttemptAt := some (args.now + args.retryDelay) }

/-- The row with the lease of a pass. -/
def leased (args : PassArgs) (a : Action) : Action :=
  { a with leaseId := some args.leaseId, leasedAt := some args.now }

/-- The `action_executed` audit row. -/
def executed (a : Action) (now : Instant) : AuditLog :=
  ⟨"action_executed", "action", a.id,
    a.actionType ++ " finished as " ++ a.state.value ++ " after " ++ toString a.attempts
      ++ " attempts", now⟩

end Action

/-- `execute_action_once`: the row and its audit row, if an attempt was made. -/
def executeActionOnce (args : PassArgs) (transport : Transport) (a : Action) :
    Except ExecuteError (Action × List AuditLog) :=
  if args.maxAttempts < 1 then .error .maxAttempts
  else if a.finished then .ok (a, [])
  else
    match (transport a.attempt).outcome with
    | none => .error .transport
    | some (succeeded, detail) =>
      if a.attempt.overflows args succeeded then .error .overflow
      else
        let b := a.attempt.settled args succeeded detail
        .ok (b, [b.executed args.now])

/-- Nothing is raised once the transport has been called: it returns or times out, and the time of
a repetition is a `datetime`. -/
def Action.settles (args : PassArgs) (transport : Transport) (a : Action) : Bool :=
  match (transport a.attempt).outcome with
  | none => false
  | some (succeeded, _) => !a.attempt.overflows args succeeded

/-- The transport calls of `execute_action_once`: action and reply. -/
def transportCalls (args : PassArgs) (transport : Transport) (a : Action) :
    List (Nat × TransportReply) :=
  if args.maxAttempts < 1 ∨ a.finished then [] else [(a.id, transport a.attempt)]

/-! ## One pass -/

/-- The `WHERE` clauses of the due rows, where the age of a stale lease is a `datetime`. A null
`leased_at` is not old. -/
def due (args : PassArgs) (a : Action) : Bool :=
  decide (a.state = .queued ∨ a.state = .retry) &&
    (a.nextAttemptAt.all fun t => decide (t ≤ args.now)) &&
    (a.leaseId.isNone ||
      a.leasedAt.any fun t => decide (t ≤ args.now - seconds args.leaseSeconds))

/-- `ORDER BY next_attempt_at ASC NULLS FIRST, created_at ASC`. -/
def dueBefore (a b : Action) : Prop :=
  match a.nextAttemptAt, b.nextAttemptAt with
  | none, some _ => True
  | some _, none => False
  | none, none => a.createdAt ≤ b.createdAt
  | some s, some t => s < t ∨ s = t ∧ a.createdAt ≤ b.createdAt

instance : DecidableRel dueBefore := fun a b => by
  unfold dueBefore; split <;> exact inferInstance

def dueActions (args : PassArgs) (s : Store) : List Action :=
  s.actions.select (due args) (tied Action.id args.ties dueBefore) args.limit

/-- What a batch has done when it returns or raises. -/
structure BatchRun where
  store : Store
  rows : List Action
  calls : List (Nat × TransportReply)
  failure : Option ExecuteError

/-- The loop of `process_due_actions` over the rows it loaded. -/
def processBatch (args : PassArgs) (transport : Transport) : List Action → Store → BatchRun
  | [], s => ⟨s, [], [], none⟩
  | a :: rest, s =>
    let leased := a.leased args
    let calls := transportCalls args transport leased
    let s := s.write [.updateAction (a.flush leased)]
    match executeActionOnce args transport leased with
    | .error e => ⟨s, [], calls, some e⟩
    | .ok (b, audits) =>
      let s := s.write (.updateAction (leased.flush b) :: audits.map .insertAudit)
      let run := processBatch args transport rest s
      { run with rows := b :: run.rows, calls := calls ++ run.calls }

/-- The counters `process_due_actions` returns. -/
structure PassCounts where
  processed : Nat
  succeeded : Nat
  failed : Nat
  retried : Nat
  deriving DecidableEq, Repr

def PassCounts.of (rows : List Action) : PassCounts where
  processed := rows.length
  succeeded := rows.countP fun a => a.state = .succeeded
  failed := rows.countP fun a => a.state = .failed
  retried := rows.countP fun a => a.state = .retry

/-- `process_due_actions`. -/
def processDueActions (args : PassArgs) (transport : Transport) (s : Store) : BatchRun :=
  match args.staleLeaseBefore with
  | none => ⟨s, [], [], some .overflow⟩
  | some _ => processBatch args transport (dueActions args s) s

/-- `ActionWorker.run_once`: commit the pass, or roll all of it back. -/
def runOnce (args : PassArgs) (transport : Transport) (s : Store) : Store :=
  let run := processDueActions args transport s
  if run.failure.isNone then run.store else s

/-! ## What one attempt does to a row -/

namespace Action

variable (args : PassArgs) (a : Action) (succeeded : Bool) (detail : String)

@[simp] theorem settled_id : (a.settled args succeeded detail).id = a.id := by
  unfold settled; split <;> [rfl; (split <;> rfl)]

@[simp] theorem settled_incidentId :
    (a.settled args succeeded detail).incidentId = a.incidentId := by
  unfold settled; split <;> [rfl; (split <;> rfl)]

@[simp] theorem settled_actionType :
    (a.settled args succeeded detail).actionType = a.actionType := by
  unfold settled; split <;> [rfl; (split <;> rfl)]

@[simp] theorem settled_createdAt :
    (a.settled args succeeded detail).createdAt = a.createdAt := by
  unfold settled; split <;> [rfl; (split <;> rfl)]

@[simp] theorem settled_attempts : (a.settled args succeeded detail).attempts = a.attempts := by
  unfold settled; split <;> [rfl; (split <;> rfl)]

theorem settled_state : (a.settled args succeeded detail).state =
    if succeeded then .succeeded else if a.lastAttempt args then .failed else .retry := by
  unfold settled; split <;> [rfl; (split <;> rfl)]

/-- An attempt that leaves the action in the queue was not its last. -/
theorem attempts_lt_of_settled_unfinished (h : (a.settled args succeeded detail).finished = false) :
    a.attempts < args.maxAttempts := by
  unfold finished at h
  rw [settled_state] at h
  cases succeeded with
  | true => simp at h
  | false =>
    cases last : a.lastAttempt args with
    | true => simp [last] at h
    | false =>
      simp only [lastAttempt, Bool.or_eq_false_iff, decide_eq_false_iff_not] at last
      omega

end Action

/-! ## What a batch does to the store -/

/-- The store after one attempt on a row: the flush of the lease, then that of the outcome. -/
def Store.attempted (s : Store) (args : PassArgs) (a b : Action) : Store :=
  (s.write [.updateAction (a.flush (a.leased args))]).write
    [.updateAction ((a.leased args).flush b), .insertAudit (b.executed args.now)]

/-- The row an attempt leaves, from the transport's outcome. -/
def Action.outcome (args : PassArgs) (a : Action) (succeeded : Bool) (detail : String) : Action :=
  (a.leased args).attempt.settled args succeeded detail

section Attempt

variable {s : Store} (args : PassArgs) {a : Action} (current : s.actions.find? a.id = some a)
  (succeeded : Bool) (detail : String)

include current

theorem Store.rows_attempted :
    (s.attempted args a (a.outcome args succeeded detail)).actions.rows =
      s.actions.rows.map fun r => if r.id = a.id then a.outcome args succeeded detail else r := by
  set leased := s.write [.updateAction (a.flush (a.leased args))] with hleased
  have first : leased.actions.rows = s.actions.rows.map fun r =>
      if r.id = a.id then a.leased args else r :=
    s.rows_flush_action (a.leased args) current rfl rfl rfl rfl
  have here : leased.actions.find? (a.leased args).id = some (a.leased args) := by
    have := s.find?_flush_action (a.leased args) current rfl rfl rfl rfl a.id
    rwa [if_pos rfl] at this
  have second := leased.rows_flush_action (a.outcome args succeeded detail) here
    (by simp [Action.outcome, Action.attempt]) (by simp [Action.outcome, Action.attempt])
    (by simp [Action.outcome, Action.attempt]) (by simp [Action.outcome, Action.attempt])
  change ((Write.updateAction _).apply leased).actions.rows = _
  rw [second, first, List.map_map]
  refine List.map_congr_left fun r _ => ?_
  by_cases h : r.id = a.id <;> simp [h, Action.leased]

theorem Store.find?_attempted (k : Nat) :
    (s.attempted args a (a.outcome args succeeded detail)).actions.find? k =
      if k = a.id then some (a.outcome args succeeded detail) else s.actions.find? k := by
  have id : (a.outcome args succeeded detail).id = a.id := by
    simp [Action.outcome, Action.attempt, Action.leased]
  exact Table.find?_of_rows_replace current id
    (Store.rows_attempted args current succeeded detail) k

end Attempt

section Settling

variable {args : PassArgs} {transport : Transport} {a : Action}

theorem Action.settles_iff : a.settles args transport = true ↔
    ∃ succeeded detail, (transport a.attempt).outcome = some (succeeded, detail) ∧
      a.attempt.overflows args succeeded = false := by
  unfold settles
  cases outcome : (transport a.attempt).outcome with
  | none => simp
  | some result =>
    obtain ⟨succeeded, detail⟩ := result
    simp

/-- Where a repetition has a time, only the transport can raise. -/
theorem Action.settles_of_timed (timed : args.Timed) (returns : transport a.attempt ≠ .otherError) :
    a.settles args transport = true := by
  obtain ⟨⟨succeeded, detail⟩, outcome⟩ := Option.ne_none_iff_exists'.mp fun none =>
    returns ((TransportReply.outcome_eq_none_iff _).mp none)
  refine Action.settles_iff.mpr ⟨succeeded, detail, outcome, ?_⟩
  unfold PassArgs.Timed at timed
  simp [overflows, Option.isNone_eq_false_iff.mpr timed]

/-- What an attempt on an unfinished action does. -/
theorem executeActionOnce_of_settles (positive : 1 ≤ args.maxAttempts)
    (unfinished : a.finished = false) {succeeded : Bool} {detail : String}
    (outcome : (transport a.attempt).outcome = some (succeeded, detail))
    (fits : a.attempt.overflows args succeeded = false) :
    executeActionOnce args transport a =
      .ok (a.attempt.settled args succeeded detail,
        [(a.attempt.settled args succeeded detail).executed args.now]) := by
  have attempts : ¬ args.maxAttempts < 1 := Nat.not_lt.mpr positive
  simp [executeActionOnce, attempts, unfinished, outcome, fits]

/-- An attempt raises where none is allowed, and where it does not settle. -/
theorem executeActionOnce_isError (unfinished : a.finished = false) :
    (∃ e, executeActionOnce args transport a = .error e) ↔
      args.maxAttempts < 1 ∨ a.settles args transport = false := by
  unfold executeActionOnce Action.settles
  by_cases attempts : args.maxAttempts < 1
  · simp [attempts]
  · cases outcome : (transport a.attempt).outcome with
    | none => simp [attempts, unfinished]
    | some result =>
      cases past : a.attempt.overflows args result.1 <;> simp [attempts, unfinished, past]

theorem processBatch_cons (rest : List Action) (s : Store) {succeeded : Bool} {detail : String}
    (positive : 1 ≤ args.maxAttempts) (unfinished : a.finished = false)
    (outcome : (transport (a.leased args).attempt).outcome = some (succeeded, detail))
    (fits : (a.leased args).attempt.overflows args succeeded = false) :
    processBatch args transport (a :: rest) s =
      { processBatch args transport rest
          (s.attempted args a (a.outcome args succeeded detail)) with
        rows := a.outcome args succeeded detail :: (processBatch args transport rest
          (s.attempted args a (a.outcome args succeeded detail))).rows
        calls := (a.id, transport (a.leased args).attempt) :: (processBatch args transport rest
          (s.attempted args a (a.outcome args succeeded detail))).calls } := by
  have attempts : ¬ args.maxAttempts < 1 := by omega
  have leased : (a.leased args).finished = false := unfinished
  have id : (a.leased args).id = a.id := rfl
  simp [processBatch, executeActionOnce_of_settles positive leased outcome fits, transportCalls,
    attempts, leased, id, Store.attempted, Action.outcome]

theorem processBatch_cons_failure (rest : List Action) (s : Store) (unfinished : a.finished = false)
    (stuck : args.maxAttempts < 1 ∨ (a.leased args).settles args transport = false) :
    (processBatch args transport (a :: rest) s).failure.isSome := by
  obtain ⟨e, raised⟩ :=
    (executeActionOnce_isError (a := a.leased args) unfinished).mpr stuck
  simp [processBatch, raised]

/-- A batch raises exactly when attempts are not allowed or one does not settle. -/
theorem processBatch_failure_eq_none (positive : 1 ≤ args.maxAttempts) {batch : List Action}
    (quiet : ∀ a ∈ batch, a.finished = false ∧ (a.leased args).settles args transport = true)
    (s : Store) : (processBatch args transport batch s).failure = none := by
  induction batch generalizing s with
  | nil => rfl
  | cons a rest ih =>
    obtain ⟨unfinished, settles⟩ := quiet a (List.mem_cons_self ..)
    obtain ⟨succeeded, detail, outcome, fits⟩ := Action.settles_iff.mp settles
    rw [processBatch_cons rest s positive unfinished outcome fits]
    exact ih (fun r hr => quiet r (List.mem_cons_of_mem _ hr)) _

end Settling

/-- What one attempt on an unfinished, current row keeps, a batch that returns keeps. -/
theorem processBatch_invariant {args : PassArgs} {transport : Transport}
    {I : Store → List (Nat × TransportReply) → Prop}
    (kept : ∀ s calls a succeeded detail, I s calls → s.actions.find? a.id = some a →
      a.finished = false →
      (transport (a.leased args).attempt).outcome = some (succeeded, detail) →
      I (s.attempted args a (a.outcome args succeeded detail))
        (calls ++ [(a.id, transport (a.leased args).attempt)]))
    (batch : List Action) :
    ∀ {s : Store} (calls : List (Nat × TransportReply)), I s calls →
      (batch.map Action.id).Nodup →
      (∀ a ∈ batch, s.actions.find? a.id = some a ∧ a.finished = false) →
      (processBatch args transport batch s).failure = none →
      I (processBatch args transport batch s).store
        (calls ++ (processBatch args transport batch s).calls) := by
  induction batch with
  | nil => intro s calls h _ _ _; simpa [processBatch] using h
  | cons a rest ih =>
    intro s calls h nodup rows returns
    obtain ⟨current, unfinished⟩ := rows a (List.mem_cons_self ..)
    have positive : 1 ≤ args.maxAttempts := by
      by_contra stuck
      have raised : (processBatch args transport (a :: rest) s).failure.isSome :=
        processBatch_cons_failure rest s unfinished (Or.inl (Nat.not_le.mp stuck))
      rw [returns] at raised
      cases raised
    have settles : (a.leased args).settles args transport = true := by
      by_contra stuck
      have raised := processBatch_cons_failure rest s unfinished (Or.inr (by simpa using stuck))
      rw [returns] at raised
      cases raised
    obtain ⟨succeeded, detail, outcome, fits⟩ := Action.settles_iff.mp settles
    have distinct := List.nodup_cons.mp nodup
    rw [processBatch_cons rest s positive unfinished outcome fits] at returns ⊢
    have later := ih _ (kept s calls a succeeded detail h current unfinished outcome) distinct.2
      (fun r hr => by
        obtain ⟨here, still⟩ := rows r (List.mem_cons_of_mem _ hr)
        have other : r.id ≠ a.id := fun e => distinct.1 (e ▸ List.mem_map_of_mem hr)
        refine ⟨?_, still⟩
        rw [Store.find?_attempted args current, if_neg other, here]) returns
    simpa [List.append_assoc] using later

theorem unfinished_of_due {args : PassArgs} {a : Action} (h : due args a = true) :
    a.finished = false := by
  simp only [due, Bool.and_eq_true, decide_eq_true_eq] at h
  rcases h.1.1 with state | state <;> simp [Action.finished, state]

/-- The rows a pass selects are stored as they were loaded, and unfinished. -/
theorem dueActions_current {args : PassArgs} {s : Store} :
    ∀ a ∈ dueActions args s, s.actions.find? a.id = some a ∧ a.finished = false := by
  intro a ha
  obtain ⟨stored, selected⟩ := Table.mem_of_mem_select _ ha
  exact ⟨s.actions.find?_of_mem stored, unfinished_of_due selected⟩

theorem dueActions_nodup (args : PassArgs) (s : Store) :
    ((dueActions args s).map Action.id).Nodup := Table.nodup_select _ _ _ _

/-! ## The pass -/

section Pass

variable {args : PassArgs} {transport : Transport} {s : Store}

/-- A pass that gets to its query is the batch of the rows it selects. -/
theorem processDueActions_eq (lease : args.staleLeaseBefore.isSome) :
    processDueActions args transport s = processBatch args transport (dueActions args s) s := by
  obtain ⟨before, lease⟩ := Option.isSome_iff_exists.mp lease
  rw [processDueActions, lease]

theorem processDueActions_of_overflow (lease : args.staleLeaseBefore = none) :
    processDueActions args transport s = ⟨s, [], [], some .overflow⟩ := by
  rw [processDueActions, lease]

theorem staleLeaseBefore_isSome (returns : (processDueActions args transport s).failure = none) :
    args.staleLeaseBefore.isSome := by
  by_contra lease
  rw [processDueActions_of_overflow (by simpa using lease)] at returns
  cases returns

/-- What one attempt on an unfinished, current row keeps, a pass that returns keeps. -/
theorem processDueActions_invariant {I : Store → List (Nat × TransportReply) → Prop}
    (kept : ∀ s calls a succeeded detail, I s calls → s.actions.find? a.id = some a →
      a.finished = false →
      (transport (a.leased args).attempt).outcome = some (succeeded, detail) →
      I (s.attempted args a (a.outcome args succeeded detail))
        (calls ++ [(a.id, transport (a.leased args).attempt)]))
    (calls : List (Nat × TransportReply)) (start : I s calls)
    (returns : (processDueActions args transport s).failure = none) :
    I (processDueActions args transport s).store
      (calls ++ (processDueActions args transport s).calls) := by
  have lease := staleLeaseBefore_isSome returns
  rw [processDueActions_eq lease] at returns ⊢
  exact processBatch_invariant kept _ calls start (dueActions_nodup args s) dueActions_current
    returns

/-- What one attempt on an unfinished, current row keeps, a worker's pass keeps. -/
theorem runOnce_invariant {I : Store → Prop}
    (kept : ∀ t a succeeded detail, I t → t.actions.find? a.id = some a → a.finished = false →
      (transport (a.leased args).attempt).outcome = some (succeeded, detail) →
      I (t.attempted args a (a.outcome args succeeded detail)))
    (start : I s) : I (runOnce args transport s) := by
  unfold runOnce
  by_cases returns : (processDueActions args transport s).failure = none
  · simp only [returns, Option.isNone_none, if_true]
    exact processDueActions_invariant
      (fun t _ a succeeded detail h current unfinished outcome =>
        kept t a succeeded detail h current unfinished outcome) [] start returns
  · simpa [returns] using start

end Pass

end SupportOps.Python
