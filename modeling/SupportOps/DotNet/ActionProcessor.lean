import Mathlib.Logic.Function.Basic
import SupportOps.DotNet.Ingestion
import SupportOps.Library.Runs

/-!
# Action processing

`ProcessPendingAsync` with its executor: a batch reads its due rows once and writes every row back
by id, one store call after another. Any number of batches run at once, as the worker's loop and
the maintenance endpoint do, while ingestion adds actions.
-/
namespace SupportOps.DotNet

open Library

inductive ActionExecutionKind where
  | success | transientFailure | permanentFailure
  deriving DecidableEq, Repr

structure ActionExecutionResult where
  kind : ActionExecutionKind
  message : String
  deriving DecidableEq, Repr

/-- `SyntheticActionExecutor.Execute`. -/
def execute (action : QueuedAction) (attempt : Nat) : ActionExecutionResult :=
  if action.executorMode = ExecutorModes.permanentFailure then
    ⟨.permanentFailure, "Synthetic permanent failure."⟩
  else if action.executorMode = ExecutorModes.transientThenSuccess ∧ attempt = 1 then
    ⟨.transientFailure, "Synthetic transient failure."⟩
  else ⟨.success, "ok"⟩

/-- No attempt follows. -/
def ActionStatus.final : ActionStatus → Bool
  | .queued | .retry => false
  | .succeeded | .failedPermanent | .failedExhausted => true

structure ActionProcessingBatchResult where
  processed : Nat
  succeeded : Nat
  retried : Nat
  failed : Nat
  skipped : Nat
  deriving DecidableEq, Repr

/-- What one iteration writes: the row, and its audit row. -/
structure Attempted where
  action : QueuedAction
  audit : AuditLogEntry
  deriving DecidableEq, Repr

/-- One iteration up to its store calls. -/
def attempt (options : OpsProcessingOptions) (action : QueuedAction) (updatedAt : Instant) :
    Attempted :=
  let attempt := action.attempts + 1
  let outcome := execute action attempt
  if outcome.kind = .success then
    { action := { action with
        status := .succeeded
        attempts := attempt
        updatedAt := updatedAt
        nextAttemptAt := updatedAt
        lastError := none }
      audit := ⟨"action", action.id, .actionSucceeded, "Synthetic action succeeded.", updatedAt⟩ }
  else if outcome.kind = .transientFailure ∧ attempt < action.maxAttempts then
    { action := { action with
        status := .retry
        attempts := attempt
        updatedAt := updatedAt
        nextAttemptAt := updatedAt + options.retryDelay
        lastError := some outcome.message }
      audit := ⟨"action", action.id, .actionTransientFailure, outcome.message, updatedAt⟩ }
  else
    { action := { action with
        status := if outcome.kind = .permanentFailure then .failedPermanent else .failedExhausted
        attempts := attempt
        updatedAt := updatedAt
        nextAttemptAt := updatedAt
        lastError := some outcome.message }
      audit := ⟨"action", action.id,
        if outcome.kind = .permanentFailure then .actionPermanentFailure else .actionRetryExhausted,
        outcome.message, updatedAt⟩ }

@[simp] theorem attempt_id (options : OpsProcessingOptions) (a : QueuedAction) (now : Instant) :
    (attempt options a now).action.id = a.id := by
  simp only [attempt]
  split
  · rfl
  · split <;> rfl

@[simp] theorem attempt_attempts (options : OpsProcessingOptions) (a : QueuedAction)
    (now : Instant) : (attempt options a now).action.attempts = a.attempts + 1 := by
  simp only [attempt]
  split
  · rfl
  · split <;> rfl

/-- Over the row it was computed from, the update stores the attempted row. -/
theorem attempt_updated (options : OpsProcessingOptions) (a : QueuedAction) (now : Instant) :
    (attempt options a now).action.updated a = (attempt options a now).action := by
  simp only [attempt]
  split
  · rfl
  · split <;> rfl

/-- `succeeded++`, `retried++` or `failed++`. -/
def ActionProcessingBatchResult.count (r : ActionProcessingBatchResult) (status : ActionStatus) :
    ActionProcessingBatchResult :=
  match status with
  | .succeeded => { r with succeeded := r.succeeded + 1 }
  | .retry => { r with retried := r.retried + 1 }
  | _ => { r with failed := r.failed + 1 }

/-! ## Batches -/

inductive BatchPhase where
  | execute
  | update (attempted : Attempted)
  | audit (attempted : Attempted)
  deriving DecidableEq, Repr

/-- A call in progress: the rows it has read and not yet executed. -/
structure Batch where
  phase : BatchPhase
  todo : List QueuedAction
  result : ActionProcessingBatchResult
  deriving DecidableEq, Repr

/-- Rows read by the batch and not yet written back. -/
def Batch.held (b : Batch) : List String :=
  (match b.phase with
    | .update attempted => [attempted.action.id]
    | _ => []) ++ b.todo.map QueuedAction.id

structure Processing (ι : Type) where
  stored : Store
  batches : ι → Option Batch
  /-- The executor's runs: batch and action. -/
  executions : List (ι × String)
  results : List (ι × ActionProcessingBatchResult)

inductive ProcessStep (ι : Type) where
  /-- A committed or rolled back ingestion. -/
  | ingest (call : DecisionCall)
  /-- `ProcessPendingAsync` up to its read, with the order in which the database answers equal
  rows. -/
  | processPending (i : ι) (limit : Nat) (now : Instant) (ties : List String)
  /-- The next execution, with the clock it reads, or the next store call. -/
  | advance (i : ι) (now : Instant)

section Machine

variable {ι : Type} [DecidableEq ι] (culture : Culture) (options : OpsProcessingOptions)

/-- Batch `i` becomes `b`. -/
def Processing.setBatch (w : Processing ι) (i : ι) (b : Option Batch) : Processing ι :=
  { w with batches := Function.update w.batches i b }

@[simp] theorem Processing.setBatch_self (w : Processing ι) (i : ι) (b : Option Batch) :
    (w.setBatch i b).batches i = b := Function.update_self ..

theorem Processing.setBatch_of_ne (w : Processing ι) {i j : ι} (b : Option Batch) (ne : j ≠ i) :
    (w.setBatch i b).batches j = w.batches j := Function.update_of_ne ne ..

def Processing.step (w : Processing ι) : ProcessStep ι → Option (Processing ι)
  | .ingest call =>
    match call.recordIngestionDecision culture w.stored with
    | .ok (_, t) => some { w with stored := t }
    | .error _ => some w
  | .processPending i limit now ties =>
    match w.batches i with
    | some _ => none
    | none =>
      let actions := w.stored.getDueActions limit now ties
      some (w.setBatch i (some ⟨.execute, actions, ⟨actions.length, 0, 0, 0, 0⟩⟩))
  | .advance i now =>
    match w.batches i with
    | none => none
    | some ⟨.execute, [], result⟩ =>
      some { w.setBatch i none with results := w.results ++ [(i, result)] }
    | some ⟨.execute, action :: todo, result⟩ =>
      some { w.setBatch i (some ⟨.update (attempt options action now), todo, result⟩) with
        executions := w.executions ++ [(i, action.id)] }
    | some ⟨.update attempted, todo, result⟩ =>
      some { w.setBatch i (some ⟨.audit attempted, todo, result⟩) with
        stored := (Write.updateAction attempted.action).apply w.stored }
    | some ⟨.audit attempted, todo, result⟩ =>
      some { w.setBatch i (some ⟨.execute, todo, result.count attempted.action.status⟩) with
        stored := (Write.addAudit attempted.audit).apply w.stored }

/-- Every interleaving of batches and ingestions. -/
def processing : Machine (Processing ι) (ProcessStep ι) := ⟨Processing.step culture options⟩

/-- No batch, no row. -/
def Processing.initial : Processing ι := ⟨.empty, fun _ => none, [], []⟩

/-- Everything a step can be. -/
inductive Processed (w : Processing ι) : ProcessStep ι → Processing ι → Prop
  | ingested (call : DecisionCall) (r : EventIngestionResult) (t : Store)
      (ok : call.recordIngestionDecision culture w.stored = .ok (r, t)) :
      Processed w (.ingest call) { w with stored := t }
  | refused (call : DecisionCall) : Processed w (.ingest call) w
  | read (i : ι) (limit : Nat) (now : Instant) (ties : List String)
      (result : ActionProcessingBatchResult) (idle : w.batches i = none) :
      Processed w (.processPending i limit now ties)
        (w.setBatch i (some ⟨.execute, w.stored.getDueActions limit now ties, result⟩))
  | returned (i : ι) (now : Instant) (result : ActionProcessingBatchResult)
      (here : w.batches i = some ⟨.execute, [], result⟩) :
      Processed w (.advance i now)
        { w.setBatch i none with results := w.results ++ [(i, result)] }
  | executed (i : ι) (now : Instant) (action : QueuedAction) (todo : List QueuedAction)
      (result : ActionProcessingBatchResult)
      (here : w.batches i = some ⟨.execute, action :: todo, result⟩) :
      Processed w (.advance i now)
        { w.setBatch i (some ⟨.update (attempt options action now), todo, result⟩) with
          executions := w.executions ++ [(i, action.id)] }
  | updated (i : ι) (now : Instant) (attempted : Attempted) (todo : List QueuedAction)
      (result : ActionProcessingBatchResult)
      (here : w.batches i = some ⟨.update attempted, todo, result⟩) :
      Processed w (.advance i now)
        { w.setBatch i (some ⟨.audit attempted, todo, result⟩) with
          stored := (Write.updateAction attempted.action).apply w.stored }
  | audited (i : ι) (now : Instant) (attempted : Attempted) (todo : List QueuedAction)
      (result after : ActionProcessingBatchResult)
      (here : w.batches i = some ⟨.audit attempted, todo, result⟩) :
      Processed w (.advance i now)
        { w.setBatch i (some ⟨.execute, todo, after⟩) with
          stored := (Write.addAudit attempted.audit).apply w.stored }

theorem processed_of_step {w u : Processing ι} {l : ProcessStep ι}
    (h : (processing culture options).step w l = some u) : Processed culture options w l u := by
  cases l with
  | ingest call =>
    simp only [processing, Processing.step] at h
    split at h
    · next r t ok => cases h; exact .ingested call r t ok
    · cases h; exact .refused call
  | processPending i limit now ties =>
    simp only [processing, Processing.step] at h
    split at h
    · cases h
    · next idle => cases h; exact .read i limit now ties _ idle
  | advance i now =>
    simp only [processing, Processing.step] at h
    split at h
    · cases h
    · next result here => cases h; exact .returned i now result here
    · next action todo result here => cases h; exact .executed i now action todo result here
    · next attempted todo result here => cases h; exact .updated i now attempted todo result here
    · next attempted todo result here => cases h; exact .audited i now attempted todo result _ here

theorem batches_setBatch {w : Processing ι} {i j : ι} {new : Option Batch} {b : Batch}
    (h : (w.setBatch i new).batches j = some b) :
    (j = i ∧ new = some b) ∨ (j ≠ i ∧ w.batches j = some b) := by
  by_cases same : j = i
  · subst same
    rw [w.setBatch_self] at h
    exact .inl ⟨rfl, h⟩
  · rw [w.setBatch_of_ne new same] at h
    exact .inr ⟨same, h⟩

end Machine

end SupportOps.DotNet
