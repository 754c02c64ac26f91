import SupportOps.DotNet.Domain

/-!
# The SQLite store

The tables of `SqliteOpsStore` and the statements its methods send. Columns are compared as the
values they encode. A statement that violates a primary key raises. Rows that an `ORDER BY` leaves
equal are answered in any order, `ties` of their ids.
-/
namespace SupportOps.DotNet

open Library

structure Store where
  events : Table OperationEvent
  incidents : Table Incident
  actions : Table QueuedAction
  audits : List AuditLogEntry

/-- The tables after `InitializeAsync`. -/
def Store.empty : Store := ⟨.empty, .empty, .empty, []⟩

/-- `SqliteException` with `SQLITE_CONSTRAINT_PRIMARYKEY`. -/
inductive StoreError where
  | primaryKey
  deriving DecidableEq, Repr

/-- `UPDATE actions SET …`: the columns of `action`, into the row with its id. -/
def QueuedAction.updated (action stored : QueuedAction) : QueuedAction :=
  { stored with
    status := action.status
    attempts := action.attempts
    updatedAt := action.updatedAt
    nextAttemptAt := action.nextAttemptAt
    lastError := action.lastError }

theorem QueuedAction.key_updated (action stored : QueuedAction) :
    Keyed.key (action.updated stored) = Keyed.key stored := rfl

/-- The statements that write, and the one that only takes the write lock. -/
inductive Write where
  | beginImmediate
  | insertEvent (row : OperationEvent)
  | createIncident (row : Incident)
  | createAction (row : QueuedAction)
  | updateAction (action : QueuedAction)
  | addAudit (row : AuditLogEntry)

def Write.apply : Write → Store → Store
  | .beginImmediate, s => s
  | .insertEvent row, s => { s with events := s.events.insert row }
  | .createIncident row, s => { s with incidents := s.incidents.insert row }
  | .createAction row, s => { s with actions := s.actions.insert row }
  | .updateAction a, s => { s with actions := s.actions.modify a.id a.updated a.key_updated }
  | .addAudit row, s => { s with audits := s.audits ++ [row] }

/-- The row's primary key is taken. -/
def Write.violates : Write → Store → Bool
  | .insertEvent row, s => (s.events.find? row.id).isSome
  | .createIncident row, s => (s.incidents.find? row.id).isSome
  | .createAction row, s => (s.actions.find? row.id).isSome
  | _, _ => false

@[simp] theorem Write.apply_beginImmediate (s : Store) : Write.beginImmediate.apply s = s := rfl

@[simp] theorem Write.violates_beginImmediate (s : Store) :
    Write.beginImmediate.violates s = false := rfl

@[simp] theorem Write.violates_addAudit (row : AuditLogEntry) (s : Store) :
    (Write.addAudit row).violates s = false := rfl

namespace Store

/-- Statements in order. -/
def write (s : Store) (ws : List Write) : Store := ws.foldl (fun s w => w.apply s) s

@[simp] theorem write_nil (s : Store) : s.write [] = s := rfl

@[simp] theorem write_cons (s : Store) (w : Write) (ws : List Write) :
    s.write (w :: ws) = (w.apply s).write ws := rfl

/-- One statement: it is executed, or it raises. -/
def execute (s : Store) (w : Write) : Except StoreError Store :=
  if w.violates s then .error .primaryKey else .ok (w.apply s)

theorem execute_eq_ok {s t : Store} {w : Write} :
    s.execute w = .ok t ↔ w.violates s = false ∧ t = w.apply s := by
  unfold execute
  cases w.violates s <;> simp [eq_comm]

/-- An open incident of the asset and the category since `since`. -/
def recentOpen (assetId category : String) (since : Instant) (i : Incident) : Bool :=
  decide (i.assetId = assetId) && decide (i.category = category) &&
    decide (i.status = .opened) && decide (since ≤ i.createdAt)

/-- `ORDER BY created_at DESC`. -/
def newer (i j : Incident) : Prop := j.createdAt ≤ i.createdAt

instance : DecidableRel newer := fun i j => inferInstanceAs (Decidable (j.createdAt ≤ i.createdAt))

/-- `GetRecentOpenIncidentAsync`. -/
def getRecentOpenIncident (s : Store) (assetId category : String) (since : Instant)
    (ties : List String) : Option Incident :=
  (s.incidents.select (recentOpen assetId category since) (tied Incident.id ties newer) 1).head?

/-- `ORDER BY next_attempt_at ASC, created_at ASC`. -/
def dueBefore (a b : QueuedAction) : Prop :=
  a.nextAttemptAt < b.nextAttemptAt ∨
    a.nextAttemptAt = b.nextAttemptAt ∧ a.createdAt ≤ b.createdAt

instance : DecidableRel dueBefore := fun a b =>
  inferInstanceAs (Decidable (a.nextAttemptAt < b.nextAttemptAt ∨
    a.nextAttemptAt = b.nextAttemptAt ∧ a.createdAt ≤ b.createdAt))

/-- The `WHERE` clause of `GetDueActionsAsync`. -/
def due (utcNow : Instant) (a : QueuedAction) : Bool :=
  decide (a.status = .queued ∨ a.status = .retry) && decide (a.nextAttemptAt ≤ utcNow)

/-- `GetDueActionsAsync`. -/
def getDueActions (s : Store) (limit : Nat) (utcNow : Instant) (ties : List String) :
    List QueuedAction :=
  s.actions.select (due utcNow) (tied QueuedAction.id ties dueBefore) limit

/-- The rows that `LIMIT $limit` lets through: SQLite does not limit by a negative number. -/
def limited (s : Store) (limit : Int) : Nat :=
  if limit < 0 then s.actions.rows.length else limit.toNat

theorem mem_getDueActions {s : Store} {limit : Nat} {utcNow : Instant} {ties : List String}
    {a : QueuedAction} (h : a ∈ s.getDueActions limit utcNow ties) :
    a ∈ s.actions.rows ∧ (a.status = .queued ∨ a.status = .retry) := by
  obtain ⟨mem, selected⟩ := s.actions.mem_of_mem_select h
  simp only [due, Bool.and_eq_true, decide_eq_true_eq] at selected
  exact ⟨mem, selected.1⟩

end Store

structure MetricsSnapshot where
  events : Nat
  incidents : Nat
  actions : Nat
  queuedActions : Nat
  succeededActions : Nat
  retryActions : Nat
  failedActions : Nat
  retryAttempts : Nat
  permanentFailures : Nat
  cooldownSuppressions : Nat
  auditEntries : Nat
  deriving DecidableEq, Repr

/-- `GetMetricsAsync`. -/
def Store.getMetrics (s : Store) : MetricsSnapshot where
  events := s.events.rows.length
  incidents := s.incidents.rows.length
  actions := s.actions.rows.length
  queuedActions := s.actions.rows.countP fun a => a.status = .queued
  succeededActions := s.actions.rows.countP fun a => a.status = .succeeded
  retryActions := s.actions.rows.countP fun a => a.status = .retry
  failedActions := s.actions.rows.countP fun a =>
    a.status = .failedPermanent ∨ a.status = .failedExhausted
  retryAttempts := (s.actions.rows.map fun a => if 1 < a.attempts then a.attempts - 1 else 0).sum
  permanentFailures := s.actions.rows.countP fun a => a.status = .failedPermanent
  cooldownSuppressions := s.audits.countP fun r => r.eventType = .cooldownSuppressed
  auditEntries := s.audits.length

/-- Every action is counted under one of the four statuses. -/
theorem Store.getMetrics_statuses (s : Store) :
    s.getMetrics.queuedActions + s.getMetrics.retryActions + s.getMetrics.succeededActions +
      s.getMetrics.failedActions = s.getMetrics.actions := by
  simp only [getMetrics]
  induction s.actions.rows with
  | nil => rfl
  | cons a rest ih =>
    simp only [List.countP_cons, List.length_cons, ← ih]
    cases a.status <;> simp <;> omega

end SupportOps.DotNet
