import Mathlib.Algebra.Ring.Int.Defs
import SupportOps.DotNet.Reset
import SupportOps.DotNet.Timestamps
import SupportOps.Library.Sql

/-!
# The store's statements on rows

The SQL of `SqliteOpsStore` on tables of cells: the columns and parameters of each statement in
their order, the timestamps as texts, the statuses and audit events as strings, and the readers
that take a query's columns by position. Whatever statements are sent, the cells encode the rows
of the store, and each query reads back what the store answers; where an `ORDER BY` leaves rows
equal, the database answers them in any order of their ids, and the store in the same one.
-/
namespace SupportOps.DotNet

open Library
open Library.Sql (Cell Row)

/-! ## Tables -/

inductive EventColumn where
  | id | source | assetId | category | severity | message | executorMode | occurredAt | createdAt
  deriving DecidableEq, Repr

inductive IncidentColumn where
  | id | eventId | assetId | category | severity | status | createdAt | updatedAt
  deriving DecidableEq, Repr

inductive ActionColumn where
  | id | incidentId | assetId | actionType | executorMode | status | attempts | maxAttempts
  | createdAt | updatedAt | nextAttemptAt | lastError
  deriving DecidableEq, Repr

inductive AuditColumn where
  | id | entityType | entityId | eventType | message | createdAt
  deriving DecidableEq, Repr

/-- The tables that `InitializeAsync` creates. -/
structure Database where
  events : List (Row EventColumn)
  incidents : List (Row IncidentColumn)
  actions : List (Row ActionColumn)
  auditLogs : List (Row AuditColumn)

def Database.initialized : Database := ⟨[], [], [], []⟩

def eventSchema : Sql.Schema EventColumn where
  primaryKey := .id
  notNull := [.source, .assetId, .category, .severity, .message, .executorMode, .occurredAt,
    .createdAt]

def incidentSchema : Sql.Schema IncidentColumn where
  primaryKey := .id
  notNull := [.eventId, .assetId, .category, .severity, .status, .createdAt, .updatedAt]

def actionSchema : Sql.Schema ActionColumn where
  primaryKey := .id
  notNull := [.incidentId, .assetId, .actionType, .executorMode, .status, .attempts, .maxAttempts,
    .createdAt, .updatedAt, .nextAttemptAt]

def auditSchema : Sql.Schema AuditColumn where
  primaryKey := .id
  notNull := [.entityType, .entityId, .eventType, .message, .createdAt]

/-! ## Parameters -/

/-- `Format` of an instant. -/
def instantCell (t : Instant) : Cell := .text (column t)

/-- `value ?? DBNull.Value` -/
def nullableText : Option String → Cell
  | none => .null
  | some s => .text s

def eventRow (e : OperationEvent) : Row EventColumn :=
  Sql.row
    [.id, .source, .assetId, .category, .severity, .message, .executorMode, .occurredAt,
      .createdAt]
    [.text e.id, .text e.source, .text e.assetId, .text e.category, .integer e.severity,
      .text e.message, .text e.executorMode, instantCell e.occurredAt, instantCell e.createdAt]

def incidentRow (i : Incident) : Row IncidentColumn :=
  Sql.row
    [.id, .eventId, .assetId, .category, .severity, .status, .createdAt, .updatedAt]
    [.text i.id, .text i.eventId, .text i.assetId, .text i.category, .integer i.severity,
      .text i.status.value, instantCell i.createdAt, instantCell i.updatedAt]

/-- `AddActionParameters`. -/
def actionParameters (a : QueuedAction) : List Cell :=
  [.text a.id, .text a.incidentId, .text a.assetId, .text a.actionType, .text a.executorMode,
    .text a.status.value, .integer a.attempts, .integer a.maxAttempts, instantCell a.createdAt,
    instantCell a.updatedAt, instantCell a.nextAttemptAt, nullableText a.lastError]

def actionRow (a : QueuedAction) : Row ActionColumn :=
  Sql.row
    [.id, .incidentId, .assetId, .actionType, .executorMode, .status, .attempts, .maxAttempts,
      .createdAt, .updatedAt, .nextAttemptAt, .lastError]
    (actionParameters a)

/-- The `SET` clause of `UpdateActionAsync`. -/
def actionSets (a : QueuedAction) : List (ActionColumn × Cell) :=
  [(.status, .text a.status.value), (.attempts, .integer a.attempts),
    (.updatedAt, instantCell a.updatedAt), (.nextAttemptAt, instantCell a.nextAttemptAt),
    (.lastError, nullableText a.lastError)]

def auditRow (id : String) (r : AuditLogEntry) : Row AuditColumn :=
  Sql.row
    [.id, .entityType, .entityId, .eventType, .message, .createdAt]
    [.text id, .text r.entityType, .text r.entityId, .text r.eventType.value, .text r.message,
      instantCell r.createdAt]

/-! ## Statements -/

namespace Database

/-- A statement that writes; `auditId` is what `NewId("aud")` draws. -/
def execute (db : Database) (auditId : String) : Write → Except Sql.Constraint Database
  | .beginImmediate => .ok db
  | .insertEvent e => do
    let rows ← Sql.insert eventSchema db.events (eventRow e)
    return { db with events := rows }
  | .createIncident i => do
    let rows ← Sql.insert incidentSchema db.incidents (incidentRow i)
    return { db with incidents := rows }
  | .createAction a => do
    let rows ← Sql.insert actionSchema db.actions (actionRow a)
    return { db with actions := rows }
  | .updateAction a => do
    let rows ← Sql.update actionSchema db.actions (.text a.id) (actionSets a)
    return { db with actions := rows }
  | .addAudit r => do
    let rows ← Sql.insert auditSchema db.auditLogs (auditRow auditId r)
    return { db with auditLogs := rows }

/-- A statement of `ResetAsync`. -/
def delete (db : Database) : ResetDelete → Database
  | .auditLogs => { db with auditLogs := [] }
  | .actions => { db with actions := [] }
  | .incidents => { db with incidents := [] }
  | .events => { db with events := [] }

end Database

/-! ## Readers -/

/-- The status whose text a column holds. -/
def IncidentStatus.ofValue (text : String) : Option IncidentStatus :=
  [IncidentStatus.opened].find? fun status => status.value = text

def ActionStatus.ofValue (text : String) : Option ActionStatus :=
  [ActionStatus.queued, .retry, .succeeded, .failedPermanent, .failedExhausted].find?
    fun status => status.value = text

def AuditEvent.ofValue (text : String) : Option AuditEvent :=
  [AuditEvent.eventReceived, .normalEventRecorded, .incidentCreated, .actionQueued,
    .cooldownSuppressed, .actionSucceeded, .actionTransientFailure, .actionPermanentFailure,
    .actionRetryExhausted].find? fun event => event.value = text

theorem IncidentStatus.ofValue_value (status : IncidentStatus) :
    ofValue status.value = some status := by
  cases status; decide

theorem ActionStatus.ofValue_value (status : ActionStatus) :
    ofValue status.value = some status := by
  cases status <;> decide

theorem AuditEvent.ofValue_value (event : AuditEvent) : ofValue event.value = some event := by
  cases event <;> decide

/-- `Parse(reader.GetString(i))`, as an instant. -/
def readInstant (cells : List Cell) (i : Nat) : Option Instant := do
  let text ← Sql.getString cells i
  let value ← parse text
  return value.utcTicks

def readIncident (cells : List Cell) : Option Incident := do
  let status ← IncidentStatus.ofValue (← Sql.getString cells 5)
  return {
    id := ← Sql.getString cells 0
    eventId := ← Sql.getString cells 1
    assetId := ← Sql.getString cells 2
    category := ← Sql.getString cells 3
    severity := ← Sql.getInt32 cells 4
    status := status
    createdAt := ← readInstant cells 6
    updatedAt := ← readInstant cells 7 }

def readAction (cells : List Cell) : Option QueuedAction := do
  let status ← ActionStatus.ofValue (← Sql.getString cells 5)
  let lastError ← if Sql.isDBNull cells 11 then some none else (Sql.getString cells 11).map some
  return {
    id := ← Sql.getString cells 0
    incidentId := ← Sql.getString cells 1
    assetId := ← Sql.getString cells 2
    actionType := ← Sql.getString cells 3
    executorMode := ← Sql.getString cells 4
    status := status
    attempts := (← Sql.getInt32 cells 6).toNat
    maxAttempts := ← Sql.getInt32 cells 7
    createdAt := ← readInstant cells 8
    updatedAt := ← readInstant cells 9
    nextAttemptAt := ← readInstant cells 10
    lastError := lastError }

/-- `ReadAudit`, without the row's id. -/
def readAudit (cells : List Cell) : Option AuditLogEntry := do
  let event ← AuditEvent.ofValue (← Sql.getString cells 3)
  return {
    entityType := ← Sql.getString cells 1
    entityId := ← Sql.getString cells 2
    eventType := event
    message := ← Sql.getString cells 4
    createdAt := ← readInstant cells 5 }

/-! ## Queries -/

def incidentColumns : List IncidentColumn :=
  [.id, .eventId, .assetId, .category, .severity, .status, .createdAt, .updatedAt]

def actionColumns : List ActionColumn :=
  [.id, .incidentId, .assetId, .actionType, .executorMode, .status, .attempts, .maxAttempts,
    .createdAt, .updatedAt, .nextAttemptAt, .lastError]

def auditColumns : List AuditColumn :=
  [.id, .entityType, .entityId, .eventType, .message, .createdAt]

/-- `ORDER BY column DESC`. -/
def descending {κ : Type} (column : κ) (r s : Row κ) : Prop := (s column).before (r column)

instance {κ : Type} (column : κ) : DecidableRel (descending column) := fun r s =>
  inferInstanceAs (Decidable ((s column).before (r column)))

/-- `ORDER BY next_attempt_at ASC, created_at ASC`. -/
def dueOrder (r s : Row ActionColumn) : Prop :=
  r .nextAttemptAt ≠ s .nextAttemptAt ∧ (r .nextAttemptAt).before (s .nextAttemptAt) ∨
    r .nextAttemptAt = s .nextAttemptAt ∧ (r .createdAt).before (s .createdAt)

instance : DecidableRel dueOrder := fun r s =>
  inferInstanceAs (Decidable (
    r .nextAttemptAt ≠ s .nextAttemptAt ∧ (r .nextAttemptAt).before (s .nextAttemptAt) ∨
      r .nextAttemptAt = s .nextAttemptAt ∧ (r .createdAt).before (s .createdAt)))

/-- The `WHERE` clause of `GetRecentOpenIncidentAsync`. -/
def recentOpenRow (assetId category since : String) (r : Row IncidentColumn) : Bool :=
  (r .assetId).equals (.text assetId) && (r .category).equals (.text category) &&
    (r .status).equals (.text IncidentStatus.opened.value) &&
    (Cell.text since).atMost (r .createdAt)

/-- The `WHERE` clause of `GetDueActionsAsync`. -/
def dueRow (now : String) (r : Row ActionColumn) : Bool :=
  ((r .status).equals (.text ActionStatus.queued.value) ||
    (r .status).equals (.text ActionStatus.retry.value)) &&
    (r .nextAttemptAt).atMost (.text now)

namespace Database

variable (db : Database)

/-- `GetRecentOpenIncidentAsync`; without an answer where a reader raises. -/
def getRecentOpenIncident (assetId category since : String) (ties : List String) :
    Option (Option Incident) :=
  match (Sql.select db.incidents (fun r => r .id) (ties.map .text)
    (recentOpenRow assetId category since) (descending .createdAt) 1).head? with
  | some r => (readIncident (Sql.project incidentColumns r)).map some
  | none => some none

/-- `GetDueActionsAsync`. -/
def getDueActions (limit : Int) (now : String) (ties : List String) :
    Option (List QueuedAction) :=
  (Sql.select db.actions (fun r => r .id) (ties.map .text) (dueRow now) dueOrder limit).mapM
    fun r => readAction (Sql.project actionColumns r)

/-- `GetIncidentsAsync`. -/
def getIncidents (limit : Int) (ties : List String) : Option (List Incident) :=
  (Sql.select db.incidents (fun r => r .id) (ties.map .text) (fun _ => true)
    (descending .createdAt) limit).mapM fun r => readIncident (Sql.project incidentColumns r)

/-- `GetActionsAsync`. -/
def getActions (limit : Int) (ties : List String) : Option (List QueuedAction) :=
  (Sql.select db.actions (fun r => r .id) (ties.map .text) (fun _ => true)
    (descending .createdAt) limit).mapM fun r => readAction (Sql.project actionColumns r)

/-- `GetAuditLogsAsync`. -/
def getAuditLogs (limit : Int) (ties : List String) : Option (List AuditLogEntry) :=
  (Sql.select db.auditLogs (fun r => r .id) (ties.map .text) (fun _ => true)
    (descending .createdAt) limit).mapM fun r => readAudit (Sql.project auditColumns r)

/-- `CASE WHEN attempts > 1 THEN attempts - 1 ELSE 0 END`. -/
def retriesOf (r : Row ActionColumn) : Int :=
  match r .attempts with
  | .integer n => if 1 < n then n - 1 else 0
  | _ => 0

/-- `GetMetricsAsync`. -/
def getMetrics : MetricsSnapshot where
  events := db.events.length
  incidents := db.incidents.length
  actions := db.actions.length
  queuedActions := db.actions.countP fun r => (r .status).equals (.text "queued")
  succeededActions := db.actions.countP fun r => (r .status).equals (.text "succeeded")
  retryActions := db.actions.countP fun r => (r .status).equals (.text "retry")
  failedActions := db.actions.countP fun r =>
    (r .status).equals (.text "failed_permanent") || (r .status).equals (.text "failed_exhausted")
  retryAttempts := (db.actions.map retriesOf).sum.toNat
  permanentFailures := db.actions.countP fun r => (r .status).equals (.text "failed_permanent")
  cooldownSuppressions := db.auditLogs.countP fun r =>
    (r .eventType).equals (.text "COOLDOWN_SUPPRESSED")
  auditEntries := db.auditLogs.length

end Database

/-! ## The queries of the store that only the endpoints send -/

namespace Store

variable (s : Store)

/-- `GetIncidentsAsync`. -/
def getIncidents (limit : Int) (ties : List String) : List Incident :=
  Sql.select s.incidents.rows Incident.id ties (fun _ => true) newer limit

/-- `ORDER BY created_at DESC`, of actions. -/
def newerAction (a b : QueuedAction) : Prop := b.createdAt ≤ a.createdAt

instance : DecidableRel newerAction := fun a b =>
  inferInstanceAs (Decidable (b.createdAt ≤ a.createdAt))

/-- `GetActionsAsync`. -/
def getActions (limit : Int) (ties : List String) : List QueuedAction :=
  Sql.select s.actions.rows QueuedAction.id ties (fun _ => true) newerAction limit

/-- `ORDER BY created_at DESC`, of numbered audit rows. -/
def newerEntry (e f : AuditLogEntry × Nat) : Prop := f.1.createdAt ≤ e.1.createdAt

instance : DecidableRel newerEntry := fun e f =>
  inferInstanceAs (Decidable (f.1.createdAt ≤ e.1.createdAt))

/-- `GetAuditLogsAsync`; the store's audit rows have no ids, so `ties` are places in the log. -/
def getAuditLogs (limit : Int) (ties : List Nat) : List AuditLogEntry :=
  (Sql.select s.audits.zipIdx Prod.snd ties (fun _ => true) newerEntry limit).map Prod.fst

end Store

/-! ## What cells can hold -/

/-- Severity and times are values of their .NET types. -/
def Incident.Encodable (i : Incident) : Prop :=
  Sql.Int32 i.severity ∧ InRange i.createdAt ∧ InRange i.updatedAt

def QueuedAction.Encodable (a : QueuedAction) : Prop :=
  Sql.Int32 a.attempts ∧ Sql.Int32 a.maxAttempts ∧ InRange a.createdAt ∧ InRange a.updatedAt ∧
    InRange a.nextAttemptAt

def Write.Encodable : Write → Prop
  | .createIncident i => i.Encodable
  | .createAction a => a.Encodable
  | .updateAction a => a.Encodable
  | .addAudit r => InRange r.createdAt
  | _ => True

instance (i : Incident) : Decidable i.Encodable := inferInstanceAs (Decidable (_ ∧ _))

instance (a : QueuedAction) : Decidable a.Encodable := inferInstanceAs (Decidable (_ ∧ _))

instance : (w : Write) → Decidable w.Encodable
  | .beginImmediate | .insertEvent _ => isTrue trivial
  | .createIncident i => inferInstanceAs (Decidable i.Encodable)
  | .createAction a | .updateAction a => inferInstanceAs (Decidable a.Encodable)
  | .addAudit r => inferInstanceAs (Decidable (InRange r.createdAt))

structure Store.Encodable (s : Store) : Prop where
  incidents : ∀ i ∈ s.incidents.rows, i.Encodable
  actions : ∀ a ∈ s.actions.rows, a.Encodable
  audits : ∀ r ∈ s.audits, InRange r.createdAt

theorem Store.encodable_empty : Store.empty.Encodable where
  incidents := fun _ h => by cases h
  actions := fun _ h => by cases h
  audits := fun _ h => by cases h

theorem QueuedAction.Encodable.updated {a stored : QueuedAction} (h : a.Encodable)
    (old : stored.Encodable) : (a.updated stored).Encodable :=
  ⟨h.1, old.2.1, old.2.2.1, h.2.2.2.1, h.2.2.2.2⟩

theorem Store.Encodable.apply {s : Store} (h : s.Encodable) {w : Write} (row : w.Encodable) :
    (w.apply s).Encodable := by
  cases w with
  | beginImmediate => exact h
  | insertEvent e => exact { h with }
  | createIncident i => exact { h with incidents := s.incidents.forall_insert h.incidents row }
  | createAction a => exact { h with actions := s.actions.forall_insert h.actions row }
  | updateAction a =>
    exact { h with actions := s.actions.forall_modify h.actions a.key_updated fun _ => row.updated }
  | addAudit r =>
    refine { h with audits := fun x hx => ?_ }
    rcases List.mem_append.mp hx with old | new
    · exact h.audits x old
    · rw [List.mem_singleton.mp new]; exact row

/-! ## Reading back -/

section Instants

variable {s t : Instant}

theorem readInstant_column (range : InRange t) {cells : List Cell} {i : Nat}
    (cell : cells[i]? = some (instantCell t)) : readInstant cells i = some t := by
  let value : DateTimeOffset := ⟨t, 0, range, by decide, by
    rw [Int.zero_mul, Int.add_zero]; exact range⟩
  have text : Sql.getString cells i = some (format value) := by
    rw [Sql.getString, cell, format_eq_column]; rfl
  rw [readInstant, text, Option.bind_eq_bind, Option.bind_some, parse_format]
  rfl

theorem instantCell_inj (hs : InRange s) (ht : InRange t) :
    instantCell s = instantCell t ↔ s = t := by
  rw [instantCell, instantCell, Cell.text.injEq, column_inj hs ht]

theorem instantCell_before (hs : InRange s) (ht : InRange t) :
    (instantCell s).before (instantCell t) ↔ s ≤ t := by
  rw [instantCell, instantCell, Cell.before_text, column_le_iff hs ht]

end Instants

theorem readIncident_incidentRow {i : Incident} (h : i.Encodable) :
    readIncident (Sql.project incidentColumns (incidentRow i)) = some i := by
  obtain ⟨severity, created, updated⟩ := h
  have cells : Sql.project incidentColumns (incidentRow i) =
      [.text i.id, .text i.eventId, .text i.assetId, .text i.category, .integer i.severity,
        .text i.status.value, instantCell i.createdAt, instantCell i.updatedAt] := rfl
  rw [cells]
  simp [readIncident, Sql.getString, Sql.getInt32, severity, IncidentStatus.ofValue_value,
    readInstant_column created, readInstant_column updated]

theorem readAction_actionRow {a : QueuedAction} (h : a.Encodable) :
    readAction (Sql.project actionColumns (actionRow a)) = some a := by
  obtain ⟨attempts, maxAttempts, created, updated, next⟩ := h
  have cells : Sql.project actionColumns (actionRow a) = actionParameters a := rfl
  rw [cells, actionParameters]
  cases a with
  | mk id incidentId assetId actionType executorMode status n maxAttempts createdAt updatedAt
      nextAttemptAt lastError =>
    cases lastError <;>
      simp [readAction, Sql.getString, Sql.getInt32, Sql.isDBNull, nullableText, attempts,
        maxAttempts, ActionStatus.ofValue_value, readInstant_column created,
        readInstant_column updated, readInstant_column next]

theorem readAudit_auditRow (id : String) {r : AuditLogEntry} (created : InRange r.createdAt) :
    readAudit (Sql.project auditColumns (auditRow id r)) = some r := by
  have cells : Sql.project auditColumns (auditRow id r) =
      [.text id, .text r.entityType, .text r.entityId, .text r.eventType.value, .text r.message,
        instantCell r.createdAt] := rfl
  rw [cells]
  simp [readAudit, Sql.getString, AuditEvent.ofValue_value, readInstant_column created]

/-! ## The cells of a store -/

/-- The rows of the database are those of the store, in its order; audit rows have ids as well. -/
structure Represents (db : Database) (s : Store) : Prop where
  events : db.events = s.events.rows.map eventRow
  incidents : db.incidents = s.incidents.rows.map incidentRow
  actions : db.actions = s.actions.rows.map actionRow
  auditLogs : ∃ entries : List (String × AuditLogEntry),
    db.auditLogs = entries.map (fun e => auditRow e.1 e.2) ∧ s.audits = entries.map Prod.snd ∧
      (entries.map Prod.fst).Nodup

theorem represents_empty : Represents .initialized .empty where
  events := rfl
  incidents := rfl
  actions := rfl
  auditLogs := ⟨[], rfl, rfl, List.nodup_nil⟩

/-- `NewId("aud")` draws an id that no audit row has. -/
def Database.Fresh (db : Database) (auditId : String) : Prop :=
  ∀ r ∈ db.auditLogs, r .id ≠ .text auditId

instance (db : Database) (auditId : String) : Decidable (db.Fresh auditId) :=
  inferInstanceAs (Decidable (∀ r ∈ db.auditLogs, r .id ≠ .text auditId))

namespace Represents

variable {db : Database} {s : Store}

/-- A statement raises on the cells where it raises on the store, and does the same otherwise. -/
theorem execute (h : Represents db s) {auditId : String} (fresh : db.Fresh auditId) (w : Write) :
    (w.violates s = true ∧ db.execute auditId w = .error .primaryKey) ∨
      (w.violates s = false ∧
        ∃ after, db.execute auditId w = .ok after ∧ Represents after (w.apply s)) := by
  cases w with
  | beginImmediate => exact .inr ⟨rfl, db, rfl, h⟩
  | insertEvent e =>
    have inserted := Sql.insert_map eventSchema eventRow (fun _ => rfl)
      (fun _ => rfl) s.events e
    simp only [Database.execute, h.events, inserted, key_operationEvent, Write.violates]
    cases taken : (s.events.find? e.id).isSome
    · exact .inr ⟨rfl, _, rfl, { h with events := rfl }⟩
    · exact .inl ⟨rfl, rfl⟩
  | createIncident i =>
    have inserted := Sql.insert_map incidentSchema incidentRow (fun _ => rfl)
      (fun _ => rfl) s.incidents i
    simp only [Database.execute, h.incidents, inserted, key_incident, Write.violates]
    cases taken : (s.incidents.find? i.id).isSome
    · exact .inr ⟨rfl, _, rfl, { h with incidents := rfl }⟩
    · exact .inl ⟨rfl, rfl⟩
  | createAction a =>
    have inserted := Sql.insert_map actionSchema actionRow (fun _ => rfl)
      (fun _ => rfl) s.actions a
    simp only [Database.execute, h.actions, inserted, key_queuedAction, Write.violates]
    cases taken : (s.actions.find? a.id).isSome
    · exact .inr ⟨rfl, _, rfl, { h with actions := rfl }⟩
    · exact .inl ⟨rfl, rfl⟩
  | updateAction a =>
    have assigned : ∀ r, Sql.assign (actionSets a) (actionRow r) = actionRow (a.updated r) := by
      intro r
      funext c
      cases c <;> rfl
    have updated := Sql.update_map actionSchema actionRow (fun _ => rfl)
      (fun _ => rfl) s.actions (k := a.id) a.key_updated assigned
    refine .inr ⟨rfl, _, by simp only [Database.execute, h.actions, updated]; rfl, ?_⟩
    exact { h with actions := rfl }
  | addAudit r =>
    obtain ⟨entries, rows, audits, nodup⟩ := h.auditLogs
    have new : (db.auditLogs.any fun row =>
        (row auditSchema.primaryKey).equals (auditRow auditId r auditSchema.primaryKey)) =
        false := by
      rw [List.any_eq_false]
      intro row mem
      have other := fresh row mem
      simp only [Cell.equals, decide_eq_true_eq, not_and]
      exact fun _ => other
    have inserted : Sql.insert auditSchema db.auditLogs (auditRow auditId r) =
        .ok (db.auditLogs ++ [auditRow auditId r]) := by
      rw [Sql.insert, new]
      rfl
    refine .inr ⟨rfl, _, by simp only [Database.execute, inserted]; rfl, ?_⟩
    have other : auditId ∉ entries.map Prod.fst := by
      intro taken
      obtain ⟨e, he, rfl⟩ := List.mem_map.mp taken
      exact fresh (auditRow e.1 e.2) (rows ▸ List.mem_map_of_mem he) rfl
    refine { h with auditLogs := ⟨entries ++ [(auditId, r)], ?_, ?_, ?_⟩ }
    · rw [rows, List.map_append]; rfl
    · simp only [Write.apply, audits, List.map_append]; rfl
    · rw [List.map_append]
      exact nodup.append (List.nodup_singleton _) (List.disjoint_singleton.mpr other)

theorem delete (h : Represents db s) (d : ResetDelete) :
    Represents (db.delete d) (d.apply s) := by
  cases d with
  | auditLogs => exact { h with auditLogs := ⟨[], rfl, rfl, List.nodup_nil⟩ }
  | actions => exact { h with actions := rfl }
  | incidents => exact { h with incidents := rfl }
  | events => exact { h with events := rfl }

end Represents

theorem Store.Encodable.delete {s : Store} (h : s.Encodable) (d : ResetDelete) :
    (d.apply s).Encodable := by
  cases d with
  | auditLogs => exact { h with audits := fun _ hr => by cases hr }
  | actions => exact { h with actions := fun _ ha => by cases ha }
  | incidents => exact { h with incidents := fun _ hi => by cases hi }
  | events => exact { h with }

/-! ## Answers -/

/-- A selection of the table's own rows, under a limit that may be negative. -/
theorem select_limited (t : Table QueuedAction) (ties : List String) (p : QueuedAction → Bool)
    (le : QueuedAction → QueuedAction → Prop) [DecidableRel le] (limit : Int) :
    Sql.select t.rows QueuedAction.id ties p le limit =
      t.select p (tied QueuedAction.id ties le)
        (if limit < 0 then t.rows.length else limit.toNat) := by
  unfold Sql.select Sql.limited Table.select
  split
  · have fits : ((t.rows.filter p).insertionSort (tied QueuedAction.id ties le)).length ≤
        t.rows.length := by
      rw [List.length_insertionSort]
      exact List.length_filter_le p t.rows
    rw [List.take_of_length_le fits]
  · rfl

namespace Represents

variable {db : Database} {s : Store}

theorem newer_iff (encodable : s.Encodable) : ∀ i ∈ s.incidents.rows, ∀ j ∈ s.incidents.rows,
    Store.newer i j ↔ descending .createdAt (incidentRow i) (incidentRow j) :=
  fun i hi j hj => (instantCell_before (encodable.incidents j hj).2.1
    (encodable.incidents i hi).2.1).symm

theorem getRecentOpenIncident (h : Represents db s) (encodable : s.Encodable)
    (assetId category : String) (since : DateTimeOffset) (ties : List String) :
    db.getRecentOpenIncident assetId category (format since) ties =
      some (s.getRecentOpenIncident assetId category since.utcTicks ties) := by
  have condition : ∀ i ∈ s.incidents.rows,
      recentOpenRow assetId category (format since) (incidentRow i) =
        Store.recentOpen assetId category since.utcTicks i := by
    intro i hi
    have text := column_le_iff since.utc_range (encodable.incidents i hi).2.1
    have opened : decide (i.status.value = IncidentStatus.opened.value) =
        decide (i.status = .opened) := by cases i.status; rfl
    change (Cell.equals (.text i.assetId) _ && Cell.equals (.text i.category) _ &&
      Cell.equals (.text i.status.value) _ && Cell.atMost _ (.text (column i.createdAt))) = _
    rw [Cell.equals_text, Cell.equals_text, Cell.equals_text, Cell.atMost_text, opened,
      format_eq_column, decide_eq_decide.mpr text, Store.recentOpen]
  have selected := Sql.select_rows incidentRow .id Incident.id (fun _ _ => rfl) condition
    (newer_iff encodable) ties 1
  have one : Sql.select s.incidents.rows Incident.id ties
      (Store.recentOpen assetId category since.utcTicks) Store.newer 1 =
      s.incidents.select (Store.recentOpen assetId category since.utcTicks)
        (tied Incident.id ties Store.newer) 1 := rfl
  rw [Database.getRecentOpenIncident, h.incidents, selected, one, Store.getRecentOpenIncident]
  cases rows : s.incidents.select (Store.recentOpen assetId category since.utcTicks)
      (tied Incident.id ties Store.newer) 1 with
  | nil => rfl
  | cons i rest =>
    have mem : i ∈ s.incidents.rows :=
      (s.incidents.mem_of_mem_select (rows ▸ List.mem_cons_self ..)).1
    change (readIncident (Sql.project incidentColumns (incidentRow i))).map some = some (some i)
    rw [readIncident_incidentRow (encodable.incidents i mem)]
    rfl

/-- Rows that a query selects are read back as they are stored. -/
theorem readActions (encodable : s.Encodable) {rows : List QueuedAction}
    (stored : ∀ a ∈ rows, a ∈ s.actions.rows) :
    (rows.map actionRow).mapM (fun r => readAction (Sql.project actionColumns r)) = some rows :=
  Sql.mapM_map fun a ha => readAction_actionRow (encodable.actions a (stored a ha))

theorem getDueActions (h : Represents db s) (encodable : s.Encodable) (limit : Int)
    (now : DateTimeOffset) (ties : List String) : db.getDueActions limit (format now) ties =
      some (s.getDueActions (s.limited limit) now.utcTicks ties) := by
  have condition : ∀ a ∈ s.actions.rows,
      dueRow (format now) (actionRow a) = Store.due now.utcTicks a := by
    intro a ha
    obtain ⟨-, -, -, -, next⟩ := encodable.actions a ha
    have text := column_le_iff next now.utc_range
    have unfinished : (decide (a.status.value = ActionStatus.queued.value) ||
        decide (a.status.value = ActionStatus.retry.value)) =
        decide (a.status = .queued ∨ a.status = .retry) := by cases a.status <;> decide
    change (((Cell.text a.status.value).equals _ || (Cell.text a.status.value).equals _) &&
      (Cell.text (column a.nextAttemptAt)).atMost _) = _
    rw [Cell.equals_text, Cell.equals_text, Cell.atMost_text, unfinished, format_eq_column,
      decide_eq_decide.mpr text, Store.due]
  have order : ∀ a ∈ s.actions.rows, ∀ b ∈ s.actions.rows,
      Store.dueBefore a b ↔ dueOrder (actionRow a) (actionRow b) := by
    intro a ha b hb
    obtain ⟨-, -, created, -, next⟩ := encodable.actions a ha
    obtain ⟨-, -, created', -, next'⟩ := encodable.actions b hb
    change _ ↔ (instantCell a.nextAttemptAt ≠ instantCell b.nextAttemptAt ∧
      (instantCell a.nextAttemptAt).before (instantCell b.nextAttemptAt)) ∨
      instantCell a.nextAttemptAt = instantCell b.nextAttemptAt ∧
        (instantCell a.createdAt).before (instantCell b.createdAt)
    have earlier : a.nextAttemptAt < b.nextAttemptAt ↔
        a.nextAttemptAt ≠ b.nextAttemptAt ∧ a.nextAttemptAt ≤ b.nextAttemptAt := by
      rw [lt_iff_le_and_ne, and_comm]
    rw [Ne, instantCell_inj next next', instantCell_before next next',
      instantCell_before created created', Store.dueBefore, earlier]
  have selected := Sql.select_rows actionRow .id QueuedAction.id (fun _ _ => rfl) condition order
    ties limit
  rw [Database.getDueActions, h.actions, selected, select_limited]
  exact readActions encodable fun a ha => (s.actions.mem_of_mem_select ha).1

theorem getIncidents (h : Represents db s) (encodable : s.Encodable) (limit : Int)
    (ties : List String) : db.getIncidents limit ties = some (s.getIncidents limit ties) := by
  have selected := Sql.select_rows incidentRow .id Incident.id (fun _ _ => rfl) (p := fun _ => true)
    (q := fun _ => true) (fun _ _ => rfl) (newer_iff encodable) ties limit
  rw [Database.getIncidents, h.incidents, selected]
  exact Sql.mapM_map fun i hi =>
    readIncident_incidentRow (encodable.incidents i (Sql.mem_select hi))

theorem getActions (h : Represents db s) (encodable : s.Encodable) (limit : Int)
    (ties : List String) : db.getActions limit ties = some (s.getActions limit ties) := by
  have order : ∀ a ∈ s.actions.rows, ∀ b ∈ s.actions.rows,
      Store.newerAction a b ↔ descending .createdAt (actionRow a) (actionRow b) :=
    fun a ha b hb => (instantCell_before (encodable.actions b hb).2.2.1
      (encodable.actions a ha).2.2.1).symm
  have selected := Sql.select_rows actionRow .id QueuedAction.id (fun _ _ => rfl)
    (p := fun _ => true) (q := fun _ => true) (fun _ _ => rfl) order ties limit
  rw [Database.getActions, h.actions, selected]
  exact readActions encodable fun a ha => Sql.mem_select ha

/-- Where the database answers audit rows in an order of their ids, the store answers them in the
order of their places. -/
theorem getAuditLogs (h : Represents db s) (encodable : s.Encodable) (limit : Int)
    (ties : List String) : ∃ places, db.getAuditLogs limit ties =
      some (s.getAuditLogs limit places) := by
  obtain ⟨entries, rows, audits, nodup⟩ := h.auditLogs
  -- both queries as one on the rows with their ids and places
  let newer (e f : (String × AuditLogEntry) × Nat) : Prop := f.1.2.createdAt ≤ e.1.2.createdAt
  have : DecidableRel newer := fun e f =>
    inferInstanceAs (Decidable (f.1.2.createdAt ≤ e.1.2.createdAt))
  have entry {e : (String × AuditLogEntry) × Nat} (he : e ∈ entries.zipIdx) : e.1 ∈ entries :=
    List.fst_mem_of_mem_zipIdx he
  have created {e : (String × AuditLogEntry) × Nat} (he : e ∈ entries.zipIdx) :
      InRange e.1.2.createdAt :=
    encodable.audits e.1.2 (audits ▸ List.mem_map_of_mem (entry he))
  have cells : db.auditLogs = entries.zipIdx.map fun e => auditRow e.1.1 e.1.2 := by
    have same := congrArg (List.map fun e : String × AuditLogEntry => auditRow e.1 e.2)
      (List.zipIdx_map_fst 0 entries)
    rw [rows, ← same, List.map_map]
    rfl
  have numbered : s.audits.zipIdx = entries.zipIdx.map fun e => (e.1.2, e.2) := by
    rw [audits, List.zipIdx_map]
    rfl
  have place : ∀ e ∈ entries.zipIdx, e.2 = (entries.map Prod.fst).idxOf e.1.1 ∧
      ∀ id, (entries.map Prod.fst).idxOf id = (entries.map Prod.fst).idxOf e.1.1 → id = e.1.1 := by
    intro e he
    obtain ⟨inside, same⟩ := List.mem_zipIdx' he
    have inside : e.2 < (entries.map Prod.fst).length := by rwa [List.length_map]
    have here : e.1.1 = (entries.map Prod.fst)[e.2] := by rw [List.getElem_map, same]
    have place : (entries.map Prod.fst).idxOf e.1.1 = e.2 := by
      rw [here]
      exact nodup.idxOf_getElem _ inside
    refine ⟨place.symm, fun id other => ?_⟩
    rw [place] at other
    have found : (entries.map Prod.fst).idxOf id < (entries.map Prod.fst).length := other ▸ inside
    rw [← List.getElem_idxOf found, here]
    simp only [other]
  have onCells : ∀ e ∈ entries.zipIdx, ∀ f ∈ entries.zipIdx,
      newer e f ↔ descending .createdAt (auditRow e.1.1 e.1.2) (auditRow f.1.1 f.1.2) :=
    fun e he f hf => (instantCell_before (created hf) (created he)).symm
  have onPlaces : ∀ e ∈ entries.zipIdx, ∀ f ∈ entries.zipIdx,
      newer e f ↔ Store.newerEntry (e.1.2, e.2) (f.1.2, f.2) := fun _ _ _ _ => Iff.rfl
  refine ⟨ties.map (entries.map Prod.fst).idxOf, ?_⟩
  rw [Database.getAuditLogs, cells, Sql.select_rows _ .id (fun e => e.1.1) (fun _ _ => rfl)
    (p := fun _ => true) (fun _ _ => rfl) onCells, Store.getAuditLogs, numbered,
    Sql.select_map _ (fun e => e.1.1) place (p := fun _ => true) (fun _ _ => rfl) onPlaces,
    List.map_map]
  exact Sql.mapM_map_eq fun e he => readAudit_auditRow e.1.1 (created (Sql.mem_select he))

theorem getMetrics (h : Represents db s) : db.getMetrics = s.getMetrics := by
  obtain ⟨entries, rows, audits, -⟩ := h.auditLogs
  have status (value : ActionStatus) (a : QueuedAction) :
      (actionRow a .status).equals (.text value.value) = decide (a.status = value) := by
    change (Cell.text a.status.value).equals _ = _
    rw [Cell.equals_text]
    cases a.status <;> cases value <;> decide
  have failed (a : QueuedAction) : ((actionRow a .status).equals (.text "failed_permanent") ||
      (actionRow a .status).equals (.text "failed_exhausted")) =
      decide (a.status = .failedPermanent ∨ a.status = .failedExhausted) := by
    rw [Bool.decide_or, ← status .failedPermanent, ← status .failedExhausted]
    rfl
  have retries : (s.actions.rows.map fun a => Database.retriesOf (actionRow a)).sum =
      ((s.actions.rows.map fun a => if 1 < a.attempts then a.attempts - 1 else 0).sum : Nat) := by
    induction s.actions.rows with
    | nil => rfl
    | cons a rest ih =>
      have first : Database.retriesOf (actionRow a) =
          ((if 1 < a.attempts then a.attempts - 1 else 0 : Nat) : Int) := by
        change (if 1 < (a.attempts : Int) then (a.attempts : Int) - 1 else 0) = _
        split <;> split <;> omega
      rw [List.map_cons, List.sum_cons, List.map_cons, List.sum_cons, ih, first, Int.natCast_add]
  have suppressed (e : String × AuditLogEntry) :
      (auditRow e.1 e.2 .eventType).equals (.text "COOLDOWN_SUPPRESSED") =
        decide (e.2.eventType = .cooldownSuppressed) := by
    change (Cell.text e.2.eventType.value).equals _ = _
    rw [Cell.equals_text]
    cases e.2.eventType <;> decide
  simp only [Database.getMetrics, Store.getMetrics, h.events, h.incidents, h.actions, rows, audits,
    List.length_map, List.map_map, Function.comp_def, List.countP_map, retries, Int.toNat_natCast,
    failed, suppressed]
  simp only [← status]
  rfl

end Represents

/-! ## Runs of statements -/

inductive RowStep where
  | write (w : Write) (auditId : String)
  /-- a statement of a reset -/
  | delete (d : ResetDelete)

/-- A statement on the cells; one that raises changes nothing. -/
def Database.step (db : Database) : RowStep → Option Database
  | .write w auditId =>
    match db.execute auditId w with
    | .ok after => some after
    | .error _ => some db
  | .delete d => some (db.delete d)

def rowStatements : Machine Database RowStep := ⟨Database.step⟩

def Store.step (s : Store) : RowStep → Option Store
  | .write w _ =>
    match s.execute w with
    | .ok after => some after
    | .error _ => some s
  | .delete d => some (d.apply s)

def storeStatements : Machine Store RowStep := ⟨Store.step⟩

/-- A statement binds values of their .NET types, and audit ids are new. -/
def Admitted (db : Database) : RowStep → Prop
  | .write w auditId => w.Encodable ∧ db.Fresh auditId
  | .delete _ => True

instance (db : Database) (l : RowStep) : Decidable (Admitted db l) := by
  cases l <;> unfold Admitted <;> infer_instance

theorem Represents.step {db after : Database} {s : Store}
    (h : Represents db s ∧ s.Encodable) {l : RowStep} (admitted : Admitted db l)
    (step : rowStatements.step db l = some after) :
    ∃ t, storeStatements.step s l = some t ∧ Represents after t ∧ t.Encodable := by
  cases l with
  | write w auditId =>
    simp only [rowStatements, Database.step] at step
    simp only [storeStatements, Store.step, Store.execute]
    rcases h.1.execute admitted.2 w with ⟨violates, raised⟩ | ⟨fits, new, done, represents⟩
    · rw [raised] at step
      cases step
      exact ⟨s, by rw [violates]; rfl, h⟩
    · rw [done] at step
      cases step
      exact ⟨w.apply s, by rw [fits]; rfl, represents, h.2.apply admitted.1⟩
  | delete d =>
    cases step
    exact ⟨d.apply s, rfl, h.1.delete d, h.2.delete d⟩

/-- Every answer of the database is the store's, equal rows in the same order, and every further
statement raises for both or for neither. -/
structure Answers (db : Database) (s : Store) : Prop where
  raises : ∀ w auditId, db.Fresh auditId →
    (db.execute auditId w = .error .primaryKey ↔ s.execute w = .error .primaryKey)
  recentOpenIncident : ∀ assetId category (since : DateTimeOffset) ties,
    db.getRecentOpenIncident assetId category (format since) ties =
      some (s.getRecentOpenIncident assetId category since.utcTicks ties)
  dueActions : ∀ limit (now : DateTimeOffset) ties, db.getDueActions limit (format now) ties =
    some (s.getDueActions (s.limited limit) now.utcTicks ties)
  incidents : ∀ limit ties, db.getIncidents limit ties = some (s.getIncidents limit ties)
  actions : ∀ limit ties, db.getActions limit ties = some (s.getActions limit ties)
  auditLogs : ∀ limit ties, ∃ places,
    db.getAuditLogs limit ties = some (s.getAuditLogs limit places)
  metrics : db.getMetrics = s.getMetrics

/-- Whatever statements are sent to a new database, it answers as the store after the same
statements. -/
theorem rows_answer_as_store {ls : List RowStep} {db : Database}
    (admitted : rowStatements.Along Admitted .initialized ls)
    (run : rowStatements.run .initialized ls = some db) :
    ∃ s, storeStatements.run .empty ls = some s ∧ Answers db s := by
  obtain ⟨s, same, represents, encodable⟩ := rowStatements.run_lockstep
    (R := fun db s => Represents db s ∧ s.Encodable)
    (fun _ _ _ _ admitted h step => Represents.step h admitted step) admitted
    ⟨represents_empty, Store.encodable_empty⟩ run
  refine ⟨s, same, fun w auditId fresh => ?_, represents.getRecentOpenIncident encodable,
    represents.getDueActions encodable, represents.getIncidents encodable,
    represents.getActions encodable, represents.getAuditLogs encodable, represents.getMetrics⟩
  rw [Store.execute]
  rcases represents.execute fresh w with ⟨violates, raised⟩ | ⟨fits, new, done, -⟩
  · simp [violates, raised]
  · simp [fits, done]

/-- Two actions, an attempt at one of them, and an id that is taken. -/
def leapDayStatements : List RowStep :=
  [.write (.createAction (dueFrom "b" nextTick)) "aud_1",
    .write (.createAction (dueFrom "a" leapDay)) "aud_2",
    .write (.addAudit ⟨"action", "a", .actionQueued, "Synthetic action queued.",
      leapDay.utcTicks⟩) "aud_3",
    .write (.updateAction (attempt {} (dueFrom "a" leapDay) nextTick.utcTicks).action) "aud_4",
    .write (.createAction (dueFrom "a" leapDay)) "aud_5"]

theorem rows_answer_leapDay : ∃ db s,
    rowStatements.run .initialized leapDayStatements = some db ∧
    storeStatements.run .empty leapDayStatements = some s ∧
    (db.getActions 1 ["a", "b"]).map (List.map QueuedAction.id) = some ["a"] ∧
    (db.getActions 1 ["b", "a"]).map (List.map QueuedAction.id) = some ["b"] ∧ Answers db s := by
  have admitted : rowStatements.Along Admitted .initialized leapDayStatements := by decide
  obtain ⟨s, same, answers⟩ := rows_answer_as_store admitted rfl
  exact ⟨_, s, rfl, same, by decide, by decide, answers⟩

end SupportOps.DotNet
