import SupportOps.Library.Tables

/-!
# The Python store: rows, states and accepted requests

One structure for each mapped class of `models.py` and one table for each structure.
Columns that no operation reads or compares (an asset's name and group, the integer keys
of `audit_logs` and `job_runs`) are left out. Times are UTC instants in microseconds.
-/
namespace SupportOps.Python

open Library

/-- `datetime` in UTC, at its resolution of one microsecond. -/
abbrev Instant := Int

/-- `timedelta(minutes=n)`. -/
def minutes (n : Int) : Int := n * 60000000

/-- `timedelta(seconds=n)`. -/
def seconds (n : Int) : Int := n * 1000000

/-- `datetime.min` and `datetime.max`, in UTC. -/
def firstInstant : Instant := -62135596800000000

def lastInstant : Instant := 253402300799999999

/-- `t + delta` of a `datetime` and a `timedelta`, which raises `OverflowError` past the ends of
`datetime`. -/
def plus (t : Instant) (delta : Int) : Option Instant :=
  if 0 < delta ∧ lastInstant < t + delta ∨ delta < 0 ∧ t + delta < firstInstant then none
  else some (t + delta)

@[simp] theorem plus_zero (t : Instant) : plus t 0 = some t := by simp [plus]

inductive IncidentState where
  | opened | acknowledged | resolved
  deriving DecidableEq, Repr

def IncidentState.value : IncidentState → String
  | .opened => "open"
  | .acknowledged => "acknowledged"
  | .resolved => "resolved"

inductive ActionState where
  | queued | retry | succeeded | failed | skipped
  deriving DecidableEq, Repr

def ActionState.value : ActionState → String
  | .queued => "queued"
  | .retry => "retry"
  | .succeeded => "succeeded"
  | .failed => "failed"
  | .skipped => "skipped"

inductive CheckState where
  | pending | started | waitingConfirmation | confirmed | timeout | cancelled | failed
  deriving DecidableEq, Repr

def CheckState.value : CheckState → String
  | .pending => "pending"
  | .started => "started"
  | .waitingConfirmation => "waiting_confirmation"
  | .confirmed => "confirmed"
  | .timeout => "timeout"
  | .cancelled => "cancelled"
  | .failed => "failed"

/-- Why `process` created no incident or no action. -/
inductive SkippedReason where
  | noMatchingRule | cooldown | queueBackpressure
  deriving DecidableEq, Repr

def SkippedReason.value : SkippedReason → String
  | .noMatchingRule => "no_matching_rule"
  | .cooldown => "cooldown"
  | .queueBackpressure => "queue_backpressure"

structure Asset where
  id : Nat
  externalId : String
  status : String
  deriving DecidableEq, Repr

structure AutomationRule where
  id : Nat
  name : String
  category : String
  minimumSeverity : Int
  cooldownMinutes : Int
  actionType : String
  enabled : Bool
  deriving DecidableEq, Repr

structure OperationalEvent where
  id : Nat
  assetId : Nat
  source : String
  category : String
  severity : Int
  message : String
  correlationId : String
  createdAt : Instant
  deriving DecidableEq, Repr

structure Incident where
  id : Nat
  assetId : Nat
  ruleId : Nat
  eventId : Nat
  state : IncidentState
  summary : String
  createdAt : Instant
  updatedAt : Instant
  deriving DecidableEq, Repr

structure Action where
  id : Nat
  incidentId : Nat
  actionType : String
  state : ActionState
  attempts : Nat
  detail : String
  nextAttemptAt : Option Instant
  leaseId : Option String
  leasedAt : Option Instant
  createdAt : Instant
  updatedAt : Instant
  deriving DecidableEq, Repr

structure AuditLog where
  eventType : String
  entityType : String
  entityId : Nat
  message : String
  createdAt : Instant
  deriving DecidableEq, Repr

structure IdempotencyRecord where
  id : Nat
  key : String
  eventId : Option Nat
  incidentId : Option Nat
  actionId : Option Nat
  skippedReason : Option SkippedReason
  hits : Nat
  createdAt : Instant
  updatedAt : Instant
  deriving DecidableEq, Repr

structure JobRun where
  name : String
  status : String
  detail : String
  startedAt : Instant
  finishedAt : Option Instant
  deriving DecidableEq, Repr

structure CheckRun where
  id : Nat
  name : String
  assetExternalId : String
  state : CheckState
  detail : String
  confirmationDueAt : Option Instant
  createdAt : Instant
  updatedAt : Instant
  deriving DecidableEq, Repr

instance : Keyed Asset Nat := ⟨Asset.id⟩
instance : Keyed AutomationRule Nat := ⟨AutomationRule.id⟩
instance : Keyed OperationalEvent Nat := ⟨OperationalEvent.id⟩
instance : Keyed Incident Nat := ⟨Incident.id⟩
instance : Keyed Action Nat := ⟨Action.id⟩
instance : Keyed IdempotencyRecord Nat := ⟨IdempotencyRecord.id⟩
instance : Keyed CheckRun Nat := ⟨CheckRun.id⟩

@[simp] theorem key_asset (a : Asset) : Keyed.key a = a.id := rfl
@[simp] theorem key_rule (r : AutomationRule) : Keyed.key r = r.id := rfl
@[simp] theorem key_event (e : OperationalEvent) : Keyed.key e = e.id := rfl
@[simp] theorem key_incident (i : Incident) : Keyed.key i = i.id := rfl
@[simp] theorem key_action (a : Action) : Keyed.key a = a.id := rfl
@[simp] theorem key_record (r : IdempotencyRecord) : Keyed.key r = r.id := rfl
@[simp] theorem key_check (c : CheckRun) : Keyed.key c = c.id := rfl

structure Store where
  assets : Table Asset
  rules : Table AutomationRule
  events : Table OperationalEvent
  incidents : Table Incident
  actions : Table Action
  audits : List AuditLog
  records : Table IdempotencyRecord
  jobs : List JobRun
  checks : Table CheckRun

namespace Store

/-- A database in which nothing has been stored. -/
def empty : Store := ⟨.empty, .empty, .empty, .empty, .empty, [], .empty, [], .empty⟩

/-- A database that holds assets and rules, and nothing else yet. -/
def seeded (assets : Table Asset) (rules : Table AutomationRule) : Store :=
  { empty with assets := assets, rules := rules }

/-- `SELECT … FROM assets WHERE external_id = …`. -/
def assetByExternalId (s : Store) (externalId : String) : Option Asset :=
  s.assets.rows.find? fun a => a.externalId = externalId

/-- `SELECT … FROM idempotency_records WHERE key = …`. -/
def recordByKey (s : Store) (key : String) : Option IdempotencyRecord :=
  s.records.rows.find? fun r => r.key = key

/-- `_audit`: add one row to the audit log. -/
def audit (s : Store) (entry : AuditLog) : Store := { s with audits := s.audits ++ [entry] }

/-- Actions in the states `queued` and `retry`. -/
def queueBacklog (s : Store) : Nat :=
  s.actions.rows.countP fun a => a.state = .queued ∨ a.state = .retry

end Store

/-! ## Requests -/

/-- The body of `POST /events`. -/
structure EventBody where
  assetExternalId : String
  source : String
  category : String
  severity : Int
  message : String
  executorMode : String := "success"
  idempotencyKey : Option String := none
  correlationId : Option String := none
  deriving DecidableEq, Repr

/-- The bounds that `EventCreate` declares for its fields. -/
def EventBody.Accepted (b : EventBody) : Prop :=
  (3 ≤ b.assetExternalId.length ∧ b.assetExternalId.length ≤ 80) ∧
  (3 ≤ b.source.length ∧ b.source.length ≤ 120) ∧
  (2 ≤ b.category.length ∧ b.category.length ≤ 80) ∧
  (1 ≤ b.severity ∧ b.severity ≤ 100) ∧
  5 ≤ b.message.length ∧
  (3 ≤ b.executorMode.length ∧ b.executorMode.length ≤ 40) ∧
  (∀ k ∈ b.idempotencyKey, 8 ≤ k.length ∧ k.length ≤ 120) ∧
  (∀ c ∈ b.correlationId, 3 ≤ c.length ∧ c.length ≤ 80)

instance (b : EventBody) : Decidable b.Accepted := by
  unfold EventBody.Accepted; exact inferInstance

/-- A body that passed validation. -/
structure EventCreate extends EventBody where
  accepted : toEventBody.Accepted

/-- `if payload.idempotency_key`: the key, unless it is absent or empty. -/
def EventBody.key? (b : EventBody) : Option String := b.idempotencyKey.filter (· ≠ "")

/-- An accepted key is not empty. -/
theorem EventCreate.key?_eq (p : EventCreate) : p.key? = p.idempotencyKey := by
  have bounds := p.accepted.2.2.2.2.2.2.1
  unfold EventBody.key?
  cases h : p.idempotencyKey with
  | none => rfl
  | some k =>
    have : k ≠ "" := by
      rintro rfl
      have := (bounds "" h).1
      simp at this
    simp [this]

/-- What a call takes from its surroundings: the clock, and the digits of a fresh `uuid4`. -/
structure Surroundings where
  now : Instant
  uuid : String
  deriving DecidableEq, Repr

/-- The setting `process` reads. -/
structure Settings where
  maxQueueBacklog : Nat
  deriving DecidableEq, Repr

end SupportOps.Python
