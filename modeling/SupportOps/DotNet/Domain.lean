import SupportOps.Library.Tables

/-!
# The .NET domain: rows, statuses and options

The records of the `Domain` directory, with the constants of `WorkflowConstants.cs` as
enumerations where the column can hold nothing else. Times are UTC instants in ticks of 100 ns.
The ids of audit rows, which nothing reads, are left out.
-/
namespace SupportOps.DotNet

open Library

/-- `DateTimeOffset` as an instant, in ticks. -/
abbrev Instant := Int

/-- `TimeSpan.FromSeconds(n)`. -/
def fromSeconds (n : Int) : Int := n * 10000000

/-- `TimeSpan.FromMilliseconds(n)`. -/
def fromMilliseconds (n : Int) : Int := n * 10000

inductive ActionStatus where
  | queued | retry | succeeded | failedPermanent | failedExhausted
  deriving DecidableEq, Repr

def ActionStatus.value : ActionStatus → String
  | .queued => "queued"
  | .retry => "retry"
  | .succeeded => "succeeded"
  | .failedPermanent => "failed_permanent"
  | .failedExhausted => "failed_exhausted"

namespace ExecutorModes

def success : String := "success"
def transientThenSuccess : String := "transient_then_success"
def permanentFailure : String := "permanent_failure"

end ExecutorModes

inductive IncidentStatus where
  | opened
  deriving DecidableEq, Repr

def IncidentStatus.value : IncidentStatus → String
  | .opened => "open"

inductive AuditEvent where
  | eventReceived | normalEventRecorded | incidentCreated | actionQueued | cooldownSuppressed
  | actionSucceeded | actionTransientFailure | actionPermanentFailure | actionRetryExhausted
  deriving DecidableEq, Repr

def AuditEvent.value : AuditEvent → String
  | .eventReceived => "EVENT_RECEIVED"
  | .normalEventRecorded => "NORMAL_EVENT_RECORDED"
  | .incidentCreated => "INCIDENT_CREATED"
  | .actionQueued => "ACTION_QUEUED"
  | .cooldownSuppressed => "COOLDOWN_SUPPRESSED"
  | .actionSucceeded => "ACTION_SUCCEEDED"
  | .actionTransientFailure => "ACTION_TRANSIENT_FAILURE"
  | .actionPermanentFailure => "ACTION_PERMANENT_FAILURE"
  | .actionRetryExhausted => "ACTION_RETRY_EXHAUSTED"

/-- The body of `POST /events`; JSON can leave any text null. -/
structure SyntheticEventRequest where
  source : Option String := some "synthetic-monitor"
  assetId : Option String := some ""
  category : Option String := some "health"
  severity : Int := 0
  message : Option String := some ""
  executorMode : Option String := none
  occurredAt : Option Instant := none
  deriving DecidableEq, Repr

structure OperationEvent where
  id : String
  source : String
  assetId : String
  category : String
  severity : Int
  message : String
  executorMode : String
  occurredAt : Instant
  createdAt : Instant
  deriving DecidableEq, Repr

structure Incident where
  id : String
  eventId : String
  assetId : String
  category : String
  severity : Int
  status : IncidentStatus
  createdAt : Instant
  updatedAt : Instant
  deriving DecidableEq, Repr

structure QueuedAction where
  id : String
  incidentId : String
  assetId : String
  actionType : String
  executorMode : String
  status : ActionStatus
  attempts : Nat
  maxAttempts : Int
  createdAt : Instant
  updatedAt : Instant
  nextAttemptAt : Instant
  lastError : Option String
  deriving DecidableEq, Repr

structure AuditLogEntry where
  entityType : String
  entityId : String
  eventType : AuditEvent
  message : String
  createdAt : Instant
  deriving DecidableEq, Repr

inductive Decision where
  | ignored | cooldownSuppressed | incidentCreated | actionQueued
  deriving DecidableEq, Repr

def Decision.value : Decision → String
  | .ignored => "ignored"
  | .cooldownSuppressed => "cooldown_suppressed"
  | .incidentCreated => "incident_created"
  | .actionQueued => "action_queued"

structure EventIngestionResult where
  eventId : String
  decision : Decision
  incidentId : Option String
  actionId : Option String
  suppressed : Bool
  deriving DecidableEq, Repr

instance : Keyed OperationEvent String := ⟨OperationEvent.id⟩
instance : Keyed Incident String := ⟨Incident.id⟩
instance : Keyed QueuedAction String := ⟨QueuedAction.id⟩

@[simp] theorem key_operationEvent (e : OperationEvent) : Keyed.key e = e.id := rfl
@[simp] theorem key_incident (i : Incident) : Keyed.key i = i.id := rfl
@[simp] theorem key_queuedAction (a : QueuedAction) : Keyed.key a = a.id := rfl

/-- `OpsProcessingOptions`, as far as ingestion and processing read them. -/
structure OpsProcessingOptions where
  cooldownSeconds : Int := 300
  retryDelayMilliseconds : Int := 100
  maxActionAttempts : Int := 3
  deriving DecidableEq, Repr

def OpsProcessingOptions.cooldown (o : OpsProcessingOptions) : Int :=
  fromSeconds (max 0 o.cooldownSeconds)

def OpsProcessingOptions.retryDelay (o : OpsProcessingOptions) : Int :=
  fromMilliseconds (max 0 o.retryDelayMilliseconds)

/-- What .NET takes from Unicode tables and the host's culture. -/
structure Culture where
  /-- `ToLowerInvariant`. -/
  toLowerInvariant : String → String
  /-- The `N0` format of the cooldown's seconds. -/
  formatN0 : Int → String

/-- The invariant culture, on ASCII text and numbers of up to three digits. -/
def asciiCulture : Culture := ⟨fun s => String.ofList (s.toList.map Char.toLower), toString⟩

end SupportOps.DotNet
