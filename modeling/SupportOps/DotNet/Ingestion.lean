import Mathlib.Data.List.DropRight
import SupportOps.DotNet.Store

/-!
# Event ingestion

`EventIngestionService` and `RuleEvaluator`, and the store call they end in, as one call alone on
the store. `RecordIngestionDecisionAsync` is cut where its statements branch, so that the
interleaved transaction can be compared with it statement by statement.
-/
namespace SupportOps.DotNet

open Library

/-! ## Normalisation -/

/-- `Char.IsWhiteSpace`. -/
def isWhiteSpace (c : Char) : Bool :=
  let n := c.toNat
  decide (9 ≤ n ∧ n ≤ 13) || decide (n = 0x20) || decide (n = 0x85) || decide (n = 0xA0) ||
    decide (n = 0x1680) || decide (0x2000 ≤ n ∧ n ≤ 0x200A) || decide (n = 0x2028) ||
    decide (n = 0x2029) || decide (n = 0x202F) || decide (n = 0x205F) || decide (n = 0x3000)

/-- `string.Trim()`. -/
def trim (s : String) : String :=
  String.ofList ((s.toList.dropWhile isWhiteSpace).rdropWhile isWhiteSpace)

def isNullOrWhiteSpace (s : Option String) : Bool := s.all fun s => s.toList.all isWhiteSpace

/-- The text, trimmed, or what stands for a missing one. -/
def trimmedOr (s : Option String) (missing : String) : String :=
  if isNullOrWhiteSpace s then missing else trim (s.getD "")

/-- `s.Contains(part, StringComparison.Ordinal)`. -/
def contains (s part : String) : Bool :=
  s.toList.tails.any fun rest => part.toList.isPrefixOf rest

inductive IngestError where
  /-- `ArgumentException` -/
  | argument (message paramName : String)
  | store (error : StoreError)
  deriving DecidableEq, Repr

def normalizeExecutorMode (culture : Culture) (requestedMode : Option String)
    (message category : String) : String :=
  let value := requestedMode.map fun mode => culture.toLowerInvariant (trim mode)
  if value = some ExecutorModes.success ∨ value = some ExecutorModes.transientThenSuccess ∨
      value = some ExecutorModes.permanentFailure then
    value.getD ""
  else
    let combined := culture.toLowerInvariant (message ++ " " ++ category)
    if contains combined "permanent" then ExecutorModes.permanentFailure
    else if contains combined "transient" then ExecutorModes.transientThenSuccess
    else ExecutorModes.success

/-- `NewId(prefix)`, with the digits of the `Guid` it draws. -/
def newId (kind guid : String) : String := kind ++ "_" ++ guid

def normalize (culture : Culture) (request : SyntheticEventRequest) (now : Instant)
    (guid : String) : Except IngestError OperationEvent :=
  if isNullOrWhiteSpace request.assetId then
    .error (.argument "asset_id is required" "request")
  else
    let category := if isNullOrWhiteSpace request.category then "health"
      else culture.toLowerInvariant (trim (request.category.getD ""))
    let message := trimmedOr request.message "Synthetic event"
    .ok {
      id := newId "evt" guid
      source := trimmedOr request.source "synthetic-monitor"
      assetId := trim (request.assetId.getD "")
      category := category
      severity := max 0 (min request.severity 100)
      message := message
      executorMode := normalizeExecutorMode culture request.executorMode message category
      occurredAt := request.occurredAt.getD now
      createdAt := now }

/-! ## Rules -/

structure RuleDecision where
  createIncident : Bool
  queueAction : Bool
  actionType : String
  deriving DecidableEq, Repr

/-- `RuleEvaluator.Evaluate`. -/
def evaluate (e : OperationEvent) : RuleDecision :=
  if 80 ≤ e.severity ∨ e.category = "offline" ∨ e.category = "critical" then
    ⟨true, true, "collect_diagnostics"⟩
  else if 50 ≤ e.severity ∨ e.category = "degraded" ∨ e.category = "warning" then
    ⟨true, false, "none"⟩
  else ⟨false, false, "none"⟩

/-! ## The store call -/

/-- The arguments of `RecordIngestionDecisionAsync`, with the ids it draws, and the order in which
the database answers incidents of one time. -/
structure DecisionCall where
  operationEvent : OperationEvent
  createIncident : Bool
  queueAction : Bool
  actionType : String
  maxActionAttempts : Int
  cooldown : Int
  now : Instant
  incidentId : String
  actionId : String
  ties : List String := []
  deriving DecidableEq, Repr

namespace DecisionCall

variable (culture : Culture) (c : DecisionCall)

def incident : Incident where
  id := c.incidentId
  eventId := c.operationEvent.id
  assetId := c.operationEvent.assetId
  category := c.operationEvent.category
  severity := c.operationEvent.severity
  status := .opened
  createdAt := c.now
  updatedAt := c.now

def action : QueuedAction where
  id := c.actionId
  incidentId := c.incidentId
  assetId := c.operationEvent.assetId
  actionType := c.actionType
  executorMode := c.operationEvent.executorMode
  status := .queued
  attempts := 0
  maxAttempts := c.maxActionAttempts
  createdAt := c.now
  updatedAt := c.now
  nextAttemptAt := c.now
  lastError := none

def eventReceived : AuditLogEntry :=
  ⟨"event", c.operationEvent.id, .eventReceived, "Synthetic event received.", c.now⟩

def normalEventRecorded : AuditLogEntry :=
  ⟨"event", c.operationEvent.id, .normalEventRecorded, "No incident rule matched.", c.now⟩

def cooldownSuppressed (recent : Incident) : AuditLogEntry :=
  ⟨"incident", recent.id, .cooldownSuppressed, "Duplicate event suppressed during " ++
    culture.formatN0 (c.cooldown / fromSeconds 1) ++ "s cooldown.", c.now⟩

def incidentCreated : AuditLogEntry :=
  ⟨"incident", c.incidentId, .incidentCreated, "Synthetic incident opened.", c.now⟩

def actionQueued : AuditLogEntry :=
  ⟨"action", c.actionId, .actionQueued, "Synthetic action queued.", c.now⟩

/-- The result with its decision. -/
def result (decision : Decision) (incidentId actionId : Option String) (suppressed : Bool) :
    EventIngestionResult :=
  ⟨c.operationEvent.id, decision, incidentId, actionId, suppressed⟩

def recentOpenIncident (s : Store) : Option Incident :=
  s.getRecentOpenIncident c.operationEvent.assetId c.operationEvent.category (c.now - c.cooldown)
    c.ties

abbrev Outcome := Except StoreError (EventIngestionResult × Store)

/-- From the insertion of the action on. -/
def recordAction (s : Store) : Outcome := do
  let s ← s.execute (.createAction c.action)
  let s ← s.execute (.addAudit c.actionQueued)
  return (c.result .actionQueued (some c.incidentId) (some c.actionId) false, s)

/-- After the incident and its audit row. -/
def recordedIncident (s : Store) : Outcome :=
  if !c.queueAction then
    return (c.result .incidentCreated (some c.incidentId) none false, s)
  else c.recordAction s

/-- From the insertion of the incident on. -/
def recordIncident (s : Store) : Outcome := do
  let s ← s.execute (.createIncident c.incident)
  let s ← s.execute (.addAudit c.incidentCreated)
  c.recordedIncident s

/-- From the cooldown query on. -/
def checkCooldown (s : Store) : Outcome :=
  match c.recentOpenIncident s with
  | some recent => do
    let s ← s.execute (.addAudit (c.cooldownSuppressed culture recent))
    return (c.result .cooldownSuppressed (some recent.id) none true, s)
  | none => c.recordIncident s

/-- After the event and its audit row. -/
def recordedEvent (s : Store) : Outcome :=
  if !c.createIncident then do
    let s ← s.execute (.addAudit c.normalEventRecorded)
    return (c.result .ignored none none false, s)
  else c.checkCooldown culture s

/-- `RecordIngestionDecisionAsync`; what raises is rolled back. -/
def recordIngestionDecision (s : Store) : Outcome := do
  let s ← s.execute .beginImmediate
  let s ← s.execute (.insertEvent c.operationEvent)
  let s ← s.execute (.addAudit c.eventReceived)
  c.recordedEvent culture s

end DecisionCall

/-- The `Guid`s one call draws, and the order in which the database answers it incidents of one
time. -/
structure Guids where
  event : String
  incident : String
  action : String
  ties : List String := []
  deriving DecidableEq, Repr

/-- What `IngestAsync` passes to the store. -/
def decisionCall (options : OpsProcessingOptions) (e : OperationEvent) (now : Instant)
    (guids : Guids) : DecisionCall where
  operationEvent := e
  createIncident := (evaluate e).createIncident
  queueAction := (evaluate e).queueAction
  actionType := (evaluate e).actionType
  maxActionAttempts := options.maxActionAttempts
  cooldown := options.cooldown
  now := now
  incidentId := newId "inc" guids.incident
  actionId := newId "act" guids.action
  ties := guids.ties

/-! ## The ways the call can end -/

theorem execute_bind_eq_ok {β : Type} {s : Store} {w : Write} {f : Store → Except StoreError β}
    {b : β} : (s.execute w >>= f) = .ok b ↔ w.violates s = false ∧ f (w.apply s) = .ok b := by
  unfold Store.execute
  cases w.violates s with
  | true => exact iff_of_false (fun ok => by cases ok) (fun both => by cases both.1)
  | false => exact (and_iff_right rfl).symm

/-- Every way `RecordIngestionDecisionAsync` returns: result and store. -/
inductive Recorded (culture : Culture) (c : DecisionCall) (s : Store) :
    EventIngestionResult → Store → Prop
  | ignored (worthless : c.createIncident = false) :
      Recorded culture c s (c.result .ignored none none false)
        (s.write [.insertEvent c.operationEvent, .addAudit c.eventReceived,
          .addAudit c.normalEventRecorded])
  | suppressed (recent : Incident) (worthy : c.createIncident = true)
      (found : c.recentOpenIncident s = some recent) :
      Recorded culture c s (c.result .cooldownSuppressed (some recent.id) none true)
        (s.write [.insertEvent c.operationEvent, .addAudit c.eventReceived,
          .addAudit (c.cooldownSuppressed culture recent)])
  | incidentCreated (worthy : c.createIncident = true) (clear : c.recentOpenIncident s = none)
      (new : s.incidents.find? c.incidentId = none) (noAction : c.queueAction = false) :
      Recorded culture c s (c.result .incidentCreated (some c.incidentId) none false)
        (s.write [.insertEvent c.operationEvent, .addAudit c.eventReceived,
          .createIncident c.incident, .addAudit c.incidentCreated])
  | actionQueued (worthy : c.createIncident = true) (clear : c.recentOpenIncident s = none)
      (new : s.incidents.find? c.incidentId = none) (queues : c.queueAction = true)
      (newAction : s.actions.find? c.actionId = none) :
      Recorded culture c s (c.result .actionQueued (some c.incidentId) (some c.actionId) false)
        (s.write [.insertEvent c.operationEvent, .addAudit c.eventReceived,
          .createIncident c.incident, .addAudit c.incidentCreated,
          .createAction c.action, .addAudit c.actionQueued])

theorem recorded_of_recordIngestionDecision {culture : Culture} {c : DecisionCall} {s t : Store}
    {r : EventIngestionResult} (h : c.recordIngestionDecision culture s = .ok (r, t)) :
    s.events.find? c.operationEvent.id = none ∧ Recorded culture c s r t := by
  unfold DecisionCall.recordIngestionDecision at h
  simp only [execute_bind_eq_ok, Write.apply_beginImmediate, Write.violates,
    Option.isSome_eq_false_iff, Option.isNone_iff_eq_none] at h
  obtain ⟨-, newEvent, -, h⟩ := h
  refine ⟨newEvent, ?_⟩
  unfold DecisionCall.recordedEvent at h
  split at h
  · next worthless =>
    obtain ⟨-, h⟩ := execute_bind_eq_ok.mp h
    cases h
    exact .ignored (by simpa using worthless)
  · next worthy =>
    have worthy : c.createIncident = true := by simpa using worthy
    unfold DecisionCall.checkCooldown at h
    split at h
    · next recent found =>
      obtain ⟨-, h⟩ := execute_bind_eq_ok.mp h
      cases h
      exact .suppressed recent worthy found
    · next clear =>
      unfold DecisionCall.recordIncident at h
      obtain ⟨new, h⟩ := execute_bind_eq_ok.mp h
      obtain ⟨-, h⟩ := execute_bind_eq_ok.mp h
      have new : (s.incidents.find? c.incidentId).isSome = false := new
      rw [Option.isSome_eq_false_iff, Option.isNone_iff_eq_none] at new
      unfold DecisionCall.recordedIncident at h
      split at h
      · next noAction =>
        cases h
        exact .incidentCreated worthy clear new (by simpa using noAction)
      · next queues =>
        unfold DecisionCall.recordAction at h
        obtain ⟨newAction, h⟩ := execute_bind_eq_ok.mp h
        obtain ⟨-, h⟩ := execute_bind_eq_ok.mp h
        have newAction : (s.actions.find? c.actionId).isSome = false := newAction
        rw [Option.isSome_eq_false_iff, Option.isNone_iff_eq_none] at newAction
        cases h
        exact .actionQueued worthy clear new (by simpa using queues) newAction

end SupportOps.DotNet
