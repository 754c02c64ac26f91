import SupportOps.Python.Rules
import SupportOps.Python.Writes

/-!
# Event processing

`EventProcessor.process` as one call, alone in its session: either it returns and its writes
are committed, or it raises and they are rolled back. The rows it builds and the questions
it asks of the store are definitions of their own, shared with the interleaved sessions.
Every clock reading of one call is `env.now`.
-/
namespace SupportOps.Python

open Library

inductive ProcessError where
  /-- `UnknownAssetError` -/
  | unknownAsset (externalId : String)
  /-- `RuntimeError("idempotency record points to a missing event")` -/
  | missingEvent
  /-- `TimeoutError("idempotent result was not committed before timeout")` -/
  | notCommitted
  deriving DecidableEq, Repr

/-- Event, incident, action and reason, as `process` returns them. -/
structure Processed where
  event : OperationalEvent
  incident : Option Incident
  action : Option Action
  skippedReason : Option SkippedReason
  deriving DecidableEq, Repr

/-- The ids an idempotency record keeps of a result. -/
def Processed.columns (o : Processed) : ResultColumns where
  eventId := o.event.id
  incidentId := o.incident.map Incident.id
  actionId := o.action.map Action.id
  skippedReason := o.skippedReason

/-! ## Rows -/

def EventBody.newEvent (p : EventBody) (id : Nat) (asset : Asset) (env : Surroundings) :
    OperationalEvent where
  id := id
  assetId := asset.id
  source := p.source
  category := p.category
  severity := p.severity
  message := p.message
  correlationId := p.correlationId.getD ("corr-" ++ env.uuid)
  createdAt := env.now

def newIncident (id : Nat) (asset : Asset) (rule : AutomationRule) (event : OperationalEvent)
    (now : Instant) : Incident where
  id := id
  assetId := asset.id
  ruleId := rule.id
  eventId := event.id
  state := .opened
  summary := rule.name ++ ": " ++ asset.externalId ++ " reported " ++ event.category
  createdAt := now
  updatedAt := now

def newAction (id : Nat) (incident : Incident) (rule : AutomationRule) (executorMode : String)
    (now : Instant) : Action where
  id := id
  incidentId := incident.id
  actionType := rule.actionType
  state := .queued
  attempts := 0
  detail := executorMode
  nextAttemptAt := some now
  leaseId := none
  leasedAt := none
  createdAt := now
  updatedAt := now

def newRecord (id : Nat) (key : String) (now : Instant) : IdempotencyRecord where
  id := id
  key := key
  eventId := none
  incidentId := none
  actionId := none
  skippedReason := none
  hits := 0
  createdAt := now
  updatedAt := now

def eventRecorded (event : OperationalEvent) (now : Instant) : AuditLog :=
  ⟨"event_recorded", "operational_event", event.id, "No rule matched event", now⟩

def eventSuppressed (event : OperationalEvent) (now : Instant) : AuditLog :=
  ⟨"event_suppressed", "operational_event", event.id, "Cooldown suppressed action", now⟩

def queueBackpressure (incident : Incident) (now : Instant) : AuditLog :=
  ⟨"queue_backpressure", "incident", incident.id, "Queue backlog limit rejected action", now⟩

def incidentCreated (incident : Incident) (now : Instant) : AuditLog :=
  ⟨"incident_created", "incident", incident.id, incident.summary, now⟩

def idempotencyHit (record : IdempotencyRecord) (now : Instant) : AuditLog :=
  ⟨"idempotency_hit", "idempotency_record", record.id, "Reused idempotent event result", now⟩

/-! ## Questions to the store -/

/-- An unresolved incident of the asset, of any category, since the threshold. -/
def recentIncident (assetId : Nat) (threshold : Instant) (i : Incident) : Bool :=
  decide (i.assetId = assetId) && decide (threshold ≤ i.createdAt) &&
    decide (i.state ≠ .resolved)

def inCooldown (s : Store) (assetId : Nat) (cooldownMinutes : Int) (now : Instant) : Bool :=
  if cooldownMinutes ≤ 0 then false
  else s.incidents.rows.any (recentIncident assetId (now - minutes cooldownMinutes))

/-- A stored id, unless it is absent or Python takes it for false. -/
def truthy (id : Option Nat) : Option Nat := id.filter (· ≠ 0)

/-! ## The call -/

/-- `asset.status = category` and the new event, in one flush. The `UPDATE` is sent only if
the status differs from the one loaded. -/
def eventWrites (asset : Asset) (event : OperationalEvent) : List Write :=
  (if asset.status = event.category then []
    else [.setAssetStatus asset.id event.category]) ++ [.insertEvent event]

/-- `_process_new` from the insertion of the incident on. -/
def openIncident (settings : Settings) (env : Surroundings) (p : EventBody) (asset : Asset)
    (rule : AutomationRule) (event : OperationalEvent) (s : Store) : Processed × Store :=
  let incident := newIncident s.incidents.nextId asset rule event env.now
  let s := s.write [.insertIncident incident]
  if rule.actionType = "none" then
    (⟨event, some incident, none, none⟩,
      s.write [.insertAudit (incidentCreated incident env.now)])
  else if settings.maxQueueBacklog ≤ s.queueBacklog then
    (⟨event, some incident, none, some .queueBackpressure⟩,
      s.write [.insertAudit (queueBackpressure incident env.now)])
  else
    let action := newAction s.actions.nextId incident rule p.executorMode env.now
    (⟨event, some incident, some action, none⟩,
      s.write [.insertAction action, .insertAudit (incidentCreated incident env.now)])

/-- `_process_new`. -/
def processNew (settings : Settings) (env : Surroundings) (p : EventBody) (s : Store) :
    Except ProcessError (Processed × Store) :=
  match s.assetByExternalId p.assetExternalId with
  | none => .error (.unknownAsset p.assetExternalId)
  | some asset =>
    let event := p.newEvent s.events.nextId asset env
    let s := s.write (eventWrites asset event)
    match RuleEngine.matchRule s.rules event with
    | none =>
      .ok (⟨event, none, none, some .noMatchingRule⟩,
        s.write [.insertAudit (eventRecorded event env.now)])
    | some rule =>
      if inCooldown s asset.id rule.cooldownMinutes env.now then
        .ok (⟨event, none, none, some .cooldown⟩,
          s.write [.insertAudit (eventSuppressed event env.now)])
      else .ok (openIncident settings env p asset rule event s)

/-- `_replay_idempotent_record`, of a record whose event id is set. -/
def replayIdempotentRecord (now : Instant) (record : IdempotencyRecord) (eventId : Nat)
    (s : Store) : Except ProcessError (Processed × Store) :=
  let s := s.write [.hitRecord record.id now, .insertAudit (idempotencyHit record now)]
  match s.events.find? eventId with
  | none => .error .missingEvent
  | some event =>
    .ok (⟨event, (truthy record.incidentId).bind s.incidents.find?,
      (truthy record.actionId).bind s.actions.find?, record.skippedReason⟩, s)

/-- The record of a key, with its event id, once it holds a result. -/
def completedRecord (s : Store) (key : String) : Option (IdempotencyRecord × Nat) :=
  (s.recordByKey key).bind fun r => r.eventId.map fun e => (r, e)

/-- `_wait_for_idempotent_result`: no other session runs, so every poll sees the same store. -/
def waitForIdempotentResult (now : Instant) (key : String) (s : Store) :
    Nat → Except ProcessError (Processed × Store)
  | 0 => .error .notCommitted
  | attempts + 1 =>
    match completedRecord s key with
    | some (record, eventId) => replayIdempotentRecord now record eventId s
    | none => waitForIdempotentResult now key s attempts

/-- What a call returns; `replay` is `idempotent_replay`. -/
structure Response where
  processed : Processed
  replay : Bool
  deriving DecidableEq, Repr

/-- `_process_with_idempotency`. -/
def processWithIdempotency (settings : Settings) (env : Surroundings) (p : EventBody)
    (key : String) (s : Store) : Except ProcessError (Response × Store) :=
  match completedRecord s key with
  | some (record, eventId) =>
    (replayIdempotentRecord env.now record eventId s).map fun (o, t) => (⟨o, true⟩, t)
  | none =>
    if (s.recordByKey key).isSome then
      -- the INSERT violates the unique index
      (waitForIdempotentResult env.now key s 100).map fun (o, t) => (⟨o, true⟩, t)
    else
      let record := newRecord s.records.nextId key env.now
      (processNew settings env p (s.write [.insertRecord record])).map fun (o, t) =>
        (⟨o, false⟩, t.write [.completeRecord record.id o.columns env.now])

/-- `EventProcessor.process`. -/
def process (settings : Settings) (env : Surroundings) (p : EventBody) (s : Store) :
    Except ProcessError (Response × Store) :=
  match p.key? with
  | some key => processWithIdempotency settings env p key s
  | none => (processNew settings env p s).map fun (o, t) => (⟨o, false⟩, t)

/-- The store after the call's session has ended: committed, or rolled back. -/
def processed (settings : Settings) (env : Surroundings) (p : EventBody) (s : Store) : Store :=
  match process settings env p s with
  | .ok (_, t) => t
  | .error _ => s

/-! ## The ways `_process_new` can return -/

section Cases

variable (settings : Settings) (env : Surroundings) (p : EventBody) (s : Store)

/-- The event `_process_new` records for a known asset. -/
def EventBody.eventFor (asset : Asset) : OperationalEvent :=
  p.newEvent s.events.nextId asset env

/-- The store once the event is flushed. -/
def Store.recorded (asset : Asset) : Store := s.write (eventWrites asset (p.eventFor env s asset))

/-- The incident opened for the event under a rule. -/
def EventBody.incidentFor (asset : Asset) (rule : AutomationRule) : Incident :=
  newIncident s.incidents.nextId asset rule (p.eventFor env s asset) env.now

/-- The action queued for that incident. -/
def EventBody.actionFor (asset : Asset) (rule : AutomationRule) : Action :=
  newAction s.actions.nextId (p.incidentFor env s asset rule) rule p.executorMode env.now

/-- Asset known, rule matched and the cooldown over: the incident is opened. -/
structure Opens (asset : Asset) (rule : AutomationRule) : Prop where
  known : s.assetByExternalId p.assetExternalId = some asset
  matched : RuleEngine.matchRule s.rules (p.eventFor env s asset) = some rule
  clear : inCooldown s asset.id rule.cooldownMinutes env.now = false

/-- Every way `_process_new` returns: result and store. -/
inductive NewCase : Processed → Store → Prop
  | unmatched (asset : Asset) (known : s.assetByExternalId p.assetExternalId = some asset)
      (none : RuleEngine.matchRule s.rules (p.eventFor env s asset) = none) :
      NewCase ⟨p.eventFor env s asset, .none, .none, some .noMatchingRule⟩
        ((s.recorded env p asset).write
          [.insertAudit (eventRecorded (p.eventFor env s asset) env.now)])
  | suppressed (asset : Asset) (rule : AutomationRule)
      (known : s.assetByExternalId p.assetExternalId = some asset)
      (matched : RuleEngine.matchRule s.rules (p.eventFor env s asset) = some rule)
      (recent : inCooldown s asset.id rule.cooldownMinutes env.now = true) :
      NewCase ⟨p.eventFor env s asset, .none, .none, some .cooldown⟩
        ((s.recorded env p asset).write
          [.insertAudit (eventSuppressed (p.eventFor env s asset) env.now)])
  | incidentOnly (asset : Asset) (rule : AutomationRule) (opens : Opens env p s asset rule)
      (noAction : rule.actionType = "none") :
      NewCase ⟨p.eventFor env s asset, some (p.incidentFor env s asset rule), .none, .none⟩
        ((s.recorded env p asset).write [.insertIncident (p.incidentFor env s asset rule),
          .insertAudit (incidentCreated (p.incidentFor env s asset rule) env.now)])
  | rejected (asset : Asset) (rule : AutomationRule) (opens : Opens env p s asset rule)
      (action : rule.actionType ≠ "none") (full : settings.maxQueueBacklog ≤ s.queueBacklog) :
      NewCase ⟨p.eventFor env s asset, some (p.incidentFor env s asset rule), .none,
          some .queueBackpressure⟩
        ((s.recorded env p asset).write [.insertIncident (p.incidentFor env s asset rule),
          .insertAudit (queueBackpressure (p.incidentFor env s asset rule) env.now)])
  | queued (asset : Asset) (rule : AutomationRule) (opens : Opens env p s asset rule)
      (action : rule.actionType ≠ "none") (room : s.queueBacklog < settings.maxQueueBacklog) :
      NewCase ⟨p.eventFor env s asset, some (p.incidentFor env s asset rule),
          some (p.actionFor env s asset rule), .none⟩
        ((s.recorded env p asset).write [.insertIncident (p.incidentFor env s asset rule),
          .insertAction (p.actionFor env s asset rule),
          .insertAudit (incidentCreated (p.incidentFor env s asset rule) env.now)])

variable {settings env p s}

@[simp] theorem recorded_rules (asset : Asset) : (s.recorded env p asset).rules = s.rules := by
  unfold Store.recorded eventWrites; split <;> rfl

@[simp] theorem recorded_incidents (asset : Asset) :
    (s.recorded env p asset).incidents = s.incidents := by
  unfold Store.recorded eventWrites; split <;> rfl

@[simp] theorem recorded_actions (asset : Asset) :
    (s.recorded env p asset).actions = s.actions := by
  unfold Store.recorded eventWrites; split <;> rfl

@[simp] theorem recorded_records (asset : Asset) :
    (s.recorded env p asset).records = s.records := by
  unfold Store.recorded eventWrites; split <;> rfl

@[simp] theorem recorded_events (asset : Asset) :
    (s.recorded env p asset).events = s.events.insert (p.eventFor env s asset) := by
  unfold Store.recorded eventWrites; split <;> rfl

theorem rows_insert_incidentFor (asset : Asset) (rule : AutomationRule) :
    (s.incidents.insert (p.incidentFor env s asset rule)).rows =
      s.incidents.rows ++ [p.incidentFor env s asset rule] :=
  s.incidents.rows_insert_of_fresh s.incidents.find?_nextId

theorem recorded_queueBacklog (asset : Asset) (rule : AutomationRule) :
    ((s.recorded env p asset).write
      [.insertIncident (p.incidentFor env s asset rule)]).queueBacklog = s.queueBacklog := by
  change (s.recorded env p asset).actions.rows.countP _ = _
  rw [recorded_actions]
  rfl

/-- The incident is opened, and the action queued if there is room for it. -/
theorem newCase_of_opens (settings : Settings) {asset : Asset} {rule : AutomationRule}
    (opens : Opens env p s asset rule) :
    NewCase settings env p s
      (openIncident settings env p asset rule (p.eventFor env s asset) (s.recorded env p asset)).1
      (openIncident settings env p asset rule (p.eventFor env s asset)
        (s.recorded env p asset)).2 := by
  have incident : newIncident (s.recorded env p asset).incidents.nextId asset rule
      (p.eventFor env s asset) env.now = p.incidentFor env s asset rule := by
    rw [recorded_incidents]; rfl
  have action : newAction ((s.recorded env p asset).write
      [.insertIncident (p.incidentFor env s asset rule)]).actions.nextId
      (p.incidentFor env s asset rule) rule p.executorMode env.now =
        p.actionFor env s asset rule := by
    change newAction (s.recorded env p asset).actions.nextId _ _ _ _ = _
    rw [recorded_actions]; rfl
  simp only [openIncident, incident, action, recorded_queueBacklog]
  split
  · next noAction => exact .incidentOnly asset rule opens noAction
  · next wanted =>
    split
    · next full => exact .rejected asset rule opens wanted full
    · next room => exact .queued asset rule opens wanted (by omega)

theorem newCase_of_processNew {o : Processed} {t : Store}
    (h : processNew settings env p s = .ok (o, t)) : NewCase settings env p s o t := by
  unfold processNew at h
  split at h
  · cases h
  · next asset known =>
    change (match RuleEngine.matchRule (s.recorded env p asset).rules (p.eventFor env s asset)
      with | none => _ | some rule => _) = _ at h
    rw [recorded_rules] at h
    split at h
    · next none => cases h; exact .unmatched asset known none
    · next rule matched =>
      change (if inCooldown (s.recorded env p asset) asset.id rule.cooldownMinutes env.now then _
        else _) = _ at h
      have same : inCooldown (s.recorded env p asset) asset.id rule.cooldownMinutes env.now =
          inCooldown s asset.id rule.cooldownMinutes env.now := by simp [inCooldown]
      rw [same] at h
      split at h
      · next recent => cases h; exact .suppressed asset rule known matched recent
      · next clear =>
        have made := newCase_of_opens settings (p := p)
          ⟨known, matched, by simpa using clear⟩
        obtain ⟨rfl, rfl⟩ := Prod.mk.inj (Except.ok.inj h)
        exact made

variable (settings env) in
/-- A known asset is enough for `_process_new` to return. -/
theorem processNew_isOk {asset : Asset}
    (known : s.assetByExternalId p.assetExternalId = some asset) :
    ∃ o t, processNew settings env p s = .ok (o, t) := by
  simp only [processNew, known]
  split
  · exact ⟨_, _, rfl⟩
  · split <;> exact ⟨_, _, rfl⟩

theorem processNew_unknown (unknown : s.assetByExternalId p.assetExternalId = none) :
    processNew settings env p s = .error (.unknownAsset p.assetExternalId) := by
  simp [processNew, unknown]

namespace NewCase

variable {o : Processed} {t : Store}

/-- No case touches the idempotency records. -/
theorem records_eq (h : NewCase settings env p s o t) : t.records = s.records := by
  cases h <;>
    simp only [Store.write_cons, Store.write_nil, Write.apply_records, recorded_records]

/-- Every case records the event. -/
theorem events_eq (h : NewCase settings env p s o t) : t.events = s.events.insert o.event := by
  cases h <;> simp only [Store.write_cons, Store.write_nil, Write.apply_events, recorded_events]

theorem event_id (h : NewCase settings env p s o t) : o.event.id = s.events.nextId := by
  cases h <;> rfl

theorem find?_event (h : NewCase settings env p s o t) :
    t.events.find? o.event.id = some o.event := by
  rw [h.events_eq, Table.find?_insert, h.event_id, s.events.find?_nextId]
  simp [h.event_id]

end NewCase

/-! ## The ways `process` can return -/

/-- What a replay returns. -/
def IdempotencyRecord.result (record : IdempotencyRecord) (event : OperationalEvent)
    (s : Store) : Processed :=
  ⟨event, (truthy record.incidentId).bind s.incidents.find?,
    (truthy record.actionId).bind s.actions.find?, record.skippedReason⟩

/-- What a replay writes. -/
def IdempotencyRecord.replayed (record : IdempotencyRecord) (now : Instant) : List Write :=
  [.hitRecord record.id now, .insertAudit (idempotencyHit record now)]

variable (settings env p s) in
/-- Every way `process` returns: a new event, with or without a key, or a replay. -/
inductive ProcessCase : Response → Store → Prop
  | unkeyed {o : Processed} {t : Store} (unkeyed : p.key? = none)
      (new : NewCase settings env p s o t) : ProcessCase ⟨o, false⟩ t
  | owned {key : String} {o : Processed} {t : Store} (keyed : p.key? = some key)
      (vacant : s.recordByKey key = none)
      (new : NewCase settings env p
        (s.write [.insertRecord (newRecord s.records.nextId key env.now)]) o t) :
      ProcessCase ⟨o, false⟩ (t.write [.completeRecord s.records.nextId o.columns env.now])
  | replayed {key : String} {record : IdempotencyRecord} {eventId : Nat}
      {event : OperationalEvent} (keyed : p.key? = some key)
      (completed : completedRecord s key = some (record, eventId))
      (found : s.events.find? eventId = some event) :
      ProcessCase ⟨record.result event s, true⟩ (s.write (record.replayed env.now))

theorem map_eq_ok {ε α β : Type} {f : α → β} {x : Except ε α} {b : β} :
    x.map f = .ok b ↔ ∃ a, x = .ok a ∧ f a = b := by
  cases x <;> simp [Except.map]

theorem replay_eq_ok {now : Instant} {record : IdempotencyRecord} {eventId : Nat}
    {o : Processed} {t : Store} :
    replayIdempotentRecord now record eventId s = .ok (o, t) ↔
      ∃ event, s.events.find? eventId = some event ∧ o = record.result event s ∧
        t = s.write (record.replayed now) := by
  unfold replayIdempotentRecord
  change (match s.events.find? eventId with | none => _ | some event => _) = _ ↔ _
  cases s.events.find? eventId with
  | none => simp
  | some event =>
    simp only [Except.ok.injEq, Prod.mk.injEq, Option.some.injEq, exists_eq_left']
    exact and_congr eq_comm eq_comm

theorem replay_missing {now : Instant} {record : IdempotencyRecord} {eventId : Nat}
    (missing : s.events.find? eventId = none) :
    replayIdempotentRecord now record eventId s = .error .missingEvent := by
  have missing : (s.write [.hitRecord record.id now,
    .insertAudit (idempotencyHit record now)]).events.find? eventId = none := missing
  simp only [replayIdempotentRecord, missing]

/-- Alone, a call that finds an incomplete record waits in vain. -/
theorem waitForIdempotentResult_eq {key : String} (pending : completedRecord s key = none)
    (now : Instant) (attempts : Nat) :
    waitForIdempotentResult now key s attempts = .error .notCommitted := by
  induction attempts with
  | zero => rfl
  | succ n ih => simp [waitForIdempotentResult, pending, ih]

theorem process_unkeyed {o : Processed} {t : Store} (unkeyed : p.key? = none)
    (new : processNew settings env p s = .ok (o, t)) :
    process settings env p s = .ok (⟨o, false⟩, t) := by
  simp [process, unkeyed, new, Except.map]

theorem process_owned {key : String} {o : Processed} {t : Store} (keyed : p.key? = some key)
    (vacant : s.recordByKey key = none)
    (new : processNew settings env p
      (s.write [.insertRecord (newRecord s.records.nextId key env.now)]) = .ok (o, t)) :
    process settings env p s =
      .ok (⟨o, false⟩, t.write [.completeRecord s.records.nextId o.columns env.now]) := by
  have pending : completedRecord s key = none := by simp [completedRecord, vacant]
  simp only [process, processWithIdempotency, keyed, pending, vacant, Option.isSome_none,
    Bool.false_eq_true, if_false, new, Except.map]
  rfl

theorem process_replayed {key : String} {record : IdempotencyRecord} {eventId : Nat}
    {event : OperationalEvent} (keyed : p.key? = some key)
    (completed : completedRecord s key = some (record, eventId))
    (found : s.events.find? eventId = some event) :
    process settings env p s =
      .ok (⟨record.result event s, true⟩, s.write (record.replayed env.now)) := by
  have replay : replayIdempotentRecord env.now record eventId s =
      .ok (record.result event s, s.write (record.replayed env.now)) :=
    replay_eq_ok.mpr ⟨event, found, rfl, rfl⟩
  simp [process, processWithIdempotency, keyed, completed, replay, Except.map]

theorem processCase_of_process {r : Response} {t : Store}
    (h : process settings env p s = .ok (r, t)) : ProcessCase settings env p s r t := by
  unfold process at h
  split at h
  · next key keyed =>
    unfold processWithIdempotency at h
    split at h
    · next record eventId completed =>
      obtain ⟨⟨o, u⟩, replay, same⟩ := map_eq_ok.mp h
      obtain ⟨event, found, rfl, rfl⟩ := replay_eq_ok.mp replay
      cases same
      exact .replayed keyed completed found
    · next pending =>
      split at h
      · rw [waitForIdempotentResult_eq pending] at h
        cases h
      · next vacant =>
        obtain ⟨⟨o, u⟩, new, same⟩ := map_eq_ok.mp h
        cases same
        exact .owned keyed (by simpa using vacant) (newCase_of_processNew new)
  · next unkeyed =>
    obtain ⟨⟨o, u⟩, new, same⟩ := map_eq_ok.mp h
    cases same
    exact .unkeyed unkeyed (newCase_of_processNew new)

/-- A call for a known asset returns, unless its key is taken. -/
theorem process_isOk_of_vacant (settings : Settings) (env : Surroundings) {asset : Asset}
    (vacant : ∀ key ∈ p.key?, s.recordByKey key = none)
    (known : s.assetByExternalId p.assetExternalId = some asset) :
    ∃ r t, process settings env p s = .ok (r, t) := by
  cases keyed : p.key? with
  | none =>
    obtain ⟨o, t, new⟩ := processNew_isOk settings env known
    exact ⟨_, _, process_unkeyed keyed new⟩
  | some key =>
    obtain ⟨o, t, new⟩ := processNew_isOk settings env
      (s := s.write [.insertRecord (newRecord s.records.nextId key env.now)]) known
    exact ⟨_, _, process_owned keyed (vacant key keyed) new⟩

end Cases

end SupportOps.Python
