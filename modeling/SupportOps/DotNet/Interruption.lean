import SupportOps.DotNet.Ingestion
import SupportOps.Library.Interrupts

/-!
# Interrupted ingestion

`IngestAsync` await by await. A statement may fail and the token may be cancelled before or after
any await. Up to the commit the call stores all of its rows or none; a token that is cancelled
between the commit and the signal of a queued action makes the call raise with its rows stored.
-/
namespace SupportOps.DotNet

open Library

/-- A call to the store: what it may raise, and the action ids that are in the channel. -/
abbrev StoreCall (α : Type) := Call Store (List String) IngestError α

/-! ## The calls -/

/-- `OpenConnectionAsync`. -/
def openConnection (optimizeForLocalThroughput : Bool) : StoreCall Unit :=
  if optimizeForLocalThroughput then do
    Call.touch
    Call.touch
    Call.touch
  else do
    Call.touch
    Call.touch

/-- A statement that may violate a primary key. -/
def executeAsync (w : Write) : StoreCall Unit := Call.write .store fun s => s.execute w

namespace DecisionCall

variable (culture : Culture) (c : DecisionCall)

/-- `COMMIT` and the return. -/
def commitAsync (r : EventIngestionResult) : StoreCall EventIngestionResult := do
  Call.commit
  pure r

/-- From the insertion of the action on. -/
def recordActionAsync : StoreCall EventIngestionResult := do
  executeAsync (.createAction c.action)
  executeAsync (.addAudit c.actionQueued)
  commitAsync (c.result .actionQueued (some c.incidentId) (some c.actionId) false)

/-- After the incident and its audit row. -/
def recordedIncidentAsync : StoreCall EventIngestionResult :=
  if !c.queueAction then
    commitAsync (c.result .incidentCreated (some c.incidentId) none false)
  else c.recordActionAsync

/-- From the insertion of the incident on. -/
def recordIncidentAsync : StoreCall EventIngestionResult := do
  executeAsync (.createIncident c.incident)
  executeAsync (.addAudit c.incidentCreated)
  c.recordedIncidentAsync

/-- What follows the answer of the cooldown query. -/
def checkedCooldownAsync : Option Incident → StoreCall EventIngestionResult
  | some recent => do
    executeAsync (.addAudit (c.cooldownSuppressed culture recent))
    commitAsync (c.result .cooldownSuppressed (some recent.id) none true)
  | none => c.recordIncidentAsync

/-- From the cooldown query on: `ExecuteReaderAsync`, then `ReadAsync`. -/
def checkCooldownAsync : StoreCall EventIngestionResult := do
  let recentIncident ← Call.query c.recentOpenIncident
  Call.touch
  c.checkedCooldownAsync culture recentIncident

/-- After the event and its audit row. -/
def recordedEventAsync : StoreCall EventIngestionResult :=
  if !c.createIncident then do
    executeAsync (.addAudit c.normalEventRecorded)
    commitAsync (c.result .ignored none none false)
  else c.checkCooldownAsync culture

def recordIngestionDecisionAsync (optimizeForLocalThroughput : Bool) :
    StoreCall EventIngestionResult := do
  openConnection optimizeForLocalThroughput
  Call.transaction do
    executeAsync (.insertEvent c.operationEvent)
    executeAsync (.addAudit c.eventReceived)
    c.recordedEventAsync culture

end DecisionCall

/-- `ChannelActionSignalQueue.SignalAsync`. -/
def signalAsync (actionId : String) : StoreCall Unit := Call.perform (· ++ [actionId])

/-- After the store call: the signal of a queued action, and the return. -/
def signalled (result : EventIngestionResult) : StoreCall EventIngestionResult :=
  match result.actionId with
  | some actionId => do
    signalAsync actionId
    pure result
  | none => pure result

def ingestAsync (culture : Culture) (options : OpsProcessingOptions)
    (optimizeForLocalThroughput : Bool) (request : SyntheticEventRequest) (now : Instant)
    (guids : Guids) : StoreCall EventIngestionResult :=
  match normalize culture request now guids.event with
  | .error e => Call.raise (.error e)
  | .ok normalized => do
    let result ← (decisionCall options normalized now guids).recordIngestionDecisionAsync culture
      optimizeForLocalThroughput
    signalled result

/-! ## The transaction -/

/-- The awaits of the body of the transaction, with its commit. -/
def Decision.statements : Decision → Nat
  | .ignored => 4
  | .cooldownSuppressed => 6
  | .incidentCreated => 7
  | .actionQueued => 9

/-- The awaits of `OpenConnectionAsync`. -/
def openAwaits (optimizeForLocalThroughput : Bool) : Nat :=
  if optimizeForLocalThroughput then 3 else 2

namespace DecisionCall

variable {culture : Culture} {c : DecisionCall} (opened : Nat)

/-- The first await after the commit. -/
def committedAt (r : EventIngestionResult) : Nat := opened + 1 + r.decision.statements

/-- What follows the answer of the cooldown query. -/
def checkedCooldown (culture : Culture) (c : DecisionCall) : Option Incident → Store → Outcome
  | some recent => fun s => do
    let s ← s.execute (.addAudit (c.cooldownSuppressed culture recent))
    return (c.result .cooldownSuppressed (some recent.id) none true, s)
  | none => c.recordIncident

theorem checkCooldown_eq :
    c.checkCooldown culture = fun s => c.checkedCooldown culture (c.recentOpenIncident s) s := by
  funext s
  unfold checkCooldown checkedCooldown
  cases c.recentOpenIncident s <;> rfl

theorem recordAction_allOrNothing :
    AllOrNothing CallState.working (opened + 7) (committedAt opened) c.recordActionAsync
      c.recordAction :=
  .write (.write (.commit rfl))

theorem recordedIncident_allOrNothing :
    AllOrNothing CallState.working (opened + 7) (committedAt opened) c.recordedIncidentAsync
      c.recordedIncident := by
  unfold recordedIncidentAsync recordedIncident
  cases c.queueAction with
  | false => exact .commit rfl
  | true => exact recordAction_allOrNothing opened

theorem recordIncident_allOrNothing :
    AllOrNothing CallState.working (opened + 5) (committedAt opened) c.recordIncidentAsync
      c.recordIncident :=
  .write (.write (recordedIncident_allOrNothing opened))

theorem checkedCooldown_allOrNothing (recent : Option Incident) :
    AllOrNothing CallState.working (opened + 5) (committedAt opened)
      (c.checkedCooldownAsync culture recent) (c.checkedCooldown culture recent) := by
  cases recent with
  | some recent => exact .write (.commit rfl)
  | none => exact recordIncident_allOrNothing opened

theorem checkCooldown_allOrNothing :
    AllOrNothing CallState.working (opened + 3) (committedAt opened)
      (c.checkCooldownAsync culture) (c.checkCooldown culture) := by
  rw [checkCooldown_eq]
  exact .query fun recent => .touch (checkedCooldown_allOrNothing opened recent)

theorem recordedEvent_allOrNothing :
    AllOrNothing CallState.working (opened + 3) (committedAt opened)
      (c.recordedEventAsync culture) (c.recordedEvent culture) := by
  unfold recordedEventAsync recordedEvent
  cases c.createIncident with
  | false => exact .write (.commit rfl)
  | true => exact checkCooldown_allOrNothing opened

theorem openConnection_allOrNothing {optimize : Bool} {p : StoreCall EventIngestionResult}
    {f : Store → Outcome} {stop : EventIngestionResult → Nat}
    {view : CallState Store (List String) → Option Store}
    (h : AllOrNothing view (openAwaits optimize) stop p f) :
    AllOrNothing view 0 stop (openConnection optimize >>= fun _ => p) f := by
  cases optimize with
  | false =>
    change AllOrNothing view 0 stop ((Call.touch >>= fun _ => Call.touch) >>= fun _ => p) f
    rw [Call.bind_assoc]
    exact .touch (.touch h)
  | true =>
    change AllOrNothing view 0 stop
      ((Call.touch >>= fun _ => Call.touch >>= fun _ => Call.touch) >>= fun _ => p) f
    simp only [Call.bind_assoc]
    exact .touch (.touch (.touch h))

/-- From await 0 on, the call stores what `recordIngestionDecision` stores, or raises. -/
theorem record_allOrNothing (culture : Culture) (c : DecisionCall) (optimize : Bool) :
    AllOrNothing (fun w => some w.stored) 0 (committedAt (openAwaits optimize))
      (c.recordIngestionDecisionAsync culture optimize) (c.recordIngestionDecision culture) :=
  openConnection_allOrNothing <| .transaction <| .write <| .write <| recordedEvent_allOrNothing _

end DecisionCall

/-! ## The whole call -/

/-- The call would open an incident and queue an action for it. -/
structure DecisionCall.Queues (c : DecisionCall) (s : Store) : Prop where
  newEvent : s.events.find? c.operationEvent.id = none
  createIncident : c.createIncident = true
  clear : c.recentOpenIncident s = none
  newIncident : s.incidents.find? c.incidentId = none
  queueAction : c.queueAction = true
  newAction : s.actions.find? c.actionId = none

namespace DecisionCall

variable {culture : Culture} {c : DecisionCall} {s t : Store} {r : EventIngestionResult}

/-- The writes of a call that queues an action. -/
def queuedWrites (c : DecisionCall) : List Write :=
  [.insertEvent c.operationEvent, .addAudit c.eventReceived, .createIncident c.incident,
    .addAudit c.incidentCreated, .createAction c.action, .addAudit c.actionQueued]

theorem Queues.recorded (h : c.Queues s) (culture : Culture) : c.recordIngestionDecision culture s =
    .ok (c.result .actionQueued (some c.incidentId) (some c.actionId) false,
      s.write c.queuedWrites) := by
  have newEvent : (Write.insertEvent c.operationEvent).violates s = false := by
    rw [Write.violates, h.newEvent]
    rfl
  have newIncident : (Write.createIncident c.incident).violates s = false := by
    rw [Write.violates, incident, h.newIncident]
    rfl
  have newAction : (Write.createAction c.action).violates s = false := by
    rw [Write.violates, action, h.newAction]
    rfl
  have clear : c.recentOpenIncident ((Write.addAudit c.eventReceived).apply
      ((Write.insertEvent c.operationEvent).apply s)) = none := h.clear
  unfold recordIngestionDecision
  refine execute_bind_eq_ok.mpr ⟨rfl, execute_bind_eq_ok.mpr ⟨newEvent,
    execute_bind_eq_ok.mpr ⟨rfl, ?_⟩⟩⟩
  simp only [recordedEvent, h.createIncident, Bool.not_true, Bool.false_eq_true, if_false,
    checkCooldown, Write.apply_beginImmediate, clear]
  refine execute_bind_eq_ok.mpr ⟨newIncident, execute_bind_eq_ok.mpr ⟨rfl, ?_⟩⟩
  simp only [recordedIncident, h.queueAction, Bool.not_true, Bool.false_eq_true, if_false]
  exact execute_bind_eq_ok.mpr ⟨newAction, execute_bind_eq_ok.mpr ⟨rfl, rfl⟩⟩

/-- A queued action is in the table; it was not before. -/
theorem Queues.write_ne (h : c.Queues s) : s.write c.queuedWrites ≠ s := by
  intro same
  have stored : c.action ∈ (s.write c.queuedWrites).actions.rows :=
    s.actions.mem_insert_self h.newAction
  rw [same] at stored
  have found := s.actions.find?_of_mem stored
  rw [key_queuedAction] at found
  exact absurd (found.symm.trans h.newAction) (by simp)

/-- A call that names an action in its result has queued it. -/
theorem queues_of_recorded (h : c.recordIngestionDecision culture s = .ok (r, t)) {id : String}
    (named : r.actionId = some id) : c.Queues s ∧ r.decision = .actionQueued := by
  obtain ⟨newEvent, recorded⟩ := recorded_of_recordIngestionDecision h
  cases recorded with
  | actionQueued worthy clear new queues newAction =>
    exact ⟨⟨newEvent, worthy, clear, new, queues, newAction⟩, rfl⟩
  | ignored worthless => cases named
  | suppressed recent worthy found => cases named
  | incidentCreated worthy clear new noAction => cases named

end DecisionCall

section Property

variable (culture : Culture) (options : OpsProcessingOptions) (optimize : Bool)
  (request : SyntheticEventRequest) (now : Instant) (guids : Guids)

/-- A call that raises leaves the tables as they were, and one that returns has added the rows of
its result. -/
def IngestedOrNot (s : Store)
    (o : Outcome Store (List String) IngestError EventIngestionResult) : Prop :=
  match o.result with
  | .error _ => o.world.stored = s
  | .ok result => ∃ e, normalize culture request now guids.event = .ok e ∧
    s.events.find? e.id = none ∧
    Recorded culture (decisionCall options e now guids) s result o.world.stored

/-- No statement fails, and the token is cancelled after the commit of a queued action and before
its signal. -/
def CancelledBeforeSignal (d : Disturbance) (s : Store) : Prop :=
  ∃ e, normalize culture request now guids.event = .ok e ∧
    (decisionCall options e now guids).Queues s ∧
    d.cancelledFrom = some (openAwaits optimize + 10) ∧
    ∀ i, i < openAwaits optimize + 10 → d.failing i = false

variable {culture options optimize request now guids}

theorem signalled_of_none {r : EventIngestionResult} (named : r.actionId = none) (d : Disturbance)
    (w : CallState Store (List String)) (n : Nat) : signalled r d w n = ⟨.ok r, w, n⟩ := by
  rw [signalled, named]
  rfl

/-- The signal of a queued action raises exactly if the token is cancelled. -/
theorem signalled_of_some {r : EventIngestionResult} {id : String} (named : r.actionId = some id)
    (d : Disturbance) (w : CallState Store (List String)) (n : Nat) :
    signalled r d w n = if d.cancelled n then ⟨.error .canceled, w, n + 1⟩
      else ⟨.ok r, { w with outside := w.outside ++ [id] }, n + 1⟩ := by
  rw [signalled, named]
  change (signalAsync id >>= fun _ => pure r) d w n = _
  rw [Call.bind_apply, signalAsync, Call.perform]
  cases d.cancelled n <;> rfl

/-- Before the signal nothing comes over a call that is cancelled right there. -/
theorem quietBetween_of_cancelledFrom {d : Disturbance} {n : Nat} (fires : d.cancelledFrom = some n)
    (done : ∀ i, i < n → d.failing i = false) : d.QuietBetween 0 n := by
  intro i _ before
  refine ⟨?_, done i before⟩
  rw [Disturbance.cancelled_of_cancelledFrom fires, decide_eq_false (Nat.not_le.mpr before)]

/-- Cancelled before the signal: the event queues an action, and nothing else comes over the call
before the token is cancelled at the signal. -/
theorem cancelledBeforeSignal_iff {d : Disturbance} {s : Store} {e : OperationEvent}
    (normalized : normalize culture request now guids.event = .ok e) :
    CancelledBeforeSignal culture options optimize request now guids d s ↔
      (decisionCall options e now guids).Queues s ∧
        d.cancelledFrom = some (openAwaits optimize + 10) ∧
        d.QuietBetween 0 (openAwaits optimize + 10) := by
  constructor
  · rintro ⟨e', ok, queues, fires, done⟩
    obtain rfl : e = e' := Except.ok.inj (normalized.symm.trans ok)
    exact ⟨queues, fires, quietBetween_of_cancelledFrom fires done⟩
  · rintro ⟨queues, fires, quiet⟩
    exact ⟨e, normalized, queues, fires, fun i before => (quiet i (Nat.zero_le i) before).2⟩

/-- After the commit only the signal of a queued action can still be cancelled. -/
theorem ingestedOrNot_signalled_iff {d : Disturbance} {s t : Store} {e : OperationEvent}
    {r : EventIngestionResult} {w : CallState Store (List String)}
    (normalized : normalize culture request now guids.event = .ok e)
    (ok : (decisionCall options e now guids).recordIngestionDecision culture s = .ok (r, t))
    (quiet : d.QuietBetween 0 (DecisionCall.committedAt (openAwaits optimize) r))
    (stored : w.stored = t) :
    IngestedOrNot culture options request now guids s
        (signalled r d w (DecisionCall.committedAt (openAwaits optimize) r)) ↔
      ¬ CancelledBeforeSignal culture options optimize request now guids d s := by
  subst stored
  obtain ⟨newEvent, recorded⟩ := recorded_of_recordIngestionDecision ok
  rw [cancelledBeforeSignal_iff normalized]
  cases named : r.actionId with
  | none =>
    rw [signalled_of_none named]
    refine iff_of_true ⟨e, normalized, newEvent, recorded⟩ fun signal => ?_
    have queued := Except.ok.inj (ok.symm.trans (signal.1.recorded culture))
    cases named.symm.trans (congrArg (fun answer => answer.1.actionId) queued)
  | some id =>
    obtain ⟨queues, decision⟩ := DecisionCall.queues_of_recorded ok named
    have stop : DecisionCall.committedAt (openAwaits optimize) r = openAwaits optimize + 10 := by
      rw [DecisionCall.committedAt, decision, Decision.statements]
    rw [stop] at quiet ⊢
    rw [signalled_of_some named]
    cases signal : d.cancelled (openAwaits optimize + 10) with
    | true =>
      -- the call raises, with its rows stored
      refine iff_of_false (fun same => ?_) (not_not_intro ⟨queues, ?_, quiet⟩)
      · have queued := Except.ok.inj (ok.symm.trans (queues.recorded culture))
        exact queues.write_ne ((congrArg Prod.snd queued).symm.trans same)
      · exact Disturbance.cancelledFrom_eq signal fun i before =>
          (quiet i (Nat.zero_le i) before).1
    | false =>
      refine iff_of_true ⟨e, normalized, newEvent, recorded⟩ fun late => ?_
      rw [Disturbance.cancelled_of_cancelledFrom late.2.1] at signal
      simp at signal

/-- An interrupted ingestion is all or nothing, unless its token is cancelled between the commit
and the signal of the action it has queued. -/
theorem ingestedOrNot_iff (d : Disturbance) (s : Store) (signals : List String) :
    IngestedOrNot culture options request now guids s
        (ingestAsync culture options optimize request now guids d ⟨s, none, signals⟩ 0) ↔
      ¬ CancelledBeforeSignal culture options optimize request now guids d s := by
  unfold ingestAsync
  cases normalized : normalize culture request now guids.event with
  | error e =>
    refine iff_of_true rfl ?_
    rintro ⟨e', ok, -⟩
    rw [normalized] at ok
    cases ok
  | ok e =>
    have atomic := (decisionCall options e now guids).record_allOrNothing culture optimize
    by_cases undisturbed : ∃ r t,
        (decisionCall options e now guids).recordIngestionDecision culture s = .ok (r, t) ∧
        d.QuietBetween 0 (DecisionCall.committedAt (openAwaits optimize) r)
    · obtain ⟨r, t, ok, quiet⟩ := undisturbed
      dsimp only
      rw [Call.bind_of_ok (atomic.returns rfl ok quiet)]
      exact ingestedOrNot_signalled_iff normalized ok quiet rfl
    · obtain ⟨e', u, m, raised, stored⟩ := atomic.raises (d := d)
        (w := ⟨s, none, signals⟩) rfl fun r t ok quiet => undisturbed ⟨r, t, ok, quiet⟩
      dsimp only
      rw [Call.bind_of_error raised]
      refine iff_of_true stored fun signal => ?_
      obtain ⟨queues, -, quiet⟩ := (cancelledBeforeSignal_iff normalized).mp signal
      exact undisturbed ⟨_, _, queues.recorded culture, quiet⟩

end Property

/-! ## A client that goes away -/

/-- An outage is posted to an empty store, and the request is aborted while `COMMIT` runs. -/
theorem rows_of_cancelled_call :
    let request : SyntheticEventRequest :=
      { assetId := some "asset-001", category := some "offline", severity := 92 }
    let o := ingestAsync asciiCulture {} true request 0 ⟨"1", "1", "1", []⟩
      ⟨some 13, fun _ => false⟩ ⟨.empty, none, []⟩ 0
    o.result = .error .canceled ∧ o.world.stored.events.rows.map OperationEvent.id = ["evt_1"] ∧
      o.world.stored.incidents.rows.map Incident.id = ["inc_1"] ∧
      o.world.stored.actions.rows.map QueuedAction.id = ["act_1"] ∧
      o.world.stored.audits.length = 3 ∧ o.world.outside = [] ∧
      ¬ IngestedOrNot asciiCulture {} request 0 ⟨"1", "1", "1", []⟩ .empty o := by
  refine ⟨by decide, by decide, by decide, by decide, by decide, by decide, ?_⟩
  intro same
  have audits := congrArg (fun s : Store => s.audits.length) same
  exact absurd audits (by decide)

end SupportOps.DotNet
