import SupportOps.DotNet.Ingestion
import SupportOps.Library.Serial

/-!
# Concurrent ingestion

`IngestAsync` statement by statement, in any number of transactions at once. `BEGIN IMMEDIATE`
takes the one write lock of the database, so each transaction has the effect of one call of
`RecordIngestionDecisionAsync` at its commit. The clock is read before, outside of the lock.
-/
namespace SupportOps.DotNet

open Library

/-- The statement a transaction has to send next. -/
inductive IngestPhase where
  | beginImmediate
  | insertEvent
  | auditEvent
  | auditNormal
  | checkCooldown
  | auditSuppressed (recent : Incident)
  | createIncident
  | auditIncident
  | createAction
  | auditAction
  | commit (result : EventIngestionResult)

/-- A call past `Normalize`, with the clock reading it took. -/
structure IngestProgram where
  operationEvent : OperationEvent
  now : Instant
  guids : Guids
  phase : IngestPhase

inductive IngestStep where
  | ingest (request : SyntheticEventRequest) (now : Instant) (guids : Guids)
  | statement

/-- A completed call: what it asked of the store, and the answer. -/
structure Answer where
  call : DecisionCall
  result : EventIngestionResult
  deriving DecidableEq, Repr

abbrev IngestEffect := Effect IngestProgram Write Answer

section Transaction

variable (culture : Culture) (options : OpsProcessingOptions)

def IngestProgram.call (p : IngestProgram) : DecisionCall :=
  decisionCall options p.operationEvent p.now p.guids

/-- The statement of a phase, if it writes, and the phase after it. -/
def DecisionCall.send (c : DecisionCall) : IngestPhase → Store → Option Write × IngestPhase
  | .beginImmediate, _ => (some .beginImmediate, .insertEvent)
  | .insertEvent, _ => (some (.insertEvent c.operationEvent), .auditEvent)
  | .auditEvent, _ => (some (.addAudit c.eventReceived),
      if !c.createIncident then .auditNormal else .checkCooldown)
  | .auditNormal, _ => (some (.addAudit c.normalEventRecorded),
      .commit (c.result .ignored none none false))
  | .checkCooldown, s => (none,
      match c.recentOpenIncident s with
      | some recent => .auditSuppressed recent
      | none => .createIncident)
  | .auditSuppressed recent, _ => (some (.addAudit (c.cooldownSuppressed culture recent)),
      .commit (c.result .cooldownSuppressed (some recent.id) none true))
  | .createIncident, _ => (some (.createIncident c.incident), .auditIncident)
  | .auditIncident, _ => (some (.addAudit c.incidentCreated),
      if !c.queueAction then .commit (c.result .incidentCreated (some c.incidentId) none false)
      else .createAction)
  | .createAction, _ => (some (.createAction c.action), .auditAction)
  | .auditAction, _ => (some (.addAudit c.actionQueued),
      .commit (c.result .actionQueued (some c.incidentId) (some c.actionId) false))
  | .commit result, _ => (none, .commit result)

/-- One statement of a transaction; what raises is rolled back. -/
def ingestStatement (p : IngestProgram) (s : Store) : Option IngestEffect :=
  match p.phase with
  | .commit result => some (.commit [⟨p.call options, result⟩])
  | phase =>
    match (p.call options).send culture phase s with
    | (some w, next) =>
      if w.violates s then some (.rollback []) else some (.next { p with phase := next } [w] [])
    | (none, next) => some (.next { p with phase := next } [] [])

/-- `Normalize` raises before the store is reached. -/
def openCall : IngestStep → Store → Option IngestProgram
  | .ingest request now guids, _ =>
    (normalize culture request now guids.event).toOption.map fun e =>
      ⟨e, now, guids, .beginImmediate⟩
  | .statement, _ => none

/-- The transactions of `IngestAsync`; every write needs the database's write lock. -/
def ingestion : Client Store Write Unit IngestProgram IngestStep Answer where
  apply := Write.apply
  locks _ := [()]
  start := openCall culture
  exec
    | .statement, p, s, _ => ingestStatement culture options p s
    | .ingest _ _ _, _, _, _ => none

/-! ## The rest of a transaction -/

/-- What `RecordIngestionDecisionAsync` has still to do from a phase on. -/
def DecisionCall.rest (c : DecisionCall) : IngestPhase → Store → DecisionCall.Outcome
  | .beginImmediate, s => c.recordIngestionDecision culture s
  | .insertEvent, s => do
    let s ← s.execute (.insertEvent c.operationEvent)
    let s ← s.execute (.addAudit c.eventReceived)
    c.recordedEvent culture s
  | .auditEvent, s => do
    let s ← s.execute (.addAudit c.eventReceived)
    c.recordedEvent culture s
  | .auditNormal, s => do
    let s ← s.execute (.addAudit c.normalEventRecorded)
    return (c.result .ignored none none false, s)
  | .checkCooldown, s => c.checkCooldown culture s
  | .auditSuppressed recent, s => do
    let s ← s.execute (.addAudit (c.cooldownSuppressed culture recent))
    return (c.result .cooldownSuppressed (some recent.id) none true, s)
  | .createIncident, s => c.recordIncident s
  | .auditIncident, s => do
    let s ← s.execute (.addAudit c.incidentCreated)
    c.recordedIncident s
  | .createAction, s => c.recordAction s
  | .auditAction, s => do
    let s ← s.execute (.addAudit c.actionQueued)
    return (c.result .actionQueued (some c.incidentId) (some c.actionId) false, s)
  | .commit result, s => return (result, s)

/-- Sending the statement of a phase leaves the rest of the phase after it. -/
theorem rest_send (c : DecisionCall) (phase : IngestPhase) (s : Store) :
    c.rest culture phase s = match c.send culture phase s with
      | (some w, next) => s.execute w >>= c.rest culture next
      | (none, next) => c.rest culture next s := by
  cases phase with
  | auditEvent =>
    simp only [DecisionCall.rest, DecisionCall.send, DecisionCall.recordedEvent]
    split <;> rfl
  | auditIncident =>
    simp only [DecisionCall.rest, DecisionCall.send, DecisionCall.recordedIncident]
    split <;> rfl
  | checkCooldown =>
    simp only [DecisionCall.rest, DecisionCall.send, DecisionCall.checkCooldown]
    cases c.recentOpenIncident s <;> rfl
  | _ => rfl

/-- Everything a statement can do. -/
inductive Sent (p : IngestProgram) (s : Store) : IngestEffect → Prop
  | write (w : Write) (next : IngestPhase)
      (sent : (p.call options).send culture p.phase s = (some w, next))
      (ok : w.violates s = false) : Sent p s (.next { p with phase := next } [w] [])
  | read (next : IngestPhase) (sent : (p.call options).send culture p.phase s = (none, next))
      (begun : p.phase ≠ .beginImmediate) : Sent p s (.next { p with phase := next } [] [])
  | raised : Sent p s (.rollback [])
  | commit (result : EventIngestionResult) (phase : p.phase = .commit result) :
      Sent p s (.commit [⟨p.call options, result⟩])

variable {culture options}

theorem sent_of_statement {p : IngestProgram} {s : Store} {effect : IngestEffect}
    (h : ingestStatement culture options p s = some effect) : Sent culture options p s effect := by
  unfold ingestStatement at h
  split at h
  · next result phase =>
    cases h
    exact .commit result phase
  · split at h
    · next w next sent =>
      split at h
      · cases h; exact .raised
      · next ok =>
        cases h
        exact .write w next sent (by simpa using ok)
    · next next sent =>
      cases h
      refine .read next sent fun first => ?_
      rw [first] at sent
      cases sent

theorem exec_statement {l : IngestStep} {p : IngestProgram} {s : Store} {locked : Unit → Bool}
    {effect : IngestEffect} (h : (ingestion culture options).exec l p s locked = some effect) :
    Sent culture options p s effect := by
  cases l with
  | ingest request now guids => cases h
  | statement => exact sent_of_statement h

variable (culture options)

/-- The answer to a call, with the store it leaves. -/
def answered (p : IngestProgram) (outcome : DecisionCall.Outcome) :
    Except StoreError (Answer × Store) :=
  outcome.map fun (result, t) => (⟨p.call options, result⟩, t)

/-- Each transaction is one call of `RecordIngestionDecisionAsync`. -/
def serial : Serial (ingestion culture options) StoreError where
  lock := ()
  locked _ := List.mem_singleton_self _
  untouched p := p.phase = .beginImmediate
  call p s := answered options p ((p.call options).recordIngestionDecision culture s)
  rest p s := answered options p ((p.call options).rest culture p.phase s)
  start := by
    intro l s p h
    cases l with
    | statement => cases h
    | ingest request now guids =>
      obtain ⟨e, -, rfl⟩ := Option.map_eq_some_iff.mp h
      rfl
  rest_eq_call := by
    intro p untouched
    funext s
    rw [untouched]
    rfl
  next := by
    intro l p s f q ws es h
    cases exec_statement h with
    | write w next sent ok =>
      refine ⟨rfl, rfl, ?_, fun _ => List.cons_ne_nil _ _⟩
      rw [rest_send culture (p.call options) p.phase, sent]
      have executed : s.execute w = .ok (w.apply s) := Store.execute_eq_ok.mpr ⟨ok, rfl⟩
      simp only [executed]
      rfl
    | read next sent begun =>
      refine ⟨rfl, rfl, ?_, fun first => absurd first begun⟩
      rw [rest_send culture (p.call options) p.phase, sent]
      rfl
  restart := by
    intro l p s f q h
    cases exec_statement h
  commit := by
    intro l p s f es h
    cases exec_statement h with
    | commit result phase =>
      refine ⟨_, rfl, ?_⟩
      rw [phase]
      rfl
  rollback := by
    intro l p s f es h
    cases exec_statement h with
    | raised => rfl

end Transaction

end SupportOps.DotNet
