import SupportOps.Library.Sessions
import SupportOps.Python.Processor

/-!
# Concurrent event processing

`EventProcessor.process` statement by statement, in any number of sessions at once. Each
statement sees what is committed when it runs, reads the clock for itself, and draws the id of
the row it inserts from a sequence: an id that no stored and no uncommitted row has. A session
that meets a unique violation on its key rolls back and polls.
-/
namespace SupportOps.Python

open Library

/-- What one statement takes from outside: clock, `uuid4`, and the next id of its sequence. -/
structure Tick where
  now : Instant
  uuid : String
  id : Nat
  deriving DecidableEq, Repr

/-- The statement a call has to take next, with the objects it holds. -/
inductive IngestPhase where
  /-- the first look-up of the key -/
  | lookup (key : String)
  /-- the insertion of the key's record, in a savepoint -/
  | claim (key : String)
  /-- `_wait_for_idempotent_result`, with the attempts left -/
  | poll (key : String) (attempts : Nat)
  /-- `_replay_idempotent_record`: the `UPDATE` -/
  | replay (record : IdempotencyRecord) (eventId : Nat)
  /-- `_replay_idempotent_record`: the rows it returns -/
  | reload (record : IdempotencyRecord) (eventId : Nat)
  | loadAsset
  | recordEvent (asset : Asset)
  | matchRule (asset : Asset) (event : OperationalEvent)
  | checkCooldown (asset : Asset) (event : OperationalEvent) (rule : AutomationRule)
  | openIncident (asset : Asset) (event : OperationalEvent) (rule : AutomationRule)
  | checkBacklog (event : OperationalEvent) (rule : AutomationRule) (incident : Incident)
  | queueAction (event : OperationalEvent) (rule : AutomationRule) (incident : Incident)
  /-- the result columns of the record -/
  | complete (recordId : Nat) (result : Processed)
  /-- the commit, and the answer -/
  | answer (response : Response)

/-- A call in its session; `claimed` is the record it has inserted, `clock` its last reading. -/
structure IngestProgram where
  settings : Settings
  payload : EventBody
  claimed : Option Nat
  clock : Option Instant
  phase : IngestPhase

inductive IngestStep where
  | call (settings : Settings) (payload : EventCreate)
  | statement (tick : Tick)

/-- A committed call: its key and what it returned. -/
structure Answer where
  key : Option String
  response : Response
  deriving DecidableEq, Repr

namespace IngestProgram

/-- The next statement. -/
def goto (p : IngestProgram) (tick : Tick) (phase : IngestPhase) : IngestProgram :=
  { p with clock := some tick.now, phase := phase }

/-- `_process_new` has returned: the record is completed if the call has one. -/
def finish (p : IngestProgram) (tick : Tick) (o : Processed) : IngestProgram :=
  p.goto tick (match p.claimed with
    | some record => .complete record o
    | none => .answer ⟨o, false⟩)

end IngestProgram

/-- An id the database can give to a new row of a table. -/
def fresh {ρ : Type} [Keyed ρ Nat] (t : Table ρ) (id : Nat) : Bool :=
  decide (id ≠ 0) && (t.find? id).isNone

abbrev IngestEffect := Effect IngestProgram Write Answer

/-- One statement of `process` over what the session sees. -/
def ingestStatement (tick : Tick) (p : IngestProgram) (s : Store) : Option IngestEffect :=
  match p.phase with
  | .lookup key =>
    match completedRecord s key with
    | some (record, eventId) => some (.next (p.goto tick (.replay record eventId)) [] [])
    | none => some (.next (p.goto tick (.claim key)) [] [])
  | .claim key =>
    if (s.recordByKey key).isSome then some (.restart (p.goto tick (.poll key 100)))
    else if fresh s.records tick.id then
      some (.next { p.goto tick .loadAsset with claimed := some tick.id }
        [.insertRecord (newRecord tick.id key tick.now)] [])
    else none
  | .poll _ 0 => some (.rollback [])
  | .poll key (attempts + 1) =>
    match completedRecord s key with
    | some (record, eventId) => some (.next (p.goto tick (.replay record eventId)) [] [])
    | none => some (.next (p.goto tick (.poll key attempts)) [] [])
  | .replay record eventId =>
    some (.next (p.goto tick (.reload record eventId)) (record.replayed tick.now) [])
  | .reload record eventId =>
    match s.events.find? eventId with
    | none => some (.rollback [])
    | some event => some (.next (p.goto tick (.answer ⟨record.result event s, true⟩)) [] [])
  | .loadAsset =>
    match s.assetByExternalId p.payload.assetExternalId with
    | none => some (.rollback [])
    | some asset => some (.next (p.goto tick (.recordEvent asset)) [] [])
  | .recordEvent asset =>
    let event := p.payload.newEvent tick.id asset ⟨tick.now, tick.uuid⟩
    if fresh s.events tick.id then
      some (.next (p.goto tick (.matchRule asset event)) (eventWrites asset event) [])
    else none
  | .matchRule asset event =>
    match RuleEngine.matchRule s.rules event with
    | none =>
      some (.next (p.finish tick ⟨event, none, none, some .noMatchingRule⟩)
        [.insertAudit (eventRecorded event tick.now)] [])
    | some rule => some (.next (p.goto tick (.checkCooldown asset event rule)) [] [])
  | .checkCooldown asset event rule =>
    if inCooldown s asset.id rule.cooldownMinutes tick.now then
      some (.next (p.finish tick ⟨event, none, none, some .cooldown⟩)
        [.insertAudit (eventSuppressed event tick.now)] [])
    else some (.next (p.goto tick (.openIncident asset event rule)) [] [])
  | .openIncident asset event rule =>
    let incident := newIncident tick.id asset rule event tick.now
    if fresh s.incidents tick.id then
      some (.next (p.goto tick (.checkBacklog event rule incident)) [.insertIncident incident] [])
    else none
  | .checkBacklog event rule incident =>
    if rule.actionType = "none" then
      some (.next (p.finish tick ⟨event, some incident, none, none⟩)
        [.insertAudit (incidentCreated incident tick.now)] [])
    else if p.settings.maxQueueBacklog ≤ s.queueBacklog then
      some (.next (p.finish tick ⟨event, some incident, none, some .queueBackpressure⟩)
        [.insertAudit (queueBackpressure incident tick.now)] [])
    else some (.next (p.goto tick (.queueAction event rule incident)) [] [])
  | .queueAction event rule incident =>
    let action := newAction tick.id incident rule p.payload.executorMode tick.now
    if fresh s.actions tick.id then
      some (.next (p.finish tick ⟨event, some incident, some action, none⟩)
        [.insertAction action, .insertAudit (incidentCreated incident tick.now)] [])
    else none
  | .complete record o =>
    some (.next (p.goto tick (.answer ⟨o, false⟩)) [.completeRecord record o.columns tick.now] [])
  | .answer response => some (.commit [⟨p.payload.key?, response⟩])

/-- A call opens its session with its first statement. -/
def openCall : IngestStep → Store → Option IngestProgram
  | .call settings payload, _ =>
    some ⟨settings, payload.toEventBody, none, none, match payload.key? with
      | some key => .lookup key
      | none => .loadAsset⟩
  | .statement _, _ => none

/-- The sessions of `process`. An insertion of a key waits for an uncommitted one, and an
`UPDATE` for an uncommitted `UPDATE` of its row. -/
def ingestion : Client Store Write RowKey IngestProgram IngestStep Answer where
  apply := Write.apply
  locks := Write.locks
  start := openCall
  exec
    | .statement tick, p, s, _ => ingestStatement tick p s
    | .call _ _, _, _, _ => none

/-- `n` statements of session `i` at one time, with `id` for every row they insert. -/
def statements {ι : Type} (i : ι) (n : Nat) (now : Instant) (id : Nat) : List (ι × IngestStep) :=
  List.replicate n (i, .statement ⟨now, "0", id⟩)

abbrev Ingest (ι : Type) := World ι Store Write RowKey IngestProgram Answer

/-! ## Rows that stay, and ids that are free -/

section Tables

variable {ρ : Type} [Keyed ρ Nat] (t : Table ρ)

theorem fresh_iff {id : Nat} : fresh t id = true ↔ id ≠ 0 ∧ t.find? id = none := by
  simp [fresh]

theorem fresh_insert {id : Nat} (h : fresh t id = true) {r : ρ} (ne : Keyed.key r ≠ id) :
    fresh (t.insert r) id = true := by
  rw [fresh_iff] at h ⊢
  exact ⟨h.1, by rw [Table.find?_insert, h.2]; simp [ne]⟩

theorem fresh_modify {id : Nat} (h : fresh t id = true) (j : Nat) (f : ρ → ρ)
    (hf : ∀ r, Keyed.key (f r) = Keyed.key r) : fresh (t.modify j f hf) id = true := by
  rw [fresh_iff] at h ⊢
  refine ⟨h.1, ?_⟩
  rw [Table.find?_modify, h.2]
  split <;> rfl

theorem rows_insert_fresh {r : ρ} (h : fresh t (Keyed.key r) = true) :
    (t.insert r).rows = t.rows ++ [r] :=
  t.rows_insert_of_fresh ((fresh_iff t).mp h).2

/-- What is free in a table is free in every table it grew from. -/
theorem fresh_of_grown {u : Table ρ} {id : Nat} (h : fresh u id = true)
    (grows : (t.find? id).isSome → (u.find? id).isSome) : fresh t id = true := by
  rw [fresh_iff] at h ⊢
  refine ⟨h.1, ?_⟩
  by_contra taken
  have := grows (Option.isSome_iff_ne_none.mpr taken)
  simp [h.2] at this

theorem isSome_find?_modify {k : Nat} (h : (t.find? k).isSome) (j : Nat) (f : ρ → ρ)
    (hf : ∀ r, Keyed.key (f r) = Keyed.key r) : ((t.modify j f hf).find? k).isSome := by
  rw [Table.find?_modify]
  split <;> simpa using h

theorem isSome_find?_insert {k : Nat} (h : (t.find? k).isSome) (r : ρ) :
    ((t.insert r).find? k).isSome := by
  rw [Table.find?_insert]
  simp [h]

end Tables

/-- Events, incidents and actions are inserted and updated, never deleted. -/
structure Grows (s t : Store) : Prop where
  events : ∀ k, (s.events.find? k).isSome → (t.events.find? k).isSome
  incidents : ∀ k, (s.incidents.find? k).isSome → (t.incidents.find? k).isSome
  actions : ∀ k, (s.actions.find? k).isSome → (t.actions.find? k).isSome

theorem Grows.refl (s : Store) : Grows s s := ⟨fun _ h => h, fun _ h => h, fun _ h => h⟩

theorem Grows.trans {s t u : Store} (h : Grows s t) (h' : Grows t u) : Grows s u :=
  ⟨fun k hk => h'.events k (h.events k hk), fun k hk => h'.incidents k (h.incidents k hk),
    fun k hk => h'.actions k (h.actions k hk)⟩

theorem grows_apply (w : Write) (s : Store) : Grows s (w.apply s) := by
  refine ⟨?_, ?_, ?_⟩
  · intro k h
    rw [Write.apply_events]
    cases w <;> first | exact h | exact isSome_find?_insert _ h _
  · intro k h
    rw [Write.apply_incidents]
    cases w <;> first | exact h | exact isSome_find?_insert _ h _
  · intro k h
    rw [Write.apply_actions]
    cases w <;> first
      | exact h
      | exact isSome_find?_insert _ h _
      | exact isSome_find?_modify _ h _ _ _

theorem grows_write (ws : List Write) (s : Store) : Grows s (s.write ws) := by
  induction ws generalizing s with
  | nil => exact .refl s
  | cons w ws ih => exact (grows_apply w s).trans (ih _)

end SupportOps.Python
