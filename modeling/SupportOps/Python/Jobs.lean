import SupportOps.Python.Writes

/-!
# The health sweep and the reset

`run_health_sweep` queues one follow-up action for every stale open incident; `/admin/reset`
deletes every table but the assets and the rules.
-/
namespace SupportOps.Python

open Library

/-- Open incidents created at or before the threshold. -/
def staleIncidents (now : Instant) (staleMinutes : Int) (s : Store) : List Incident :=
  s.incidents.rows.filter fun i =>
    decide (i.state = .opened) && decide (i.createdAt ≤ now - minutes staleMinutes)

def followUp (id : Nat) (incident : Incident) (staleMinutes : Int) (now : Instant) : Action where
  id := id
  incidentId := incident.id
  actionType := "follow_up"
  state := .queued
  attempts := 0
  detail := "health sweep found incident open for at least " ++ toString staleMinutes ++ " minutes"
  nextAttemptAt := none
  leaseId := none
  leasedAt := none
  createdAt := now
  updatedAt := now

/-- The loop over the stale incidents. -/
def addFollowUps (now : Instant) (staleMinutes : Int) : List Incident → Store → Store
  | [], s => s
  | i :: rest, s =>
    addFollowUps now staleMinutes rest
      (s.write [.insertAction (followUp s.actions.nextId i staleMinutes now)])

def sweepJob (actionsCreated : Nat) (now : Instant) : JobRun where
  name := "health_sweep"
  status := "succeeded"
  detail := "actions_created=" ++ toString actionsCreated
  startedAt := now
  finishedAt := some now

/-- `run_health_sweep`: the number of actions created, and the store. -/
def runHealthSweep (now : Instant) (staleMinutes : Int) (s : Store) : Nat × Store :=
  let stale := staleIncidents now staleMinutes s
  (stale.length,
    (addFollowUps now staleMinutes stale s).write [.insertJob (sweepJob stale.length now)])

/-- `/admin/reset`. -/
def resetWorkload (s : Store) : Store := { Store.empty with assets := s.assets, rules := s.rules }

/-- The mapped classes whose rows `/admin/reset` deletes. -/
inductive Model where
  | auditLog | idempotencyRecord | checkRun | action | incident | operationalEvent | jobRun
  deriving DecidableEq, Repr

/-- `session.execute(delete(model))`. -/
def Model.delete : Model → Store → Store
  | .auditLog, s => { s with audits := [] }
  | .idempotencyRecord, s => { s with records := .empty }
  | .checkRun, s => { s with checks := .empty }
  | .action, s => { s with actions := .empty }
  | .incident, s => { s with incidents := .empty }
  | .operationalEvent, s => { s with events := .empty }
  | .jobRun, s => { s with jobs := [] }

/-- The order of the deletes. -/
def resetOrder : List Model :=
  [.auditLog, .idempotencyRecord, .checkRun, .action, .incident, .operationalEvent, .jobRun]

/-- Delete the rows of some classes in order. -/
def Store.deleteAll (s : Store) (models : List Model) : Store :=
  models.foldl (fun s m => m.delete s) s

/-- The deletes together are the reset. -/
theorem deleteAll_resetOrder (s : Store) : s.deleteAll resetOrder = resetWorkload s := rfl

theorem rows_insert_action_nextId (s : Store) (a : Action) (id : a.id = s.actions.nextId) :
    (s.write [.insertAction a]).actions.rows = s.actions.rows ++ [a] :=
  s.actions.rows_insert_of_fresh (by rw [key_action, id]; exact s.actions.find?_nextId)

/-- Every follow-up is queued. -/
theorem queueBacklog_addFollowUps (now : Instant) (staleMinutes : Int) (stale : List Incident)
    (s : Store) : (addFollowUps now staleMinutes stale s).queueBacklog =
      s.queueBacklog + stale.length := by
  induction stale generalizing s with
  | nil => rfl
  | cons i rest ih =>
    have one : (s.write [.insertAction (followUp s.actions.nextId i staleMinutes now)]).queueBacklog
        = s.queueBacklog + 1 := by
      unfold Store.queueBacklog
      rw [rows_insert_action_nextId s _ rfl]
      simp [followUp]
    rw [addFollowUps, ih, one, List.length_cons]
    omega

theorem queueBacklog_runHealthSweep (now : Instant) (staleMinutes : Int) (s : Store) :
    (runHealthSweep now staleMinutes s).2.queueBacklog =
      s.queueBacklog + (staleIncidents now staleMinutes s).length :=
  queueBacklog_addFollowUps now staleMinutes _ s

end SupportOps.Python
