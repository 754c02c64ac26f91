import SupportOps.Python.Models

/-!
# What a session flushes

The statements by which the services change the store. An object changed in memory is
flushed column by column: only the columns whose value differs from the loaded one are in
the `UPDATE`, which addresses the row by its id. The rest of the row keeps what is stored.
-/
namespace SupportOps.Python

open Library

/-- The new value of a column, if the flush writes that column at all. -/
def changed {α : Type*} [DecidableEq α] (loaded new : α) : Option α :=
  if new = loaded then none else some new

@[simp] theorem changed_self {α : Type*} [DecidableEq α] (a : α) : changed a a = none := by
  simp [changed]

/-- Over an unchanged column the flush leaves the new value. -/
@[simp] theorem changed_getD {α : Type*} [DecidableEq α] (loaded new : α) :
    (changed loaded new).getD loaded = new := by
  unfold changed; split <;> simp_all

theorem changed_of_ne {α : Type*} [DecidableEq α] {loaded new : α} (h : new ≠ loaded) :
    changed loaded new = some new := by
  simp [changed, h]

/-- `UPDATE actions SET … WHERE id = …`. -/
structure ActionUpdate where
  id : Nat
  state : Option ActionState
  attempts : Option Nat
  detail : Option String
  nextAttemptAt : Option (Option Instant)
  leaseId : Option (Option String)
  leasedAt : Option (Option Instant)
  updatedAt : Option Instant

/-- The flush of an action loaded as `loaded` and now `new`. -/
def Action.flush (loaded new : Action) : ActionUpdate where
  id := loaded.id
  state := changed loaded.state new.state
  attempts := changed loaded.attempts new.attempts
  detail := changed loaded.detail new.detail
  nextAttemptAt := changed loaded.nextAttemptAt new.nextAttemptAt
  leaseId := changed loaded.leaseId new.leaseId
  leasedAt := changed loaded.leasedAt new.leasedAt
  updatedAt := changed loaded.updatedAt new.updatedAt

@[simp] theorem Action.flush_id (loaded new : Action) : (loaded.flush new).id = loaded.id := rfl

def ActionUpdate.apply (u : ActionUpdate) (a : Action) : Action :=
  { a with
    state := u.state.getD a.state
    attempts := u.attempts.getD a.attempts
    detail := u.detail.getD a.detail
    nextAttemptAt := u.nextAttemptAt.getD a.nextAttemptAt
    leaseId := u.leaseId.getD a.leaseId
    leasedAt := u.leasedAt.getD a.leasedAt
    updatedAt := u.updatedAt.getD a.updatedAt }

theorem ActionUpdate.key_apply (u : ActionUpdate) (a : Action) :
    Keyed.key (u.apply a) = Keyed.key a := rfl

/-- `UPDATE check_runs SET … WHERE id = …`. -/
structure CheckUpdate where
  id : Nat
  state : Option CheckState
  detail : Option String
  confirmationDueAt : Option (Option Instant)
  updatedAt : Option Instant

/-- The flush of a check loaded as `loaded` and now `new`. -/
def CheckRun.flush (loaded new : CheckRun) : CheckUpdate where
  id := loaded.id
  state := changed loaded.state new.state
  detail := changed loaded.detail new.detail
  confirmationDueAt := changed loaded.confirmationDueAt new.confirmationDueAt
  updatedAt := changed loaded.updatedAt new.updatedAt

@[simp] theorem CheckRun.flush_id (loaded new : CheckRun) : (loaded.flush new).id = loaded.id :=
  rfl

def CheckUpdate.apply (u : CheckUpdate) (c : CheckRun) : CheckRun :=
  { c with
    state := u.state.getD c.state
    detail := u.detail.getD c.detail
    confirmationDueAt := u.confirmationDueAt.getD c.confirmationDueAt
    updatedAt := u.updatedAt.getD c.updatedAt }

theorem CheckUpdate.key_apply (u : CheckUpdate) (c : CheckRun) :
    Keyed.key (u.apply c) = Keyed.key c := rfl

def Asset.withStatus (a : Asset) (status : String) : Asset := { a with status := status }

theorem Asset.key_withStatus (status : String) (a : Asset) :
    Keyed.key (a.withStatus status) = Keyed.key a := rfl

/-- The result columns of an idempotency record. -/
structure ResultColumns where
  eventId : Nat
  incidentId : Option Nat
  actionId : Option Nat
  skippedReason : Option SkippedReason
  deriving DecidableEq, Repr

def IdempotencyRecord.complete (r : IdempotencyRecord) (c : ResultColumns) (now : Instant) :
    IdempotencyRecord :=
  { r with
    eventId := some c.eventId
    incidentId := c.incidentId
    actionId := c.actionId
    skippedReason := c.skippedReason
    updatedAt := now }

/-- `SET hits = hits + 1, updated_at = …`. -/
def IdempotencyRecord.hit (r : IdempotencyRecord) (now : Instant) : IdempotencyRecord :=
  { r with hits := r.hits + 1, updatedAt := now }

theorem IdempotencyRecord.key_complete (c : ResultColumns) (now : Instant)
    (r : IdempotencyRecord) : Keyed.key (r.complete c now) = Keyed.key r := rfl

theorem IdempotencyRecord.key_hit (now : Instant) (r : IdempotencyRecord) :
    Keyed.key (r.hit now) = Keyed.key r := rfl

inductive Write where
  | setAssetStatus (id : Nat) (status : String)
  | insertEvent (row : OperationalEvent)
  | insertIncident (row : Incident)
  | insertAction (row : Action)
  | updateAction (update : ActionUpdate)
  | insertAudit (row : AuditLog)
  | insertRecord (row : IdempotencyRecord)
  | completeRecord (id : Nat) (columns : ResultColumns) (now : Instant)
  | hitRecord (id : Nat) (now : Instant)
  | insertJob (row : JobRun)
  | insertCheck (row : CheckRun)
  | updateCheck (update : CheckUpdate)

def Write.apply : Write → Store → Store
  | .setAssetStatus id status, s =>
    { s with assets := s.assets.modify id _ (Asset.key_withStatus status) }
  | .insertEvent row, s => { s with events := s.events.insert row }
  | .insertIncident row, s => { s with incidents := s.incidents.insert row }
  | .insertAction row, s => { s with actions := s.actions.insert row }
  | .updateAction u, s => { s with actions := s.actions.modify u.id u.apply u.key_apply }
  | .insertAudit row, s => s.audit row
  | .insertRecord row, s => { s with records := s.records.insert row }
  | .completeRecord id columns now, s =>
    { s with records := s.records.modify id _ (IdempotencyRecord.key_complete columns now) }
  | .hitRecord id now, s =>
    { s with records := s.records.modify id _ (IdempotencyRecord.key_hit now) }
  | .insertJob row, s => { s with jobs := s.jobs ++ [row] }
  | .insertCheck row, s => { s with checks := s.checks.insert row }
  | .updateCheck u, s => { s with checks := s.checks.modify u.id u.apply u.key_apply }

/-- Flush writes in order. -/
def Store.write (s : Store) (ws : List Write) : Store := ws.foldl (fun s w => w.apply s) s

@[simp] theorem Store.write_nil (s : Store) : s.write [] = s := rfl

@[simp] theorem Store.write_cons (s : Store) (w : Write) (ws : List Write) :
    s.write (w :: ws) = (w.apply s).write ws := rfl

theorem Store.write_append (s : Store) (ws vs : List Write) :
    s.write (ws ++ vs) = (s.write ws).write vs := List.foldl_append ..

/-- What two sessions cannot both write before one of them ends: a row, by its table and id,
and the index entry of an idempotency key. -/
inductive RowKey where
  | asset (id : Nat)
  | event (id : Nat)
  | incident (id : Nat)
  | action (id : Nat)
  | record (id : Nat)
  | recordKey (key : String)
  | check (id : Nat)
  deriving DecidableEq, Repr

def Write.locks : Write → List RowKey
  | .setAssetStatus id _ => [.asset id]
  | .insertEvent row => [.event row.id]
  | .insertIncident row => [.incident row.id]
  | .insertAction row => [.action row.id]
  | .updateAction u => [.action u.id]
  | .insertRecord row => [.record row.id, .recordKey row.key]
  | .completeRecord id _ _ => [.record id]
  | .hitRecord id _ => [.record id]
  | .insertCheck row => [.check row.id]
  | .updateCheck u => [.check u.id]
  | .insertAudit _ | .insertJob _ => []

/-! ## What a write does to each table -/

section Projections

variable (w : Write) (s : Store)

theorem Write.apply_assets : (w.apply s).assets = match w with
    | .setAssetStatus id status => s.assets.modify id _ (Asset.key_withStatus status)
    | _ => s.assets := by cases w <;> rfl

theorem Write.apply_rules : (w.apply s).rules = s.rules := by cases w <;> rfl

theorem Write.apply_events : (w.apply s).events = match w with
    | .insertEvent row => s.events.insert row
    | _ => s.events := by cases w <;> rfl

theorem Write.apply_incidents : (w.apply s).incidents = match w with
    | .insertIncident row => s.incidents.insert row
    | _ => s.incidents := by cases w <;> rfl

theorem Write.apply_actions : (w.apply s).actions = match w with
    | .insertAction row => s.actions.insert row
    | .updateAction u => s.actions.modify u.id u.apply u.key_apply
    | _ => s.actions := by cases w <;> rfl

theorem Write.apply_audits : (w.apply s).audits = match w with
    | .insertAudit row => s.audits ++ [row]
    | _ => s.audits := by cases w <;> rfl

theorem Write.apply_records : (w.apply s).records = match w with
    | .insertRecord row => s.records.insert row
    | .completeRecord id columns now =>
      s.records.modify id _ (IdempotencyRecord.key_complete columns now)
    | .hitRecord id now => s.records.modify id _ (IdempotencyRecord.key_hit now)
    | _ => s.records := by cases w <;> rfl

theorem Write.apply_checks : (w.apply s).checks = match w with
    | .insertCheck row => s.checks.insert row
    | .updateCheck u => s.checks.modify u.id u.apply u.key_apply
    | _ => s.checks := by cases w <;> rfl

end Projections

/-- A flush over the row as it was loaded stores the object in memory. -/
theorem ActionUpdate.apply_flush {loaded new : Action} (id : new.id = loaded.id)
    (incident : new.incidentId = loaded.incidentId) (type : new.actionType = loaded.actionType)
    (created : new.createdAt = loaded.createdAt) : (loaded.flush new).apply loaded = new := by
  cases new
  simp_all [Action.flush, ActionUpdate.apply]

/-- The actions after the flush of a row that is stored as it was loaded. -/
theorem Store.rows_flush_action (s : Store) {loaded : Action} (new : Action)
    (current : s.actions.find? loaded.id = some loaded) (id : new.id = loaded.id)
    (incident : new.incidentId = loaded.incidentId) (type : new.actionType = loaded.actionType)
    (created : new.createdAt = loaded.createdAt) :
    ((Write.updateAction (loaded.flush new)).apply s).actions.rows =
      s.actions.rows.map fun r => if r.id = loaded.id then new else r := by
  rw [Write.apply_actions]
  refine List.map_congr_left fun r hr => ?_
  simp only [key_action, Action.flush_id]
  by_cases same : r.id = loaded.id
  · have : r = loaded := s.actions.eq_of_key_eq hr (s.actions.mem_of_find? current) same
    subst this
    simp [ActionUpdate.apply_flush id incident type created]
  · simp [same]

theorem Store.find?_flush_action (s : Store) {loaded : Action} (new : Action)
    (current : s.actions.find? loaded.id = some loaded) (id : new.id = loaded.id)
    (incident : new.incidentId = loaded.incidentId) (type : new.actionType = loaded.actionType)
    (created : new.createdAt = loaded.createdAt) (k : Nat) :
    ((Write.updateAction (loaded.flush new)).apply s).actions.find? k =
      if k = loaded.id then some new else s.actions.find? k := by
  rw [Write.apply_actions]
  simp only [Table.find?_modify]
  by_cases h : k = loaded.id
  · subst h
    simp [current, ActionUpdate.apply_flush id incident type created]
  · simp [h]

theorem CheckUpdate.apply_flush {loaded new : CheckRun} (id : new.id = loaded.id)
    (name : new.name = loaded.name) (asset : new.assetExternalId = loaded.assetExternalId)
    (created : new.createdAt = loaded.createdAt) : (loaded.flush new).apply loaded = new := by
  cases new
  simp_all [CheckRun.flush, CheckUpdate.apply]

/-- The checks after the flush of a row that is stored as it was loaded. -/
theorem Store.rows_flush_check (s : Store) {loaded : CheckRun} (new : CheckRun)
    (current : s.checks.find? loaded.id = some loaded) (id : new.id = loaded.id)
    (name : new.name = loaded.name) (asset : new.assetExternalId = loaded.assetExternalId)
    (created : new.createdAt = loaded.createdAt) :
    ((Write.updateCheck (loaded.flush new)).apply s).checks.rows =
      s.checks.rows.map fun r => if r.id = loaded.id then new else r := by
  rw [Write.apply_checks]
  refine List.map_congr_left fun r hr => ?_
  simp only [key_check, CheckRun.flush_id]
  by_cases same : r.id = loaded.id
  · have : r = loaded := s.checks.eq_of_key_eq hr (s.checks.mem_of_find? current) same
    subst this
    simp [CheckUpdate.apply_flush id name asset created]
  · simp [same]

end SupportOps.Python
