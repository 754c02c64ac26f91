import SupportOps.Python.Checks
import SupportOps.Python.Jobs
import SupportOps.Python.Retry
import SupportOps.Python.Sqlite

/-!
# The service as one machine

Every operation that writes the database, one after another, each committed or rolled back
before the next. `Change` says once what an operation can do to the store; a command is a
sequence of such changes. The journal keeps next to the store every action as the command that
created it left it, so that invariants can speak about an action's origin.
-/
namespace SupportOps.Python

open Library

/-! ## Commands -/

/-- The body of `POST /rules`. -/
structure RuleBody where
  name : String
  category : String
  minimumSeverity : Int
  cooldownMinutes : Int
  actionType : String := "create_ticket"
  enabled : Bool := true
  deriving DecidableEq, Repr

/-- The bounds that `RuleCreate` declares for its fields. -/
def RuleBody.Accepted (b : RuleBody) : Prop :=
  (3 ≤ b.name.length ∧ b.name.length ≤ 120) ∧
  (2 ≤ b.category.length ∧ b.category.length ≤ 80) ∧
  (1 ≤ b.minimumSeverity ∧ b.minimumSeverity ≤ 100) ∧
  (0 ≤ b.cooldownMinutes ∧ b.cooldownMinutes ≤ 1440) ∧
  (3 ≤ b.actionType.length ∧ b.actionType.length ≤ 80)

instance (b : RuleBody) : Decidable b.Accepted := by
  unfold RuleBody.Accepted; exact inferInstance

/-- A body that passed validation. -/
structure RuleCreate extends RuleBody where
  accepted : toRuleBody.Accepted

/-- The row of a rule. -/
def RuleBody.row (b : RuleBody) (id : Nat) : AutomationRule :=
  ⟨id, b.name, b.category, b.minimumSeverity, b.cooldownMinutes, b.actionType, b.enabled⟩

/-- `uq_rule_name_category` is violated. -/
def RuleBody.taken (b : RuleBody) (s : Store) : Bool :=
  s.rules.rows.any fun r => r.name = b.name ∧ r.category = b.category

/-- `POST /rules`; a name that is taken in the category violates a constraint. -/
def createRule (payload : RuleBody) (s : Store) : Store :=
  if payload.taken s then s
  else { s with rules := s.rules.insert (payload.row s.rules.nextId) }

/-- One operation, with everything it takes from outside. -/
inductive Command where
  | createAsset (externalId : String)
  | createRule (payload : RuleCreate)
  | process (call : Call)
  | processDueActions (args : PassArgs) (transport : Transport)
  | executeActionWithRetry (id : Nat) (args : RetryArgs) (transport : Transport) (fuel : Nat)
  | healthSweep (now : Instant) (staleMinutes : Int)
  | createCheck (now : Instant) (name assetExternalId detail : String)
  | transitionCheck (id : Nat) (args : TransitionArgs)
  | expireWaitingChecks (now : Instant)
  | reset

namespace Command

/-- The store after the command's session has ended. A retry loop needs a stored action, and
takes no step if `fuel` iterations do not end it. -/
def apply (b : Begin) : Command → Store → Option Store
  | .createAsset externalId, s => some (Python.createAsset externalId s)
  | .createRule payload, s => some (Python.createRule payload.toRuleBody s)
  | .process call, s => some (serve b call s).2
  | .processDueActions args transport, s => some (runOnce args transport s)
  | .executeActionWithRetry id args transport fuel, s =>
    (s.actions.find? id).bind fun a =>
      (Python.executeActionWithRetry args transport fuel a s).map fun outcome =>
        match outcome with
        | .ok run => run.store
        | .error _ => s
  | .healthSweep now staleMinutes, s => some (runHealthSweep now staleMinutes s).2
  | .createCheck now name assetExternalId detail, s =>
    some (Python.createCheck now name assetExternalId detail s).2
  | .transitionCheck id args, s =>
    match s.checks.find? id with
    | none => some s
    | some c =>
      match Python.transitionCheck args c s with
      | .ok (_, t) => some t
      | .error _ => some s
  | .expireWaitingChecks now, s =>
    match Python.expireWaitingChecks now s with
    | .ok (_, t) => some t
    | .error _ => some s
  | .reset, s => some (resetWorkload s)

def isProcess : Command → Bool
  | .process _ => true
  | _ => false

def isReset : Command → Bool
  | .reset => true
  | _ => false

/-- The `max_attempts` under which a command executes actions. -/
def maxAttempts : Command → Option Nat
  | .processDueActions args _ => some args.maxAttempts
  | .executeActionWithRetry _ args _ _ => some args.maxAttempts
  | _ => none

end Command

/-- Every order of commands. -/
def commands (b : Begin) : Machine Store Command := ⟨fun s c => c.apply b s⟩

/-! ## The journal -/

/-- An action as the command that created it left it. -/
structure Creation where
  byProcess : Bool
  row : Action
  deriving DecidableEq, Repr

structure Journal where
  store : Store
  created : List Creation

/-- The actions of `t` that `s` does not have. -/
def newActions (s t : Store) : List Action :=
  t.actions.rows.filter fun a => (s.actions.find? a.id).isNone

/-- Commands, with the actions that each of them creates. -/
def journal (b : Begin) : Machine Journal Command where
  step l c := (c.apply b l.store).map fun t =>
    ⟨t, l.created ++ (newActions l.store t).map (Creation.mk c.isProcess)⟩

theorem newActions_of_append {s t : Store} {as : List Action}
    (rows : t.actions.rows = s.actions.rows ++ as) : newActions s t = as := by
  unfold newActions
  rw [rows, List.filter_append]
  have old : s.actions.rows.filter (fun a => (s.actions.find? a.id).isNone) = [] := by
    refine List.filter_eq_nil_iff.mpr fun a ha => ?_
    have found := s.actions.find?_of_mem ha
    rw [key_action] at found
    simp [found]
  have new : as.filter (fun a => (s.actions.find? a.id).isNone) = as := by
    refine List.filter_eq_self.mpr fun a ha => ?_
    rw [Option.isNone_iff_eq_none]
    refine s.actions.find?_eq_none_iff.mpr fun r hr same => ?_
    exact Table.key_notMem_of_append rows ha (List.mem_map.mpr ⟨r, hr, same⟩)
  rw [old, new, List.nil_append]

theorem newActions_of_ids {s t : Store}
    (ids : t.actions.rows.map Action.id = s.actions.rows.map Action.id) : newActions s t = [] := by
  refine List.filter_eq_nil_iff.mpr fun a ha => ?_
  have mem : a.id ∈ s.actions.rows.map Action.id := ids ▸ List.mem_map_of_mem ha
  obtain ⟨r, hr, same⟩ := List.mem_map.mp mem
  have found := s.actions.find?_of_mem hr
  rw [key_action, same] at found
  simp [found]

/-! ## Changes -/

/-- What `process` returned is stored, and its parts refer to each other. -/
structure Processed.Stored (o : Processed) (s : Store) : Prop where
  event : s.events.find? o.event.id = some o.event
  incident : ∀ i, o.incident = some i → s.incidents.find? i.id = some i ∧ i.eventId = o.event.id
  action : ∀ a, o.action = some a → s.actions.find? a.id = some a ∧
    ∃ i, o.incident = some i ∧ a.incidentId = i.id

/-- One attempt on a stored, unfinished row: its outcome and an audit row. -/
structure Attempt (args : PassArgs) (a : Action) (succeeded : Bool) (detail : String)
    (s t : Store) : Prop where
  current : s.actions.find? a.id = some a
  unfinished : a.finished = false
  rows : t.actions.rows =
    s.actions.rows.map fun r => if r.id = a.id then a.outcome args succeeded detail else r
  rest : t = { s with
    actions := t.actions
    audits := s.audits ++ [(a.outcome args succeeded detail).executed args.now] }

/-- Everything a command but the reset can do at a time: the actions it creates, and the store
afterwards. -/
inductive Change (c : Command) : Store → List Action → Store → Prop
  | asset {s : Store} (a : Asset) (fresh : s.assets.find? a.id = none) :
      Change c s [] { s with assets := s.assets.insert a }
  | rule {s : Store} (r : AutomationRule) (fresh : s.rules.find? r.id = none) :
      Change c s [] { s with rules := s.rules.insert r }
  | new {settings : Settings} {env : Surroundings} {p : EventBody} {s t : Store} {o : Processed}
      (process : c.isProcess = true) (new : NewCase settings env p s o t) :
      Change c s o.action.toList t
  | claimed {s : Store} (key : String) (now : Instant) (vacant : s.recordByKey key = none) :
      Change c s [] (s.write [.insertRecord (newRecord s.records.nextId key now)])
  | completed {s : Store} (id : Nat) (o : Processed) (now : Instant) (stored : o.Stored s) :
      Change c s [] (s.write [.completeRecord id o.columns now])
  | replayed {s : Store} (record : IdempotencyRecord) (now : Instant)
      (mem : record ∈ s.records.rows) : Change c s [] (s.write (record.replayed now))
  | attempted {args : PassArgs} {a : Action} {succeeded : Bool} {detail : String} {s t : Store}
      (limit : c.maxAttempts = some args.maxAttempts)
      (attempt : Attempt args a succeeded detail s t) : Change c s [] t
  | followedUp {s : Store} (i : Incident) (staleMinutes : Int) (now : Instant)
      (process : c.isProcess = false) (mem : i ∈ s.incidents.rows) :
      Change c s [followUp s.actions.nextId i staleMinutes now]
        (s.write [.insertAction (followUp s.actions.nextId i staleMinutes now)])
  | job {s : Store} (row : JobRun) : Change c s [] (s.write [.insertJob row])
  | check {s : Store} (checks : Table CheckRun) (row : AuditLog)
      (kind : row.eventType = "check_created" ∨ row.eventType = "check_transitioned") :
      Change c s [] { s with checks := checks, audits := s.audits ++ [row] }

/-- Changes in sequence. -/
inductive Changes (c : Command) (s : Store) : List Action → Store → Prop
  | done : Changes c s [] s
  | step {as bs : List Action} {t u : Store} (earlier : Changes c s as t)
      (change : Change c t bs u) : Changes c s (as ++ bs) u

namespace Changes

variable {c : Command} {s t u : Store} {as bs : List Action}

theorem one (h : Change c s as t) : Changes c s as t := Changes.done.step h

/-- A change that creates no action. -/
theorem quiet (earlier : Changes c s as t) (change : Change c t [] u) : Changes c s as u := by
  simpa using earlier.step change

theorem prepend (change : Change c s as t) (later : Changes c t bs u) :
    Changes c s (as ++ bs) u := by
  induction later with
  | done => simpa using one change
  | step earlier next ih => simpa [List.append_assoc] using ih.step next

/-- What every change keeps, together with the creations so far, a sequence of changes keeps. -/
theorem invariant {I : Store → List Creation → Prop}
    (kept : ∀ {s t as log}, I s log → Change c s as t →
      I t (log ++ as.map (Creation.mk c.isProcess)))
    (log : List Creation) (start : I s log) (h : Changes c s as t) :
    I t (log ++ as.map (Creation.mk c.isProcess)) := by
  induction h with
  | done => simpa using start
  | step earlier change ih => simpa [List.append_assoc] using kept ih change

end Changes

/-! ## Every command is a sequence of changes -/

/-- The id of the asset with an external id. -/
def assetIds (s : Store) (externalId : String) : Option Nat :=
  (s.assetByExternalId externalId).map Asset.id

theorem assetIds_injective (s : Store) {a b : String} {n : Nat} (ha : assetIds s a = some n)
    (hb : assetIds s b = some n) : a = b := by
  obtain ⟨x, hx, rfl⟩ := Option.map_eq_some_iff.mp ha
  obtain ⟨y, hy, same⟩ := Option.map_eq_some_iff.mp hb
  have row : y = x := s.assets.eq_of_key_eq (List.mem_of_find?_eq_some hy)
    (List.mem_of_find?_eq_some hx) same
  have hx := List.find?_some hx
  have hy := List.find?_some hy
  simp only [decide_eq_true_eq] at hx hy
  rw [← hx, ← hy, row]

section Process

variable {settings : Settings} {env : Surroundings} {p : EventBody} {s t : Store} {o : Processed}

theorem NewCase.rows_actions (h : NewCase settings env p s o t) :
    t.actions.rows = s.actions.rows ++ o.action.toList := by
  have same : ∀ asset, (s.recorded env p asset).actions.rows = s.actions.rows ++ [] := by
    intro asset
    rw [recorded_actions, List.append_nil]
  cases h with
  | unmatched asset known none => exact same asset
  | suppressed asset rule known matched recent => exact same asset
  | incidentOnly asset rule opens noAction => exact same asset
  | rejected asset rule opens action full => exact same asset
  | queued asset rule opens action room =>
    have rows := rows_insert_action_nextId (s.recorded env p asset)
      (p.actionFor env s asset rule) (by rw [recorded_actions]; rfl)
    rw [recorded_actions] at rows
    exact rows

theorem find?_incidentFor (asset : Asset) (rule : AutomationRule) (ws : List Write)
    (others : ∀ u : Store, (u.write ws).incidents = u.incidents) :
    ((s.recorded env p asset).write
      (.insertIncident (p.incidentFor env s asset rule) :: ws)).incidents.find?
        (p.incidentFor env s asset rule).id = some (p.incidentFor env s asset rule) := by
  rw [Store.write_cons, others]
  change ((s.recorded env p asset).incidents.insert _).find? _ = _
  rw [recorded_incidents]
  exact s.incidents.find?_insert_self s.incidents.find?_nextId

theorem NewCase.stored (h : NewCase settings env p s o t) : o.Stored t := by
  refine ⟨h.find?_event, ?_, ?_⟩
  · intro i hi
    cases h with
    | unmatched asset known none => cases hi
    | suppressed asset rule known matched recent => cases hi
    | incidentOnly asset rule opens noAction =>
      cases hi
      exact ⟨find?_incidentFor asset rule _ fun u => rfl, rfl⟩
    | rejected asset rule opens action full =>
      cases hi
      exact ⟨find?_incidentFor asset rule _ fun u => rfl, rfl⟩
    | queued asset rule opens action room =>
      cases hi
      exact ⟨find?_incidentFor asset rule _ fun u => rfl, rfl⟩
  · intro a ha
    have stored : t.actions.find? a.id = some a := by
      refine t.actions.find?_of_mem ?_
      rw [h.rows_actions, ha]
      simp
    refine ⟨stored, ?_⟩
    cases h with
    | unmatched asset known none => cases ha
    | suppressed asset rule known matched recent => cases ha
    | incidentOnly asset rule opens noAction => cases ha
    | rejected asset rule opens action full => cases ha
    | queued asset rule opens action room =>
      cases ha
      exact ⟨_, rfl, rfl⟩

/-- What the incident of a new event adds: the incident, its audit row and perhaps its action. -/
structure Opened (s t : Store) (o : Processed) (i : Incident) (rule : AutomationRule)
    (entry : AuditLog) : Prop where
  incident : o.incident = some i
  fresh : s.incidents.find? i.id = none
  incidents : t.incidents.rows = s.incidents.rows ++ [i]
  event : i.eventId = o.event.id
  asset : i.assetId = o.event.assetId
  known : s.rules.find? i.ruleId = some rule
  audits : t.audits = s.audits ++ [entry]
  entity : entry.entityType = "incident" ∧ entry.entityId = i.id
  created : ∀ a, o.action = some a → a.incidentId = i.id
  outcome : entry.eventType = "incident_created" ∧ (o.action = none ↔ rule.actionType = "none") ∨
    entry.eventType = "queue_backpressure" ∧ o.action = none

theorem recorded_audits (asset : Asset) : (s.recorded env p asset).audits = s.audits := by
  unfold Store.recorded eventWrites; split <;> rfl

theorem recorded_assets (asset : Asset) : (s.recorded env p asset).assets = s.assets ∨
    (s.recorded env p asset).assets =
      s.assets.modify asset.id _ (Asset.key_withStatus p.category) := by
  unfold Store.recorded eventWrites
  split
  · exact .inl rfl
  · exact .inr rfl

theorem rows_openedIncident (asset : Asset) (rule : AutomationRule) :
    ((s.recorded env p asset).incidents.insert (p.incidentFor env s asset rule)).rows =
      s.incidents.rows ++ [p.incidentFor env s asset rule] := by
  rw [recorded_incidents, rows_insert_incidentFor]

theorem find?_of_matchRule {rule : AutomationRule} {event : OperationalEvent}
    (h : RuleEngine.matchRule s.rules event = some rule) : s.rules.find? rule.id = some rule :=
  s.rules.find?_of_mem (RuleEngine.matchRule_mem h).1

/-- A new event is recorded without an incident, or with the one it opens. -/
theorem NewCase.added (h : NewCase settings env p s o t) :
    (o.incident = none ∧ o.action = none ∧ t.incidents = s.incidents ∧
      ∃ entry : AuditLog, t.audits = s.audits ++ [entry] ∧
        (entry.eventType = "event_recorded" ∨ entry.eventType = "event_suppressed")) ∨
    ∃ i rule entry, Opened s t o i rule entry := by
  cases h with
  | unmatched asset known none =>
    exact .inl ⟨rfl, rfl, recorded_incidents asset, _, congrArg (· ++ [_]) (recorded_audits asset),
      .inl rfl⟩
  | suppressed asset rule known matched recent =>
    exact .inl ⟨rfl, rfl, recorded_incidents asset, _, congrArg (· ++ [_]) (recorded_audits asset),
      .inr rfl⟩
  | incidentOnly asset rule opens noAction =>
    refine .inr ⟨p.incidentFor env s asset rule, rule, incidentCreated _ env.now, rfl,
      s.incidents.find?_nextId, rows_openedIncident asset rule, rfl, rfl,
      find?_of_matchRule opens.matched, congrArg (· ++ [_]) (recorded_audits asset), ⟨rfl, rfl⟩,
      ?_, .inl ⟨rfl, ?_⟩⟩
    · intro a ha
      cases ha
    · simp [noAction]
  | rejected asset rule opens action full =>
    refine .inr ⟨p.incidentFor env s asset rule, rule, queueBackpressure _ env.now, rfl,
      s.incidents.find?_nextId, rows_openedIncident asset rule, rfl, rfl,
      find?_of_matchRule opens.matched, congrArg (· ++ [_]) (recorded_audits asset), ⟨rfl, rfl⟩,
      ?_, .inr ⟨rfl, rfl⟩⟩
    intro a ha
    cases ha
  | queued asset rule opens action room =>
    refine .inr ⟨p.incidentFor env s asset rule, rule, incidentCreated _ env.now, rfl,
      s.incidents.find?_nextId, rows_openedIncident asset rule, rfl, rfl,
      find?_of_matchRule opens.matched, congrArg (· ++ [_]) (recorded_audits asset), ⟨rfl, rfl⟩,
      ?_, .inl ⟨rfl, ?_⟩⟩
    · intro a ha
      cases ha
      rfl
    · simp [action]

theorem NewCase.rows_incidents (h : NewCase settings env p s o t) :
    t.incidents.rows = s.incidents.rows ++ o.incident.toList := by
  rcases h.added with ⟨none, -, same, -⟩ | ⟨i, rule, entry, opened⟩
  · rw [none, same]
    exact (List.append_nil _).symm
  · rw [opened.incident, opened.incidents]
    rfl

variable (env p s) in
theorem assetIds_recorded (asset : Asset) (externalId : String) :
    assetIds (s.recorded env p asset) externalId = assetIds s externalId := by
  unfold assetIds Store.assetByExternalId
  rcases (recorded_assets asset : (s.recorded env p asset).assets = s.assets ∨ _) with
    same | changed
  · rw [same]
  · rw [changed, Table.rows_modify, List.find?_map, Option.map_map]
    have external : ((fun a : Asset => decide (a.externalId = externalId)) ∘ fun a : Asset =>
        if Keyed.key a = asset.id then a.withStatus p.category else a) =
          fun a => decide (a.externalId = externalId) := by
      funext a
      simp only [Function.comp_apply]
      split <;> rfl
    rw [external]
    refine congrArg (Option.map · _) (funext fun a => ?_)
    simp only [Function.comp_apply]
    split <;> rfl

theorem NewCase.assetIds_eq (h : NewCase settings env p s o t) (externalId : String) :
    assetIds t externalId = assetIds s externalId := by
  have same : ∃ asset, t.assets = (s.recorded env p asset).assets := by
    cases h <;> simp only [Store.write_cons, Store.write_nil, Write.apply_assets] <;> exact ⟨_, rfl⟩
  obtain ⟨asset, same⟩ := same
  rw [← assetIds_recorded env p s asset externalId, assetIds, assetIds, Store.assetByExternalId,
    Store.assetByExternalId, same]

theorem NewCase.rules_eq (h : NewCase settings env p s o t) : t.rules = s.rules := by
  cases h <;> simp only [Store.write_cons, Store.write_nil, Write.apply_rules, recorded_rules]

theorem NewCase.rows_events (h : NewCase settings env p s o t) :
    t.events.rows = s.events.rows ++ [o.event] := by
  rw [h.events_eq]
  refine s.events.rows_insert_of_fresh ?_
  rw [key_event, h.event_id]
  exact s.events.find?_nextId

end Process

/-- A record whose event id is set is a stored record. -/
theorem mem_of_completedRecord {s : Store} {key : String} {record : IdempotencyRecord}
    {eventId : Nat} (h : completedRecord s key = some (record, eventId)) :
    record ∈ s.records.rows ∧ record.eventId = some eventId := by
  obtain ⟨r, found, set⟩ := Option.bind_eq_some_iff.mp h
  obtain ⟨k, hk, same⟩ := Option.map_eq_some_iff.mp set
  cases same
  exact ⟨List.mem_of_find?_eq_some found, hk⟩

theorem changes_of_serve (b : Begin) (call : Call) (s : Store) :
    ∃ as, (serve b call s).2.actions.rows = s.actions.rows ++ as ∧
      Changes (.process call) s as (serve b call s).2 := by
  rcases serve_stored b call s with same | ⟨key, vacant, same⟩
  · rw [same]
    unfold processed
    split
    · next r t ok =>
      cases processCase_of_process ok with
      | unkeyed unkeyed new => exact ⟨_, new.rows_actions, .one (.new rfl new)⟩
      | owned keyed vacant new =>
        refine ⟨_, new.rows_actions, ?_⟩
        exact (((Changes.done.step (.claimed _ _ vacant)).step (.new rfl new)).quiet
          (.completed _ _ _ new.stored))
      | replayed keyed completed found =>
        exact ⟨[], (List.append_nil _).symm,
          .one (.replayed _ _ (mem_of_completedRecord completed).1)⟩
    · exact ⟨[], (List.append_nil _).symm, .done⟩
  · rw [same]
    exact ⟨[], (List.append_nil _).symm, .one (.claimed _ _ vacant)⟩

theorem attempt_attempted {args : PassArgs} {a : Action} {s : Store}
    (current : s.actions.find? a.id = some a) (unfinished : a.finished = false)
    (succeeded : Bool) (detail : String) : Attempt args a succeeded detail s
      (s.attempted args a (a.outcome args succeeded detail)) :=
  ⟨current, unfinished, Store.rows_attempted args current succeeded detail, rfl⟩

theorem attempt_retried {args : PassArgs} {a : Action} {s : Store}
    (current : s.actions.find? a.id = some a) (unfinished : a.finished = false)
    (succeeded : Bool) (detail : String) : Attempt args a succeeded detail s
      (s.retried args a (a.outcome args succeeded detail)) :=
  ⟨current, unfinished, Store.rows_retried args current succeeded detail, rfl⟩

section Attempt

variable {args : PassArgs} {a : Action} {succeeded : Bool} {detail : String} {s t : Store}

theorem Attempt.assets_eq (h : Attempt args a succeeded detail s t) : t.assets = s.assets := by
  rw [h.rest]

theorem Attempt.rules_eq (h : Attempt args a succeeded detail s t) : t.rules = s.rules := by
  rw [h.rest]

theorem Attempt.events_eq (h : Attempt args a succeeded detail s t) : t.events = s.events := by
  rw [h.rest]

theorem Attempt.incidents_eq (h : Attempt args a succeeded detail s t) :
    t.incidents = s.incidents := by
  rw [h.rest]

theorem Attempt.records_eq (h : Attempt args a succeeded detail s t) : t.records = s.records := by
  rw [h.rest]

theorem Attempt.audits_eq (h : Attempt args a succeeded detail s t) :
    t.audits = s.audits ++ [(a.outcome args succeeded detail).executed args.now] := by
  rw [h.rest]

/-- The row with the id of the attempted one is that row. -/
theorem Attempt.row_eq (h : Attempt args a succeeded detail s t) {k : Nat} {b : Action}
    (found : s.actions.find? k = some b) (same : b.id = a.id) : b = a :=
  s.actions.eq_of_key_eq (s.actions.mem_of_find? found) (s.actions.mem_of_find? h.current) same

theorem Attempt.find? (h : Attempt args a succeeded detail s t) {k : Nat} {b : Action}
    (found : s.actions.find? k = some b) :
    t.actions.find? k = some (if b.id = a.id then a.outcome args succeeded detail else b) := by
  have id : (a.outcome args succeeded detail).id = a.id := by simp
  have key : b.id = k := s.actions.key_of_find? found
  rw [Table.find?_of_rows_replace h.current id h.rows, found, key]
  exact (apply_ite some _ _ _).symm

end Attempt

/-- An attempt changes a row in place. -/
theorem Attempt.ids {args : PassArgs} {a : Action} {succeeded : Bool} {detail : String}
    {s t : Store} (h : Attempt args a succeeded detail s t) :
    t.actions.rows.map Action.id = s.actions.rows.map Action.id := by
  rw [h.rows, List.map_map]
  refine List.map_congr_left fun r _ => ?_
  by_cases same : r.id = a.id <;> simp [same]

/-- Attempts on stored rows, with the ids they leave. -/
def Executes (c : Command) (s t : Store) : Prop :=
  Changes c s [] t ∧ t.actions.rows.map Action.id = s.actions.rows.map Action.id

theorem Executes.attempt {c : Command} {s t u : Store} (h : Executes c s t) (args : PassArgs)
    {a : Action} {succeeded : Bool} {detail : String}
    (limit : c.maxAttempts = some args.maxAttempts)
    (attempt : Attempt args a succeeded detail t u) : Executes c s u :=
  ⟨h.1.quiet (.attempted limit attempt), attempt.ids.trans h.2⟩

theorem executes_of_runOnce (args : PassArgs) (transport : Transport) (s : Store) :
    Executes (.processDueActions args transport) s (runOnce args transport s) :=
  runOnce_invariant (I := Executes (.processDueActions args transport) s)
    (fun _ _ succeeded detail h current unfinished _ =>
      h.attempt args rfl (attempt_attempted current unfinished succeeded detail)) ⟨.done, rfl⟩

theorem executes_of_executeActionWithRetry {id : Nat} {args : RetryArgs} {transport : Transport}
    {fuel : Nat} {a : Action} {s : Store} {run : RetryRun}
    (current : s.actions.find? a.id = some a)
    (h : executeActionWithRetry args transport fuel a s = some (.ok run)) :
    Executes (.executeActionWithRetry id args transport fuel) s run.store :=
  (executeActionWithRetry_invariant
    (I := Executes (.executeActionWithRetry id args transport fuel) s)
    (fun _ i _ succeeded detail h current unfinished _ =>
      h.attempt (args.once i) rfl (attempt_retried current unfinished succeeded detail))
    ⟨.done, rfl⟩ current h).1

theorem changes_of_addFollowUps (c : Command) (process : c.isProcess = false) (now : Instant)
    (staleMinutes : Int) (stale : List Incident) :
    ∀ s : Store, (∀ i ∈ stale, i ∈ s.incidents.rows) →
      ∃ as, (addFollowUps now staleMinutes stale s).actions.rows = s.actions.rows ++ as ∧
        Changes c s as (addFollowUps now staleMinutes stale s) := by
  induction stale with
  | nil => exact fun s _ => ⟨[], (List.append_nil _).symm, .done⟩
  | cons i rest ih =>
    intro s stored
    have mem := stored i (List.mem_cons_self ..)
    obtain ⟨as, rows, changes⟩ := ih
      (s.write [.insertAction (followUp s.actions.nextId i staleMinutes now)])
      (fun j hj => stored j (List.mem_cons_of_mem _ hj))
    refine ⟨followUp s.actions.nextId i staleMinutes now :: as, ?_, ?_⟩
    · rw [addFollowUps, rows, rows_insert_action_nextId s _ rfl, List.append_assoc]
      rfl
    · exact .prepend (.followedUp i staleMinutes now process mem) changes

theorem changes_of_runHealthSweep (now : Instant) (staleMinutes : Int) (s : Store) :
    ∃ as, (runHealthSweep now staleMinutes s).2.actions.rows = s.actions.rows ++ as ∧
      Changes (.healthSweep now staleMinutes) s as (runHealthSweep now staleMinutes s).2 := by
  obtain ⟨as, rows, changes⟩ := changes_of_addFollowUps (.healthSweep now staleMinutes) rfl now
    staleMinutes (staleIncidents now staleMinutes s) s (fun i hi => (List.mem_filter.mp hi).1)
  exact ⟨as, rows, changes.quiet (.job _)⟩

/-- Changes to checks and their audit rows. -/
def ChecksOnly (c : Command) (s t : Store) : Prop := Changes c s [] t ∧ t.actions = s.actions

theorem ChecksOnly.transition {c : Command} {s t u : Store} (h : ChecksOnly c s t)
    {args : TransitionArgs} {check new : CheckRun}
    (ok : transitionCheck args check t = .ok (new, u)) : ChecksOnly c s u := by
  obtain ⟨d, -, same⟩ := map_eq_ok.mp ok
  cases same
  exact ⟨h.1.quiet (.check _ (new.transitioned args.now) (.inr rfl)), h.2⟩

theorem checksOnly_of_expireEach {c : Command} {now : Instant} {s u : Store} (cs : List CheckRun) :
    ∀ {t : Store}, ChecksOnly c s t → expireEach now cs t = .ok u → ChecksOnly c s u := by
  induction cs with
  | nil =>
    intro t h ok
    cases ok
    exact h
  | cons check rest ih =>
    intro t h ok
    cases moved : transitionCheck (timeoutArgs now) check t with
    | error e => rw [expireEach, moved] at ok; cases ok
    | ok next =>
      rw [expireEach, moved] at ok
      exact ih (h.transition moved) ok

/-- Every command but the reset is a sequence of changes, which create the actions that are new
afterwards. -/
theorem changes_of_apply {b : Begin} {c : Command} {s t : Store} (step : c.apply b s = some t)
    (going : c.isReset = false) : Changes c s (newActions s t) t := by
  have appended : ∀ {as}, t.actions.rows = s.actions.rows ++ as → Changes c s as t →
      Changes c s (newActions s t) t := by
    intro as rows changes
    rw [newActions_of_append rows]
    exact changes
  have inPlace : Executes c s t → Changes c s (newActions s t) t := by
    intro h
    rw [newActions_of_ids h.2]
    exact h.1
  have apart : Changes c s [] t → t.actions = s.actions → Changes c s (newActions s t) t :=
    fun changes same => inPlace ⟨changes, by rw [same]⟩
  cases c with
  | createAsset externalId =>
    simp only [Command.apply, createAsset, Option.some.injEq] at step
    split at step
    · cases step
      exact apart .done rfl
    · cases step
      exact apart (.one (.asset _ s.assets.find?_nextId)) rfl
  | createRule payload =>
    simp only [Command.apply, createRule, Option.some.injEq] at step
    split at step
    · cases step
      exact apart .done rfl
    · cases step
      exact apart (.one (.rule _ s.rules.find?_nextId)) rfl
  | process call =>
    cases step
    obtain ⟨as, rows, changes⟩ := changes_of_serve b call s
    exact appended rows changes
  | processDueActions args transport =>
    cases step
    exact inPlace (executes_of_runOnce args transport s)
  | executeActionWithRetry id args transport fuel =>
    obtain ⟨a, found, step⟩ := Option.bind_eq_some_iff.mp step
    obtain ⟨outcome, ended, rfl⟩ := Option.map_eq_some_iff.mp step
    have current : s.actions.find? a.id = some a := by
      rw [← key_action, s.actions.key_of_find? found]
      exact found
    cases outcome with
    | error e => exact inPlace ⟨.done, rfl⟩
    | ok run => exact inPlace (executes_of_executeActionWithRetry current ended)
  | healthSweep now staleMinutes =>
    cases step
    obtain ⟨as, rows, changes⟩ := changes_of_runHealthSweep now staleMinutes s
    exact appended rows changes
  | createCheck now name assetExternalId detail =>
    cases step
    exact apart (.one (.check _ _ (.inl rfl))) rfl
  | transitionCheck id args =>
    simp only [Command.apply] at step
    split at step
    · cases step
      exact apart .done rfl
    · split at step
      · next moved =>
        cases step
        have only : ChecksOnly (.transitionCheck id args) s t :=
          ChecksOnly.transition ⟨.done, rfl⟩ moved
        exact apart only.1 only.2
      · cases step
        exact apart .done rfl
  | expireWaitingChecks now =>
    simp only [Command.apply] at step
    split at step
    · next expired =>
      cases step
      obtain ⟨u, each, same⟩ := map_eq_ok.mp expired
      cases same
      have only : ChecksOnly (.expireWaitingChecks now) s t :=
        checksOnly_of_expireEach _ ⟨.done, rfl⟩ each
      exact apart only.1 only.2
    · cases step
      exact apart .done rfl
  | reset => cases going

/-! ## Runs without a reset -/

/-- What every change of the admitted commands keeps holds after every run of them. -/
theorem journal_invariant {b : Begin} {A : Command → Prop} {I : Store → List Creation → Prop}
    (kept : ∀ {c s t as log}, A c → I s log → Change c s as t →
      I t (log ++ as.map (Creation.mk c.isProcess)))
    {j k : Journal} {cs : List Command} (admitted : ∀ c ∈ cs, c.isReset = false ∧ A c)
    (start : I j.store j.created) (run : (journal b).run j cs = some k) : I k.store k.created := by
  refine (journal b).run_invariant_of_along (I := fun j => I j.store j.created) ?_
    (((journal b).along_true j cs).and_label _ admitted) start run
  rintro j c k ⟨⟨going, admitted⟩, -⟩ h step
  obtain ⟨t, applied, rfl⟩ := Option.map_eq_some_iff.mp step
  exact Changes.invariant (fun h change => kept admitted h change) j.created h
    (changes_of_apply applied going)

end SupportOps.Python
