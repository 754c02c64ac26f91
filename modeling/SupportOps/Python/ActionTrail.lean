import SupportOps.Python.Accounting
import SupportOps.Python.CheckTrail
import SupportOps.Python.LifeCycle

/-!
# The audit trail of actions

Every operation of the service in any order, resets included. The audit rows of an action replay to
its row: one for each attempt, numbered from one, and all of them retries but the last. So the
integer fields of `/metrics` agree with the audit log.
-/
namespace SupportOps.Python

open Library

/-! ## Trails -/

/-- The audit rows of an action's attempts. -/
def Store.actionAudits (s : Store) (id : Nat) : List AuditLog :=
  s.audits.filter fun r =>
    r.eventType = "action_executed" ∧ r.entityType = "action" ∧ r.entityId = id

/-- What an attempt writes to the audit log. -/
def executedEntry (actionType : String) (state : ActionState) (attempt : Nat) : String × String :=
  ("action_executed",
    actionType ++ " finished as " ++ state.value ++ " after " ++ toString attempt ++ " attempts")

/-- The entries that lead to the row: a retry for every attempt but the last. -/
def Action.trail (a : Action) : List (String × String) :=
  (List.range a.attempts).map fun n =>
    executedEntry a.actionType (if n + 1 = a.attempts then a.state else .retry) (n + 1)

/-- The audit rows of the action replay to its row. -/
structure ActionTrail (s : Store) (a : Action) : Prop where
  replays : (s.actionAudits a.id).map AuditLog.entry = a.trail
  queued : a.state = .queued ↔ a.attempts = 0
  known : a.state ≠ .skipped

/-- Every action has its trail, and no action that is not stored has one. -/
structure ActionTrails (s : Store) : Prop where
  rows : ∀ a ∈ s.actions.rows, ActionTrail s a
  unknown : ∀ id, s.actions.find? id = none → s.actionAudits id = []

theorem actionAudits_append {s t : Store} {rows : List AuditLog}
    (audits : t.audits = s.audits ++ rows) (id : Nat) :
    t.actionAudits id = s.actionAudits id ++
      rows.filter fun r =>
        r.eventType = "action_executed" ∧ r.entityType = "action" ∧ r.entityId = id := by
  unfold Store.actionAudits
  rw [audits, List.filter_append]

@[simp] theorem Action.outcome_actionType (args : PassArgs) (a : Action) (succeeded : Bool)
    (detail : String) : (a.outcome args succeeded detail).actionType = a.actionType := by
  rw [a.outcome_eq]
  unfold settled
  split
  · rfl
  · split <;> rfl

/-- One attempt more: the trail goes on, as what was there before was a retry. -/
theorem Action.trail_outcome {args : PassArgs} {a : Action} {succeeded : Bool} {detail : String}
    (again : a.attempts ≠ 0 → a.state = .retry) :
    (a.outcome args succeeded detail).trail = a.trail ++
      [executedEntry a.actionType (a.outcome args succeeded detail).state (a.attempts + 1)] := by
  rw [trail, trail, Action.outcome_attempts, Action.outcome_actionType, List.range_succ,
    List.map_append]
  refine congrArg₂ (· ++ ·) (List.map_congr_left fun n hn => ?_) (by simp)
  have earlier := List.mem_range.mp hn
  rw [if_neg (by omega)]
  split
  · rw [again (by omega)]
  · rfl

namespace ActionTrails

variable {s t : Store}

/-- New audit rows that are not about actions, and new untouched actions. -/
theorem grow (h : ActionTrails s) {as : List Action} {rows : List AuditLog}
    (actions : t.actions.rows = s.actions.rows ++ as) (fresh : ∀ a ∈ as, a.Fresh)
    (audits : t.audits = s.audits ++ rows) (foreign : ∀ r ∈ rows, r.eventType ≠ "action_executed") :
    ActionTrails t := by
  have same : ∀ id, t.actionAudits id = s.actionAudits id := by
    intro id
    rw [actionAudits_append audits, List.filter_eq_nil_iff.mpr, List.append_nil]
    intro r hr
    simp [foreign r hr]
  have absent : ∀ {id}, t.actions.find? id = none → s.actions.find? id = none := by
    intro id none
    refine s.actions.find?_eq_none_iff.mpr fun r hr => ?_
    refine t.actions.find?_eq_none_iff.mp none r ?_
    rw [actions]
    exact List.mem_append_left _ hr
  refine ⟨fun a ha => ?_, fun id none => by rw [same, h.unknown id (absent none)]⟩
  rw [actions, List.mem_append] at ha
  rcases ha with old | new
  · obtain ⟨replays, queued, known⟩ := h.rows a old
    exact ⟨by rw [same, replays], queued, known⟩
  · obtain ⟨state, attempts, -⟩ := fresh a new
    have none : s.actions.find? a.id = none := s.actions.find?_eq_none_iff.mpr fun r hr same =>
      Table.key_notMem_of_append actions new (List.mem_map.mpr ⟨r, hr, same⟩)
    refine ⟨?_, by simp [state, attempts], by simp [state]⟩
    rw [same, h.unknown _ none, Action.trail, attempts]
    rfl

/-- A change that leaves the actions and their audit rows alone. -/
theorem same (h : ActionTrails s) (rows : List AuditLog) (actions : t.actions = s.actions)
    (audits : t.audits = s.audits ++ rows) (foreign : ∀ r ∈ rows, r.eventType ≠ "action_executed") :
    ActionTrails t := by
  have none : t.actions.rows = s.actions.rows ++ [] := by rw [actions, List.append_nil]
  exact h.grow none (fun a ha => by cases ha) audits foreign

theorem attempted (h : ActionTrails s) {args : PassArgs} {a : Action} {succeeded : Bool}
    {detail : String} (attempt : Attempt args a succeeded detail s t) : ActionTrails t := by
  have mem := s.actions.mem_of_find? attempt.current
  have audits : ∀ id, t.actionAudits id = s.actionAudits id ++
      if a.id = id then [(a.outcome args succeeded detail).executed args.now] else [] := by
    intro id
    rw [actionAudits_append attempt.audits_eq]
    by_cases same : a.id = id <;> simp [Action.executed, same]
  obtain ⟨replays, queued, -⟩ := h.rows a mem
  refine ⟨fun b hb => ?_, fun id none => ?_⟩
  · rw [attempt.rows, List.mem_map] at hb
    obtain ⟨r, hr, rfl⟩ := hb
    split
    · have again : a.attempts ≠ 0 → a.state = .retry := fun some =>
        (Action.state_of_unfinished attempt.unfinished).resolve_left fun first =>
          some (queued.mp first)
      have ways := a.outcome_cases args succeeded detail
      refine ⟨?_, ?_, ?_⟩
      · rw [audits, Action.outcome_id, if_pos rfl, List.map_append, replays,
          Action.trail_outcome again]
        simp [Action.executed, AuditLog.entry, executedEntry]
      · refine iff_of_false (fun first => ?_) (by simp)
        rcases ways with state | ⟨state, -⟩ | ⟨state, -⟩ <;> rw [first] at state <;> cases state
      · intro skipped
        rcases ways with state | ⟨state, -⟩ | ⟨state, -⟩ <;> rw [skipped] at state <;> cases state
    · next other =>
      obtain ⟨replays, queued, known⟩ := h.rows r hr
      exact ⟨by rw [audits, if_neg fun same => other same.symm, List.append_nil, replays], queued,
        known⟩
  · have absent : s.actions.find? id = .none := by
      cases found : s.actions.find? id with
      | none => rfl
      | some r =>
        rw [attempt.find? found] at none
        cases none
    have other : a.id ≠ id := by
      rintro rfl
      rw [attempt.current] at absent
      cases absent
    rw [audits, if_neg other, List.append_nil, h.unknown id absent]

/-- Every change keeps every trail. -/
theorem change (h : ActionTrails s) {c : Command} {as : List Action} (change : Change c s as t) :
    ActionTrails t := by
  cases change with
  | asset a fresh => exact h.same [] rfl (List.append_nil _).symm fun r hr => by cases hr
  | rule r fresh => exact h.same [] rfl (List.append_nil _).symm fun r hr => by cases hr
  | new process new =>
    rcases new.added with ⟨-, -, -, entry, audits, kind⟩ | ⟨i, rule, entry, opened⟩
    · refine h.grow new.rows_actions new.fresh audits fun r hr => ?_
      obtain rfl := List.mem_singleton.mp hr
      rcases kind with kind | kind <;> rw [kind] <;> decide
    · refine h.grow new.rows_actions new.fresh opened.audits fun r hr => ?_
      obtain rfl := List.mem_singleton.mp hr
      rcases opened.outcome with ⟨kind, -⟩ | ⟨kind, -⟩ <;> rw [kind] <;> decide
  | claimed key now vacant =>
    exact h.same [] rfl (List.append_nil _).symm fun r hr => by cases hr
  | completed id o now stored =>
    exact h.same [] rfl (List.append_nil _).symm fun r hr => by cases hr
  | replayed record now mem =>
    refine h.same [idempotencyHit record now] rfl rfl fun r hr => ?_
    obtain rfl := List.mem_singleton.mp hr
    simp [idempotencyHit]
  | attempted attempts attempt => exact h.attempted attempt
  | followedUp i staleMinutes now process mem =>
    refine h.grow (rows_insert_action_nextId s _ rfl) (fun a ha => ?_) (List.append_nil _).symm
      fun r hr => by cases hr
    obtain rfl := List.mem_singleton.mp ha
    exact ⟨rfl, rfl, rfl, rfl⟩
  | job row => exact h.same [] rfl (List.append_nil _).symm fun r hr => by cases hr
  | check checks row kind =>
    refine h.same [row] rfl rfl fun r hr => ?_
    obtain rfl := List.mem_singleton.mp hr
    rcases kind with kind | kind <;> rw [kind] <;> decide

end ActionTrails

/-! ## `/metrics` -/

/-- SQLite's `LIKE '%part%'`, which does not tell ASCII capitals from small letters. -/
def likeContains (part text : String) : Bool := contains (asciiLower part) (asciiLower text)

/-- The counts of `GET /metrics`; those that it reports under two names stand once. -/
structure ServiceMetrics where
  events : Nat
  incidents : Nat
  actions : Nat
  queuedActions : Nat
  retryActions : Nat
  succeededActions : Nat
  failedActions : Nat
  actionsProcessed : Nat
  permanentFailures : Nat
  cooldownSuppressions : Nat
  idempotencyHits : Nat
  queueBacklog : Nat
  retryAttempts : Nat
  auditEntries : Nat
  deriving DecidableEq, Repr

def Store.metrics (s : Store) : ServiceMetrics where
  events := s.events.rows.length
  incidents := s.incidents.rows.length
  actions := s.actions.rows.length
  queuedActions := s.actions.rows.countP fun a => a.state = .queued
  retryActions := s.actions.rows.countP fun a => a.state = .retry
  succeededActions := s.actions.rows.countP fun a => a.state = .succeeded
  failedActions := s.actions.rows.countP fun a => a.state = .failed
  actionsProcessed := s.actions.rows.countP fun a => a.state = .succeeded ∨ a.state = .failed
  permanentFailures :=
    s.actions.rows.countP fun a => a.state = .failed ∧ likeContains "permanent" a.detail = true
  cooldownSuppressions := s.auditsOf "event_suppressed"
  idempotencyHits := s.auditsOf "idempotency_hit"
  queueBacklog := s.actions.rows.countP fun a => a.state = .queued ∨ a.state = .retry
  retryAttempts := (s.actions.rows.map fun a => a.attempts - 1).sum
  auditEntries := s.audits.length

/-- The audit log has one row for each event, replay, attempt and step of a check. -/
structure Booked (s : Store) : Prop where
  entries : s.audits.length = s.events.rows.length + s.auditsOf "idempotency_hit" +
    s.auditsOf "action_executed" + s.auditsOf "check_created" + s.auditsOf "check_transitioned"
  attempts : s.auditsOf "action_executed" = (s.actions.rows.map Action.attempts).sum

/-- The counts agree with each other and with the audit log. -/
structure ServiceMetrics.Consistent (m : ServiceMetrics) (checks : Nat) : Prop where
  actions : m.actions =
    m.queuedActions + m.retryActions + m.succeededActions + m.failedActions
  backlog : m.queueBacklog = m.queuedActions + m.retryActions
  processed : m.actionsProcessed = m.succeededActions + m.failedActions
  permanent : m.permanentFailures ≤ m.failedActions
  audits : m.auditEntries = m.events + m.idempotencyHits +
    (m.retryAttempts + m.retryActions + m.actionsProcessed) + checks

/-- Untouched actions have not been attempted, all others have. -/
theorem sum_attempts {rows : List Action}
    (trails : ∀ a ∈ rows, (a.state = .queued ↔ a.attempts = 0) ∧ a.state ≠ .skipped) :
    (rows.map Action.attempts).sum = (rows.map fun a => a.attempts - 1).sum +
      rows.countP (fun a => a.state = .retry) +
      rows.countP fun a => a.state = .succeeded ∨ a.state = .failed := by
  induction rows with
  | nil => rfl
  | cons a rest ih =>
    obtain ⟨queued, known⟩ := trails a (.head _)
    have later := ih fun b hb => trails b (.tail _ hb)
    simp only [List.map_cons, List.sum_cons, List.countP_cons, later]
    cases state : a.state with
    | skipped => exact absurd state known
    | queued =>
      have none := queued.mp state
      simp [none]
    | _ =>
      have some : a.attempts ≠ 0 := fun none => by
        have first := queued.mpr none
        rw [state] at first
        cases first
      simp
      omega

/-- Rows in one of two states are those in the first and those in the second. -/
theorem countP_states (rows : List Action) {x y : ActionState} (apart : x ≠ y) :
    (rows.countP fun a => a.state = x ∨ a.state = y) =
      (rows.countP fun a => a.state = x) + rows.countP fun a => a.state = y := by
  induction rows with
  | nil => rfl
  | cons a rest ih =>
    simp only [List.countP_cons, ih]
    by_cases first : a.state = x
    · have other : a.state ≠ y := first ▸ apart
      simp [first, apart]
      omega
    · by_cases second : a.state = y <;> simp [first, second, apart.symm]
      omega

theorem length_states {rows : List Action} (known : ∀ a ∈ rows, a.state ≠ .skipped) :
    rows.length = (rows.countP fun a => a.state = .queued ∨ a.state = .retry) +
      rows.countP fun a => a.state = .succeeded ∨ a.state = .failed := by
  induction rows with
  | nil => rfl
  | cons a rest ih =>
    have here := known a (.head _)
    simp only [List.length_cons, List.countP_cons, ih fun b hb => known b (.tail _ hb)]
    cases state : a.state with
    | skipped => exact absurd state here
    | _ => simp; omega

theorem ActionTrails.consistent {s : Store} (trails : ActionTrails s) (booked : Booked s) :
    s.metrics.Consistent (s.auditsOf "check_created" + s.auditsOf "check_transitioned") := by
  have length := length_states fun a ha => (trails.rows a ha).known
  have sum := sum_attempts fun a ha => ⟨(trails.rows a ha).queued, (trails.rows a ha).known⟩
  have backlog := countP_states s.actions.rows (x := .queued) (y := .retry) (by decide)
  have processed := countP_states s.actions.rows (x := .succeeded) (y := .failed) (by decide)
  have entries := booked.entries
  rw [booked.attempts, sum] at entries
  refine ⟨?_, backlog, processed, List.countP_mono_left fun a _ => by simp; tauto, ?_⟩
  · simp only [Store.metrics]
    omega
  · simp only [Store.metrics]
    omega

/-! ## Every run -/

/-- What every change and every reset keeps holds after every run of commands. -/
theorem commands_invariant {b : Begin} {I : Store → Prop}
    (kept : ∀ {c s t as}, I s → Change c s as t → I t) (reset : ∀ s, I s → I (resetWorkload s))
    {s t : Store} {cs : List Command} (start : I s) (run : (commands b).run s cs = some t) :
    I t := by
  refine (commands b).run_invariant (fun s c t h step => ?_) start run
  by_cases going : c.isReset = false
  · exact Changes.invariant (I := fun s _ => I s) (fun h change => kept h change) [] h
      (changes_of_apply step going)
  · cases c with
    | reset =>
      cases step
      exact reset s h
    | _ => exact absurd rfl going

namespace Booked

variable {s t : Store}

theorem grow (h : Booked s) {rows : List AuditLog} (audits : t.audits = s.audits ++ rows)
    (entries : s.events.rows.length + rows.length = t.events.rows.length +
      (rows.countP fun r => r.eventType = "idempotency_hit") +
      (rows.countP fun r => r.eventType = "action_executed") +
      (rows.countP fun r => r.eventType = "check_created") +
      rows.countP fun r => r.eventType = "check_transitioned")
    (attempts : (t.actions.rows.map Action.attempts).sum =
      (s.actions.rows.map Action.attempts).sum +
        rows.countP fun r => r.eventType = "action_executed") : Booked t := by
  constructor
  · have := h.entries
    simp only [auditsOf_append audits]
    rw [audits, List.length_append]
    omega
  · rw [auditsOf_append audits, h.attempts, attempts]

/-- A change of other tables. -/
theorem same (h : Booked s) (audits : t.audits = s.audits) (events : t.events = s.events)
    (actions : t.actions = s.actions) : Booked t := by
  have none : t.audits = s.audits ++ [] := by rw [audits, List.append_nil]
  exact h.grow none (by rw [events]; rfl) (by rw [actions]; rfl)

theorem attempted (h : Booked s) {args : PassArgs} {a : Action} {succeeded : Bool}
    {detail : String} (attempt : Attempt args a succeeded detail s t) : Booked t := by
  have mem := s.actions.mem_of_find? attempt.current
  have key : ∀ r : Action, Keyed.key r.attempt = Keyed.key r := fun _ => rfl
  have column : t.actions.rows.map Action.attempts =
      (s.actions.modify a.id Action.attempt key).rows.map Action.attempts := by
    rw [attempt.rows, Table.rows_modify, List.map_map, List.map_map]
    refine List.map_congr_left fun r hr => ?_
    simp only [Function.comp_apply, key_action]
    split
    · next same =>
      obtain rfl : r = a := s.actions.eq_of_key_eq hr mem same
      exact r.outcome_attempts ..
    · rfl
  refine h.grow attempt.audits_eq ?_ ?_
  · rw [attempt.events_eq]
    rfl
  · rw [column]
    exact s.actions.sum_modify key (fun _ => rfl) mem

theorem change (h : Booked s) {c : Command} {as : List Action} (change : Change c s as t) :
    Booked t := by
  cases change with
  | asset a fresh => exact h.same rfl rfl rfl
  | rule r fresh => exact h.same rfl rfl rfl
  | @new settings env p s t o process new =>
    have events : t.events.rows.length = s.events.rows.length + 1 := by
      rw [new.rows_events, List.length_append]
      rfl
    have attempts : (t.actions.rows.map Action.attempts).sum =
        (s.actions.rows.map Action.attempts).sum := by
      have none : (o.action.toList.map Action.attempts).sum = 0 := by
        cases made : o.action with
        | none => rfl
        | some a =>
          have untouched := (new.fresh a (by simp [made])).2.1
          simp [untouched]
      rw [new.rows_actions, List.map_append, List.sum_append, none, Nat.add_zero]
    rcases new.added with ⟨-, -, -, entry, audits, kind⟩ | ⟨i, rule, entry, opened⟩
    · refine h.grow audits ?_ ?_
      · rcases kind with kind | kind <;> simp [kind, events]
      · rcases kind with kind | kind <;> simp [kind, attempts]
    · refine h.grow opened.audits ?_ ?_
      · rcases opened.outcome with ⟨kind, -⟩ | ⟨kind, -⟩ <;> simp [kind, events]
      · rcases opened.outcome with ⟨kind, -⟩ | ⟨kind, -⟩ <;> simp [kind, attempts]
  | claimed key now vacant => exact h.same rfl rfl rfl
  | completed id o now stored => exact h.same rfl rfl rfl
  | replayed record now mem =>
    have audits : (s.write (record.replayed now)).audits =
      s.audits ++ [idempotencyHit record now] := rfl
    exact h.grow audits rfl rfl
  | attempted attempts attempt => exact h.attempted attempt
  | followedUp i staleMinutes now process mem =>
    have none : (s.write [.insertAction (followUp s.actions.nextId i staleMinutes now)]).audits =
      s.audits ++ [] := (List.append_nil _).symm
    refine h.grow none rfl ?_
    rw [rows_insert_action_nextId s _ rfl, List.map_append, List.sum_append]
    rfl
  | job row => exact h.same rfl rfl rfl
  | check checks row kind =>
    refine h.grow (t := { s with checks := checks, audits := s.audits ++ [row] }) rfl ?_ ?_
    · rcases kind with kind | kind <;> simp [kind]
    · rcases kind with kind | kind <;> simp [kind]

end Booked

/-- After every sequence of commands each action's audit rows replay to its row, and the counts of
`/metrics` agree with each other and with the audit log. -/
theorem actionTrails_of_run (b : Begin) (assets : Table Asset) (rules : Table AutomationRule)
    (cs : List Command) (s : Store)
    (run : (commands b).run (Store.seeded assets rules) cs = some s) :
    ActionTrails s ∧
      s.metrics.Consistent (s.auditsOf "check_created" + s.auditsOf "check_transitioned") := by
  have both : ActionTrails s ∧ Booked s := by
    refine commands_invariant (I := fun s => ActionTrails s ∧ Booked s)
      (fun h change => ⟨h.1.change change, h.2.change change⟩) (fun s _ => ?_) ?_ run
    · exact ⟨⟨fun a ha => (by cases ha), fun _ _ => rfl⟩, ⟨rfl, rfl⟩⟩
    · exact ⟨⟨fun a ha => (by cases ha), fun _ _ => rfl⟩, ⟨rfl, rfl⟩⟩
  exact ⟨both.1, both.1.consistent both.2⟩

/-- The shift of the flapping pump, and a check. -/
def flapDay : List Command :=
  flapShift ++ flapRetry ++ [.createCheck (minutes 31) "Pump restart" "PUMP-101" ""]

theorem actionTrails_flapDay : ∃ s : Store, (commands .eager).run demo flapDay = some s ∧
    (s.actionAudits 1).map AuditLog.entry =
      [("action_executed", "create_ticket finished as retry after 1 attempts"),
        ("action_executed", "create_ticket finished as succeeded after 2 attempts")] ∧
    s.metrics = ⟨1, 1, 2, 1, 0, 1, 0, 1, 0, 0, 0, 1, 1, 4⟩ ∧
    ActionTrails s ∧
      s.metrics.Consistent (s.auditsOf "check_created" + s.auditsOf "check_transitioned") :=
  ⟨_, rfl, by decide, by decide, actionTrails_of_run .eager demoAssets demoRules flapDay _ rfl⟩

end SupportOps.Python
