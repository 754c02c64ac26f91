import SupportOps.Benchmark.Policy
import SupportOps.Python.Processor
import SupportOps.Python.Retry
import SupportOps.Python.Seed
import SupportOps.Python.Service

/-!
# The Python engine of the benchmark

`run_python_engine_once`: a seeded store, every event processed in order, and every queued action
executed to its end. The store follows the log of a policy: an event is worth what the seeded
rules make of it, an incident suppresses every event of its asset, and the backlog is limited.
-/
namespace SupportOps.Python

open Library Benchmark

/-! ## The engine -/

def criticalRule : AutomationRule :=
  ⟨1, "Critical synthetic diagnostic", "offline", 80, 5, "collect_diagnostics", true⟩

def warningRule : AutomationRule :=
  ⟨2, "Warning synthetic incident", "degraded", 50, 5, "none", true⟩

def benchmarkRules : Table AutomationRule := ⟨[criticalRule, warningRule], by decide⟩

def seedPythonDatabase (events : List SharedEvent) : Store :=
  { Store.empty.addAssets (sortedSet (events.map SharedEvent.assetId)) with
    rules := benchmarkRules }

/-- The arguments `to_python_payload` gives to `EventCreate`. -/
def eventBody (e : SharedEvent) : EventBody where
  assetExternalId := e.assetId
  source := e.source
  category := e.category
  severity := e.severity
  message := e.message
  executorMode := e.executorMode.value

/-- `to_python_payload`; `none` is a `ValidationError`. -/
def toPythonPayload (e : SharedEvent) : Option EventCreate :=
  if accepted : (eventBody e).Accepted then some ⟨eventBody e, accepted⟩ else none

def pythonMetrics (s : Store) : Metrics where
  events := s.events.rows.length
  incidents := s.incidents.rows.length
  actions := s.actions.rows.length
  cooldownSuppressions := s.audits.countP fun r => r.eventType = "event_suppressed"
  succeededActions := s.actions.rows.countP fun a => a.state = .succeeded
  failedActions := s.actions.rows.countP fun a => a.state = .failed
  retryAttempts := (s.actions.rows.map fun a => a.attempts - 1).sum
  permanentFailures := s.actions.rows.countP fun a =>
    a.state = .failed ∧ contains "permanent" a.detail = true

/-- What a run takes from its surroundings: the settings, what each call of `process` reads, the
clock of each action's retries, the timeout in microseconds, and the iterations of a loop. -/
structure EngineRun where
  settings : Settings
  surroundings : Nat → Surroundings
  clock : Nat → Nat → Instant
  timeout : Int
  fuel : Nat

/-- The loop over the events, from the `i`-th on: the errors and the store. -/
def processEvents (run : EngineRun) : Nat → List SharedEvent → Nat × Store → Nat × Store
  | _, [], w => w
  | i, e :: events, (errors, s) =>
    match toPythonPayload e with
    | none => processEvents run (i + 1) events (errors + 1, s)
    | some payload =>
      match process run.settings (run.surroundings i) payload.toEventBody s with
      | .error _ => processEvents run (i + 1) events (errors + 1, s)
      | .ok (_, t) => processEvents run (i + 1) events (errors, t)

/-- `run_python_engine_once`: the errors and the store it ends with. -/
def runPythonEngine (run : EngineRun) (events : List SharedEvent) :
    Option (Except ExecuteError (Nat × Store)) :=
  let (errors, s) := processEvents run 0 events (0, seedPythonDatabase events)
  let queuedActions := s.actions.rows.filter fun a => a.state = .queued
  (executeEach (fun i => ⟨3, run.clock i⟩) (defaultTransport run.timeout) run.fuel 0
    queuedActions s).map (Except.map fun t => (errors, t))

/-! ## Its policy -/

/-- The seeded rules, a cooldown of the whole asset, and the backlog limit. -/
def pythonPolicy (settings : Settings) : Policy where
  band category severity :=
    if category = "offline" ∧ 80 ≤ severity then some .critical
    else if category = "degraded" ∧ 50 ≤ severity then some .warning
    else none
  covers x e := x.assetId = e.assetId
  room n := n < settings.maxQueueBacklog

/-- The seeded rule of a band. -/
def bandRule : Band → AutomationRule
  | .critical => criticalRule
  | .warning => warningRule

theorem applies_of_enabled {rule : AutomationRule} (enabled : rule.enabled = true)
    (event : OperationalEvent) : RuleEngine.applies event rule =
      decide (event.category = rule.category ∧ rule.minimumSeverity ≤ event.severity) := by
  rw [Bool.eq_iff_iff]
  simp only [RuleEngine.applies, enabled, Bool.true_and, Bool.and_eq_true, decide_eq_true_eq]
  exact and_congr_left fun _ => eq_comm

theorem matchRule_benchmarkRules (settings : Settings) (event : OperationalEvent) :
    RuleEngine.matchRule benchmarkRules event =
      ((pythonPolicy settings).band event.category event.severity).map bandRule := by
  have rows : benchmarkRules.rows = [criticalRule, warningRule] := rfl
  have critical : RuleEngine.applies event criticalRule =
      decide (event.category = "offline" ∧ 80 ≤ event.severity) := applies_of_enabled rfl event
  have warning : RuleEngine.applies event warningRule =
      decide (event.category = "degraded" ∧ 50 ≤ event.severity) := applies_of_enabled rfl event
  simp only [RuleEngine.matchRule, Table.select, rows, pythonPolicy, List.filter_cons, critical,
    warning, List.filter_nil, decide_eq_true_eq]
  by_cases offline : event.category = "offline" ∧ 80 ≤ event.severity
  · have other : ¬ (event.category = "degraded" ∧ 50 ≤ event.severity) := by
      rintro ⟨degraded, -⟩
      rw [offline.1] at degraded
      exact absurd degraded (by decide)
    rw [if_pos offline, if_neg other, if_pos offline]
    rfl
  · by_cases degraded : event.category = "degraded" ∧ 50 ≤ event.severity
    · rw [if_neg offline, if_pos degraded, if_neg offline, if_pos degraded]
      rfl
    · simp [offline, degraded]

/-! ## The store follows the log -/

/-- The asset, the time and the state of an incident. -/
def Incident.trace (i : Incident) : Option Nat × Instant × IncidentState :=
  (some i.assetId, i.createdAt, i.state)

/-- The state of an action, its attempts, its detail and its type. -/
def Action.progress (a : Action) : ActionState × Nat × String × String :=
  (a.state, a.attempts, a.detail, a.actionType)

/-- A queued action in the mode. -/
def queuedProgress (m : ExecutorMode) : ActionState × Nat × String × String :=
  (.queued, 0, m.value, "collect_diagnostics")

/-- The audit row of a suppressed event. -/
def AuditLog.suppresses (r : AuditLog) : Bool := r.eventType = "event_suppressed"

/-- What the store holds once the events of the log are decided. -/
structure Follows (ids : String → Option Nat) (s : Store) (log : List Entry) : Prop where
  rules : s.rules = benchmarkRules
  assets : ∀ externalId, assetIds s externalId = ids externalId
  events : s.events.rows.length = log.length
  incidents : s.incidents.rows.map Incident.trace =
    (log.filter fun x => x.decision.opens).map fun x => (ids x.assetId, x.decidedAt, .opened)
  actions : s.actions.rows.map Action.progress = (modes log).map queuedProgress
  suppressed : s.audits.countP AuditLog.suppresses =
    log.countP fun x => x.decision = .suppressed

namespace Follows

variable {ids : String → Option Nat} {s : Store} {log : List Entry}

theorem queued (h : Follows ids s log) (a : Action) (ha : a ∈ s.actions.rows) :
    a.state = .queued := by
  have mem := List.mem_map_of_mem (f := Action.progress) ha
  rw [h.actions, List.mem_map] at mem
  obtain ⟨m, -, same⟩ := mem
  exact (congrArg Prod.fst same).symm

theorem queueBacklog (h : Follows ids s log) : s.queueBacklog = (modes log).length := by
  have length : s.actions.rows.length = (modes log).length := by
    simpa using congrArg List.length h.actions
  rw [← length, Store.queueBacklog, List.countP_eq_length]
  intro a ha
  simp [h.queued a ha]

/-- The cooldown query finds what suppresses the event. -/
theorem inCooldown (h : Follows ids s log) (settings : Settings) {e : SharedEvent} {n : Nat}
    (known : ids e.assetId = some n) (now : Instant) :
    inCooldown s n 5 now = log.any ((pythonPolicy settings).suppresses now e) := by
  have query : Python.inCooldown s n 5 now =
      (s.incidents.rows.map Incident.trace).any fun i =>
        decide (i.1 = some n) && decide (now - cooldown ≤ i.2.1) && decide (i.2.2 ≠ .resolved) := by
    rw [Python.inCooldown, if_neg (by decide), List.any_map]
    refine congrArg _ (funext fun i => ?_)
    simp only [recentIncident, Function.comp_apply, Incident.trace, Option.some.injEq]
    rfl
  rw [query, h.incidents, List.any_map, List.any_filter]
  refine congrArg _ (funext fun x => ?_)
  have same : ids x.assetId = some n ↔ x.assetId = e.assetId := by
    constructor
    · intro here
      rw [← h.assets] at here known
      exact assetIds_injective s here known
    · rintro same
      rw [same, known]
  rw [Bool.eq_iff_iff]
  simp [Policy.suppresses, pythonPolicy, same, and_assoc]

/-- One more event with the rows of its entry. -/
theorem append (h : Follows ids s log) {t : Store} {x : Entry} (rules : t.rules = s.rules)
    (assets : ∀ externalId, assetIds t externalId = assetIds s externalId)
    (events : t.events.rows.length = s.events.rows.length + 1)
    (incidents : t.incidents.rows.map Incident.trace = s.incidents.rows.map Incident.trace ++
      if x.decision.opens then [(ids x.assetId, x.decidedAt, .opened)] else [])
    (actions : t.actions.rows.map Action.progress =
      s.actions.rows.map Action.progress ++ x.decision.mode?.toList.map queuedProgress)
    (suppressed : t.audits.countP AuditLog.suppresses =
      s.audits.countP AuditLog.suppresses + if x.decision = .suppressed then 1 else 0) :
    Follows ids t (log ++ [x]) where
  rules := rules.trans h.rules
  assets externalId := (assets externalId).trans (h.assets externalId)
  events := by rw [events, h.events, List.length_append, List.length_singleton]
  incidents := by
    rw [incidents, h.incidents, List.filter_append, List.map_append]
    cases opens : x.decision.opens <;> simp [opens]
  actions := by rw [actions, h.actions, modes_concat, List.map_append]
  suppressed := by
    rw [suppressed, h.suppressed, List.countP_append, List.countP_singleton]
    simp only [decide_eq_true_eq]

end Follows

/-! ## One event -/

section Step

variable {settings : Settings} {env : Surroundings} {p : EventBody} {s t : Store} {o : Processed}

/-- The band of the event, from the rule that matches it. -/
theorem Follows.band_of_matched {ids : String → Option Nat} {log : List Entry}
    (h : Follows ids s log) (settings : Settings) {e : SharedEvent} {asset : Asset}
    {rule : AutomationRule}
    (matched : RuleEngine.matchRule s.rules ((eventBody e).eventFor env s asset) = some rule) :
    ∃ band, (pythonPolicy settings).band e.category e.severity = some band ∧
      bandRule band = rule := by
  rw [h.rules, matchRule_benchmarkRules settings] at matched
  exact Option.map_eq_some_iff.mp matched

/-- What a rule that is not suppressed decides. -/
theorem Follows.decide_of_opens {ids : String → Option Nat} {log : List Entry}
    (h : Follows ids s log) (settings : Settings) {e : SharedEvent} {asset : Asset}
    {rule : AutomationRule} (opens : Opens env (eventBody e) s asset rule) :
    ∃ band, bandRule band = rule ∧ (pythonPolicy settings).decide log e env.now =
      band.outcome e.executorMode (decide (s.queueBacklog < settings.maxQueueBacklog)) := by
  obtain ⟨band, worth, rfl⟩ := h.band_of_matched settings opens.matched
  refine ⟨band, rfl, ?_⟩
  have known : ids e.assetId = some asset.id := by
    rw [← h.assets]
    exact congrArg (Option.map Asset.id) opens.known
  have minutes : (bandRule band).cooldownMinutes = 5 := by cases band <;> rfl
  have clear := opens.clear
  rw [minutes, h.inCooldown settings known env.now] at clear
  rw [h.queueBacklog, Policy.decide_of_clear worth clear]
  rfl

theorem suppresses_concat (audits : List AuditLog) (entry : AuditLog) :
    (audits ++ [entry]).countP AuditLog.suppresses =
      audits.countP AuditLog.suppresses + if entry.suppresses then 1 else 0 := by
  rw [List.countP_append, List.countP_singleton]

theorem suppresses_of_eventType {entry : AuditLog} {kind : String} (h : entry.eventType = kind)
    (other : kind ≠ "event_suppressed") : entry.suppresses = false := by
  simp [AuditLog.suppresses, h, other]

/-- A case audits a suppression exactly if its reason is the cooldown. -/
theorem NewCase.suppressed_audits (h : NewCase settings env p s o t) :
    t.audits.countP AuditLog.suppresses = s.audits.countP AuditLog.suppresses +
      if o.skippedReason = some .cooldown then 1 else 0 := by
  have silent : ∀ {asset : Asset} {entry : AuditLog} (kind : String), entry.eventType = kind →
      kind ≠ "event_suppressed" →
      ((s.recorded env p asset).audits ++ [entry]).countP AuditLog.suppresses =
        s.audits.countP AuditLog.suppresses + 0 := by
    intro asset entry kind same ne
    rw [recorded_audits, suppresses_concat, suppresses_of_eventType same ne]
    rfl
  cases h <;> simp only [Store.write_cons, Store.write_nil, Write.apply_audits]
  case unmatched asset known none => exact silent "event_recorded" rfl (by decide)
  case suppressed asset rule known matched recent =>
    rw [recorded_audits, suppresses_concat]
    rfl
  case incidentOnly asset rule opens noAction => exact silent "incident_created" rfl (by decide)
  case rejected asset rule opens action full =>
    exact silent "queue_backpressure" rfl (by decide)
  case queued asset rule opens action room => exact silent "incident_created" rfl (by decide)

/-- The result of a call answers for a decision. -/
structure Answers (ids : String → Option Nat) (e : SharedEvent) (now : Instant) (o : Processed)
    (decision : Decision) : Prop where
  incident : o.incident.toList.map Incident.trace =
    if decision.opens then [(ids e.assetId, now, .opened)] else []
  action : o.action.toList.map Action.progress = decision.mode?.toList.map queuedProgress
  reason : o.skippedReason = some .cooldown ↔ decision = .suppressed

/-- Every case answers for the decision of the policy. -/
theorem NewCase.answers {ids : String → Option Nat} {log : List Entry} (h : Follows ids s log)
    {e : SharedEvent} (new : NewCase settings env (eventBody e) s o t) :
    Answers ids e env.now o ((pythonPolicy settings).decide log e env.now) := by
  have known : ∀ {asset : Asset}, s.assetByExternalId (eventBody e).assetExternalId = some asset →
      some asset.id = ids e.assetId := by
    intro asset found
    rw [← h.assets]
    exact (congrArg (Option.map Asset.id) found).symm
  cases new with
  | unmatched asset found none =>
    rw [h.rules, matchRule_benchmarkRules settings, Option.map_eq_none_iff] at none
    rw [Policy.decide_of_none none]
    exact ⟨rfl, rfl, by simp⟩
  | suppressed asset rule found matched recent =>
    obtain ⟨band, worth, rfl⟩ := h.band_of_matched settings matched
    have minutes : (bandRule band).cooldownMinutes = 5 := by cases band <;> rfl
    rw [minutes, h.inCooldown settings (known found).symm env.now] at recent
    rw [Policy.decide_of_recent worth recent]
    exact ⟨rfl, rfl, by simp⟩
  | incidentOnly asset rule opens noAction =>
    obtain ⟨band, rfl, decided⟩ := h.decide_of_opens settings opens
    rw [decided]
    cases band with
    | warning => exact ⟨by rw [← known opens.known]; rfl, rfl, by simp [Band.outcome]⟩
    | critical => exact absurd noAction (by decide)
  | rejected asset rule opens action full =>
    obtain ⟨band, rfl, decided⟩ := h.decide_of_opens settings opens
    rw [decided, decide_eq_false (Nat.not_lt.mpr full)]
    cases band with
    | warning => exact absurd rfl action
    | critical => exact ⟨by rw [← known opens.known]; rfl, rfl, by simp [Band.outcome]⟩
  | queued asset rule opens action room =>
    obtain ⟨band, rfl, decided⟩ := h.decide_of_opens settings opens
    rw [decided, decide_eq_true room]
    cases band with
    | warning => exact absurd rfl action
    | critical => exact ⟨by rw [← known opens.known]; rfl, rfl, by simp [Band.outcome]⟩

/-- The store follows the entry of the event. -/
theorem NewCase.follows {ids : String → Option Nat} {log : List Entry} (h : Follows ids s log)
    {e : SharedEvent} (new : NewCase settings env (eventBody e) s o t) :
    Follows ids t (log ++ [(pythonPolicy settings).entry log e env.now]) := by
  have answers := new.answers h
  refine h.append new.rules_eq new.assetIds_eq ?_ ?_ ?_ ?_
  · rw [new.rows_events, List.length_append, List.length_singleton]
  · rw [new.rows_incidents, List.map_append, answers.incident]
    rfl
  · rw [new.rows_actions, List.map_append, answers.action]
    rfl
  · rw [new.suppressed_audits]
    exact congrArg _ (if_congr answers.reason rfl rfl)

/-- An accepted event of a seeded asset is processed, and the store follows its entry. -/
theorem Follows.step {ids : String → Option Nat} {log : List Entry} (h : Follows ids s log)
    {e : SharedEvent} (known : (ids e.assetId).isSome) (settings : Settings) (env : Surroundings) :
    ∃ r t, process settings env (eventBody e) s = .ok (r, t) ∧
      Follows ids t (log ++ [(pythonPolicy settings).entry log e env.now]) := by
  obtain ⟨n, hn⟩ := Option.isSome_iff_exists.mp known
  rw [← h.assets] at hn
  obtain ⟨asset, found, -⟩ := Option.map_eq_some_iff.mp hn
  obtain ⟨o, t, new⟩ := processNew_isOk settings env (p := eventBody e) found
  exact ⟨_, t, process_unkeyed rfl new, (newCase_of_processNew new).follows h⟩

/-- The events from the `i`-th on, each with the time its call reads. -/
def EngineRun.timed (run : EngineRun) : Nat → List SharedEvent → List (SharedEvent × Instant)
  | _, [] => []
  | i, e :: events => (e, (run.surroundings i).now) :: run.timed (i + 1) events

/-- Accepted events of seeded assets are processed without an error. -/
theorem processEvents_follows (run : EngineRun) {ids : String → Option Nat}
    (events : List SharedEvent)
    (usable : ∀ e ∈ events, (eventBody e).Accepted ∧ (ids e.assetId).isSome) :
    ∀ (i errors : Nat) {s : Store} {log : List Entry}, Follows ids s log →
      ∃ t, processEvents run i events (errors, s) = (errors, t) ∧
        Follows ids t ((pythonPolicy run.settings).extend log (run.timed i events)) := by
  induction events with
  | nil => intro i errors s log h; exact ⟨s, rfl, h⟩
  | cons e events ih =>
    intro i errors s log h
    obtain ⟨accepted, known⟩ := usable e (List.mem_cons_self ..)
    obtain ⟨r, t, returned, follows⟩ := h.step known run.settings (run.surroundings i)
    have payload : toPythonPayload e = some ⟨eventBody e, accepted⟩ := dif_pos accepted
    obtain ⟨u, rest, later⟩ := ih (fun e he => usable e (List.mem_cons_of_mem _ he)) (i + 1)
      errors follows
    refine ⟨u, ?_, later⟩
    simp only [processEvents, payload, returned]
    exact rest

end Step

/-! ## The queued actions -/

section Execute

variable {timeout : Int} {a : Action} {m : ExecutorMode}

/-- A finished action that was queued in the mode. -/
def finishedProgress : ExecutorMode → ActionState × Nat × String × String
  | .success =>
    (.succeeded, 1, "synthetic collect_diagnostics completed", "collect_diagnostics")
  | .transientThenSuccess =>
    (.succeeded, 2, "synthetic collect_diagnostics completed", "collect_diagnostics")
  | .permanentFailure => (.failed, 1, "synthetic permanent failure", "collect_diagnostics")

/-- What the default transport reports for an attempt of an action in a mode. -/
def modeReply (m : ExecutorMode) (a : Action) : Bool × String :=
  match m with
  | .permanentFailure => (false, "synthetic permanent failure")
  | .transientThenSuccess =>
    if a.attempts ≤ 1 then (false, "synthetic transient failure")
    else (true, "synthetic " ++ a.actionType ++ " completed")
  | .success => (true, "synthetic " ++ a.actionType ++ " completed")

theorem defaultTransport_outcome (positive : 0 < timeout) (detail : a.detail = m.value) :
    (defaultTransport timeout a).outcome = some (modeReply m a) := by
  have timely : ¬ timeout ≤ 0 := Int.not_le.mpr positive
  rw [defaultTransport, if_neg timely, detail]
  cases m with
  | success =>
    have never : (contains "fail_once" ExecutorMode.success.value ||
        contains "transient_then_success" ExecutorMode.success.value) = false := by
      decide
    rw [if_neg (by decide), never, Bool.false_and]
    rfl
  | transientThenSuccess =>
    rw [if_neg (by decide)]
    have once : (contains "fail_once" ExecutorMode.transientThenSuccess.value ||
        contains "transient_then_success" ExecutorMode.transientThenSuccess.value) = true := by
      decide
    rw [once, Bool.true_and]
    by_cases first : a.attempts ≤ 1 <;> simp [first, modeReply, TransportReply.outcome]
  | permanentFailure =>
    rw [if_pos (by decide)]
    rfl

theorem Action.progress_outcome (args : PassArgs) (a : Action) (succeeded : Bool)
    (detail : String) : (a.outcome args succeeded detail).progress =
      if succeeded then (.succeeded, a.attempts + 1, detail, a.actionType)
      else if a.attempt.lastAttempt args then (.failed, a.attempts + 1, detail, a.actionType)
      else (.retry, a.attempts + 1, a.detail, a.actionType) := by
  rw [a.outcome_eq, settled]
  split
  · rfl
  · split <;> rfl

theorem lastAttempt_of_mode (clock : Nat → Instant) (i : Nat) (detail : a.detail = m.value)
    (early : a.attempts < 2) :
    a.attempt.lastAttempt (RetryArgs.once ⟨3, clock⟩ i) = decide (m = .permanentFailure) := by
  have left : ¬ 3 ≤ a.attempts + 1 := by omega
  have same : a.attempt.detail = m.value := detail
  rw [Action.lastAttempt, same]
  change (contains "permanent_failure" m.value || decide (3 ≤ a.attempts + 1)) = _
  rw [decide_eq_false left, Bool.or_false]
  cases m <;> decide

/-- What executing actions leaves as it was. -/
structure Kept (s t : Store) : Prop where
  events : t.events = s.events
  incidents : t.incidents = s.incidents
  suppressed : t.audits.countP AuditLog.suppresses = s.audits.countP AuditLog.suppresses

theorem Kept.refl (s : Store) : Kept s s := ⟨rfl, rfl, rfl⟩

theorem Kept.trans {s t u : Store} (h : Kept s t) (k : Kept t u) : Kept s u :=
  ⟨k.events.trans h.events, k.incidents.trans h.incidents, k.suppressed.trans h.suppressed⟩

theorem kept_retried (s : Store) (args : PassArgs) (a b : Action) :
    Kept s (s.retried args a b) where
  events := rfl
  incidents := rfl
  suppressed := by
    change (s.audits ++ [b.executed args.now]).countP _ = _
    have silent : (b.executed args.now).suppresses = false :=
      suppresses_of_eventType rfl (by decide : "action_executed" ≠ "event_suppressed")
    rw [suppresses_concat, silent]
    rfl

/-- In a table whose row `a` stands between `done` and `todo`, only that row is written. -/
theorem rows_retried_between {s : Store} {done todo : List Action} (args : PassArgs)
    (rows : s.actions.rows = done ++ a :: todo) (succeeded : Bool) (detail : String) :
    (s.retried args a (a.outcome args succeeded detail)).actions.rows =
      done ++ a.outcome args succeeded detail :: todo := by
  have nodup := s.actions.nodup
  rw [rows, List.map_append, List.map_cons, List.nodup_middle, List.nodup_cons] at nodup
  have unchanged : ∀ {l : List Action}, (∀ k ∈ l.map Action.id, k ≠ a.id) →
      (l.map fun r => if r.id = a.id then a.outcome args succeeded detail else r) = l := by
    intro l others
    refine (List.map_congr_left fun r hr => ?_).trans (List.map_id l)
    rw [if_neg (others r.id (List.mem_map_of_mem hr))]
    rfl
  have current : s.actions.find? a.id = some a := s.actions.find?_of_mem (by simp [rows])
  rw [s.rows_retried args current, rows, List.map_append, List.map_cons, if_pos rfl]
  rw [unchanged, unchanged]
  · rintro k hk rfl
    exact nodup.1 (List.mem_append_right _ hk)
  · rintro k hk rfl
    exact nodup.1 (List.mem_append_left _ hk)

/-- An attempt that ends the action ends the loop. -/
theorem retryLoop_last {args : RetryArgs} {transport : Transport} (positive : 1 ≤ args.maxAttempts)
    (fuel i : Nat) (s : Store) {succeeded : Bool} {detail : String}
    (unfinished : a.finished = false)
    (outcome : (transport a.attempt).outcome = some (succeeded, detail))
    (ended : (a.outcome (args.once i) succeeded detail).state = .succeeded ∨
      (a.outcome (args.once i) succeeded detail).state = .failed) :
    retryLoop args transport (fuel + 2) i a s =
      some (.ok ⟨a.outcome (args.once i) succeeded detail,
        s.retried (args.once i) a (a.outcome (args.once i) succeeded detail),
        [(a.id, transport a.attempt)]⟩) := by
  rw [retryLoop_attempt (fuel + 1) i s positive unfinished outcome,
    retryLoop_finished fuel (i + 1) _ ended]
  rfl

/-- An action whose next attempt succeeds, between actions that stay as they are. -/
theorem retryLoop_succeeds (positive : 0 < timeout) (clock : Nat → Instant) (fuel i : Nat)
    {s : Store} {done todo : List Action} (rows : s.actions.rows = done ++ a :: todo)
    (unfinished : a.finished = false) (detail : a.detail = m.value)
    (type : a.actionType = "collect_diagnostics") (succeeds : (modeReply m a.attempt).1 = true) :
    ∃ run, retryLoop ⟨3, clock⟩ (defaultTransport timeout) (fuel + 2) i a s = some (.ok run) ∧
      Kept s run.store ∧ ∃ b, b.progress = (.succeeded, a.attempts + 1,
        "synthetic collect_diagnostics completed", "collect_diagnostics") ∧
      run.store.actions.rows = done ++ b :: todo := by
  have text : modeReply m a.attempt = (true, "synthetic collect_diagnostics completed") := by
    have same : a.attempt.actionType = "collect_diagnostics" := type
    unfold modeReply at succeeds ⊢
    rw [same] at succeeds ⊢
    split at succeeds
    · cases succeeds
    · split at succeeds
      · cases succeeds
      · next late => rw [if_neg late]; rfl
    · rfl
  have outcome := defaultTransport_outcome positive (a := a.attempt) detail
  rw [text] at outcome
  have progress := a.progress_outcome (RetryArgs.once ⟨3, clock⟩ i) true
    "synthetic collect_diagnostics completed"
  rw [if_pos rfl, type] at progress
  exact ⟨_, retryLoop_last (Nat.le_add_left 1 2) fuel i s unfinished outcome
    (.inl (congrArg Prod.fst progress)), kept_retried .., _, progress,
    rows_retried_between _ rows _ _⟩

/-- An action is executed to its end, between actions that stay as they are. -/
theorem executeActionWithRetry_queued (positive : 0 < timeout) {fuel : Nat} (enough : 2 < fuel)
    (clock : Nat → Instant) {s : Store} {done todo : List Action}
    (rows : s.actions.rows = done ++ a :: todo) (queued : a.progress = queuedProgress m) :
    ∃ run, executeActionWithRetry ⟨3, clock⟩ (defaultTransport timeout) fuel a s =
        some (.ok run) ∧ Kept s run.store ∧ ∃ b, b.progress = finishedProgress m ∧
        run.store.actions.rows = done ++ b :: todo := by
  obtain ⟨fuel, rfl⟩ : ∃ n, fuel = n + 3 := ⟨fuel - 3, by omega⟩
  obtain ⟨state, attempts, detail, type⟩ : a.state = .queued ∧ a.attempts = 0 ∧
      a.detail = m.value ∧ a.actionType = "collect_diagnostics" := by
    simpa [Action.progress, queuedProgress] using queued
  have unfinished : a.finished = false := by simp [Action.finished, state]
  have first := defaultTransport_outcome positive (a := a.attempt) detail
  have last := lastAttempt_of_mode clock 0 detail (by omega)
  have failed : ∀ text, (a.outcome (RetryArgs.once ⟨3, clock⟩ 0) false text).progress =
      if m = .permanentFailure then (.failed, 1, text, "collect_diagnostics")
      else (.retry, 1, m.value, "collect_diagnostics") := by
    intro text
    rw [a.progress_outcome, if_neg Bool.false_ne_true, last, attempts, type, detail]
    simp only [decide_eq_true_eq]
  have three : 1 ≤ (RetryArgs.mk 3 clock).maxAttempts := Nat.le_add_left 1 2
  change ∃ run, retryLoop ⟨3, clock⟩ (defaultTransport timeout) (fuel + 3) 0 a s = _ ∧ _
  cases m with
  | success =>
    obtain ⟨run, ends, kept, b, succeeded, after⟩ :=
      retryLoop_succeeds positive clock (fuel + 1) 0 rows unfinished detail type rfl
    rw [attempts] at succeeded
    exact ⟨run, ends, kept, b, succeeded, after⟩
  | permanentFailure =>
    have progress := failed "synthetic permanent failure"
    rw [if_pos rfl] at progress
    exact ⟨_, retryLoop_last three (fuel + 1) 0 s unfinished first
      (.inr (congrArg Prod.fst progress)), kept_retried .., _, progress,
      rows_retried_between _ rows _ _⟩
  | transientThenSuccess =>
    -- the first attempt fails, and the loop goes on with the second one
    have reply : modeReply .transientThenSuccess a.attempt =
        (false, "synthetic transient failure") :=
      if_pos (Nat.le_of_eq (congrArg (· + 1) attempts))
    have progress := failed "synthetic transient failure"
    rw [if_neg (by decide)] at progress
    have between := rows_retried_between (RetryArgs.once ⟨3, clock⟩ 0) rows false
      "synthetic transient failure"
    have kept := kept_retried s (RetryArgs.once ⟨3, clock⟩ 0) a
      (a.outcome (RetryArgs.once ⟨3, clock⟩ 0) false "synthetic transient failure")
    rw [reply] at first
    rw [retryLoop_attempt (fuel + 2) 0 s three unfinished first]
    generalize a.outcome (RetryArgs.once ⟨3, clock⟩ 0) false "synthetic transient failure" = b
      at progress between kept ⊢
    obtain ⟨state, attempts, detail, type⟩ : b.state = .retry ∧ b.attempts = 1 ∧
        b.detail = ExecutorMode.transientThenSuccess.value ∧
        b.actionType = "collect_diagnostics" := by
      simpa [Action.progress] using progress
    have late : (modeReply .transientThenSuccess b.attempt).1 = true := by
      have second : ¬ b.attempt.attempts ≤ 1 := by
        change ¬ b.attempts + 1 ≤ 1
        omega
      rw [modeReply, if_neg second]
    obtain ⟨run, ends, later, c, succeeded, after⟩ := retryLoop_succeeds positive clock fuel 1
      between (by simp [Action.finished, state]) detail type late
    rw [attempts] at succeeded
    rw [ends]
    exact ⟨_, rfl, kept.trans later, c, succeeded, after⟩

/-- The queued actions are executed in order, behind those that are already finished. -/
theorem executeEach_queued (positive : 0 < timeout) {fuel : Nat} (enough : 2 < fuel)
    (clock : Nat → Nat → Instant) (todo : List Action) :
    ∀ {ms : List ExecutorMode} {i : Nat} {s : Store} {done : List Action},
      s.actions.rows = done ++ todo → todo.map Action.progress = ms.map queuedProgress →
      ∃ t, executeEach (fun i => ⟨3, clock i⟩) (defaultTransport timeout) fuel i todo s =
          some (.ok t) ∧ Kept s t ∧
        t.actions.rows.map Action.progress =
          done.map Action.progress ++ ms.map finishedProgress := by
  induction todo with
  | nil =>
    intro ms i s done rows queued
    obtain rfl : ms = [] := List.map_eq_nil_iff.mp queued.symm
    refine ⟨s, rfl, .refl s, ?_⟩
    rw [rows, List.append_nil, List.map_nil, List.append_nil]
  | cons a todo ih =>
    intro ms i s done rows queued
    obtain ⟨m, ms, rfl, first, rest⟩ := List.map_eq_cons_iff.mp queued.symm
    obtain ⟨run, ends, kept, b, finished, after⟩ :=
      executeActionWithRetry_queued positive enough (clock i) rows first.symm
    have next : run.store.actions.rows = (done ++ [b]) ++ todo := by
      rw [after, List.append_assoc]
      rfl
    obtain ⟨t, later, keptLater, all⟩ := ih (i := i + 1) next rest.symm
    refine ⟨t, ?_, kept.trans keptLater, ?_⟩
    · simp only [executeEach, ends]
      exact later
    · rw [all, List.map_append, List.map_singleton, finished, List.append_assoc]
      rfl

end Execute

/-! ## The whole run -/

theorem addAssets_cons (s : Store) (externalId : String) (externalIds : List String) :
    s.addAssets (externalId :: externalIds) = Store.addAssets
      { s with assets := s.assets.insert ⟨s.assets.nextId, externalId, "unknown"⟩ }
      externalIds := rfl

/-- New assets change no other table, and each of them is stored. -/
theorem addAssets_spec (externalIds : List String) (s : Store) :
    ∃ assets, s.addAssets externalIds = { s with assets := assets } ∧
      s.assets.rows ⊆ assets.rows ∧
      ∀ externalId ∈ externalIds, ∃ a ∈ assets.rows, a.externalId = externalId := by
  induction externalIds generalizing s with
  | nil => exact ⟨s.assets, rfl, List.Subset.refl _, fun k hk => (by cases hk)⟩
  | cons externalId externalIds ih =>
    obtain ⟨assets, same, kept, stored⟩ :=
      ih { s with assets := s.assets.insert ⟨s.assets.nextId, externalId, "unknown"⟩ }
    refine ⟨assets, by rw [addAssets_cons, same], ?_, ?_⟩
    · exact List.Subset.trans (s.assets.rows_subset_insert _) kept
    · intro k hk
      rcases List.mem_cons.mp hk with rfl | later
      · exact ⟨_, kept (s.assets.mem_insert_self s.assets.find?_nextId), rfl⟩
      · exact stored k later

/-- The seeded store follows the empty log, and knows the asset of every event. -/
theorem follows_seedPythonDatabase (events : List SharedEvent) :
    Follows (assetIds (seedPythonDatabase events)) (seedPythonDatabase events) [] ∧
      ∀ e ∈ events, (assetIds (seedPythonDatabase events) e.assetId).isSome := by
  obtain ⟨assets, same, -, stored⟩ :=
    addAssets_spec (sortedSet (events.map SharedEvent.assetId)) .empty
  have seeded : seedPythonDatabase events =
      { Store.empty with assets := assets, rules := benchmarkRules } := by
    rw [seedPythonDatabase, same]
  refine ⟨⟨by rw [seeded], fun _ => rfl, ?_, ?_, ?_, ?_⟩, ?_⟩
  · rw [seeded]; rfl
  · rw [seeded]; rfl
  · rw [seeded]; rfl
  · rw [seeded]; rfl
  · intro e he
    have mem : e.assetId ∈ sortedSet (events.map SharedEvent.assetId) := by
      rw [sortedSet, List.mem_mergeSort, List.mem_dedup]
      exact List.mem_map_of_mem he
    obtain ⟨a, ha, named⟩ := stored e.assetId mem
    rw [assetIds, Option.isSome_map, seeded]
    exact List.find?_isSome.mpr ⟨a, ha, decide_eq_true named⟩

/-- The counters of a store whose actions are finished. -/
theorem pythonMetrics_of_finished {s t : Store} {log : List Entry} {ids : String → Option Nat}
    (h : Follows ids s log) (kept : Kept s t)
    (finished : t.actions.rows.map Action.progress = (modes log).map finishedProgress) :
    pythonMetrics t = Metrics.ofLog log := by
  have incidents : t.incidents.rows.length = log.countP fun x => x.decision.opens := by
    rw [kept.incidents, ← List.length_map (f := Incident.trace), h.incidents, List.length_map,
      List.countP_eq_length_filter]
  have length : t.actions.rows.length = (modes log).length := by
    simpa using congrArg List.length finished
  have succeeded := countP_column finished fun p => decide (p.1 = .succeeded)
  have failed := countP_column finished fun p => decide (p.1 = .failed)
  have permanent := countP_column finished fun p =>
    decide (p.1 = .failed ∧ contains "permanent" p.2.2.1 = true)
  have retries := sum_column finished (fun p => p.2.1 - 1) fun m => by cases m <;> rfl
  have suppressed := kept.suppressed.trans h.suppressed
  have events : t.events.rows.length = log.length := by rw [kept.events, h.events]
  simp only [pythonMetrics, Metrics.ofLog, Metrics.mk.injEq]
  refine ⟨events, incidents, length, suppressed, succeeded.trans ?_, failed.trans ?_, retries,
    permanent.trans ?_⟩
  · exact List.countP_congr fun m _ => by cases m <;> decide
  · exact List.countP_congr fun m _ => by cases m <;> decide
  · exact List.countP_congr fun m _ => by cases m <;> decide

/-- A run over accepted events reports no error and the counters of its log. -/
theorem runPythonEngine_metrics (run : EngineRun) (positive : 0 < run.timeout)
    (enough : 2 < run.fuel) (events : List SharedEvent)
    (accepted : ∀ e ∈ events, (eventBody e).Accepted) :
    ∃ t, runPythonEngine run events = some (.ok (0, t)) ∧
      pythonMetrics t =
        Metrics.ofLog ((pythonPolicy run.settings).log (run.timed 0 events)) := by
  obtain ⟨seeded, known⟩ := follows_seedPythonDatabase events
  obtain ⟨s, processed, follows⟩ := processEvents_follows run events
    (fun e he => ⟨accepted e he, known e he⟩) 0 0 seeded
  have queued : (s.actions.rows.filter fun a => a.state = .queued) = s.actions.rows := by
    rw [List.filter_eq_self]
    intro a ha
    exact decide_eq_true (follows.queued a ha)
  have start : s.actions.rows = [] ++ s.actions.rows := rfl
  obtain ⟨t, executed, kept, finished⟩ := executeEach_queued positive enough run.clock
    s.actions.rows (i := 0) start follows.actions
  refine ⟨t, ?_, pythonMetrics_of_finished follows kept finished⟩
  simp only [runPythonEngine, processed, queued, executed]
  rfl

end SupportOps.Python
