import SupportOps.Benchmark.Policy
import SupportOps.DotNet.ActionProcessor
import SupportOps.DotNet.TransactionalCooldown

/-!
# The .NET engine of the benchmark

The engine of the benchmark runner: an empty store, every event ingested in order, and
`ProcessPendingAsync` until nothing is due. The store follows the log of a policy: an event is
worth what `RuleEvaluator` makes of it, an incident suppresses the events of its asset and
category, and every action is queued.
-/
namespace SupportOps.DotNet

open Library Benchmark

/-! ## One call at a time -/

/-- The loop of `ProcessPendingAsync` over the actions it has read, from the `k`-th reading of the
clock on. -/
def processEach (options : OpsProcessingOptions) (clock : Nat → Instant) :
    Nat → List QueuedAction → ActionProcessingBatchResult → Store →
      ActionProcessingBatchResult × Store
  | _, [], result, s => (result, s)
  | k, action :: todo, result, s =>
    let attempted := attempt options action (clock k)
    processEach options clock (k + 1) todo (result.count attempted.action.status)
      (s.write [.updateAction attempted.action, .addAudit attempted.audit])

/-- `ProcessPendingAsync`, undisturbed. -/
def processPending (options : OpsProcessingOptions) (limit : Nat) (clock : Nat → Instant)
    (ties : List String) (s : Store) : ActionProcessingBatchResult × Store :=
  let actions := s.getDueActions limit (clock 0) ties
  processEach options clock 1 actions ⟨actions.length, 0, 0, 0, 0⟩ s

/-- `IngestAsync`, undisturbed. -/
def ingest (culture : Culture) (options : OpsProcessingOptions) (request : SyntheticEventRequest)
    (now : Instant) (guids : Guids) (s : Store) :
    Except IngestError (EventIngestionResult × Store) :=
  match normalize culture request now guids.event with
  | .error e => .error e
  | .ok e => ((decisionCall options e now guids).recordIngestionDecision culture s).mapError .store

section Alone

variable {ι : Type} [DecidableEq ι] (culture : Culture) (options : OpsProcessingOptions)

/-- A call whose steps nothing comes between does what `processEach` does. -/
theorem run_processEach (clock : Nat → Instant) (i : ι) (todo : List QueuedAction) :
    ∀ {k : Nat} {result : ActionProcessingBatchResult} {w : Processing ι},
      w.batches i = some ⟨.execute, todo, result⟩ →
      ∃ ls u, (processing culture options).run w ls = some u ∧ u.batches i = none ∧
        u.stored = (processEach options clock k todo result w.stored).2 ∧
        u.results = w.results ++ [(i, (processEach options clock k todo result w.stored).1)] ∧
        u.executions = w.executions ++ todo.map fun a => (i, a.id) := by
  induction todo with
  | nil =>
    intro k result w here
    refine ⟨[.advance i (clock k)],
      { w.setBatch i none with results := w.results ++ [(i, result)] }, ?_, ?_, rfl, rfl,
      (List.append_nil _).symm⟩
    · simp only [Machine.run_cons, processing, Processing.step, here, Option.bind_some,
        Machine.run_nil]
    · exact w.setBatch_self i none
  | cons action todo ih =>
    intro k result w here
    let x := attempt options action (clock k)
    let executed : Processing ι :=
      { w.setBatch i (some ⟨.update x, todo, result⟩) with
        executions := w.executions ++ [(i, action.id)] }
    let updated : Processing ι :=
      { executed.setBatch i (some ⟨.audit x, todo, result⟩) with
        stored := (Write.updateAction x.action).apply executed.stored }
    let audited : Processing ι :=
      { updated.setBatch i (some ⟨.execute, todo, result.count x.action.status⟩) with
        stored := (Write.addAudit x.audit).apply updated.stored }
    have first : (processing culture options).step w (.advance i (clock k)) = some executed := by
      simp only [processing, Processing.step, here]
      rfl
    have second : (processing culture options).step executed (.advance i (clock k)) =
        some updated := by
      have here : executed.batches i = some ⟨.update x, todo, result⟩ := w.setBatch_self ..
      simp only [processing, Processing.step, here]
      rfl
    have third : (processing culture options).step updated (.advance i (clock k)) =
        some audited := by
      have here : updated.batches i = some ⟨.audit x, todo, result⟩ := executed.setBatch_self ..
      simp only [processing, Processing.step, here]
      rfl
    obtain ⟨ls, u, rest, idle, stored, results, executions⟩ :=
      ih (k := k + 1) (w := audited) (updated.setBatch_self ..)
    refine ⟨.advance i (clock k) :: .advance i (clock k) :: .advance i (clock k) :: ls, u, ?_,
      idle, stored, results, ?_⟩
    · simp only [Machine.run_cons, first, second, third, Option.bind_some]
      exact rest
    · exact executions.trans (List.append_assoc ..)

/-- A call alone, from its read to its return: the executor runs once for each action read. -/
theorem run_processPending (limit : Nat) (clock : Nat → Instant) (ties : List String) (i : ι)
    {w : Processing ι} (idle : w.batches i = none) :
    ∃ ls u, (processing culture options).run w (.processPending i limit (clock 0) ties :: ls) =
        some u ∧ u.batches i = none ∧
      u.stored = (processPending options limit clock ties w.stored).2 ∧
      u.results = w.results ++ [(i, (processPending options limit clock ties w.stored).1)] ∧
      u.executions = w.executions ++
        (w.stored.getDueActions limit (clock 0) ties).map fun a => (i, a.id) := by
  let actions := w.stored.getDueActions limit (clock 0) ties
  let read := w.setBatch i (some ⟨.execute, actions, ⟨actions.length, 0, 0, 0, 0⟩⟩)
  have reads : (processing culture options).step w (.processPending i limit (clock 0) ties) =
      some read := by
    simp only [processing, Processing.step, idle]
    rfl
  obtain ⟨ls, u, rest, done⟩ :=
    run_processEach culture options clock i actions (k := 1) (w := read) (w.setBatch_self ..)
  refine ⟨ls, u, ?_, done⟩
  rw [Machine.run_cons, reads]
  exact rest

end Alone

/-! ## The engine -/

/-- An instant of the workload in ticks. -/
def ticks (t : Benchmark.Instant) : Instant := 10 * t

/-- What `ReadEvents` makes of a line. -/
def toRequest (e : SharedEvent) : SyntheticEventRequest where
  source := some e.source
  assetId := some e.assetId
  category := some e.category
  severity := e.severity
  message := some e.message
  executorMode := some e.executorMode.value
  occurredAt := some (ticks e.occurredAt)

/-- The options of the benchmark. -/
def benchmarkOptions : OpsProcessingOptions where
  retryDelayMilliseconds := 0
  maxActionAttempts := 3

/-- What a run takes from its surroundings: what each `IngestAsync` reads of the clock and the
`Guid`s it draws, the limit of `ProcessPendingAsync`, and what each call of it reads, equal rows in
the order of `ties`. -/
structure EngineRun where
  culture : Culture
  now : Nat → Instant
  guids : Nat → Guids
  limit : Nat
  clock : Nat → Nat → Instant
  ties : Nat → List String := fun _ => []

/-- The loop over the events, from the `i`-th on: the errors and the store. -/
def ingestEvents (run : EngineRun) : Nat → List SharedEvent → Nat × Store → Nat × Store
  | _, [], w => w
  | i, e :: events, (errors, s) =>
    match ingest run.culture benchmarkOptions (toRequest e) (run.now i) (run.guids i) s with
    | .error _ => ingestEvents run (i + 1) events (errors + 1, s)
    | .ok (_, t) => ingestEvents run (i + 1) events (errors, t)

/-- `ProcessPendingAsync` from the `j`-th call on, until a call finds nothing due; `none` if that
takes more than `rounds` calls. -/
def drain (run : EngineRun) : (rounds j : Nat) → Store → Option Store
  | 0, _, _ => none
  | rounds + 1, j, s =>
    let (batch, t) := processPending benchmarkOptions run.limit (run.clock j) (run.ties j) s
    if batch.processed = 0 then some t else drain run rounds (j + 1) t

/-- The events, and calls until nothing is due: the errors and the store. `RunOnceAsync` makes the
calls of this loop, but at most ten of them. -/
def runDotnetEngine (run : EngineRun) (rounds : Nat) (events : List SharedEvent) :
    Option (Nat × Store) :=
  let (errors, s) := ingestEvents run 0 events (0, .empty)
  (drain run rounds 0 s).map fun t => (errors, t)

/-- `GetMetricsAsync`, as far as the benchmark reports it. -/
def dotnetMetrics (s : Store) : Metrics where
  events := s.events.rows.length
  incidents := s.incidents.rows.length
  actions := s.actions.rows.length
  cooldownSuppressions := s.audits.countP fun r => r.eventType = .cooldownSuppressed
  succeededActions := s.actions.rows.countP fun a => a.status = .succeeded
  failedActions := s.actions.rows.countP fun a =>
    a.status = .failedPermanent ∨ a.status = .failedExhausted
  retryAttempts := (s.actions.rows.map fun a => if 1 < a.attempts then a.attempts - 1 else 0).sum
  permanentFailures := s.actions.rows.countP fun a => a.status = .failedPermanent

theorem dotnetMetrics_eq (s : Store) : dotnetMetrics s =
    { events := s.getMetrics.events
      incidents := s.getMetrics.incidents
      actions := s.getMetrics.actions
      cooldownSuppressions := s.getMetrics.cooldownSuppressions
      succeededActions := s.getMetrics.succeededActions
      failedActions := s.getMetrics.failedActions
      retryAttempts := s.getMetrics.retryAttempts
      permanentFailures := s.getMetrics.permanentFailures } := rfl

/-! ## Its policy -/

/-- `RuleEvaluator`, a cooldown of the asset and category, and an unlimited queue. -/
def dotnetPolicy : Policy where
  band category severity :=
    if 80 ≤ severity ∨ category = "offline" ∨ category = "critical" then some .critical
    else if 50 ≤ severity ∨ category = "degraded" ∨ category = "warning" then some .warning
    else none
  covers x e := x.assetId = e.assetId ∧ x.category = e.category
  room _ := true

/-- What a band asks for. -/
def bandDecision : Option Band → RuleDecision
  | some .critical => ⟨true, true, "collect_diagnostics"⟩
  | some .warning => ⟨true, false, "none"⟩
  | none => ⟨false, false, "none"⟩

theorem evaluate_eq_bandDecision (e : OperationEvent) :
    evaluate e = bandDecision (dotnetPolicy.band e.category e.severity) := by
  unfold evaluate dotnetPolicy
  dsimp only
  split
  · rfl
  · split <;> rfl

/-! ## The store follows the log -/

/-- The asset, the category, the time and the status of an incident. -/
def Incident.trace (i : Incident) : String × String × Instant × IncidentStatus :=
  (i.assetId, i.category, i.createdAt, i.status)

/-- The statuses and attempts an action in the mode passes through. -/
def course : ExecutorMode → List (ActionStatus × Nat)
  | .success => [(.queued, 0), (.succeeded, 1)]
  | .transientThenSuccess => [(.queued, 0), (.retry, 1), (.succeeded, 2)]
  | .permanentFailure => [(.queued, 0), (.failedPermanent, 1)]

/-- The action is in the mode, and due by `latest` if it is not finished. -/
structure OnCourse (latest : Instant) (a : QueuedAction) (m : ExecutorMode) : Prop where
  mode : a.executorMode = m.value
  stage : (a.status, a.attempts) ∈ course m
  limit : a.maxAttempts = 3
  due : a.nextAttemptAt ≤ latest

/-- The audit row of a suppressed event. -/
def AuditLogEntry.suppresses (r : AuditLogEntry) : Bool := r.eventType = .cooldownSuppressed

/-- What the store holds once the events of the log are decided. -/
structure Follows (latest : Instant) (s : Store) (log : List Entry) : Prop where
  events : s.events.rows.length = log.length
  incidents : s.incidents.rows.map Incident.trace =
    (log.filter fun x => x.decision.opens).map fun x =>
      (x.assetId, x.category, ticks x.decidedAt, .opened)
  actions : List.Forall₂ (OnCourse latest) s.actions.rows (modes log)
  suppressed : s.audits.countP AuditLogEntry.suppresses =
    log.countP fun x => x.decision = .suppressed

/-- The normalised event has what the decision reads of the shared one. -/
structure Reads (event : OperationEvent) (e : SharedEvent) : Prop where
  assetId : event.assetId = e.assetId
  category : event.category = e.category
  severity : event.severity = e.severity
  executorMode : event.executorMode = e.executorMode.value

namespace Follows

variable {latest : Instant} {s t : Store} {log : List Entry}

theorem empty (latest : Instant) : Follows latest .empty [] := ⟨rfl, rfl, .nil, rfl⟩

/-- One more event with the rows of its entry. -/
theorem append (h : Follows latest s log) {x : Entry} (new : List QueuedAction)
    (events : t.events.rows.length = s.events.rows.length + 1)
    (incidents : t.incidents.rows.map Incident.trace = s.incidents.rows.map Incident.trace ++
      if x.decision.opens then [(x.assetId, x.category, ticks x.decidedAt, .opened)] else [])
    (actions : t.actions.rows = s.actions.rows ++ new)
    (started : List.Forall₂ (OnCourse latest) new x.decision.mode?.toList)
    (suppressed : t.audits.countP AuditLogEntry.suppresses =
      s.audits.countP AuditLogEntry.suppresses + if x.decision = .suppressed then 1 else 0) :
    Follows latest t (log ++ [x]) where
  events := by rw [events, h.events, List.length_append, List.length_singleton]
  incidents := by
    rw [incidents, h.incidents, List.filter_append, List.map_append]
    cases opens : x.decision.opens <;> simp [opens]
  actions := by
    rw [actions, modes_concat]
    exact List.rel_append h.actions started
  suppressed := by
    rw [suppressed, h.suppressed, List.countP_append, List.countP_singleton]
    simp only [decide_eq_true_eq]

/-- The cooldown query finds what suppresses the event. -/
theorem recentOpenIncident (h : Follows latest s log) {event : OperationEvent} {e : SharedEvent}
    (reads : Reads event e) (now : Benchmark.Instant) (guids : Guids) :
    ((decisionCall benchmarkOptions event (ticks now) guids).recentOpenIncident s).isSome =
      log.any (dotnetPolicy.suppresses now e) := by
  have query : ((decisionCall benchmarkOptions event (ticks now) guids).recentOpenIncident
      s).isSome = (s.incidents.rows.map Incident.trace).any fun i =>
        decide (i.1 = e.assetId) && decide (i.2.1 = e.category) && decide (i.2.2.2 = .opened) &&
          decide (ticks (now - cooldown) ≤ i.2.2.1) := by
    rw [DecisionCall.recentOpenIncident, Store.getRecentOpenIncident,
      Table.isSome_select_one, List.any_map]
    refine congrArg _ (funext fun i => ?_)
    have since : ticks now - benchmarkOptions.cooldown = ticks (now - cooldown) :=
      (Int.mul_sub 10 now cooldown).symm
    simp only [Store.recentOpen, Function.comp_apply, Incident.trace, decisionCall, reads.assetId,
      reads.category, since]
    rfl
  rw [query, h.incidents, List.any_map, List.any_filter]
  refine congrArg _ (funext fun x => ?_)
  rw [Bool.eq_iff_iff]
  simp [Policy.suppresses, dotnetPolicy, ticks, and_assoc]

end Follows

/-! ## One event -/

theorem execute_of_new {s : Store} {w : Write} (new : w.violates s = false) :
    s.execute w = .ok (w.apply s) := Store.execute_eq_ok.mpr ⟨new, rfl⟩

/-- A call with three new ids returns. -/
theorem recordIngestionDecision_isOk (culture : Culture) {c : DecisionCall} {s : Store}
    (newEvent : s.events.find? c.operationEvent.id = none)
    (newIncident : s.incidents.find? c.incidentId = none)
    (newAction : s.actions.find? c.actionId = none) :
    ∃ r t, c.recordIngestionDecision culture s = .ok (r, t) := by
  have audited : ∀ (row : AuditLogEntry) (s : Store),
      s.execute (.addAudit row) = .ok ((Write.addAudit row).apply s) := fun _ _ => rfl
  have began : s.execute .beginImmediate = .ok s := rfl
  have event : s.execute (.insertEvent c.operationEvent) =
      .ok ((Write.insertEvent c.operationEvent).apply s) := execute_of_new (by
    simp [Write.violates, newEvent])
  simp only [DecisionCall.recordIngestionDecision, began, event, audited, bind, Except.bind]
  generalize starts : (Write.addAudit c.eventReceived).apply
    ((Write.insertEvent c.operationEvent).apply s) = u
  have incidents : u.incidents = s.incidents := by rw [← starts]; rfl
  have actions : u.actions = s.actions := by rw [← starts]; rfl
  unfold DecisionCall.recordedEvent
  split
  · exact ⟨_, _, rfl⟩
  · unfold DecisionCall.checkCooldown
    split
    · exact ⟨_, _, rfl⟩
    · have incident : u.execute (.createIncident c.incident) =
          .ok ((Write.createIncident c.incident).apply u) := execute_of_new (by
        simp [Write.violates, incidents, newIncident, DecisionCall.incident])
      have action : ∀ v : Store, v.actions = s.actions → v.execute (.createAction c.action) =
          .ok ((Write.createAction c.action).apply v) := fun v same => execute_of_new (by
        simp [Write.violates, same, newAction, DecisionCall.action])
      unfold DecisionCall.recordIncident DecisionCall.recordedIncident DecisionCall.recordAction
      simp only [incident, audited, bind, Except.bind]
      split
      · exact ⟨_, _, rfl⟩
      · rw [action ((Write.addAudit c.incidentCreated).apply
          ((Write.createIncident c.incident).apply u)) actions]
        exact ⟨_, _, rfl⟩

section Step

variable {culture : Culture} {latest : Instant} {s t : Store} {log : List Entry}
  {event : OperationEvent} {e : SharedEvent} {now : Benchmark.Instant} {guids : Guids}
  {r : EventIngestionResult}

theorem suppresses_concat (audits : List AuditLogEntry) (row : AuditLogEntry) :
    (audits ++ [row]).countP AuditLogEntry.suppresses =
      audits.countP AuditLogEntry.suppresses + if row.suppresses then 1 else 0 := by
  rw [List.countP_append, List.countP_singleton]

/-- The new action starts the course of the event's mode. -/
theorem onCourse_action (reads : Reads event e) (due : ticks now ≤ latest) :
    OnCourse latest (decisionCall benchmarkOptions event (ticks now) guids).action
      e.executorMode where
  mode := reads.executorMode
  stage := by cases e.executorMode <;> exact .head _
  limit := rfl
  due := due

theorem evaluate_createIncident (reads : Reads event e) : (evaluate event).createIncident =
    (dotnetPolicy.band e.category e.severity).isSome := by
  rw [evaluate_eq_bandDecision, reads.category, reads.severity]
  rcases dotnetPolicy.band e.category e.severity with _ | _ | _ <;> rfl

theorem evaluate_queueAction (reads : Reads event e) : (evaluate event).queueAction =
    decide (dotnetPolicy.band e.category e.severity = some .critical) := by
  rw [evaluate_eq_bandDecision, reads.category, reads.severity]
  rcases dotnetPolicy.band e.category e.severity with _ | _ | _ <;> rfl

/-- A decision that is recorded is the one of the policy, and the store follows its entry. -/
theorem Recorded.follows (h : Follows latest s log) (reads : Reads event e)
    (due : ticks now ≤ latest) (newEvent : s.events.find? event.id = none)
    (recorded : Recorded culture (decisionCall benchmarkOptions event (ticks now) guids) s r t) :
    Follows latest t (log ++ [dotnetPolicy.entry log e now]) := by
  have decided : ∀ {d}, dotnetPolicy.decide log e now = d →
      dotnetPolicy.entry log e now = ⟨e.assetId, e.category, now, d⟩ := congrArg _
  have recent := h.recentOpenIncident reads now guids
  have creates := evaluate_createIncident reads
  have queuesAction := evaluate_queueAction reads
  have events : (s.events.insert event).rows.length = s.events.rows.length + 1 := by
    rw [s.events.rows_insert_of_fresh newEvent, List.length_append, List.length_singleton]
  have opened : ∀ {c : DecisionCall}, c = decisionCall benchmarkOptions event (ticks now) guids →
      s.incidents.find? c.incidentId = none →
      (s.incidents.insert c.incident).rows.map Incident.trace =
        s.incidents.rows.map Incident.trace ++
          [(e.assetId, e.category, ticks now, .opened)] := by
    rintro c rfl new
    rw [rows_incident new, List.map_append, ← reads.assetId, ← reads.category]
    rfl
  cases recorded with
  | ignored worthless =>
    have none := Option.isNone_iff_eq_none.mp
      (Option.isSome_eq_false_iff.mp (creates.symm.trans worthless))
    rw [decided (Policy.decide_of_none none)]
    refine h.append [] events (List.append_nil _).symm (List.append_nil _).symm .nil ?_
    simp only [Store.write_cons, Store.write_nil, Write.apply, suppresses_concat]
    rfl
  | suppressed found worthy query =>
    obtain ⟨band, worth⟩ := Option.isSome_iff_exists.mp (creates.symm.trans worthy)
    rw [query] at recent
    rw [decided (Policy.decide_of_recent worth recent.symm)]
    refine h.append [] events (List.append_nil _).symm (List.append_nil _).symm .nil ?_
    simp only [Store.write_cons, Store.write_nil, Write.apply, suppresses_concat]
    rfl
  | incidentCreated worthy clear new noAction =>
    obtain ⟨band, worth⟩ := Option.isSome_iff_exists.mp (creates.symm.trans worthy)
    rw [clear] at recent
    have warning : band = .warning := by
      have other := queuesAction.symm.trans noAction
      rw [worth] at other
      cases band with
      | warning => rfl
      | critical => simp at other
    subst warning
    rw [decided (Policy.decide_of_clear worth recent.symm)]
    refine h.append [] events (opened rfl new) (List.append_nil _).symm .nil ?_
    simp only [Store.write_cons, Store.write_nil, Write.apply, suppresses_concat]
    rfl
  | actionQueued worthy clear new queues newAction =>
    obtain ⟨band, worth⟩ := Option.isSome_iff_exists.mp (creates.symm.trans worthy)
    rw [clear] at recent
    have critical : band = .critical := by
      have same := queuesAction.symm.trans queues
      rw [worth, decide_eq_true_eq] at same
      exact Option.some.inj same
    subst critical
    rw [decided (Policy.decide_of_clear worth recent.symm)]
    refine h.append [_] events (opened rfl new) (rows_action newAction)
      (.cons (onCourse_action reads due) .nil) ?_
    simp only [Store.write_cons, Store.write_nil, Write.apply, suppresses_concat]
    rfl

end Step

/-! ## The events of a run -/

theorem isNullOrWhiteSpace_of_trimmed {s : String} (trimmed : trim s = s) (named : s ≠ "") :
    isNullOrWhiteSpace (some s) = false := by
  rw [Bool.eq_false_iff]
  intro blank
  have spaces : s.toList.dropWhile isWhiteSpace = [] :=
    List.dropWhile_eq_nil_iff.mpr (List.all_eq_true.mp blank)
  refine named (trimmed.symm.trans ?_)
  rw [trim, spaces]
  rfl

/-- An asset id and a category that normalisation leaves alone, and a severity it does not clamp. -/
structure Plain (culture : Culture) (e : SharedEvent) : Prop where
  assetId : trim e.assetId = e.assetId
  named : e.assetId ≠ ""
  category : trim e.category = e.category
  categorised : e.category ≠ ""
  lower : culture.toLowerInvariant e.category = e.category
  severity : 0 ≤ e.severity ∧ e.severity ≤ 100

instance (culture : Culture) (e : SharedEvent) : Decidable (Plain culture e) :=
  decidable_of_iff (trim e.assetId = e.assetId ∧ e.assetId ≠ "" ∧ trim e.category = e.category ∧
      e.category ≠ "" ∧ culture.toLowerInvariant e.category = e.category ∧
      0 ≤ e.severity ∧ e.severity ≤ 100)
    ⟨fun ⟨h1, h2, h3, h4, h5, h6⟩ => ⟨h1, h2, h3, h4, h5, h6⟩,
      fun ⟨h1, h2, h3, h4, h5, h6⟩ => ⟨h1, h2, h3, h4, h5, h6⟩⟩

/-- `ToLowerInvariant` on the constants of `ExecutorModes`. -/
def Culture.KeepsModes (culture : Culture) : Prop :=
  ∀ m : ExecutorMode, culture.toLowerInvariant m.value = m.value

theorem keepsModes_asciiCulture : asciiCulture.KeepsModes := by
  intro m
  cases m <;> decide

theorem normalizeExecutorMode_value {culture : Culture} (keeps : culture.KeepsModes)
    (m : ExecutorMode) (message category : String) :
    normalizeExecutorMode culture (some m.value) message category = m.value := by
  have trimmed : trim m.value = m.value := by cases m <;> rfl
  have known : some m.value = some ExecutorModes.success ∨
      some m.value = some ExecutorModes.transientThenSuccess ∨
      some m.value = some ExecutorModes.permanentFailure := by
    cases m with
    | success => exact .inl rfl
    | transientThenSuccess => exact .inr (.inl rfl)
    | permanentFailure => exact .inr (.inr rfl)
  simp only [normalizeExecutorMode, Option.map_some, trimmed, keeps m, if_pos known,
    Option.getD_some]

theorem Plain.normalize {culture : Culture} {e : SharedEvent} (plain : Plain culture e)
    (keeps : culture.KeepsModes) (now : Instant) (guid : String) :
    ∃ event, normalize culture (toRequest e) now guid = .ok event ∧ Reads event e ∧
      event.id = newId "evt" guid := by
  have asset := isNullOrWhiteSpace_of_trimmed plain.assetId plain.named
  have category := isNullOrWhiteSpace_of_trimmed plain.category plain.categorised
  have clamped : max 0 (min e.severity 100) = e.severity := by
    have := plain.severity
    omega
  let message := trimmedOr (some e.message) "Synthetic event"
  refine ⟨⟨newId "evt" guid, trimmedOr (some e.source) "synthetic-monitor", e.assetId, e.category,
    e.severity, message, e.executorMode.value, ticks e.occurredAt, now⟩, ?_, ⟨rfl, rfl, rfl, rfl⟩,
    rfl⟩
  simp only [DotNet.normalize, toRequest, asset, category, Bool.false_eq_true, if_false,
    Option.getD_some, plain.assetId, plain.category, plain.lower, clamped,
    normalizeExecutorMode_value keeps, message]

theorem newId_injective (kind : String) : Function.Injective (newId kind) := by
  intro a b same
  have chars := congrArg String.toList same
  simp only [newId, String.toList_append, List.append_cancel_left_eq] at chars
  exact String.toList_inj.mp chars

/-- No `Guid` is drawn twice. -/
structure EngineRun.Distinct (run : EngineRun) : Prop where
  events : Function.Injective fun i => (run.guids i).event
  incidents : Function.Injective fun i => (run.guids i).incident
  actions : Function.Injective fun i => (run.guids i).action

/-- The ids of the store are those of the calls before the `i`-th. -/
structure Drawn (run : EngineRun) (i : Nat) (s : Store) : Prop where
  events : ∀ x ∈ s.events.rows, ∃ j, j < i ∧ x.id = newId "evt" (run.guids j).event
  incidents : ∀ x ∈ s.incidents.rows, ∃ j, j < i ∧ x.id = newId "inc" (run.guids j).incident
  actions : ∀ x ∈ s.actions.rows, ∃ j, j < i ∧ x.id = newId "act" (run.guids j).action

namespace Drawn

variable {run : EngineRun} {i : Nat} {s : Store}

theorem fresh_of_drawn {kind : String} {draws : Nat → String} (distinct : Function.Injective draws)
    {id : String} (drawn : ∃ j, j < i ∧ id = newId kind (draws j)) : id ≠ newId kind (draws i) := by
  obtain ⟨j, earlier, rfl⟩ := drawn
  intro same
  exact absurd (distinct (newId_injective kind same)) (Nat.ne_of_lt earlier)

theorem newEvent (h : Drawn run i s) (distinct : run.Distinct) :
    s.events.find? (newId "evt" (run.guids i).event) = none :=
  s.events.find?_eq_none_iff.mpr fun x hx => fresh_of_drawn distinct.events (h.events x hx)

theorem newIncident (h : Drawn run i s) (distinct : run.Distinct) :
    s.incidents.find? (newId "inc" (run.guids i).incident) = none :=
  s.incidents.find?_eq_none_iff.mpr fun x hx =>
    fresh_of_drawn distinct.incidents (h.incidents x hx)

theorem newAction (h : Drawn run i s) (distinct : run.Distinct) :
    s.actions.find? (newId "act" (run.guids i).action) = none :=
  s.actions.find?_eq_none_iff.mpr fun x hx => fresh_of_drawn distinct.actions (h.actions x hx)

end Drawn

/-- What a recorded decision adds has the ids of its call. -/
theorem Recorded.drawn {run : EngineRun} {options : OpsProcessingOptions} {i : Nat}
    {culture : Culture} {s t : Store} {event : OperationEvent} {now : Instant}
    {r : EventIngestionResult} (h : Drawn run i s)
    (id : event.id = newId "evt" (run.guids i).event)
    (recorded : Recorded culture (decisionCall options event now (run.guids i)) s r t) :
    Drawn run (i + 1) t := by
  have old : ∀ {kind id : String} {draws : Nat → String},
      (∃ j, j < i ∧ id = newId kind (draws j)) → ∃ j, j < i + 1 ∧ id = newId kind (draws j) := by
    rintro kind id draws ⟨j, earlier, same⟩
    exact ⟨j, Nat.lt_succ_of_lt earlier, same⟩
  have events : ∀ x ∈ (s.events.insert event).rows,
      ∃ j, j < i + 1 ∧ x.id = newId "evt" (run.guids j).event := by
    intro x hx
    rcases s.events.mem_of_mem_insert hx with before | rfl
    · exact old (h.events x before)
    · exact ⟨i, Nat.lt_succ_self i, id⟩
  have incidents : ∀ x ∈ (s.incidents.insert
      (decisionCall options event now (run.guids i)).incident).rows,
      ∃ j, j < i + 1 ∧ x.id = newId "inc" (run.guids j).incident := by
    intro x hx
    rcases s.incidents.mem_of_mem_insert hx with before | rfl
    · exact old (h.incidents x before)
    · exact ⟨i, Nat.lt_succ_self i, rfl⟩
  have actions : ∀ x ∈ (s.actions.insert
      (decisionCall options event now (run.guids i)).action).rows,
      ∃ j, j < i + 1 ∧ x.id = newId "act" (run.guids j).action := by
    intro x hx
    rcases s.actions.mem_of_mem_insert hx with before | rfl
    · exact old (h.actions x before)
    · exact ⟨i, Nat.lt_succ_self i, rfl⟩
  have keepsIncidents := fun x hx => old (h.incidents x hx)
  have keepsActions := fun x hx => old (h.actions x hx)
  cases recorded with
  | ignored worthless => exact ⟨events, keepsIncidents, keepsActions⟩
  | suppressed recent worthy found => exact ⟨events, keepsIncidents, keepsActions⟩
  | incidentCreated worthy clear new noAction => exact ⟨events, incidents, keepsActions⟩
  | actionQueued worthy clear new queues newAction => exact ⟨events, incidents, actions⟩

/-- A plain event is ingested, and the store follows its entry. -/
theorem Follows.step {run : EngineRun} {i : Nat} {latest : Instant} {s : Store}
    {log : List Entry} (h : Follows latest s log) (drawn : Drawn run i s)
    (distinct : run.Distinct) (keeps : run.culture.KeepsModes) {e : SharedEvent}
    (plain : Plain run.culture e) {now : Benchmark.Instant} (time : run.now i = ticks now)
    (due : ticks now ≤ latest) :
    ∃ r t, ingest run.culture benchmarkOptions (toRequest e) (run.now i) (run.guids i) s =
        .ok (r, t) ∧
      Follows latest t (log ++ [dotnetPolicy.entry log e now]) ∧ Drawn run (i + 1) t := by
  obtain ⟨event, normalized, reads, id⟩ :=
    plain.normalize keeps (run.now i) (run.guids i).event
  have newEvent : s.events.find? event.id = none := by
    rw [id]
    exact drawn.newEvent distinct
  obtain ⟨r, t, ok⟩ := recordIngestionDecision_isOk run.culture
    (c := decisionCall benchmarkOptions event (run.now i) (run.guids i)) newEvent
    (drawn.newIncident distinct) (drawn.newAction distinct)
  obtain ⟨-, recorded⟩ := recorded_of_recordIngestionDecision ok
  refine ⟨r, t, ?_, ?_, recorded.drawn drawn id⟩
  · simp only [ingest, normalized, ok]
    rfl
  · rw [time] at recorded
    exact recorded.follows h reads due newEvent

/-- Plain events are ingested without an error. -/
theorem ingestEvents_follows (run : EngineRun) (distinct : run.Distinct)
    (keeps : run.culture.KeepsModes) {now : Nat → Benchmark.Instant}
    (times : ∀ i, run.now i = ticks (now i)) {latest : Instant} (events : List SharedEvent)
    (plain : ∀ e ∈ events, Plain run.culture e) :
    ∀ (i errors : Nat) {s : Store} {log : List Entry},
      (∀ j, j < events.length → ticks (now (i + j)) ≤ latest) → Follows latest s log →
      Drawn run i s → ∃ t, ingestEvents run i events (errors, s) = (errors, t) ∧
        Follows latest t (dotnetPolicy.extend log (timed now i events)) := by
  induction events with
  | nil => intro i errors s log _ h _; exact ⟨s, rfl, h⟩
  | cons e events ih =>
    intro i errors s log due h drawn
    obtain ⟨r, u, ok, next, later⟩ := h.step drawn distinct keeps (plain e (.head _)) (times i)
      (due 0 (Nat.succ_pos _))
    obtain ⟨t, rest, follows⟩ := ih (fun x hx => plain x (.tail _ hx)) (i + 1) errors
      (fun j hj => by
        have := due (j + 1) (Nat.succ_lt_succ hj)
        rwa [← Nat.add_assoc, Nat.add_right_comm] at this) next later
    refine ⟨t, ?_, follows⟩
    simp only [ingestEvents, ok]
    exact rest

end SupportOps.DotNet
