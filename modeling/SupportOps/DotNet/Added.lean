import SupportOps.DotNet.LimitedDrain

/-!
# What a call adds

`RecordIngestionDecisionAsync` as one decision: the rows that a call adds to the store, what it
answers, and the counters that the store comes to, under every cooldown and every limit of attempts
that leaves room for a retry.
-/
namespace SupportOps.DotNet

open Library Benchmark

/-- The decision on an event, given whether the cooldown query finds an incident. -/
def decisionOn (e : SharedEvent) (recent : Bool) : Benchmark.Decision :=
  match dotnetPolicy.band e.category e.severity with
  | none => .ignored
  | some band => if recent then .suppressed else band.outcome e.executorMode true

section Decision

variable {e : SharedEvent} (recent : Bool)

theorem decisionOn_of_none (worth : dotnetPolicy.band e.category e.severity = none) :
    decisionOn e recent = .ignored := by
  rw [decisionOn, worth]

theorem decisionOn_of_some {band : Band}
    (worth : dotnetPolicy.band e.category e.severity = some band) :
    decisionOn e recent = if recent then .suppressed else band.outcome e.executorMode true := by
  rw [decisionOn, worth]

end Decision

/-- What a call with the decision adds and answers. -/
structure Added (s t : Store) (e : SharedEvent) (now : Instant) (decision : Benchmark.Decision)
    (r : EventIngestionResult) (incidents : List Incident) (actions : List QueuedAction) :
    Prop where
  events : t.events.rows.length = s.events.rows.length + 1
  addedIncidents : t.incidents.rows = s.incidents.rows ++ incidents
  addedActions : t.actions.rows = s.actions.rows ++ actions
  opened : incidents.map (fun i => (i.assetId, i.category, i.createdAt)) =
    if decision.opens then [(e.assetId, e.category, now)] else []
  stages : actions.map QueuedAction.conclusion = decision.mode?.toList.map finishedStage
  queued : ∀ a ∈ actions, a.status = .queued ∧ a.attempts = 0 ∧ a.nextAttemptAt = now
  suppressions : t.audits.countP AuditLogEntry.suppresses =
    s.audits.countP AuditLogEntry.suppresses + if decision = .suppressed then 1 else 0
  incidentId : (r.incidentId.isSome && !r.suppressed) = decision.opens
  actionId : r.actionId.isSome = decision.mode?.isSome
  suppressed : r.suppressed = decide (decision = .suppressed)

/-- The query finds an incident exactly when one is cooling. -/
theorem isSome_recentOpenIncident_iff {c : DecisionCall} {s : Store} :
    (c.recentOpenIncident s).isSome = true ↔ ∃ i ∈ s.incidents.rows, Cooling c i := by
  rw [DecisionCall.recentOpenIncident, Store.getRecentOpenIncident, Table.isSome_select_one,
    List.any_eq_true]
  simp only [recentOpen_iff]

section Call

variable {culture : Culture} {options : OpsProcessingOptions} {s t : Store}
  {event : OperationEvent} {e : SharedEvent} {now : Instant} {guids : Guids}
  {r : EventIngestionResult}

/-- The action of a call ends where the mode of its event leads. -/
theorem conclusion_action (attempts : 2 ≤ options.maxActionAttempts) (reads : Reads event e) :
    (decisionCall options event now guids).action.conclusion = finishedStage e.executorMode := by
  have mode : (decisionCall options event now guids).action.executorMode =
      e.executorMode.value := reads.executorMode
  have limit : ¬ (decisionCall options event now guids).action.maxAttempts < 2 :=
    Int.not_lt.mpr attempts
  rw [QueuedAction.conclusion, mode, if_neg limit]
  cases e.executorMode <;> decide

/-- What a recorded call adds. -/
theorem Recorded.added (attempts : 2 ≤ options.maxActionAttempts) (reads : Reads event e)
    (newEvent : s.events.find? event.id = none)
    (recorded : Recorded culture (decisionCall options event now guids) s r t) :
    ∃ incidents actions, Added s t e now
      (decisionOn e ((decisionCall options event now guids).recentOpenIncident s).isSome)
      r incidents actions := by
  have creates := evaluate_createIncident reads
  have queuesAction := evaluate_queueAction reads
  have events : (s.events.insert event).rows.length = s.events.rows.length + 1 := by
    rw [s.events.rows_insert_of_fresh newEvent, List.length_append, List.length_singleton]
  have opened : ∀ {c : DecisionCall}, c = decisionCall options event now guids →
      [c.incident].map (fun i => (i.assetId, i.category, i.createdAt)) =
        [(e.assetId, e.category, now)] := by
    rintro c rfl
    exact congrArg₂ (fun a b => [(a, b, now)]) reads.assetId reads.category
  cases recorded with
  | ignored worthless =>
    have none := Option.isNone_iff_eq_none.mp
      (Option.isSome_eq_false_iff.mp (creates.symm.trans worthless))
    rw [decisionOn_of_none _ none]
    refine ⟨[], [], events, (List.append_nil _).symm, (List.append_nil _).symm, rfl, rfl,
      fun a ha => (by cases ha), ?_, rfl, rfl, rfl⟩
    simp only [Store.write_cons, Store.write_nil, Write.apply, suppresses_concat]
    rfl
  | suppressed recent worthy found =>
    obtain ⟨band, worth⟩ := Option.isSome_iff_exists.mp (creates.symm.trans worthy)
    rw [decisionOn_of_some _ worth, found]
    refine ⟨[], [], events, (List.append_nil _).symm, (List.append_nil _).symm, rfl, rfl,
      fun a ha => (by cases ha), ?_, rfl, rfl, rfl⟩
    simp only [Store.write_cons, Store.write_nil, Write.apply, suppresses_concat]
    rfl
  | incidentCreated worthy clear new noAction =>
    obtain ⟨band, worth⟩ := Option.isSome_iff_exists.mp (creates.symm.trans worthy)
    have warning : band = .warning := by
      have other := queuesAction.symm.trans noAction
      rw [worth] at other
      cases band with
      | warning => rfl
      | critical => simp at other
    subst warning
    rw [decisionOn_of_some _ worth, clear]
    refine ⟨[_], [], events, rows_incident new, (List.append_nil _).symm, opened rfl, rfl,
      fun a ha => (by cases ha), ?_, rfl, rfl, rfl⟩
    simp only [Store.write_cons, Store.write_nil, Write.apply, suppresses_concat]
    rfl
  | actionQueued worthy clear new queues newAction =>
    obtain ⟨band, worth⟩ := Option.isSome_iff_exists.mp (creates.symm.trans worthy)
    have critical : band = .critical := by
      have same := queuesAction.symm.trans queues
      rw [worth, decide_eq_true_eq] at same
      exact Option.some.inj same
    subst critical
    rw [decisionOn_of_some _ worth, clear]
    refine ⟨[_], [_], events, rows_incident new, rows_action newAction, opened rfl,
      congrArg (fun c => [c]) (conclusion_action attempts reads), fun a ha => ?_, ?_, rfl, rfl, rfl⟩
    · obtain rfl := List.mem_singleton.mp ha
      exact ⟨rfl, rfl, rfl⟩
    · simp only [Store.write_cons, Store.write_nil, Write.apply, suppresses_concat]
      rfl

end Call

/-! ## The counters to come -/

/-- What the action of a decision adds to the counters once it is finished. -/
theorem stages_decision (d : Benchmark.Decision) {stages : List (ActionStatus × Nat)}
    (same : stages = d.mode?.toList.map finishedStage) :
    stages.length = (if d.mode?.isSome then 1 else 0) ∧
    (stages.countP fun p => p.1 = .succeeded) =
      (if d = .action .success ∨ d = .action .transientThenSuccess then 1 else 0) ∧
    (stages.countP fun p => p.1 = .failedPermanent ∨ p.1 = .failedExhausted) =
      (if d = .action .permanentFailure then 1 else 0) ∧
    (stages.map fun p => if 1 < p.2 then p.2 - 1 else 0).sum =
      (if d = .action .transientThenSuccess then 1 else 0) ∧
    (stages.countP fun p => p.1 = .failedPermanent) =
      (if d = .action .permanentFailure then 1 else 0) := by
  subst same
  cases d with
  | action mode => cases mode <;> decide
  | _ => decide

theorem add_ite_one (P : Prop) [Decidable P] (n : Nat) :
    (n + if P then 1 else 0) = if P then n + 1 else n := by
  split <;> rfl

theorem Added.eventually {s t : Store} {e : SharedEvent} {now : Instant}
    {decision : Benchmark.Decision} {r : EventIngestionResult} {incidents : List Incident}
    {actions : List QueuedAction} (h : Added s t e now decision r incidents actions) :
    t.eventually = s.eventually.after decision := by
  have opens : incidents.length = if decision.opens then 1 else 0 := by
    have lengths := congrArg List.length h.opened
    rw [List.length_map] at lengths
    rw [lengths]
    split <;> rfl
  obtain ⟨length, succeeded, failed, retries, permanent⟩ := stages_decision decision h.stages
  simp only [List.countP_map, List.map_map, List.length_map, Function.comp_def]
    at length succeeded failed retries permanent
  simp only [Store.eventually, Metrics.after, h.events, h.addedIncidents, h.addedActions,
    h.suppressions, List.length_append, List.countP_append, List.map_append, List.sum_append, opens,
    length, succeeded, failed, retries, permanent, add_ite_one]

end SupportOps.DotNet
