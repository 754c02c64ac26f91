import SupportOps.DotNet.Transactions

/-!
# The transactional cooldown

Cooldown query and insertion stand in one transaction, so every incident of an asset and a
category is created later than the one committed before it, by more than the cooldown, whatever
the order in which the calls have read the clock. The tables account for every completed call.
-/
namespace SupportOps.DotNet

open Library

/-! ## The property at stake -/

/-- Of one asset and one category, the second incident is later by more than the cooldown. -/
def Later (cooldown : Int) (x y : Incident) : Prop :=
  x.assetId = y.assetId → x.category = y.category → x.createdAt + cooldown < y.createdAt

section Property

variable {ι : Type}

/-- Completed calls answered with the decision. -/
def answers (log : List (ι × Answer)) (decision : Decision) : Nat :=
  log.countP fun e => e.2.result.decision = decision

/-- Incidents lie apart in the order of their commits, and the tables count the answers. -/
structure Tallied (cooldown : Int) (s : Store) (log : List (ι × Answer)) : Prop where
  apart : s.incidents.rows.Pairwise (Later cooldown)
  events : s.events.rows.length = log.length
  incidents : s.incidents.rows.length = answers log .incidentCreated + answers log .actionQueued
  actions : s.actions.rows.length = answers log .actionQueued
  suppressions : s.audits.countP (fun a => a.eventType = .cooldownSuppressed) =
    answers log .cooldownSuppressed

/-- An open incident that the call's cooldown query may find. -/
def Cooling (c : DecisionCall) (i : Incident) : Prop :=
  i.assetId = c.operationEvent.assetId ∧ i.category = c.operationEvent.category ∧
    i.status = .opened ∧ c.now - c.cooldown ≤ i.createdAt

/-- What a completed call has done to the store. -/
structure Effected (s t : Store) (a : Answer) : Prop where
  event : t.events.rows = s.events.rows ++ [a.call.operationEvent]
  audits : s.audits <+: t.audits
  ignored : (evaluate a.call.operationEvent).createIncident = false →
    a.result.decision = .ignored ∧ t.incidents = s.incidents ∧ t.actions = s.actions
  /-- The newest incident in the window is named, and only event and audit rows are new. -/
  suppressed : a.result.decision = .cooldownSuppressed →
    t.incidents = s.incidents ∧ t.actions = s.actions ∧
      ∃ recent ∈ s.incidents.rows, a.result.incidentId = some recent.id ∧
        Cooling a.call recent ∧
          ∀ i ∈ s.incidents.rows, Cooling a.call i → i.createdAt ≤ recent.createdAt
  /-- One incident is new, and one action if the rule queues one. -/
  opened : (evaluate a.call.operationEvent).createIncident = true →
    a.result.decision ≠ .cooldownSuppressed →
    t.incidents.rows = s.incidents.rows ++ [a.call.incident] ∧
      a.result.incidentId = some a.call.incidentId ∧
      if (evaluate a.call.operationEvent).queueAction then
        a.result.decision = .actionQueued ∧ a.result.actionId = some a.call.actionId ∧
          t.actions.rows = s.actions.rows ++ [a.call.action]
      else a.result.decision = .incidentCreated ∧ t.actions = s.actions

/-- A step completes one call, or leaves store and answers as they are. -/
def StepEffect (w u : World ι Store Write Unit IngestProgram Answer) : Prop :=
  (u.stored = w.stored ∧ u.log = w.log) ∨
  ∃ i a, u.log = w.log ++ [(i, a)] ∧ Effected w.stored u.stored a

theorem answers_concat (log : List (ι × Answer)) (i : ι) (a : Answer) (decision : Decision) :
    answers (log ++ [(i, a)]) decision =
      answers log decision + if a.result.decision = decision then 1 else 0 := by
  simp [answers, List.countP_append, List.countP_singleton]

end Property

/-! ## The cooldown query -/

instance : Std.Total Store.newer := ⟨fun i j => Int.le_total j.createdAt i.createdAt⟩

instance : IsTrans Incident Store.newer := ⟨fun _ _ _ h h' => Int.le_trans h' h⟩

theorem recentOpen_iff {c : DecisionCall} {i : Incident} :
    Store.recentOpen c.operationEvent.assetId c.operationEvent.category (c.now - c.cooldown) i =
      true ↔ Cooling c i := by
  simp only [Store.recentOpen, Bool.and_eq_true, decide_eq_true_eq, Cooling, and_assoc]

/-- What the query finds is the newest incident in the window. -/
theorem newest_of_found {s : Store} {c : DecisionCall} {recent : Incident}
    (found : c.recentOpenIncident s = some recent) :
    recent ∈ s.incidents.rows ∧ Cooling c recent ∧
      ∀ i ∈ s.incidents.rows, Cooling c i → i.createdAt ≤ recent.createdAt := by
  obtain ⟨mem, cooling⟩ := s.incidents.mem_of_mem_select (List.mem_of_mem_head? found)
  exact ⟨mem, recentOpen_iff.mp cooling, fun i hi inside =>
    (s.incidents.le_of_select_one found hi (recentOpen_iff.mpr inside)).1⟩

/-- Where it finds nothing, every incident of the asset and the category is older. -/
theorem later_of_clear {s : Store} {c : DecisionCall} (clear : c.recentOpenIncident s = none)
    {x : Incident} (hx : x ∈ s.incidents.rows) : Later c.cooldown x c.incident := by
  intro asset category
  by_contra recent
  have cooling : Cooling c x := by
    refine ⟨asset, category, ?_, Int.sub_right_le_of_le_add (Int.not_lt.mp recent)⟩
    cases x.status
    rfl
  have unselected := s.incidents.select_one_eq_none.mp clear x hx
  rw [recentOpen_iff.mpr cooling] at unselected
  cases unselected

/-- Audit rows are only added. -/
theorem audits_write (s : Store) (ws : List Write) : s.audits <+: (s.write ws).audits := by
  induction ws generalizing s with
  | nil => exact List.prefix_rfl
  | cons w ws ih =>
    refine .trans ?_ (ih (w.apply s))
    cases w with
    | addAudit row => exact List.prefix_append ..
    | _ => exact List.prefix_rfl

/-! ## One call -/

section Call

variable {ι : Type} {culture : Culture} {c : DecisionCall} {s t : Store} {r : EventIngestionResult}

theorem rows_incident (new : s.incidents.find? c.incidentId = none) :
    (s.incidents.insert c.incident).rows = s.incidents.rows ++ [c.incident] :=
  s.incidents.rows_insert_of_fresh new

theorem rows_action (new : s.actions.find? c.actionId = none) :
    (s.actions.insert c.action).rows = s.actions.rows ++ [c.action] :=
  s.actions.rows_insert_of_fresh new

/-- The new incident is later than every committed one of its asset and category. -/
theorem apart_insert {cooldown : Int} (apart : s.incidents.rows.Pairwise (Later cooldown))
    (same : c.cooldown = cooldown) (clear : c.recentOpenIncident s = none)
    (new : s.incidents.find? c.incidentId = none) :
    (s.incidents.insert c.incident).rows.Pairwise (Later cooldown) := by
  rw [rows_incident new]
  refine List.pairwise_append.mpr ⟨apart, List.pairwise_singleton .., fun x hx y hy => ?_⟩
  obtain rfl := List.mem_singleton.mp hy
  rw [← same]
  exact later_of_clear clear hx

theorem Tallied.empty (cooldown : Int) : Tallied cooldown .empty ([] : List (ι × Answer)) :=
  ⟨.nil, rfl, rfl, rfl, rfl⟩

/-- Every call keeps the tally. -/
theorem Tallied.call {cooldown : Int} {log : List (ι × Answer)} (h : Tallied cooldown s log)
    (i : ι) (same : c.cooldown = cooldown) (newEvent : s.events.find? c.operationEvent.id = none)
    (recorded : Recorded culture c s r t) : Tallied cooldown t (log ++ [(i, ⟨c, r⟩)]) := by
  have event : (s.events.insert c.operationEvent).rows.length =
      (log ++ [(i, (⟨c, r⟩ : Answer))]).length := by
    rw [s.events.rows_insert_of_fresh newEvent, List.length_append, List.length_append, h.events]
    rfl
  cases recorded with
  | ignored worthless =>
    refine ⟨h.apart, event, ?_, ?_, ?_⟩
    · simp [answers_concat, DecisionCall.result, Write.apply, h.incidents]
    · simp [answers_concat, DecisionCall.result, Write.apply, h.actions]
    · simp [answers_concat, DecisionCall.result, Write.apply, h.suppressions,
        DecisionCall.eventReceived, DecisionCall.normalEventRecorded]
  | suppressed recent worthy found =>
    refine ⟨h.apart, event, ?_, ?_, ?_⟩
    · simp [answers_concat, DecisionCall.result, Write.apply, h.incidents]
    · simp [answers_concat, DecisionCall.result, Write.apply, h.actions]
    · simp [answers_concat, DecisionCall.result, Write.apply, h.suppressions,
        DecisionCall.eventReceived, DecisionCall.cooldownSuppressed]
  | incidentCreated worthy clear new noAction =>
    refine ⟨apart_insert h.apart same clear new, event, ?_, ?_, ?_⟩
    · simp [answers_concat, DecisionCall.result, Write.apply, rows_incident new, h.incidents]
      omega
    · simp [answers_concat, DecisionCall.result, Write.apply, h.actions]
    · simp [answers_concat, DecisionCall.result, Write.apply, h.suppressions,
        DecisionCall.eventReceived, DecisionCall.incidentCreated]
  | actionQueued worthy clear new queues newAction =>
    refine ⟨apart_insert h.apart same clear new, event, ?_, ?_, ?_⟩
    · simp [answers_concat, DecisionCall.result, Write.apply, rows_incident new, h.incidents]
      omega
    · simp [answers_concat, DecisionCall.result, Write.apply, rows_action newAction, h.actions]
    · simp [answers_concat, DecisionCall.result, Write.apply, h.suppressions,
        DecisionCall.eventReceived, DecisionCall.incidentCreated, DecisionCall.actionQueued]

/-- Every call does to the store what its answer says. -/
theorem effected_of_recorded {options : OpsProcessingOptions} {e : OperationEvent} {now : Instant}
    {guids : Guids} (call : c = decisionCall options e now guids)
    (newEvent : s.events.find? c.operationEvent.id = none) (recorded : Recorded culture c s r t) :
    Effected s t ⟨c, r⟩ := by
  have event := s.events.rows_insert_of_fresh newEvent
  have worth : c.createIncident = (evaluate c.operationEvent).createIncident := by rw [call]; rfl
  have queue : c.queueAction = (evaluate c.operationEvent).queueAction := by rw [call]; rfl
  have verdict : c.createIncident = true → (evaluate c.operationEvent).createIncident ≠ false := by
    intro worthy
    rw [← worth, worthy]
    decide
  cases recorded with
  | ignored worthless =>
    refine ⟨event, audits_write _ _, fun _ => ⟨rfl, rfl, rfl⟩, fun no => (by cases no),
      fun worthy => ?_⟩
    rw [← worth, worthless] at worthy
    cases worthy
  | suppressed recent worthy found =>
    obtain ⟨mem, cooling, newest⟩ := newest_of_found found
    exact ⟨event, audits_write _ _, fun worthless => absurd worthless (verdict worthy),
      fun _ => ⟨rfl, rfl, recent, mem, rfl, cooling, newest⟩, fun _ other => absurd rfl other⟩
  | incidentCreated worthy clear new noAction =>
    refine ⟨event, audits_write _ _, fun worthless => absurd worthless (verdict worthy),
      fun no => (by cases no), fun _ _ => ⟨rows_incident new, rfl, ?_⟩⟩
    rw [← queue, noAction]
    exact ⟨rfl, rfl⟩
  | actionQueued worthy clear new queues newAction =>
    refine ⟨event, audits_write _ _, fun worthless => absurd worthless (verdict worthy),
      fun no => (by cases no), fun _ _ => ⟨rows_incident new, rfl, ?_⟩⟩
    rw [← queue, queues]
    exact ⟨rfl, rfl, rows_action newAction⟩

end Call

/-! ## Every interleaving -/

section Interleavings

variable {ι : Type} [DecidableEq ι] (culture : Culture) (options : OpsProcessingOptions)

/-- The sequential call behind an answer. -/
theorem recorded_of_call {p : IngestProgram} {s t : Store} {a : Answer}
    (h : (serial culture options).call p s = .ok (a, t)) :
    ∃ r, a = ⟨p.call options, r⟩ ∧ s.events.find? (p.call options).operationEvent.id = none ∧
      Recorded culture (p.call options) s r t := by
  change answered options p ((p.call options).recordIngestionDecision culture s) = _ at h
  cases outcome : (p.call options).recordIngestionDecision culture s with
  | error e => rw [outcome] at h; cases h
  | ok rt =>
    obtain ⟨r, t'⟩ := rt
    rw [outcome] at h
    cases h
    exact ⟨r, rfl, recorded_of_recordIngestionDecision outcome⟩

/-- In every interleaving of calls, from empty tables, with one cooldown: incidents of one asset
and category are committed in the order of their times and apart, the tables account for the
answers, and every step does what its answer says. -/
theorem tallied_and_stepEffect (ls : List (ι × IngestStep))
    (w : World ι Store Write Unit IngestProgram Answer)
    (run : (ingestion culture options).machine.run (Client.initial .empty) ls = some w) :
    Tallied options.cooldown w.stored w.log ∧
      ∀ il u, (ingestion culture options).machine.step w il = some u → StepEffect w u := by
  refine ⟨?_, ?_⟩
  · refine (serial culture options).call_invariant (I := Tallied options.cooldown)
      (fun s log i p e t tallied call => ?_) (Tallied.empty _) run
    obtain ⟨r, rfl, newEvent, recorded⟩ := recorded_of_call culture options call
    exact tallied.call i rfl newEvent recorded
  · intro il u step
    rcases (serial culture options).step_cases run step with silent | ⟨p, a, call, log⟩
    · exact .inl silent
    · obtain ⟨r, rfl, newEvent, recorded⟩ := recorded_of_call culture options call
      exact .inr ⟨il.1, _, log, effected_of_recorded rfl newEvent recorded⟩

end Interleavings

/-! ## Two calls that commit against the order of their clock readings -/

def criticalEvent : SyntheticEventRequest where
  source := some "synthetic-test"
  assetId := some "asset-001"
  category := some "offline"
  severity := 92
  message := some "Synthetic outage"

/-- The second call has read the clock ten seconds before the first. -/
def outOfOrder : List (Bool × IngestStep) :=
  [(true, .ingest criticalEvent 0 ⟨"1", "1", "1", []⟩),
    (false, .ingest criticalEvent (fromSeconds 10) ⟨"2", "2", "2", []⟩)] ++
  List.replicate 9 (false, .statement) ++ List.replicate 6 (true, .statement)

theorem tallied_outOfOrder : ∃ w : World Bool Store Write Unit IngestProgram Answer,
    (ingestion asciiCulture {}).machine.run (Client.initial .empty) outOfOrder = some w ∧
    w.log.map (fun e => (e.2.result.decision, e.2.result.incidentId)) =
      [(.actionQueued, some "inc_2"), (.cooldownSuppressed, some "inc_2")] ∧
    Tallied (fromSeconds 300) w.stored w.log ∧
    ∀ il u, (ingestion asciiCulture {}).machine.step w il = some u → StepEffect w u := by
  refine ⟨_, rfl, by decide, ?_⟩
  exact tallied_and_stepEffect asciiCulture {} outOfOrder _ rfl

end SupportOps.DotNet
