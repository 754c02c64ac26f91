import SupportOps.Library.Runs
import SupportOps.Python.Processor
import SupportOps.Python.Actions
import SupportOps.Python.Jobs
import SupportOps.Python.Seed

/-!
# The limit of the action queue

Whole runs of the operations that write the actions table, one at a time and each committed.
Events respect `max_queue_backlog` and passes never add to the queue; the health sweep adds
its follow-ups without looking at the limit.
-/
namespace SupportOps.Python

open Library

/-- One operation, with everything it takes from outside. -/
inductive Operation where
  | process (env : Surroundings) (payload : EventCreate)
  | processDueActions (args : PassArgs) (transport : Transport)
  | healthSweep (now : Instant) (staleMinutes : Int)
  | reset

def Operation.apply (settings : Settings) : Operation → Store → Store
  | .process env payload, s => processed settings env payload.toEventBody s
  | .processDueActions args transport, s => runOnce args transport s
  | .healthSweep now staleMinutes, s => (runHealthSweep now staleMinutes s).2
  | .reset, s => resetWorkload s

def operations (settings : Settings) : Machine Store Operation :=
  ⟨fun s o => some (o.apply settings s)⟩

/-- The backlog leaves room for every follow-up of a sweep. -/
def SweepFits (settings : Settings) (s : Store) : Operation → Prop
  | .healthSweep now staleMinutes =>
    s.queueBacklog + (staleIncidents now staleMinutes s).length ≤ settings.maxQueueBacklog
  | _ => True

instance (settings : Settings) (s : Store) (o : Operation) : Decidable (SweepFits settings s o) :=
  by cases o <;> unfold SweepFits <;> exact inferInstance

/-! ## What each operation does to the backlog -/

section Process

variable {settings : Settings} {env : Surroundings} {p : EventBody} {s t : Store}

/-- A new event adds to the queue only below the limit. -/
theorem NewCase.queueBacklog_le {o : Processed} (h : NewCase settings env p s o t) :
    t.queueBacklog ≤ max s.queueBacklog settings.maxQueueBacklog := by
  have kept : ∀ asset, (s.recorded env p asset).queueBacklog = s.queueBacklog := fun asset => by
    unfold Store.queueBacklog; rw [recorded_actions]
  cases h with
  | unmatched asset known none => exact (kept asset).le.trans (le_max_left _ _)
  | suppressed asset rule known matched recent => exact (kept asset).le.trans (le_max_left _ _)
  | incidentOnly asset rule opens noAction => exact (kept asset).le.trans (le_max_left _ _)
  | rejected asset rule opens action full => exact (kept asset).le.trans (le_max_left _ _)
  | queued asset rule opens action room =>
    have rows := rows_insert_action_nextId (s.recorded env p asset)
      (p.actionFor env s asset rule) (by rw [recorded_actions]; rfl)
    change List.countP _ (((s.recorded env p asset).write [.insertAction _]).actions.rows) ≤ _
    rw [rows, List.countP_append, recorded_actions]
    change s.queueBacklog + _ ≤ _
    have : List.countP (fun a : Action => a.state = .queued ∨ a.state = .retry)
        [p.actionFor env s asset rule] ≤ 1 := List.countP_le_length
    omega

theorem queueBacklog_processed_le :
    (processed settings env p s).queueBacklog ≤ max s.queueBacklog settings.maxQueueBacklog := by
  unfold processed
  split
  · next r t ok =>
    cases processCase_of_process ok with
    | unkeyed _ new => exact new.queueBacklog_le
    | owned _ _ new => exact new.queueBacklog_le
    | replayed _ _ _ => exact le_max_left _ _
  · exact le_max_left _ _

end Process

/-- An attempt is made on a row of the queue, so it adds nothing to the queue. -/
theorem queueBacklog_attempted_le {s : Store} {args : PassArgs} {a : Action}
    (current : s.actions.find? a.id = some a) (unfinished : a.finished = false)
    (succeeded : Bool) (detail : String) :
    (s.attempted args a (a.outcome args succeeded detail)).queueBacklog ≤ s.queueBacklog := by
  unfold Store.queueBacklog
  rw [Store.rows_attempted args current, List.countP_map]
  refine List.countP_mono_left fun r hr queued => ?_
  by_cases same : r.id = a.id
  · obtain rfl : r = a := s.actions.eq_of_key_eq hr (s.actions.mem_of_find? current) same
    cases state : r.state <;> simp_all [Action.finished]
  · simpa [same] using queued

theorem queueBacklog_runOnce_le (args : PassArgs) (transport : Transport) (s : Store) :
    (runOnce args transport s).queueBacklog ≤ s.queueBacklog :=
  runOnce_invariant (I := fun t => t.queueBacklog ≤ s.queueBacklog)
    (fun _ _ succeeded detail le current unfinished _ =>
      (queueBacklog_attempted_le current unfinished succeeded detail).trans le) le_rfl

/-- One operation keeps the limit, unless it is a sweep for which there is no room. -/
theorem apply_bounded_iff (settings : Settings) (s : Store) (o : Operation)
    (bounded : s.queueBacklog ≤ settings.maxQueueBacklog) :
    (o.apply settings s).queueBacklog ≤ settings.maxQueueBacklog ↔ SweepFits settings s o := by
  cases o with
  | process env payload =>
    exact iff_of_true (queueBacklog_processed_le.trans (max_le bounded le_rfl)) trivial
  | processDueActions args transport =>
    exact iff_of_true ((queueBacklog_runOnce_le args transport s).trans bounded) trivial
  | healthSweep now staleMinutes =>
    simp only [Operation.apply, SweepFits, queueBacklog_runHealthSweep]
  | reset => exact iff_of_true (Nat.zero_le _) trivial

/-- The queue stays within its limit throughout a run exactly when the backlog leaves room for
the follow-ups of every sweep. -/
theorem backlog_bounded_iff_sweeps_fit (settings : Settings) (assets : Table Asset)
    (rules : Table AutomationRule) (os : List Operation) :
    (operations settings).Throughout (fun s => s.queueBacklog ≤ settings.maxQueueBacklog)
        (Store.seeded assets rules) os ↔
      (operations settings).Along (SweepFits settings) (Store.seeded assets rules) os := by
  have exact_step : ∀ s o t, s.queueBacklog ≤ settings.maxQueueBacklog →
      (operations settings).step s o = some t →
      (t.queueBacklog ≤ settings.maxQueueBacklog ↔ SweepFits settings s o) := by
    intro s o t bounded step
    cases step
    exact apply_bounded_iff settings s o bounded
  exact (operations settings).throughout_iff_along exact_step (fun _ _ => rfl) (Nat.zero_le _) os

/-- The queue holds one action, its limit; the sweep adds the follow-up of the incident. -/
theorem backlog_exceeded_demo : ∃ t : Store,
    (operations ⟨1⟩).run demo
      [.process ⟨0, "0"⟩ pumpOffline, .healthSweep (minutes 30) 30] = some t ∧
    t.queueBacklog = 2 :=
  ⟨_, rfl, by decide⟩

end SupportOps.Python
