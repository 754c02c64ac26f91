import SupportOps.Python.Backlog
import SupportOps.Python.Service

/-!
# The follow-ups of the health sweep

Runs of the operations in any order, with the actions that the sweeps among them created. A
sweep asks only for the age and the state of an incident, so an incident that stays open gets
a follow-up from every sweep, whatever became of the earlier ones.
-/
namespace SupportOps.Python

open Library

/-- A follow-up of the incident, among those with the given ids, that is queued or in retry. -/
def Action.PendingFor (a : Action) (ks : List Nat) (incident : Nat) : Prop :=
  a.id ∈ ks ∧ a.incidentId = incident ∧ (a.state = .queued ∨ a.state = .retry)

instance (a : Action) (ks : List Nat) (incident : Nat) : Decidable (a.PendingFor ks incident) := by
  unfold Action.PendingFor; exact inferInstance

/-- A store, and the ids of the actions in it that sweeps created. -/
structure Sweeping where
  store : Store
  followUps : List Nat
  stored : ∀ k ∈ followUps, k ∈ store.actions.rows.map Action.id

namespace Sweeping

/-- No sweep has run yet. -/
def start (s : Store) : Sweeping := ⟨s, [], fun _ h => by cases h⟩

/-- Follow-ups of an incident that a sweep created and that are still queued or in retry. -/
def pending (w : Sweeping) (incident : Nat) : Nat :=
  w.store.actions.rows.countP fun a => a.PendingFor w.followUps incident

end Sweeping

/-- The follow-ups after an operation: the actions that are new after a sweep join them. -/
def Operation.followUps (settings : Settings) (s : Store) (ks : List Nat) :
    Operation → List Nat
  | .healthSweep now staleMinutes => ks ++ (newActions s
      ((Operation.healthSweep now staleMinutes).apply settings s)).map Action.id
  | .reset => []
  | _ => ks

/-! ## What each operation does to the actions -/

section Rows

variable (settings : Settings) (s : Store)

theorem rows_actions_processed (env : Surroundings) (p : EventBody) :
    ∃ as, (processed settings env p s).actions.rows = s.actions.rows ++ as := by
  unfold processed
  split
  · next r t ok =>
    cases processCase_of_process ok with
    | unkeyed unkeyed new => exact ⟨_, new.rows_actions⟩
    | owned keyed vacant new => exact ⟨_, new.rows_actions⟩
    | replayed keyed completed found => exact ⟨[], (List.append_nil _).symm⟩
  · exact ⟨[], (List.append_nil _).symm⟩

/-- The loop queues one action for each incident. -/
theorem rows_addFollowUps (now : Instant) (staleMinutes : Int) (stale : List Incident) (s : Store) :
    ∃ as : List Action,
      (addFollowUps now staleMinutes stale s).actions.rows = s.actions.rows ++ as ∧
      as.map Action.incidentId = stale.map Incident.id ∧ ∀ a ∈ as, a.state = .queued := by
  induction stale generalizing s with
  | nil => exact ⟨[], (List.append_nil _).symm, rfl, fun _ h => by cases h⟩
  | cons i rest ih =>
    obtain ⟨as, rows, incidents, queued⟩ :=
      ih (s.write [.insertAction (followUp s.actions.nextId i staleMinutes now)])
    refine ⟨followUp s.actions.nextId i staleMinutes now :: as, ?_, ?_, ?_⟩
    · rw [addFollowUps, rows, rows_insert_action_nextId s _ rfl, List.append_assoc]
      rfl
    · rw [List.map_cons, incidents]
      rfl
    · intro a ha
      rcases List.mem_cons.mp ha with rfl | later
      · rfl
      · exact queued a later

/-- One action is new after a sweep for each stale incident. -/
theorem newActions_sweep (now : Instant) (staleMinutes : Int) :
    (runHealthSweep now staleMinutes s).2.actions.rows =
        s.actions.rows ++ newActions s (runHealthSweep now staleMinutes s).2 ∧
      (newActions s (runHealthSweep now staleMinutes s).2).map Action.incidentId =
        (staleIncidents now staleMinutes s).map Incident.id ∧
      ∀ a ∈ newActions s (runHealthSweep now staleMinutes s).2, a.state = .queued := by
  obtain ⟨as, rows, incidents, queued⟩ :=
    rows_addFollowUps now staleMinutes (staleIncidents now staleMinutes s) s
  have rows : (runHealthSweep now staleMinutes s).2.actions.rows = s.actions.rows ++ as := rows
  rw [newActions_of_append rows]
  exact ⟨rows, incidents, queued⟩

/-- A sweep leaves the incidents alone. -/
theorem incidents_runHealthSweep (now : Instant) (staleMinutes : Int) :
    (runHealthSweep now staleMinutes s).2.incidents = s.incidents := by
  have loop : ∀ (stale : List Incident) (s : Store),
      (addFollowUps now staleMinutes stale s).incidents = s.incidents := by
    intro stale
    induction stale with
    | nil => exact fun _ => rfl
    | cons i rest ih => exact fun s => ih _
  exact loop _ s

theorem ids_runOnce (args : PassArgs) (transport : Transport) :
    (runOnce args transport s).actions.rows.map Action.id = s.actions.rows.map Action.id :=
  (executes_of_runOnce args transport s).2

end Rows

/-! ## The machine -/

theorem Operation.followUps_stored (settings : Settings) (w : Sweeping) (o : Operation) :
    ∀ k ∈ o.followUps settings w.store w.followUps,
      k ∈ (o.apply settings w.store).actions.rows.map Action.id := by
  intro k hk
  cases o with
  | process env payload =>
    obtain ⟨as, rows⟩ := rows_actions_processed settings w.store env payload.toEventBody
    have rows : (Operation.apply settings (.process env payload) w.store).actions.rows =
      w.store.actions.rows ++ as := rows
    rw [rows, List.map_append]
    exact List.mem_append_left _ (w.stored k hk)
  | processDueActions args transport =>
    have ids := ids_runOnce w.store args transport
    exact ids.symm ▸ w.stored k hk
  | healthSweep now staleMinutes =>
    have rows := (newActions_sweep w.store now staleMinutes).1
    change k ∈ (runHealthSweep now staleMinutes w.store).2.actions.rows.map Action.id
    rw [rows, List.map_append]
    rcases List.mem_append.mp hk with old | new
    · exact List.mem_append_left _ (w.stored k old)
    · exact List.mem_append_right _ new
  | reset => cases hk

def Sweeping.step (settings : Settings) (w : Sweeping) (o : Operation) : Sweeping :=
  ⟨o.apply settings w.store, o.followUps settings w.store w.followUps,
    o.followUps_stored settings w⟩

/-- Operations, with the follow-ups of the sweeps among them. -/
def sweeping (settings : Settings) : Machine Sweeping Operation :=
  ⟨fun w o => some (w.step settings o)⟩

/-- No incident has two follow-ups that are still to be executed. -/
def AtMostOnePending (w : Sweeping) : Prop := ∀ incident, w.pending incident ≤ 1

/-- A sweep meets no stale incident whose follow-up is still to be executed. -/
def NonePending (w : Sweeping) : Operation → Prop
  | .healthSweep now staleMinutes => ∀ i ∈ staleIncidents now staleMinutes w.store,
      w.pending i.id = 0
  | _ => True

/-! ## One operation -/

section Step

variable (settings : Settings) (w : Sweeping)

theorem pending_process (env : Surroundings) (payload : EventCreate) (incident : Nat) :
    (w.step settings (.process env payload)).pending incident = w.pending incident := by
  obtain ⟨as, rows⟩ := rows_actions_processed settings w.store env payload.toEventBody
  have none : as.countP (fun a => a.PendingFor w.followUps incident) = 0 := by
    refine List.countP_eq_zero.mpr fun a ha own => ?_
    exact Table.key_notMem_of_append rows ha (w.stored a.id (of_decide_eq_true own).1)
  change (processed settings env payload.toEventBody w.store).actions.rows.countP _ = _
  rw [rows, List.countP_append]
  exact congrArg (w.pending incident + ·) none

/-- An attempt leaves an action with its id and its incident, and queues none. -/
theorem pending_attempted_le {args : PassArgs} {a : Action} {s : Store} {ks : List Nat}
    (current : s.actions.find? a.id = some a) (unfinished : a.finished = false)
    (succeeded : Bool) (detail : String) (incident : Nat) :
    (s.attempted args a (a.outcome args succeeded detail)).actions.rows.countP
        (fun b => b.PendingFor ks incident) ≤
      s.actions.rows.countP fun b => b.PendingFor ks incident := by
  rw [Store.rows_attempted args current, List.countP_map]
  refine List.countP_mono_left fun r hr own => ?_
  by_cases same : r.id = a.id
  · obtain rfl : r = a := s.actions.eq_of_key_eq hr (s.actions.mem_of_find? current) same
    have row : (r.outcome args succeeded detail).id = r.id ∧
        (r.outcome args succeeded detail).incidentId = r.incidentId := by
      simp [Action.outcome, Action.attempt, Action.leased]
    have own : (r.outcome args succeeded detail).PendingFor ks incident := by simpa using own
    refine decide_eq_true ⟨row.1 ▸ own.1, row.2 ▸ own.2.1, ?_⟩
    cases state : r.state <;> simp_all [Action.finished]
  · simpa [same] using own

theorem pending_pass_le (args : PassArgs) (transport : Transport) (incident : Nat) :
    (w.step settings (.processDueActions args transport)).pending incident ≤
      w.pending incident := by
  change (runOnce args transport w.store).actions.rows.countP _ ≤ _
  exact runOnce_invariant
    (I := fun t => t.actions.rows.countP (fun a => a.PendingFor w.followUps incident) ≤
      w.pending incident)
    (fun _ _ succeeded detail le current unfinished _ =>
      (pending_attempted_le current unfinished succeeded detail incident).trans le) le_rfl

/-- A sweep adds one pending follow-up to every stale incident, whatever it has already. -/
theorem pending_sweep (now : Instant) (staleMinutes : Int) (incident : Nat) :
    (w.step settings (.healthSweep now staleMinutes)).pending incident = w.pending incident +
      if incident ∈ (staleIncidents now staleMinutes w.store).map Incident.id then 1 else 0 := by
  obtain ⟨rows, incidents, queued⟩ := newActions_sweep w.store now staleMinutes
  have fresh := fun a ha => Table.key_notMem_of_append rows (r := a) ha
  change (runHealthSweep now staleMinutes w.store).2.actions.rows.countP (fun a =>
    a.PendingFor (w.followUps ++ (newActions w.store
      (runHealthSweep now staleMinutes w.store).2).map Action.id) incident) = _
  generalize newActions w.store (runHealthSweep now staleMinutes w.store).2 = as at *
  rw [rows, List.countP_append]
  congr 1
  · refine List.countP_congr fun a ha => ?_
    have old : a.id ∉ as.map Action.id := by
      intro new
      obtain ⟨b, hb, same⟩ := List.mem_map.mp new
      refine fresh b hb ?_
      rw [key_action, same]
      exact List.mem_map_of_mem ha
    change decide (a.PendingFor _ _) = true ↔ decide (a.PendingFor _ _) = true
    rw [decide_eq_true_iff, decide_eq_true_iff]
    simp [Action.PendingFor, old]
  · have stale : ((staleIncidents now staleMinutes w.store).map Incident.id).Nodup :=
      w.store.incidents.nodup.sublist (List.filter_sublist.map _)
    rw [← stale.count, ← incidents, List.count_eq_countP, List.countP_map]
    refine List.countP_congr fun a ha => ?_
    have own : a.id ∈ as.map Action.id := List.mem_map_of_mem ha
    simp only [Action.PendingFor, List.mem_append, own, queued a ha]
    simp

/-- One operation keeps the limit, unless it is a sweep that meets a pending follow-up. -/
theorem atMostOnePending_step_iff (one : AtMostOnePending w) (o : Operation) :
    AtMostOnePending (w.step settings o) ↔ NonePending w o := by
  cases o with
  | process env payload =>
    refine iff_of_true (fun incident => ?_) trivial
    rw [pending_process]
    exact one incident
  | processDueActions args transport =>
    exact iff_of_true (fun incident => (pending_pass_le settings w args transport incident).trans
      (one incident)) trivial
  | healthSweep now staleMinutes =>
    constructor
    · intro kept i hi
      have here := kept i.id
      rw [pending_sweep, if_pos (List.mem_map_of_mem hi)] at here
      omega
    · intro none incident
      rw [pending_sweep]
      split
      · next stale =>
        obtain ⟨i, hi, rfl⟩ := List.mem_map.mp stale
        rw [none i hi]
      · exact one incident
  | reset =>
    refine iff_of_true (fun incident => ?_) trivial
    exact Nat.zero_le 1

end Step

/-- A sweep directly after another one at the same time creates as many actions again. -/
theorem runHealthSweep_twice (now : Instant) (staleMinutes : Int) (s : Store) :
    (runHealthSweep now staleMinutes (runHealthSweep now staleMinutes s).2).1 =
      (runHealthSweep now staleMinutes s).1 := by
  change (staleIncidents now staleMinutes _).length = (staleIncidents now staleMinutes s).length
  rw [staleIncidents, incidents_runHealthSweep]
  rfl

/-- Sweeps remember nothing: each creates one follow-up for every stale incident, whatever is
pending, and a second one at the same time does it again. So no incident has two pending
follow-ups throughout a run exactly when no sweep meets one that is still pending. -/
theorem followUps_of_sweeps (settings : Settings) (s : Store) (os : List Operation) :
    ((sweeping settings).Throughout AtMostOnePending (Sweeping.start s) os ↔
      (sweeping settings).Along NonePending (Sweeping.start s) os) ∧
    ∀ (w : Sweeping) (now : Instant) (staleMinutes : Int),
      (∀ incident, (w.step settings (.healthSweep now staleMinutes)).pending incident =
        w.pending incident +
          if incident ∈ (staleIncidents now staleMinutes w.store).map Incident.id then 1 else 0) ∧
      (runHealthSweep now staleMinutes (runHealthSweep now staleMinutes w.store).2).1 =
        (runHealthSweep now staleMinutes w.store).1 := by
  have exact_step : ∀ w o v, AtMostOnePending w → (sweeping settings).step w o = some v →
      (AtMostOnePending v ↔ NonePending w o) := by
    intro w o v one step
    cases step
    exact atMostOnePending_step_iff settings w one o
  have start : AtMostOnePending (Sweeping.start s) := by
    intro incident
    have none : (Sweeping.start s).pending incident = 0 :=
      List.countP_eq_zero.mpr fun a _ own => by cases (of_decide_eq_true own).1
    omega
  exact ⟨(sweeping settings).throughout_iff_along exact_step (fun _ _ => rfl) start os,
    fun w now staleMinutes => ⟨pending_sweep settings w now staleMinutes,
      runHealthSweep_twice now staleMinutes w.store⟩⟩

/-- Two sweeps half an hour after the event that opened the incident queue two follow-ups. -/
theorem followUps_duplicated_demo :
    ¬ (sweeping ⟨1000⟩).Throughout AtMostOnePending (Sweeping.start demo)
      [.process ⟨0, "0"⟩ pumpOffline, .healthSweep (minutes 30) 30,
        .healthSweep (minutes 30) 30] := by
  intro once
  have one : _ ≤ 1 := once _ List.prefix_rfl _ rfl 1
  exact absurd one (by decide)

end SupportOps.Python
