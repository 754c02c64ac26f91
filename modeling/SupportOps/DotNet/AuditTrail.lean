import SupportOps.DotNet.ConcurrentBatches

/-!
# The audit trail of attempts

`ProcessPendingAsync` calls, one at a time, each of which may be stopped at any of its awaits.
An attempt is written in two store calls, the row and then its audit row. A call that is not
stopped between the two leaves one audit row for each attempt, the last one for the stored
status; a call that is stopped there leaves an attempt without its audit row for good.
-/
namespace SupportOps.DotNet

open Library

/-! ## Calls that may be stopped -/

inductive StoppableStep where
  | work (l : ProcessStep Unit)
  /-- cancellation, or a store error, at the await the call is at -/
  | stop

section Machine

variable (culture : Culture) (options : OpsProcessingOptions)

/-- A stopped call is gone with what it has not yet begun. -/
def Processing.stoppableStep (w : Processing Unit) : StoppableStep → Option (Processing Unit)
  | .work l => w.step culture options l
  | .stop => (w.batches ()).map fun _ => w.setBatch () none

/-- Ingestions and calls, one at a time; what a stopped call had not begun is not done. -/
def stoppable : Machine (Processing Unit) StoppableStep :=
  ⟨Processing.stoppableStep culture options⟩

end Machine

/-! ## Trails -/

/-- The audit events of an attempt. -/
def AuditEvent.ofAttempt : AuditEvent → Bool
  | .actionSucceeded | .actionTransientFailure | .actionPermanentFailure
  | .actionRetryExhausted => true
  | _ => false

/-- The event of the attempt that leaves a status. -/
def ActionStatus.event : ActionStatus → Option AuditEvent
  | .queued => none
  | .retry => some .actionTransientFailure
  | .succeeded => some .actionSucceeded
  | .failedPermanent => some .actionPermanentFailure
  | .failedExhausted => some .actionRetryExhausted

/-- The audited attempts of an action, in order. -/
def Store.attemptsAudited (s : Store) (id : String) : List AuditEvent :=
  (s.audits.filter fun r =>
    r.entityType = "action" ∧ r.entityId = id ∧ r.eventType.ofAttempt = true).map
      AuditLogEntry.eventType

/-- As many audit rows as attempts, and the last one agrees with the status. -/
structure Audited (s : Store) (a : QueuedAction) : Prop where
  count : (s.attemptsAudited a.id).length = a.attempts
  last : (s.attemptsAudited a.id).getLast? = a.status.event

instance (s : Store) (a : QueuedAction) : Decidable (Audited s a) :=
  decidable_of_iff ((s.attemptsAudited a.id).length = a.attempts ∧
      (s.attemptsAudited a.id).getLast? = a.status.event)
    ⟨fun h => ⟨h.1, h.2⟩, fun h => ⟨h.count, h.last⟩⟩

/-- Whenever no call is in progress, every action has its trail. -/
def TrailComplete (w : Processing Unit) : Prop :=
  w.batches () = none → ∀ a ∈ w.stored.actions.rows, Audited w.stored a

/-- The call in progress has written the row of the action, and not yet its audit row. -/
def Processing.halfRecorded (w : Processing Unit) (id : String) : Prop :=
  ∃ b x, w.batches () = some b ∧ b.phase = .audit x ∧ x.action.id = id

/-- Not between `UpdateActionAsync` and `AddAuditAsync`. -/
def BatchPhase.recorded : BatchPhase → Bool
  | .audit _ => false
  | _ => true

/-- A call is stopped only where what it has written is recorded. -/
def StopsRecorded (w : Processing Unit) : StoppableStep → Prop
  | .stop => ∀ b ∈ w.batches (), b.phase.recorded = true
  | _ => True

instance (w : Processing Unit) (l : StoppableStep) : Decidable (StopsRecorded w l) := by
  unfold StopsRecorded
  split <;> infer_instance

theorem StopsRecorded.not_halfRecorded {w : Processing Unit} (h : StopsRecorded w .stop)
    (id : String) : ¬ w.halfRecorded id := by
  rintro ⟨b, x, hb, phase, -⟩
  have recorded := h b hb
  rw [phase] at recorded
  cases recorded

/-! ## What is written -/

theorem attemptsAudited_append {s t : Store} (rows : List AuditLogEntry)
    (audits : t.audits = s.audits ++ rows) (id : String) :
    t.attemptsAudited id = s.attemptsAudited id ++ (rows.filter fun r =>
      r.entityType = "action" ∧ r.entityId = id ∧ r.eventType.ofAttempt = true).map
        AuditLogEntry.eventType := by
  unfold Store.attemptsAudited
  rw [audits, List.filter_append, List.map_append]

/-- The audit row of an attempt is one of its action, and agrees with the status it leaves. -/
theorem attempt_audit (options : OpsProcessingOptions) (a : QueuedAction) (now : Instant) :
    (attempt options a now).audit.entityType = "action" ∧
      (attempt options a now).audit.entityId = a.id ∧
      (attempt options a now).audit.eventType.ofAttempt = true ∧
      (attempt options a now).action.status.event =
        some (attempt options a now).audit.eventType := by
  simp only [attempt]
  split
  · exact ⟨rfl, rfl, rfl, rfl⟩
  · split
    · exact ⟨rfl, rfl, rfl, rfl⟩
    · refine ⟨rfl, rfl, ?_, ?_⟩ <;> dsimp only <;> split <;> rfl

/-- Ingestion audits no attempt. -/
theorem attemptsAudited_of_recorded {culture : Culture} {c : DecisionCall} {s t : Store}
    {r : EventIngestionResult} (h : Recorded culture c s r t) (id : String) :
    t.attemptsAudited id = s.attemptsAudited id := by
  cases h <;>
    simp [Store.attemptsAudited, Store.write, Write.apply, List.filter_append,
      DecisionCall.eventReceived, DecisionCall.normalEventRecorded,
      DecisionCall.cooldownSuppressed, DecisionCall.incidentCreated, DecisionCall.actionQueued,
      AuditEvent.ofAttempt]

/-! ## The invariant -/

section Invariant

variable {culture : Culture} {options : OpsProcessingOptions}

/-- What a call in progress knows of the rows it has read. -/
structure Batch.Ready (options : OpsProcessingOptions) (s : Store) (b : Batch) : Prop where
  current : ∀ a ∈ b.todo, s.actions.find? a.id = some a
  nodup : (b.todo.map QueuedAction.id).Nodup
  update : ∀ x, b.phase = .update x → ∃ a now, x = attempt options a now ∧
    s.actions.find? a.id = some a ∧ a.id ∉ b.todo.map QueuedAction.id
  audit : ∀ x, b.phase = .audit x → ∃ a now, x = attempt options a now ∧
    s.actions.find? a.id = some x.action ∧ a.id ∉ b.todo.map QueuedAction.id ∧
    (s.attemptsAudited a.id).length = a.attempts

/-- Every row but the one that is half recorded has its trail. -/
structure Trailed (options : OpsProcessingOptions) (w : Processing Unit) : Prop where
  batch : ∀ b, w.batches () = some b → b.Ready options w.stored
  rows : ∀ a ∈ w.stored.actions.rows, ¬ w.halfRecorded a.id → Audited w.stored a
  unknown : ∀ id, w.stored.actions.find? id = none → w.stored.attemptsAudited id = []

theorem Trailed.initial : Trailed options Processing.initial where
  batch b hb := by cases hb
  rows a ha := by cases ha
  unknown id _ := rfl

/-- Actions that are still found and trails that are the same keep a call ready. -/
theorem Batch.Ready.keep {s t : Store} {b : Batch} (h : b.Ready options s)
    (found : ∀ k a, s.actions.find? k = some a → t.actions.find? k = some a)
    (trail : ∀ id, t.attemptsAudited id = s.attemptsAudited id) : b.Ready options t := by
  refine ⟨fun a ha => found _ _ (h.current a ha), h.nodup, ?_, ?_⟩
  · intro x phase
    obtain ⟨a, now, same, here, fresh⟩ := h.update x phase
    exact ⟨a, now, same, found _ _ here, fresh⟩
  · intro x phase
    obtain ⟨a, now, same, here, fresh, count⟩ := h.audit x phase
    exact ⟨a, now, same, found _ _ here, fresh, by rw [trail, count]⟩

/-- A snapshot of the rows that are due is current. -/
theorem Batch.Ready.read {s : Store} (limit : Nat) (now : Instant) (ties : List String)
    (result : ActionProcessingBatchResult) :
    Batch.Ready options s ⟨.execute, s.getDueActions limit now ties, result⟩ := by
  refine ⟨?_, ?_, fun x phase => (by cases phase), fun x phase => (by cases phase)⟩
  · intro a ha
    exact s.actions.find?_of_mem (Store.mem_getDueActions ha).1
  · exact s.actions.nodup_select _ _ _

/-- The next row of a snapshot is executed. -/
theorem Batch.Ready.executed {s : Store} {a : QueuedAction} {todo : List QueuedAction}
    {result : ActionProcessingBatchResult}
    (h : Batch.Ready options s ⟨.execute, a :: todo, result⟩) (now : Instant) :
    Batch.Ready options s ⟨.update (attempt options a now), todo, result⟩ := by
  obtain ⟨fresh, nodup⟩ := List.nodup_cons.mp h.nodup
  refine ⟨fun b hb => h.current b (List.mem_cons_of_mem _ hb), nodup, ?_,
    fun x phase => (by cases phase)⟩
  rintro x ⟨⟩
  exact ⟨a, now, rfl, h.current a (List.mem_cons_self ..), fresh⟩

namespace Trailed

variable {w : Processing Unit}

/-- Another batch, or none, with nothing half recorded before and after. -/
theorem setBatch (h : Trailed options w) (new : Option Batch) {u : Processing Unit}
    (stored : u.stored = w.stored) (batches : u.batches () = new)
    (before : ∀ id, ¬ w.halfRecorded id)
    (ready : ∀ b, new = some b → b.Ready options w.stored) : Trailed options u := by
  refine ⟨?_, ?_, ?_⟩
  · intro b hb
    rw [stored]
    exact ready b (batches.symm.trans hb)
  · intro a ha _
    rw [stored] at ha ⊢
    exact h.rows a ha (before a.id)
  · rw [stored]
    exact h.unknown

theorem ingested (h : Trailed options w) {c : DecisionCall} {t : Store} {r : EventIngestionResult}
    (recorded : Recorded culture c w.stored r t) : Trailed options { w with stored := t } := by
  have trail := attemptsAudited_of_recorded recorded
  have keep : ∀ a, Audited w.stored a → Audited t a := by
    intro a audited
    exact ⟨by rw [trail, audited.count], by rw [trail, audited.last]⟩
  rcases actions_of_recorded recorded with same | ⟨fresh, insert⟩
  · refine ⟨fun b hb => (h.batch b hb).keep (fun k a found => ?_) trail, ?_, ?_⟩
    · change t.actions.find? k = some a
      rw [same]
      exact found
    · intro a ha idle
      change a ∈ t.actions.rows at ha
      rw [same] at ha
      exact keep a (h.rows a ha idle)
    · intro id none
      change t.actions.find? id = .none at none
      rw [same] at none
      exact (trail id).trans (h.unknown id none)
  · refine ⟨fun b hb => (h.batch b hb).keep (fun k a found => ?_) trail, ?_, ?_⟩
    · rw [insert]
      exact find?_insert_of_some found _
    · intro a ha idle
      change a ∈ t.actions.rows at ha
      rw [insert] at ha
      rcases w.stored.actions.mem_of_mem_insert ha with old | rfl
      · exact keep a (h.rows a old idle)
      · have empty := (trail c.action.id).trans (h.unknown _ fresh)
        exact ⟨by rw [empty]; rfl, by rw [empty]; rfl⟩
    · intro id none
      change t.actions.find? id = .none at none
      refine (trail id).trans (h.unknown id ?_)
      rw [insert, Table.find?_insert] at none
      exact (Option.or_eq_none_iff.mp none).1

theorem not_halfRecorded {b : Batch} (here : w.batches () = some b)
    (phase : ∀ x, b.phase ≠ .audit x) (id : String) : ¬ w.halfRecorded id := by
  rintro ⟨c, x, hc, audit, -⟩
  rw [here] at hc
  cases hc
  exact phase x audit

/-- The row of an attempt is written: it is the only one half recorded. -/
theorem updated (h : Trailed options w) {x : Attempted} {todo : List QueuedAction}
    {result : ActionProcessingBatchResult} {u : Processing Unit}
    (here : w.batches () = some ⟨.update x, todo, result⟩)
    (after : u.batches () = some ⟨.audit x, todo, result⟩)
    (stored : u.stored = (Write.updateAction x.action).apply w.stored) : Trailed options u := by
  have ready := h.batch _ here
  obtain ⟨a, now, rfl, found, fresh⟩ := ready.update x rfl
  have idle := not_halfRecorded here (fun y phase => by cases phase)
  have find : ∀ k, u.stored.actions.find? k = if k = a.id
      then some (attempt options a now).action else w.stored.actions.find? k := by
    intro k
    rw [stored]
    change (w.stored.actions.modify (attempt options a now).action.id _
      (attempt options a now).action.key_updated).find? k = _
    rw [Table.find?_modify, attempt_id]
    split
    · next same => rw [same, found, Option.map_some, attempt_updated]
    · rfl
  have trail : ∀ id, u.stored.attemptsAudited id = w.stored.attemptsAudited id := by
    intro id
    rw [stored]
    rfl
  refine ⟨?_, ?_, ?_⟩
  · intro b hb
    rw [after] at hb
    cases hb
    refine ⟨?_, ready.nodup, fun y phase => (by cases phase), ?_⟩
    · intro c hc
      have other : c.id ≠ a.id := fun same => fresh (same ▸ List.mem_map_of_mem hc)
      rw [find, if_neg other]
      exact ready.current c hc
    · rintro y ⟨⟩
      refine ⟨a, now, rfl, by rw [find, if_pos rfl], fresh, ?_⟩
      rw [trail]
      exact (h.rows a (w.stored.actions.mem_of_find? found) (idle a.id)).count
  · intro c hc notHalf
    have other : c.id ≠ a.id := by
      intro same
      exact notHalf ⟨_, _, after, rfl, (attempt_id options a now).trans same.symm⟩
    have old : w.stored.actions.find? c.id = some c := by
      have present := u.stored.actions.find?_of_mem hc
      rw [key_queuedAction, find, if_neg other] at present
      exact present
    have audited := h.rows c (w.stored.actions.mem_of_find? old) (idle c.id)
    exact ⟨by rw [trail, audited.count], by rw [trail, audited.last]⟩
  · intro id none
    rw [trail]
    refine h.unknown id ?_
    rw [find] at none
    split at none
    · cases none
    · exact none

/-- The audit row is written: the attempt is recorded. -/
theorem audited (h : Trailed options w) {x : Attempted} {todo : List QueuedAction}
    {result after : ActionProcessingBatchResult} {u : Processing Unit}
    (here : w.batches () = some ⟨.audit x, todo, result⟩)
    (next : u.batches () = some ⟨.execute, todo, after⟩)
    (stored : u.stored = (Write.addAudit x.audit).apply w.stored) : Trailed options u := by
  have ready := h.batch _ here
  obtain ⟨a, now, rfl, found, fresh, count⟩ := ready.audit x rfl
  obtain ⟨entity, id, kind, agrees⟩ := attempt_audit options a now
  have actions : u.stored.actions = w.stored.actions := by
    rw [stored]
    rfl
  have trail : ∀ k, u.stored.attemptsAudited k = w.stored.attemptsAudited k ++
      if k = a.id then [(attempt options a now).audit.eventType] else [] := by
    intro k
    rw [attemptsAudited_append [(attempt options a now).audit] (by rw [stored]; rfl)]
    by_cases same : k = a.id
    · simp [entity, id, kind, same]
    · simp [id, same, Ne.symm same]
  refine ⟨?_, ?_, ?_⟩
  · intro b hb
    rw [next] at hb
    cases hb
    refine ⟨?_, ready.nodup, fun y phase => (by cases phase), fun y phase => (by cases phase)⟩
    rw [actions]
    exact ready.current
  · intro c hc _
    rw [actions] at hc
    by_cases same : c.id = a.id
    · have row : c = (attempt options a now).action := by
        have present := w.stored.actions.find?_of_mem hc
        rw [key_queuedAction, same, found] at present
        exact (Option.some.inj present).symm
      refine ⟨?_, ?_⟩
      · rw [trail, if_pos same, same, List.length_append, count, row, attempt_attempts]
        rfl
      · rw [trail, if_pos same, List.getLast?_append, row, agrees]
        rfl
    · have notHalf : ¬ w.halfRecorded c.id := by
        rintro ⟨b, y, hb, phase, half⟩
        rw [here] at hb
        cases hb
        cases phase
        exact same (half.symm.trans (attempt_id options a now))
      have audited := h.rows c hc notHalf
      exact ⟨by rw [trail, if_neg same, List.append_nil, audited.count],
        by rw [trail, if_neg same, List.append_nil, audited.last]⟩
  · intro k none
    rw [actions] at none
    have other : k ≠ a.id := by
      rintro rfl
      rw [found] at none
      cases none
    rw [trail, if_neg other, List.append_nil]
    exact h.unknown k none

/-- Work keeps the trails, and so does a stop that leaves nothing half recorded. -/
theorem step (h : Trailed options w) {l : StoppableStep} {u : Processing Unit}
    (recorded : StopsRecorded w l) (step : (stoppable culture options).step w l = some u) :
    Trailed options u := by
  cases l with
  | stop =>
    simp only [stoppable, Processing.stoppableStep, Option.map_eq_some_iff] at step
    obtain ⟨-, -, rfl⟩ := step
    exact h.setBatch none rfl (w.setBatch_self () none) recorded.not_halfRecorded
      fun b new => (by cases new)
  | work l =>
    cases processed_of_step culture options step with
    | ingested call r t ok =>
      exact h.ingested (recorded_of_recordIngestionDecision ok).2
    | refused call => exact h
    | read i limit now ties result idle =>
      refine h.setBatch _ rfl (w.setBatch_self () _) ?_ ?_
      · rintro id ⟨b, x, hb, -, -⟩
        rw [idle] at hb
        cases hb
      · rintro b ⟨⟩
        exact .read limit now ties result
    | returned i now result here =>
      refine h.setBatch none rfl (w.setBatch_self () none) ?_ fun b new => (by cases new)
      exact not_halfRecorded here fun x phase => by cases phase
    | executed i now action todo result here =>
      refine h.setBatch _ rfl (w.setBatch_self () _) ?_ ?_
      · exact not_halfRecorded here fun x phase => by cases phase
      · rintro b ⟨⟩
        exact (h.batch _ here).executed now
    | updated i now attempted todo result here =>
      exact h.updated here (w.setBatch_self () _) rfl
    | audited i now attempted todo result after here =>
      exact h.audited here (w.setBatch_self () _) rfl

end Trailed

/-- While no call is stopped between a row and its audit row, every attempt has its audit row
whenever no call is in progress. -/
theorem trailComplete_of_stopsRecorded (culture : Culture) (options : OpsProcessingOptions)
    (ls : List StoppableStep)
    (recorded : (stoppable culture options).Along StopsRecorded Processing.initial ls) :
    (stoppable culture options).Throughout TrailComplete Processing.initial ls := by
  rintro pre ⟨post, rfl⟩ w run idle a ha
  have along := ((stoppable culture options).along_append.mp recorded).1
  have trailed := (stoppable culture options).run_invariant_of_along
    (I := Trailed options) (fun w l u admitted h step => h.step admitted step) along .initial run
  refine trailed.rows a ha ?_
  rintro ⟨b, x, hb, -, -⟩
  rw [idle] at hb
  cases hb

end Invariant

/-! ## One action and a stop -/

/-- One action is ingested and a call reads it, executes it and goes on `n` store calls. -/
def stoppedAfter (n : Nat) : List StoppableStep :=
  .work (.ingest (decisionCall {} transientOutage 0 ⟨"1", "1", "1", []⟩)) ::
    .work (.processPending () 100 0 []) :: List.replicate (n + 1) (.work (.advance () 0)) ++ [.stop]

/-- A whole call later on. -/
def laterCall : List StoppableStep :=
  .work (.processPending () 100 (fromSeconds 1) []) ::
    List.replicate 4 (.work (.advance () (fromSeconds 1)))

/-- The first call is stopped before it writes anything and the second one after both writes. -/
theorem trailComplete_stopped : ∃ w : Processing Unit,
    (stoppable asciiCulture {}).run Processing.initial
      (stoppedAfter 0 ++ stoppedAfter 2 ++ laterCall) = some w ∧
    (w.stored.actions.rows.map fun a => (a.status, a.attempts)) = [(.succeeded, 2)] ∧
    w.stored.attemptsAudited "act_1" = [.actionTransientFailure, .actionSucceeded] ∧
    (stoppable asciiCulture {}).Throughout TrailComplete Processing.initial
      (stoppedAfter 0 ++ stoppedAfter 2 ++ laterCall) :=
  ⟨_, rfl, by decide, by decide, trailComplete_of_stopsRecorded asciiCulture {} _ (by decide)⟩

/-- A call is stopped between the two writes of its attempt. -/
theorem attempt_without_audit : ∃ v w : Processing Unit,
    (stoppable asciiCulture {}).run Processing.initial (stoppedAfter 1) = some v ∧
    v.batches () = none ∧
    (v.stored.actions.rows.map fun a => (a.status, a.attempts)) = [(.retry, 1)] ∧
    v.stored.attemptsAudited "act_1" = [] ∧ ¬ TrailComplete v ∧
    (stoppable asciiCulture {}).run v laterCall = some w ∧ w.batches () = none ∧
    (w.stored.actions.rows.map fun a => (a.status, a.attempts)) = [(.succeeded, 2)] ∧
    w.stored.attemptsAudited "act_1" = [.actionSucceeded] ∧ ¬ TrailComplete w := by
  refine ⟨_, _, rfl, by decide, by decide, by decide, ?_, rfl, by decide, by decide, by decide, ?_⟩
  · intro complete
    exact absurd (complete (by decide) _ (List.mem_singleton_self _)) (by decide)
  · intro complete
    exact absurd (complete (by decide) _ (List.mem_singleton_self _)) (by decide)

end SupportOps.DotNet
