import SupportOps.DotNet.Outcomes
import SupportOps.Library.Rounds

/-!
# A fixed number of calls

The HTTP benchmark and the benchmark endpoint call `ProcessPendingAsync` a fixed number of times,
the one without a pause, the other with a pause after a call that has retried something. Calls of
one limit are rounds of one capacity, so a number of calls is enough as soon as it has more places
than the queue takes attempts; and where first attempts go first, since a retry is scheduled after
every ingested action, exactly when it has as many.
-/
namespace SupportOps.DotNet

open Library Benchmark

/-! ## The order of the queue -/

instance : Std.Total Store.dueBefore where
  total a b := by
    simp only [Store.dueBefore]
    grind

instance : IsTrans QueuedAction Store.dueBefore where
  trans a b c := by
    simp only [Store.dueBefore]
    grind

/-- Unfinished, and scheduled for now or earlier. -/
def IsDue (now : Instant) (a : QueuedAction) : Prop :=
  a.status.final = false ∧ a.nextAttemptAt ≤ now

theorem due_iff {now : Instant} {a : QueuedAction} : Store.due now a = true ↔ IsDue now a := by
  rw [IsDue, unfinished_iff]
  simp [Store.due]

theorem firstOf_getDueActions (s : Store) (limit : Nat) (now : Instant) (ties : List String) :
    s.actions.FirstOf (IsDue now) Store.dueBefore limit (s.getDueActions limit now ties) :=
  s.actions.firstOf_select_tied (fun _ => due_iff) ties limit

/-- Any first due actions are what the query returns for some order of its ties. -/
theorem getDueActions_of_firstOf {s : Store} {limit : Nat} {now : Instant}
    {actions : List QueuedAction}
    (first : s.actions.FirstOf (IsDue now) Store.dueBefore limit actions) :
    ∃ ties, s.getDueActions limit now ties = actions :=
  s.actions.exists_ties (fun _ => due_iff) first

/-! ## A call without a retry -/

section Quiet

variable {options : OpsProcessingOptions} (clock : Nat → Instant)

theorem retried_le (todo : List QueuedAction) :
    ∀ (k : Nat) (r : ActionProcessingBatchResult) (s : Store),
      r.retried ≤ (processEach options clock k todo r s).1.retried := by
  induction todo with
  | nil => exact fun _ _ _ => Nat.le_refl _
  | cons a todo ih =>
    intro k r s
    refine Nat.le_trans ?_ (ih (k + 1) (r.count (attempt options a (clock k)).action.status) _)
    cases (attempt options a (clock k)).action.status with
    | retry => exact Nat.le_succ _
    | _ => exact Nat.le_refl _

/-- The options only say when a retry is due. -/
theorem attempt_congr (other : OpsProcessingOptions) {a : QueuedAction} {now : Instant}
    (ended : (attempt options a now).action.status ≠ .retry) :
    attempt options a now = attempt other a now := by
  simp only [attempt] at ended ⊢
  split
  · rfl
  · next failed =>
    split
    · next again =>
      rw [if_neg failed, if_pos again] at ended
      exact absurd rfl ended
    · rfl

/-- So they do not matter to a call that schedules none. -/
theorem processEach_congr (other : OpsProcessingOptions) (todo : List QueuedAction) :
    ∀ (k : Nat) (r : ActionProcessingBatchResult) (s : Store),
      (processEach options clock k todo r s).1.retried = r.retried →
      processEach options clock k todo r s = processEach other clock k todo r s := by
  induction todo with
  | nil => exact fun _ _ _ _ => rfl
  | cons a todo ih =>
    intro k r s quiet
    have ended : (attempt options a (clock k)).action.status ≠ .retry := by
      intro again
      have more : (r.count .retry).retried ≤ (processEach options clock (k + 1) todo
          (r.count .retry) (s.attempted options a (clock k))).1.retried :=
        retried_le clock todo (k + 1) (r.count .retry) (s.attempted options a (clock k))
      rw [← again] at more
      have same : (processEach options clock (k + 1) todo
          (r.count (attempt options a (clock k)).action.status)
          (s.attempted options a (clock k))).1.retried = r.retried := quiet
      rw [same, again] at more
      exact absurd more (Nat.not_succ_le_self _)
    have counted : (r.count (attempt options a (clock k)).action.status).retried = r.retried := by
      cases status : (attempt options a (clock k)).action.status with
      | retry => exact absurd status ended
      | _ => rfl
    have rest := ih (k + 1) (r.count (attempt options a (clock k)).action.status)
      (s.attempted options a (clock k)) (Eq.trans quiet counted.symm)
    have first := attempt_congr other ended
    unfold Store.attempted at rest
    rw [processEach, processEach, rest, first]

end Quiet

/-! ## The calls -/

/-- The limit of each call, its readings of the clock, the first of them at its start, and the order
in which the database answers it equal rows; readings that a call does not need repeat its last
one. -/
structure Calls (options : OpsProcessingOptions) where
  limit : Nat → Nat
  clock : Nat → Nat → Instant
  ties : Nat → List String := fun _ => []

namespace Calls

variable {options : OpsProcessingOptions} (run : Calls options) (s : Store)

/-- The store after the first calls. -/
def stored : Nat → Store
  | 0 => s
  | j + 1 => (processPending options (run.limit j) (run.clock j) (run.ties j) (stored j)).2

/-- What call `j` returns. -/
def batch (j : Nat) : ActionProcessingBatchResult :=
  (processPending options (run.limit j) (run.clock j) (run.ties j) (run.stored s j)).1

/-- What call `j` reads, and executes one by one. -/
def read (j : Nat) : List QueuedAction :=
  (run.stored s j).getDueActions (run.limit j) (run.clock j 0) (run.ties j)

/-- The actions executed by the first calls, in order. -/
def executions : Nat → List String
  | 0 => []
  | j + 1 => executions j ++ (run.read s j).map QueuedAction.id

/-- The calls, from the `j`-th on: one that processes nothing is the last. -/
def drainActions : (rounds j : Nat) → Store → Store
  | 0, _, s => s
  | rounds + 1, j, s =>
    let (batch, t) := processPending options (run.limit j) (run.clock j) (run.ties j) s
    if batch.processed = 0 then t else drainActions rounds (j + 1) t

/-- The clock does not run backwards. -/
def Forward : Prop := ∀ j k, run.clock j 0 ≤ run.clock j k ∧ run.clock j k ≤ run.clock (j + 1) 0

/-- The retries of a call are due at the start of the next one. -/
def Pauses : Prop := ∀ j, (run.batch s j).retried ≠ 0 →
  ∀ k, run.clock j k + options.retryDelay ≤ run.clock (j + 1) 0

/-- Calls over a queue of untouched actions that all find their retries due. -/
structure OnTime : Prop where
  positive : ∀ j, 0 < run.limit j
  forward : run.Forward
  pauses : run.Pauses s
  start : AllQueued s (run.clock 0 0)

variable {run s}

theorem OnTime.underway (h : run.OnTime s) (j : Nat) :
    Underway (run.clock j 0) (run.executions s j) s (run.stored s j) := by
  induction j with
  | zero => exact .start h.start
  | succ j ih =>
    have begun : Underway (run.clock (j + 1) 0) (run.executions s j ++ []) s (run.stored s j) := by
      rw [List.append_nil]
      exact ih.later (h.forward j 0).2
    -- a call without a retry is one of a runner that does not wait
    have paced : ∃ paced : OpsProcessingOptions,
        processPending options (run.limit j) (run.clock j) (run.ties j) (run.stored s j) =
          processPending paced (run.limit j) (run.clock j) (run.ties j) (run.stored s j) ∧
        ∀ k, run.clock j k + paced.retryDelay ≤ run.clock (j + 1) 0 := by
      by_cases quiet : (run.batch s j).retried = 0
      · refine ⟨{ options with retryDelayMilliseconds := 0 },
          processEach_congr _ _ _ _ _ _ quiet, fun k => ?_⟩
        exact (Int.add_zero _).trans_le (h.forward j k).2
      · exact ⟨options, rfl, h.pauses j quiet⟩
    obtain ⟨paced, same, late⟩ := paced
    change Underway _ _ s
      (processPending options (run.limit j) (run.clock j) (run.ties j) (run.stored s j)).2
    rw [same]
    exact processPending_invariant paced (run.limit j) (run.clock j) (run.ties j) (run.stored s j)
      (I := fun done _ t => Underway (run.clock (j + 1) 0) (run.executions s j ++ done) s t)
      (fun {done k t a} h mem unfinished => by
        rw [← List.append_assoc]
        exact h.attempted mem unfinished paced (late k)) begun

theorem processed_batch (j : Nat) : (run.batch s j).processed = (run.read s j).length :=
  (processEach_counts options (run.clock j) (run.read s j) 1
    ⟨(run.read s j).length, 0, 0, 0, 0⟩ (run.stored s j)).1

/-- Once every action is finished, the calls leave the store alone. -/
theorem stored_of_final {j : Nat}
    (final : ∀ b ∈ (run.stored s j).actions.rows, b.status.final = true) {n : Nat} (le : j ≤ n) :
    run.stored s n = run.stored s j := by
  induction n, le using Nat.le_induction with
  | base => rfl
  | succ n _ ih =>
    rw [stored, ih, processPending, getDueActions_of_final final]
    rfl

/-- Stopping at a call that processes nothing leaves what all the calls leave. -/
theorem OnTime.drainActions_eq (h : run.OnTime s) (rounds : Nat) :
    ∀ j, run.drainActions rounds j (run.stored s j) = run.stored s (j + rounds) := by
  induction rounds with
  | zero => exact fun j => rfl
  | succ rounds ih =>
    intro j
    have later : (processPending options (run.limit j) (run.clock j) (run.ties j)
        (run.stored s j)).2 = run.stored s (j + 1) := rfl
    have processed : (run.batch s j).processed = (run.read s j).length := processed_batch j
    simp only [drainActions, later]
    split
    · next idle =>
      have none : run.read s j = [] := List.length_eq_zero_iff.mp (processed.symm.trans idle)
      have final := (h.underway j).final_of_getDueActions_eq_nil (h.positive j) none
      rw [stored_of_final final (Nat.le_succ j),
        stored_of_final final (Nat.le_add_right j (rounds + 1))]
    · rw [ih, Nat.add_right_comm]
      rfl

theorem Forward.clock_le (forward : run.Forward) (j k : Nat) :
    run.clock 0 0 ≤ run.clock j k + options.retryDelay := by
  have start : run.clock 0 0 ≤ run.clock j 0 := by
    induction j with
    | zero => exact Int.le_refl _
    | succ j ih => exact ih.trans (forward j 0).2
  exact (start.trans (forward j k).1).trans
    (Int.le_add_of_nonneg_right (retryDelay_nonneg options))

/-- An action without an attempt is scheduled before `since`, a retry not. -/
def Aged (since : Instant) (a : QueuedAction) : Prop :=
  (a.attempts = 0 → a.nextAttemptAt < since) ∧
    (a.attempts ≠ 0 → a.status.final = false → since ≤ a.nextAttemptAt)

theorem OnTime.aged (h : run.OnTime s)
    (before : ∀ a ∈ s.actions.rows, a.nextAttemptAt < run.clock 0 0) (j : Nat) :
    ∀ a ∈ (run.stored s j).actions.rows, Aged (run.clock 0 0) a := by
  induction j with
  | zero =>
    intro a ha
    exact ⟨fun _ => before a ha, fun attempted => absurd (h.start a ha).2.1 attempted⟩
  | succ j ih =>
    refine processPending_invariant options (run.limit j) (run.clock j) (run.ties j)
      (run.stored s j)
      (I := fun _ _ t => ∀ a ∈ t.actions.rows, Aged (run.clock 0 0) a)
      (fun {done k t a} aged mem unfinished => ?_) ih
    intro b hb
    rw [Store.actions_attempted options mem] at hb
    obtain ⟨r, hr, rfl⟩ := t.actions.mem_modify.mp hb
    split
    · refine ⟨fun none => ?_, fun _ again => ?_⟩
      · rw [attempt_attempts] at none
        cases none
      · rw [attempt_nextAttemptAt options r _ again]
        exact h.forward.clock_le j k
    · exact aged r hr

/-! ## The calls as rounds -/

/-- Where the action with an id ends. -/
def conclusionOf (s : Store) (id : String) : ActionStatus × Nat :=
  ((s.actions.find? id).map QueuedAction.conclusion).getD (.queued, 0)

theorem conclusionOf_of_mem {a : QueuedAction} (mem : a ∈ s.actions.rows) :
    conclusionOf s a.id = a.conclusion := by
  have found := s.actions.find?_of_mem mem
  rw [key_queuedAction] at found
  rw [conclusionOf, found]
  rfl

/-- The attempts that the action with an id takes. -/
def need (s : Store) (id : String) : Nat := (conclusionOf s id).2

theorem need_of_mem {a : QueuedAction} (mem : a ∈ s.actions.rows) :
    need s a.id = a.conclusion.2 := congrArg Prod.snd (conclusionOf_of_mem mem)

/-- The ids of the queue. -/
def jobs (s : Store) : Finset String := (s.actions.rows.map QueuedAction.id).toFinset

theorem mem_jobs {id : String} : id ∈ jobs s ↔ ∃ a ∈ s.actions.rows, a.id = id := by
  rw [jobs, List.mem_toFinset, List.mem_map]

theorem conclusion_pos (a : QueuedAction) : 0 < a.conclusion.2 := by
  unfold QueuedAction.conclusion
  split
  · exact Nat.one_pos
  · split
    · split <;> decide
    · exact Nat.one_pos

theorem need_pos (s : Store) : ∀ id ∈ jobs s, 0 < need s id := by
  intro id inside
  obtain ⟨a, ha, rfl⟩ := mem_jobs.mp inside
  rw [need_of_mem ha]
  exact conclusion_pos a

theorem need_le_two (s : Store) : ∀ id ∈ jobs s, need s id ≤ 2 := by
  intro id inside
  obtain ⟨a, ha, rfl⟩ := mem_jobs.mp inside
  rw [need_of_mem ha]
  exact attempts_conclusion a

/-- An unfinished action has an attempt left. -/
theorem attempts_lt_iff {dueBy : Instant} {done : List String} {a b : QueuedAction}
    (h : Progress dueBy done a b) : b.attempts < a.conclusion.2 ↔ b.status.final = false := by
  constructor
  · intro less
    by_contra ended
    have concluded := h.concluded (by simpa using ended)
    rw [← concluded] at less
    exact Nat.lt_irrefl _ less
  · intro unfinished
    have stage := h.stage
    generalize b.status = status, b.attempts = attempts at stage unfinished ⊢
    cases stage with
    | queued => exact conclusion_pos a
    | retry transient again =>
      have permanent : a.executorMode ≠ ExecutorModes.permanentFailure := by
        rw [transient]
        decide
      rw [QueuedAction.conclusion, if_neg permanent, if_pos transient, if_neg (by omega)]
      exact Nat.one_lt_two
    | concluded => rw [final_conclusion] at unfinished; cases unfinished

/-- What a call reads: unfinished rows of the queue. -/
theorem OnTime.of_mem_read (h : run.OnTime s) {k : Nat} {b : QueuedAction}
    (hb : b ∈ run.read s k) : ∃ a ∈ s.actions.rows, b.id = a.id ∧
      (run.stored s k).actions.find? a.id = some b ∧
      Progress (run.clock k 0) (run.executions s k) a b ∧ b.status.final = false := by
  obtain ⟨mem, status⟩ := Store.mem_getDueActions hb
  obtain ⟨a, ha, progress⟩ := (h.underway k).progress b mem
  have found := (run.stored s k).actions.find?_of_mem mem
  rw [key_queuedAction, progress.id] at found
  exact ⟨a, ha, progress.id, found, progress, unfinished_iff.mpr status⟩

theorem nodup_read (k : Nat) : ((run.read s k).map QueuedAction.id).Nodup :=
  (run.stored s k).actions.nodup_select ..

theorem card_batch (k : Nat) :
    ((run.read s k).map QueuedAction.id).toFinset.card = (run.read s k).length := by
  rw [List.toFinset_card_of_nodup (nodup_read k), List.length_map]

/-- A call leaves an unfinished action out only if it is full, with actions that are due before. -/
theorem full_of_waiting {k : Nat} {a b : QueuedAction}
    (found : (run.stored s k).actions.find? a.id = some b)
    (progress : Progress (run.clock k 0) (run.executions s k) a b)
    (unfinished : b.status.final = false)
    (left : a.id ∉ ((run.read s k).map QueuedAction.id).toFinset) :
    (run.read s k).length = run.limit k ∧ ∀ r ∈ run.read s k, Store.dueBefore r b := by
  have waiting : b ∉ run.read s k := fun read => left <| by
    rw [List.mem_toFinset, ← progress.id]
    exact List.mem_map_of_mem read
  exact Table.FirstOf.before_of_waiting
    (firstOf_getDueActions (run.stored s k) (run.limit k) (run.clock k 0) (run.ties k))
    (Table.mem_of_find? _ found) ⟨unfinished, progress.due unfinished⟩ waiting

/-- Calls of one limit are rounds of that capacity. -/
def OnTime.rounds (h : run.OnTime s) {limit : Nat} (same : ∀ j, run.limit j = limit) :
    Rounds (jobs s) (need s) limit where
  turns k id := (run.executions s k).count id
  batch k := ((run.read s k).map QueuedAction.id).toFinset
  start _ := rfl
  next k id := by
    rw [executions, List.count_append]
    simp only [List.mem_toFinset]
    split
    · next taken => rw [List.count_eq_one_of_mem (nodup_read k) taken]
    · next left => rw [List.count_eq_zero_of_not_mem left]
  wanted k id taken := by
    obtain ⟨b, hb, rfl⟩ := List.mem_map.mp (List.mem_toFinset.mp taken)
    obtain ⟨a, ha, same, -, progress, unfinished⟩ := h.of_mem_read hb
    rw [same, need_of_mem ha, ← progress.executed]
    exact ⟨mem_jobs.mpr ⟨a, ha, rfl⟩, (attempts_lt_iff progress).mpr unfinished⟩
  within k := by
    rw [card_batch, ← same k]
    exact List.length_take_le _ _
  busy k := by
    refine or_iff_not_imp_left.mpr fun free id inside unfinished => ?_
    by_contra left
    obtain ⟨a, ha, rfl⟩ := mem_jobs.mp inside
    obtain ⟨b, found, progress⟩ := (h.underway k).row ha
    rw [need_of_mem ha, ← progress.executed, attempts_lt_iff progress] at unfinished
    obtain ⟨full, -⟩ := full_of_waiting found progress unfinished left
    rw [card_batch] at free
    exact free (full.trans (same k))

/-- First attempts go first, if every action of the queue is scheduled before the first call. -/
theorem OnTime.inOrder (h : run.OnTime s) {limit : Nat} (same : ∀ j, run.limit j = limit)
    (before : ∀ a ∈ s.actions.rows, a.nextAttemptAt < run.clock 0 0) :
    (h.rounds same).InOrder := by
  intro k id inside none left other taken
  obtain ⟨a, ha, rfl⟩ := mem_jobs.mp inside
  obtain ⟨b, found, progress⟩ := (h.underway k).row ha
  obtain ⟨r, hr, rfl⟩ := List.mem_map.mp (List.mem_toFinset.mp taken)
  obtain ⟨a', ha', same', -, progress', unfinished'⟩ := h.of_mem_read hr
  change (run.executions s k).count a.id = 0 at none
  change (run.executions s k).count r.id = 0
  rw [← progress.executed] at none
  rw [same', ← progress'.executed]
  have unfinished : b.status.final = false := by
    rw [← attempts_lt_iff progress, none]
    exact conclusion_pos a
  obtain ⟨-, behind⟩ := full_of_waiting found progress unfinished left
  -- a retry would be scheduled after the action that waits
  by_contra retried
  have aged := h.aged before k
  have early := (aged b (Table.mem_of_find? _ found)).1 none
  have late := (aged r (Store.mem_getDueActions hr).1).2 retried unfinished'
  have between : r.nextAttemptAt ≤ b.nextAttemptAt := by
    rcases behind r hr with earlier | ⟨equal, -⟩
    · exact earlier.le
    · exact equal.le
  exact absurd (late.trans between) (Int.not_le.mpr early)

/-! ## What the queue comes to -/

/-- The calls have finished the queue. -/
def Finished (run : Calls options) (s : Store) (k : Nat) : Prop :=
  ∀ b ∈ (run.stored s k).actions.rows, b.status.final = true

theorem OnTime.finished_rounds_iff (h : run.OnTime s) {limit : Nat}
    (same : ∀ j, run.limit j = limit) (k : Nat) :
    (h.rounds same).Finished k ↔ run.Finished s k := by
  constructor
  · intro finished b hb
    obtain ⟨a, ha, progress⟩ := (h.underway k).progress b hb
    have all : (run.executions s k).count a.id = need s a.id :=
      finished a.id (mem_jobs.mpr ⟨a, ha, rfl⟩)
    by_contra unfinished
    have less := (attempts_lt_iff progress).mpr (by simpa using unfinished)
    rw [progress.executed, all, need_of_mem ha] at less
    exact Nat.lt_irrefl _ less
  · intro finished id inside
    obtain ⟨a, ha, rfl⟩ := mem_jobs.mp inside
    obtain ⟨b, found, progress⟩ := (h.underway k).row ha
    have concluded := progress.concluded (finished b (Table.mem_of_find? _ found))
    change (run.executions s k).count a.id = need s a.id
    rw [need_of_mem ha, ← concluded, ← progress.executed]

/-- A finished queue has every action where its mode and its limit lead. -/
theorem OnTime.stages_of_finished (h : run.OnTime s) {k : Nat} (finished : run.Finished s k) :
    ((run.stored s k).actions.rows.map fun b => (b.status, b.attempts)) =
      s.actions.rows.map QueuedAction.conclusion := by
  have underway := h.underway k
  calc ((run.stored s k).actions.rows.map fun b => (b.status, b.attempts))
      = ((run.stored s k).actions.rows.map QueuedAction.id).map (conclusionOf s) := by
        rw [List.map_map]
        refine List.map_congr_left fun b hb => ?_
        obtain ⟨a, ha, progress⟩ := underway.progress b hb
        rw [Function.comp_apply, progress.id, conclusionOf_of_mem ha]
        exact progress.concluded (finished b hb)
    _ = (s.actions.rows.map QueuedAction.id).map (conclusionOf s) := by rw [underway.ids]
    _ = s.actions.rows.map QueuedAction.conclusion := by
        rw [List.map_map]
        exact List.map_congr_left fun a ha => conclusionOf_of_mem ha

variable (run) in
/-- Calls leave events, incidents and suppressions alone. -/
theorem counts_stored (s : Store) (k : Nat) :
    (run.stored s k).events = s.events ∧ (run.stored s k).incidents = s.incidents ∧
      (run.stored s k).audits.countP AuditLogEntry.suppresses =
        s.audits.countP AuditLogEntry.suppresses := by
  induction k with
  | zero => exact ⟨rfl, rfl, rfl⟩
  | succ k ih =>
    refine processPending_invariant options (run.limit k) (run.clock k) (run.ties k)
      (run.stored s k)
      (I := fun _ _ t => t.events = s.events ∧ t.incidents = s.incidents ∧
        t.audits.countP AuditLogEntry.suppresses = s.audits.countP AuditLogEntry.suppresses)
      (fun {done j t a} h _ _ => ⟨h.1, h.2.1, ?_⟩) ih
    rw [← h.2.2]
    change (t.audits ++ [(attempt options a (run.clock k j)).audit]).countP _ = _
    rw [suppresses_concat, not_suppresses_attempt]
    rfl

end Calls

/-- The counters of a store once its untouched actions are finished. -/
def Store.eventually (s : Store) : Metrics where
  events := s.events.rows.length
  incidents := s.incidents.rows.length
  actions := s.actions.rows.length
  cooldownSuppressions := s.audits.countP AuditLogEntry.suppresses
  succeededActions := s.actions.rows.countP fun a => a.conclusion.1 = .succeeded
  failedActions := s.actions.rows.countP fun a =>
    a.conclusion.1 = .failedPermanent ∨ a.conclusion.1 = .failedExhausted
  retryAttempts :=
    (s.actions.rows.map fun a => if 1 < a.conclusion.2 then a.conclusion.2 - 1 else 0).sum
  permanentFailures := s.actions.rows.countP fun a => a.conclusion.1 = .failedPermanent

theorem Store.ended_eventually (s : Store) :
    s.eventually.succeededActions + s.eventually.failedActions = s.actions.rows.length := by
  simp only [eventually]
  induction s.actions.rows with
  | nil => rfl
  | cons a rest ih =>
    have final := final_conclusion a
    simp only [List.countP_cons, List.length_cons, ← ih]
    revert final
    cases a.conclusion.1 <;> simp [ActionStatus.final] <;> omega

/-- Every action takes one attempt, and one more for its retry. -/
theorem sum_conclusion (rows : List QueuedAction) :
    (rows.map fun a => a.conclusion.2).sum = rows.length +
      (rows.map fun a => if 1 < a.conclusion.2 then a.conclusion.2 - 1 else 0).sum := by
  induction rows with
  | nil => rfl
  | cons a rest ih =>
    have := Calls.conclusion_pos a
    simp only [List.map_cons, List.sum_cons, List.length_cons, ih]
    split <;> omega

/-- A store whose succeeded and failed actions are all its actions has finished them. -/
theorem Store.final_of_ended {s : Store} (ended : (dotnetMetrics s).succeededActions +
    (dotnetMetrics s).failedActions = s.actions.rows.length) :
    ∀ a ∈ s.actions.rows, a.status.final = true := by
  have statuses := s.getMetrics_statuses
  simp only [Store.getMetrics, dotnetMetrics] at statuses ended
  have queued : (s.actions.rows.countP fun a => a.status = .queued) = 0 := by omega
  have retry : (s.actions.rows.countP fun a => a.status = .retry) = 0 := by omega
  rw [List.countP_eq_zero] at queued retry
  intro a ha
  by_contra unfinished
  rcases unfinished_iff.mp (Bool.not_eq_true _ ▸ unfinished) with first | again
  · exact queued a ha (decide_eq_true first)
  · exact retry a ha (decide_eq_true again)

namespace Calls

variable {options : OpsProcessingOptions} {run : Calls options} {s : Store}

/-- The calls report the counters to come exactly when they have finished the queue. -/
theorem OnTime.dotnetMetrics_stored (h : run.OnTime s) (k : Nat) :
    dotnetMetrics (run.stored s k) = s.eventually ↔ run.Finished s k := by
  obtain ⟨events, incidents, suppressions⟩ := run.counts_stored s k
  constructor
  · intro same
    have length : (run.stored s k).actions.rows.length = s.actions.rows.length := by
      have ids := congrArg List.length (h.underway k).ids
      rwa [List.length_map, List.length_map] at ids
    exact Store.final_of_ended (by rw [same, length, s.ended_eventually])
  · intro finished
    have stages := h.stages_of_finished finished
    have succeeded := congrArg (List.countP fun p => decide (p.1 = .succeeded)) stages
    have failed := congrArg
      (List.countP fun p => decide (p.1 = .failedPermanent ∨ p.1 = .failedExhausted)) stages
    have permanent := congrArg (List.countP fun p => decide (p.1 = .failedPermanent)) stages
    have retries := congrArg (fun l => (l.map fun p => if 1 < p.2 then p.2 - 1 else 0).sum) stages
    have length := congrArg List.length stages
    simp only [List.countP_map, List.map_map, List.length_map]
      at succeeded failed permanent retries length
    simp only [dotnetMetrics, Store.eventually, Metrics.mk.injEq]
    exact ⟨by rw [events], by rw [incidents], length, suppressions, succeeded, failed, retries,
      permanent⟩

/-- The jobs need as many turns as the queue takes attempts. -/
theorem sum_need (s : Store) :
    ∑ id ∈ jobs s, need s id = s.eventually.actions + s.eventually.retryAttempts := by
  have nodup : (s.actions.rows.map QueuedAction.id).Nodup := s.actions.nodup
  rw [jobs, List.sum_toFinset _ nodup, List.map_map]
  have needs : s.actions.rows.map (need s ∘ QueuedAction.id) =
      s.actions.rows.map fun a => a.conclusion.2 :=
    List.map_congr_left fun a ha => need_of_mem ha
  rw [needs]
  exact sum_conclusion _

theorem card_jobs (s : Store) : (jobs s).card = s.actions.rows.length := by
  have nodup : (s.actions.rows.map QueuedAction.id).Nodup := s.actions.nodup
  rw [jobs, List.toFinset_card_of_nodup nodup, List.length_map]

/-- A number of calls reports the counters to come exactly when their limits sum up to the attempts
that the queue takes, if all but the last have places for its actions. -/
theorem OnTime.drainActions_iff (h : run.OnTime s) {limit : Nat} (same : ∀ j, run.limit j = limit)
    (before : ∀ a ∈ s.actions.rows, a.nextAttemptAt < run.clock 0 0) {k : Nat}
    (first : s.eventually.actions + s.eventually.retryAttempts ≤ (k + 1) * limit →
      s.eventually.actions ≤ k * limit) :
    dotnetMetrics (run.drainActions (k + 1) 0 s) = s.eventually ↔
      s.eventually.actions + s.eventually.retryAttempts ≤ (k + 1) * limit := by
  have drained : run.drainActions (k + 1) 0 s = run.stored s (k + 1) :=
    (h.drainActions_eq (k + 1) 0).trans (by rw [Nat.zero_add])
  rw [drained, h.dotnetMetrics_stored, ← h.finished_rounds_iff same, ← sum_need]
  constructor
  · exact fun finished => (h.rounds same).need_le_of_finished finished
  · intro enough
    refine (h.inOrder same before).finished_of_places (need_pos s) (need_le_two s) ?_ enough
    rw [card_jobs]
    exact first (sum_need s ▸ enough)

/-- A number of calls reports the counters to come if the queue takes fewer attempts than all but
the last of them have places for. -/
theorem OnTime.drainActions_of_slack (h : run.OnTime s) {limit : Nat}
    (same : ∀ j, run.limit j = limit) {k : Nat}
    (slack : s.eventually.actions + s.eventually.retryAttempts < k * limit) :
    dotnetMetrics (run.drainActions (k + 1) 0 s) = s.eventually := by
  have drained : run.drainActions (k + 1) 0 s = run.stored s (k + 1) :=
    (h.drainActions_eq (k + 1) 0).trans (by rw [Nat.zero_add])
  rw [drained, h.dotnetMetrics_stored, ← h.finished_rounds_iff same]
  exact (h.rounds same).finished_of_slack (need_le_two s) (sum_need s ▸ slack)

end Calls

end SupportOps.DotNet
