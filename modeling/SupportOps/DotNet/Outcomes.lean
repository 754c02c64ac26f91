import Mathlib.Algebra.Group.Action.Defs
import Mathlib.Algebra.Order.BigOperators.Group.List
import Mathlib.Algebra.Order.Group.Nat
import SupportOps.DotNet.Drain

/-!
# Where every queue ends

Calls of `ProcessPendingAsync` one after another over queued actions of any mode and any limit of
attempts. The mode and the limit alone say where an action ends, and that it takes at most two
attempts; a call attempts what it finds due, so only finitely many calls find anything.
-/
namespace SupportOps.DotNet

open Library

/-! ## Calls one after another -/

/-- The limit of each call, its readings of the clock, the first of them at its start, and the order
in which the database answers it equal rows. Every call starts at least the retry delay after all
readings of the one before; readings that a call does not need repeat its last one. -/
structure Schedule (options : OpsProcessingOptions) where
  limit : Nat → Nat
  clock : Nat → Nat → Instant
  ties : Nat → List String := fun _ => []
  positive : ∀ j, 0 < limit j
  spaced : ∀ j k, clock j k + options.retryDelay ≤ clock (j + 1) 0

namespace Schedule

variable {options : OpsProcessingOptions} (run : Schedule options) (s : Store)

/-- The store after the first calls. -/
def stored : Nat → Store
  | 0 => s
  | j + 1 => (processPending options (run.limit j) (run.clock j) (run.ties j) (stored j)).2

/-- What call `j` returns. -/
def batch (j : Nat) : ActionProcessingBatchResult :=
  (processPending options (run.limit j) (run.clock j) (run.ties j) (run.stored s j)).1

/-- What call `j` reads, and executes one by one. -/
def read (j : Nat) : List QueuedAction :=
  (run.stored s j).getDueActions (run.limit j) (run.clock j 0) (run.ties j)

/-- The actions executed by the first calls, in order. -/
def executions : Nat → List String
  | 0 => []
  | j + 1 => executions j ++ (run.read s j).map QueuedAction.id

end Schedule

/-- Where an action ends: its status, and its attempts. -/
def QueuedAction.conclusion (a : QueuedAction) : ActionStatus × Nat :=
  if a.executorMode = ExecutorModes.permanentFailure then (.failedPermanent, 1)
  else if a.executorMode = ExecutorModes.transientThenSuccess then
    if a.maxAttempts < 2 then (.failedExhausted, 1) else (.succeeded, 2)
  else (.succeeded, 1)

/-! ## What one call returns -/

theorem processPending_counts (options : OpsProcessingOptions) (limit : Nat)
    (clock : Nat → Instant) (ties : List String) (s : Store) :
    (processPending options limit clock ties s).1.processed =
        (processPending options limit clock ties s).1.succeeded +
          (processPending options limit clock ties s).1.retried +
          (processPending options limit clock ties s).1.failed ∧
      (processPending options limit clock ties s).1.processed ≤ limit := by
  let actions := s.getDueActions limit (clock 0) ties
  obtain ⟨processed, total⟩ :=
    processEach_counts options clock actions 1 ⟨actions.length, 0, 0, 0, 0⟩ s
  refine ⟨processed.trans (total.trans ?_).symm, processed.le.trans (List.length_take_le _ _)⟩
  exact Nat.zero_add _

/-! ## One attempt -/

/-- The status after an attempt, by the mode, the number of the attempt and the limit. -/
theorem attempt_status (options : OpsProcessingOptions) (b : QueuedAction) (now : Instant) :
    (attempt options b now).action.status =
      if b.executorMode = ExecutorModes.permanentFailure then .failedPermanent
      else if b.executorMode = ExecutorModes.transientThenSuccess ∧ b.attempts = 0 then
        if 1 < b.maxAttempts then .retry else .failedExhausted
      else .succeeded := by
  by_cases permanent : b.executorMode = ExecutorModes.permanentFailure
  · have outcome : execute b (b.attempts + 1) =
        ⟨.permanentFailure, "Synthetic permanent failure."⟩ := by rw [execute, if_pos permanent]
    simp [attempt, outcome, permanent]
  by_cases transient : b.executorMode = ExecutorModes.transientThenSuccess ∧ b.attempts = 0
  · have outcome : execute b 1 = ⟨.transientFailure, "Synthetic transient failure."⟩ := by
      rw [execute, if_neg permanent, if_pos ⟨transient.1, rfl⟩]
    rw [if_neg permanent, if_pos transient]
    by_cases again : 1 < b.maxAttempts <;> simp [attempt, outcome, transient.2, again]
  · have outcome : execute b (b.attempts + 1) = ⟨.success, "ok"⟩ := by
      rw [execute, if_neg permanent, if_neg fun h => transient ⟨h.1, by omega⟩]
    rw [if_neg permanent, if_neg transient]
    simp [attempt, outcome]

/-- Only an action in retry is attempted again, after the delay. -/
theorem attempt_nextAttemptAt (options : OpsProcessingOptions) (b : QueuedAction) (now : Instant)
    (unfinished : (attempt options b now).action.status.final = false) :
    (attempt options b now).action.nextAttemptAt = now + options.retryDelay := by
  simp only [attempt] at unfinished ⊢
  split at unfinished
  · cases unfinished
  · split at unfinished
    · next failed retried => rw [if_neg failed, if_pos retried]
    · split at unfinished <;> cases unfinished

theorem attempt_executorMode (options : OpsProcessingOptions) (b : QueuedAction) (now : Instant) :
    (attempt options b now).action.executorMode = b.executorMode := by
  simp only [attempt]
  split
  · rfl
  · split <;> rfl

theorem attempt_maxAttempts (options : OpsProcessingOptions) (b : QueuedAction) (now : Instant) :
    (attempt options b now).action.maxAttempts = b.maxAttempts := by
  simp only [attempt]
  split
  · rfl
  · split <;> rfl

/-- The status and the attempts an action can have on its way to the end. -/
inductive Stage (a : QueuedAction) : ActionStatus → Nat → Prop
  | queued : Stage a .queued 0
  | retry (transient : a.executorMode = ExecutorModes.transientThenSuccess)
      (again : 1 < a.maxAttempts) : Stage a .retry 1
  | concluded : Stage a a.conclusion.1 a.conclusion.2

theorem Stage.of_conclusion {a : QueuedAction} {status : ActionStatus} {attempts : Nat}
    (h : a.conclusion = (status, attempts)) : Stage a status attempts := by
  have last := Stage.concluded (a := a)
  rwa [h] at last

theorem final_conclusion (a : QueuedAction) : a.conclusion.1.final = true := by
  unfold QueuedAction.conclusion
  split
  · rfl
  · split
    · split <;> rfl
    · rfl

theorem attempts_conclusion (a : QueuedAction) : a.conclusion.2 ≤ 2 := by
  unfold QueuedAction.conclusion
  split
  · decide
  · split
    · split <;> decide
    · decide

/-- What has become of the stored action `a`: the row `b`, after the executions `done`. -/
structure Progress (dueBy : Instant) (done : List String) (a b : QueuedAction) : Prop where
  id : b.id = a.id
  mode : b.executorMode = a.executorMode
  limit : b.maxAttempts = a.maxAttempts
  stage : Stage a b.status b.attempts
  executed : b.attempts = done.count a.id
  due : b.status.final = false → b.nextAttemptAt ≤ dueBy

namespace Progress

variable {dueBy : Instant} {done : List String} {a b : QueuedAction}

theorem attempts_le (h : Progress dueBy done a b) : b.attempts ≤ 2 := by
  have stage := h.stage
  generalize b.status = status, b.attempts = attempts at stage
  cases stage with
  | queued => decide
  | retry transient again => decide
  | concluded => exact attempts_conclusion a

theorem concluded (h : Progress dueBy done a b) (final : b.status.final = true) :
    (b.status, b.attempts) = a.conclusion := by
  have stage := h.stage
  generalize b.status = status, b.attempts = attempts at stage final ⊢
  cases stage with
  | queued => cases final
  | retry transient again => cases final
  | concluded => rfl

/-- An attempt of an unfinished action leads to its next stage. -/
theorem attempt_stage (h : Progress dueBy done a b) (unfinished : b.status.final = false)
    (options : OpsProcessingOptions) (now : Instant) :
    Stage a (attempt options b now).action.status (attempt options b now).action.attempts := by
  rw [attempt_status, attempt_attempts, h.mode, h.limit]
  have stage := h.stage
  generalize b.status = status, b.attempts = attempts at stage unfinished ⊢
  cases stage with
  | queued =>
    by_cases permanent : a.executorMode = ExecutorModes.permanentFailure
    · rw [if_pos permanent]
      exact .of_conclusion (by rw [QueuedAction.conclusion, if_pos permanent])
    by_cases transient : a.executorMode = ExecutorModes.transientThenSuccess
    · rw [if_neg permanent, if_pos ⟨transient, rfl⟩]
      by_cases again : 1 < a.maxAttempts
      · rw [if_pos again]
        exact .retry transient again
      · rw [if_neg again]
        refine .of_conclusion ?_
        rw [QueuedAction.conclusion, if_neg permanent, if_pos transient, if_pos (by omega)]
    · rw [if_neg permanent, if_neg fun h => transient h.1]
      exact .of_conclusion (by rw [QueuedAction.conclusion, if_neg permanent, if_neg transient])
  | retry transient again =>
    have permanent : a.executorMode ≠ ExecutorModes.permanentFailure := by
      rw [transient]
      decide
    rw [if_neg permanent, if_neg fun h => Nat.one_ne_zero h.2]
    refine .of_conclusion ?_
    rw [QueuedAction.conclusion, if_neg permanent, if_pos transient, if_neg (by omega)]
  | concluded => rw [final_conclusion] at unfinished; cases unfinished

theorem attempt (h : Progress dueBy done a b) (unfinished : b.status.final = false)
    (options : OpsProcessingOptions) {now : Instant} (late : now + options.retryDelay ≤ dueBy) :
    Progress dueBy (done ++ [b.id]) a (attempt options b now).action where
  id := (attempt_id options b now).trans h.id
  mode := (attempt_executorMode options b now).trans h.mode
  limit := (attempt_maxAttempts options b now).trans h.limit
  stage := h.attempt_stage unfinished options now
  executed := by
    rw [attempt_attempts, h.executed, h.id, List.count_append, List.count_singleton_self]
  due := fun again => (attempt_nextAttemptAt options b now again).trans_le late

/-- An action is left alone by the execution of another one. -/
theorem other (h : Progress dueBy done a b) {id : String} (other : b.id ≠ id) :
    Progress dueBy (done ++ [id]) a b :=
  { h with
    executed := by
      rw [h.executed, List.count_append, List.count_singleton, ← h.id]
      simp [Ne.symm other] }

theorem later (h : Progress dueBy done a b) {later : Instant} (le : dueBy ≤ later) :
    Progress later done a b :=
  { h with due := fun unfinished => (h.due unfinished).trans le }

end Progress

/-- What has become of the queue of `s`, after the executions `done`: the rows of `t`. -/
structure Underway (dueBy : Instant) (done : List String) (s t : Store) : Prop where
  ids : t.actions.rows.map QueuedAction.id = s.actions.rows.map QueuedAction.id
  progress : ∀ b ∈ t.actions.rows, ∃ a ∈ s.actions.rows, Progress dueBy done a b
  attempts : t.attempts = done.length

namespace Underway

variable {dueBy : Instant} {done : List String} {s t : Store}

theorem attempted (h : Underway dueBy done s t) {b : QueuedAction} (mem : b ∈ t.actions.rows)
    (unfinished : b.status.final = false) (options : OpsProcessingOptions) {now : Instant}
    (late : now + options.retryDelay ≤ dueBy) :
    Underway dueBy (done ++ [b.id]) s (t.attempted options b now) := by
  constructor
  · rw [← h.ids, Store.actions_attempted options mem, Table.rows_modify, List.map_map]
    refine List.map_congr_left fun r _ => ?_
    simp only [Function.comp_apply]
    split <;> simp
  · intro c hc
    rw [Store.actions_attempted options mem] at hc
    obtain ⟨r, hr, rfl⟩ := t.actions.mem_modify.mp hc
    obtain ⟨a, ha, progress⟩ := h.progress r hr
    refine ⟨a, ha, ?_⟩
    split
    · next same =>
      obtain rfl : r = b := t.actions.eq_of_key_eq hr mem same
      exact progress.attempt unfinished options late
    · next other => exact progress.other other
  · rw [Store.attempts_attempted options mem, h.attempts, List.length_append]
    rfl

theorem later (h : Underway dueBy done s t) {later : Instant} (le : dueBy ≤ later) :
    Underway later done s t :=
  { h with
    progress := fun b hb => by
      obtain ⟨a, ha, progress⟩ := h.progress b hb
      exact ⟨a, ha, progress.later le⟩ }

/-- Each action has at most two attempts. -/
theorem attempts_le (h : Underway dueBy done s t) : done.length ≤ 2 * s.actions.rows.length := by
  have length : t.actions.rows.length = s.actions.rows.length := by
    rw [← List.length_map (f := QueuedAction.id), h.ids, List.length_map]
  have bounded : ∀ n ∈ t.actions.rows.map QueuedAction.attempts, n ≤ 2 := by
    intro n hn
    obtain ⟨b, hb, rfl⟩ := List.mem_map.mp hn
    obtain ⟨a, -, progress⟩ := h.progress b hb
    exact progress.attempts_le
  have total := List.sum_le_card_nsmul _ _ bounded
  rw [List.length_map, length, smul_eq_mul, Nat.mul_comm] at total
  rw [← h.attempts]
  exact total

/-- The row that has become of an action. -/
theorem row (h : Underway dueBy done s t) {a : QueuedAction} (mem : a ∈ s.actions.rows) :
    ∃ b, t.actions.find? a.id = some b ∧ Progress dueBy done a b := by
  have stored : a.id ∈ t.actions.rows.map QueuedAction.id := h.ids ▸ List.mem_map_of_mem mem
  obtain ⟨b, hb, same⟩ := List.mem_map.mp stored
  obtain ⟨a', ha', progress⟩ := h.progress b hb
  obtain rfl : a' = a := s.actions.eq_of_key_eq ha' mem (progress.id.symm.trans same)
  exact ⟨b, t.actions.find?_eq_some_iff.mpr ⟨hb, same⟩, progress⟩

/-- A call that finds nothing due finds every action finished. -/
theorem final_of_getDueActions_eq_nil (h : Underway dueBy done s t) {limit : Nat}
    (positive : 0 < limit) {ties : List String} (none : t.getDueActions limit dueBy ties = []) :
    ∀ b ∈ t.actions.rows, b.status.final = true := by
  intro b hb
  have notDue := (t.actions.select_eq_nil positive).mp none b hb
  obtain ⟨a, -, progress⟩ := h.progress b hb
  by_contra unfinished
  rw [Bool.not_eq_true] at unfinished
  simp [Store.due, unfinished_iff.mp unfinished, progress.due unfinished] at notDue

end Underway

theorem getDueActions_of_final {s : Store} (final : ∀ b ∈ s.actions.rows, b.status.final = true)
    (limit : Nat) (now : Instant) (ties : List String) : s.getDueActions limit now ties = [] := by
  refine List.eq_nil_iff_forall_not_mem.mpr fun b hb => ?_
  obtain ⟨mem, status⟩ := Store.mem_getDueActions hb
  have unfinished := unfinished_iff.mpr status
  rw [final b mem] at unfinished
  cases unfinished

/-! ## Calls -/

/-- Every action of the store is queued, untouched and due. -/
def AllQueued (s : Store) (now : Instant) : Prop :=
  ∀ a ∈ s.actions.rows, a.status = .queued ∧ a.attempts = 0 ∧ a.nextAttemptAt ≤ now

theorem Underway.start {s : Store} {now : Instant} (start : AllQueued s now) :
    Underway now [] s s := by
  refine ⟨rfl, fun a ha => ⟨a, ha, ?_⟩, ?_⟩
  · obtain ⟨status, attempts, due⟩ := start a ha
    refine ⟨rfl, rfl, rfl, ?_, attempts, fun _ => due⟩
    rw [status, attempts]
    exact .queued
  · refine List.sum_eq_zero fun n hn => ?_
    obtain ⟨a, ha, rfl⟩ := List.mem_map.mp hn
    exact (start a ha).2.1

theorem retryDelay_nonneg (options : OpsProcessingOptions) : 0 ≤ options.retryDelay := by
  unfold OpsProcessingOptions.retryDelay fromMilliseconds
  omega

namespace Schedule

variable {options : OpsProcessingOptions} (run : Schedule options) {s : Store}

theorem underway (start : AllQueued s (run.clock 0 0)) (j : Nat) :
    Underway (run.clock j 0) (run.executions s j) s (run.stored s j) := by
  induction j with
  | zero => exact .start start
  | succ j ih =>
    have later : run.clock j 0 ≤ run.clock (j + 1) 0 :=
      (Int.le_add_of_nonneg_right (retryDelay_nonneg options)).trans (run.spaced j 0)
    have begun : Underway (run.clock (j + 1) 0) (run.executions s j) s (run.stored s j) :=
      ih.later later
    exact processPending_invariant options (run.limit j) (run.clock j) (run.ties j) (run.stored s j)
      (I := fun done _ t => Underway (run.clock (j + 1) 0) (run.executions s j ++ done) s t)
      (fun {done k t a} h mem unfinished => by
        rw [← List.append_assoc]
        exact h.attempted mem unfinished options (run.spaced j k))
      (by rwa [List.append_nil])

/-- As long as every call reads something, each executes at least one action. -/
theorem le_length_executions {n : Nat} (busy : ∀ j, j < n → run.read s j ≠ []) :
    n ≤ (run.executions s n).length := by
  induction n with
  | zero => exact Nat.zero_le _
  | succ n ih =>
    have before := ih fun j hj => busy j (hj.trans (Nat.lt_succ_self n))
    have some := List.length_pos_iff.mpr (busy n (Nat.lt_succ_self n))
    rw [executions, List.length_append, List.length_map]
    omega

/-- At most twice as many calls as there are actions find something due. -/
theorem exists_read_eq_nil (start : AllQueued s (run.clock 0 0)) :
    ∃ j ≤ 2 * s.actions.rows.length, run.read s j = [] := by
  by_contra busy
  have many := run.le_length_executions (n := 2 * s.actions.rows.length + 1) (s := s)
    fun j hj none => busy ⟨j, Nat.le_of_lt_succ hj, none⟩
  have few := (run.underway start (2 * s.actions.rows.length + 1)).attempts_le
  omega

/-- Once every action is finished, the calls leave the store alone. -/
theorem stored_of_final {j : Nat}
    (final : ∀ b ∈ (run.stored s j).actions.rows, b.status.final = true) {n : Nat} (le : j ≤ n) :
    run.stored s n = run.stored s j := by
  induction n, le using Nat.le_induction with
  | base => rfl
  | succ n _ ih =>
    rw [stored, ih, processPending, getDueActions_of_final final]
    rfl

end Schedule

/-! ## Three actions, one a call -/

/-- An action queued at time zero. -/
def queuedAction (id executorMode : String) (maxAttempts : Int) : QueuedAction :=
  ⟨id, "inc_1", "asset-1", "collect_diagnostics", executorMode, .queued, 0, maxAttempts, 0, 0, 0,
    none⟩

/-- An action that fails once and may be repeated, one that may not, and one in no known mode. -/
def threeQueued : Store :=
  { Store.empty with
    actions := ⟨[queuedAction "act_1" "transient_then_success" 2,
      queuedAction "act_2" "transient_then_success" (-1), queuedAction "act_3" "manual" 0],
      by decide⟩ }

/-- A call for one action every second. -/
def everySecond : Schedule {} where
  limit _ := 1
  clock j _ := fromSeconds j
  positive _ := Nat.one_pos
  spaced j _ := by
    have delay : OpsProcessingOptions.retryDelay {} = 1000000 := by decide
    change (j : Int) * 10000000 + OpsProcessingOptions.retryDelay {} ≤
      ((j + 1 : Nat) : Int) * 10000000
    omega

/-! ## The whole run -/

/-- Every queue drains: each call counts what it reads, within its limit; every action is executed
at most twice; after at most twice as many calls as there are actions nothing is due at any time,
and each action is where its mode and its limit of attempts lead; and the four counts of the
metrics add up to the number of actions in every store, which stays the number at the start. -/
theorem processPending_drains {options : OpsProcessingOptions} (run : Schedule options) (s : Store)
    (start : AllQueued s (run.clock 0 0)) :
    (∀ j, (run.batch s j).processed =
        (run.batch s j).succeeded + (run.batch s j).retried + (run.batch s j).failed ∧
      (run.batch s j).processed ≤ run.limit j) ∧
    (∀ n, ∀ a ∈ s.actions.rows, (run.executions s n).count a.id ≤ 2) ∧
    (∃ N ≤ 2 * s.getMetrics.actions, ∀ n, N ≤ n →
      (∀ limit now ties, (run.stored s n).getDueActions limit now ties = []) ∧
      ∀ a ∈ s.actions.rows, ∃ b, (run.stored s n).actions.find? a.id = some b ∧
        (b.status, b.attempts) = a.conclusion) ∧
    (∀ t : Store, t.getMetrics.queuedActions + t.getMetrics.retryActions +
      t.getMetrics.succeededActions + t.getMetrics.failedActions = t.getMetrics.actions) ∧
    ∀ n, (run.stored s n).getMetrics.actions = s.getMetrics.actions := by
  refine ⟨fun j => processPending_counts options _ _ _ _, fun n a ha => ?_, ?_,
    Store.getMetrics_statuses, fun n => ?_⟩
  · obtain ⟨b, -, progress⟩ := (run.underway start n).row ha
    rw [← progress.executed]
    exact progress.attempts_le
  · obtain ⟨N, bound, none⟩ := run.exists_read_eq_nil start
    have final := (run.underway start N).final_of_getDueActions_eq_nil (run.positive N) none
    refine ⟨N, bound, fun n later => ?_⟩
    rw [run.stored_of_final final later]
    refine ⟨getDueActions_of_final final, fun a ha => ?_⟩
    obtain ⟨b, found, progress⟩ := (run.underway start N).row ha
    exact ⟨b, found, progress.concluded (final b (Table.mem_of_find? _ found))⟩
  · have ids := congrArg List.length (run.underway start n).ids
    rwa [List.length_map, List.length_map] at ids

theorem processPending_drains_threeQueued : ∃ N ≤ 6, ∀ n, N ≤ n →
    ((everySecond.stored threeQueued n).actions.find? "act_1").map
      (fun b => (b.status, b.attempts)) = some (.succeeded, 2) ∧
    ((everySecond.stored threeQueued n).actions.find? "act_2").map
      (fun b => (b.status, b.attempts)) = some (.failedExhausted, 1) := by
  obtain ⟨-, -, ⟨N, bound, ended⟩, -⟩ := processPending_drains everySecond threeQueued
    (by unfold AllQueued; decide)
  refine ⟨N, bound, fun n later => ?_⟩
  obtain ⟨-, rows⟩ := ended n later
  obtain ⟨b, found, stage⟩ := rows (queuedAction "act_1" "transient_then_success" 2) (.head _)
  obtain ⟨c, found', stage'⟩ := rows (queuedAction "act_2" "transient_then_success" (-1))
    (.tail _ (.head _))
  have found : (everySecond.stored threeQueued n).actions.find? "act_1" = some b := found
  have found' : (everySecond.stored threeQueued n).actions.find? "act_2" = some c := found'
  rw [found, found', Option.map_some, Option.map_some, stage, stage']
  decide

end SupportOps.DotNet
