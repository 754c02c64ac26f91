import SupportOps.DotNet.Engine

/-!
# Until nothing is due

With no retry delay every unfinished action is due at once, and each attempt takes its action one
stage further on the course of its mode. So the calls of `ProcessPendingAsync` come to an end, the
actions are finished in the order in which they were queued, and the counters are those of the
log.
-/
namespace SupportOps.DotNet

open Library Benchmark

/-! ## One attempt -/

section Attempt

variable {latest : Instant} {a : QueuedAction} {m : ExecutorMode}

/-- The executor's answer to an action in the mode. -/
theorem execute_of_mode (mode : a.executorMode = m.value) (attempt : Nat) :
    (execute a attempt).kind = if m = .permanentFailure then .permanentFailure
      else if m = .transientThenSuccess ∧ attempt = 1 then .transientFailure
      else .success := by
  rw [execute, mode]
  cases m with
  | success => rfl
  | permanentFailure => rfl
  | transientThenSuccess =>
    by_cases first : attempt = 1
    · rw [if_neg (by decide), if_pos ⟨rfl, first⟩, if_neg (by decide), if_pos ⟨rfl, first⟩]
    · rw [if_neg (by decide), if_neg fun h => first h.2, if_neg (by decide),
        if_neg fun h => first h.2]

/-- The stage a finished action is left in. -/
def finishedStage : ExecutorMode → ActionStatus × Nat
  | .success => (.succeeded, 1)
  | .transientThenSuccess => (.succeeded, 2)
  | .permanentFailure => (.failedPermanent, 1)

theorem OnCourse.attempts_le (h : OnCourse latest a m) : a.attempts ≤ 2 := by
  have bounded : ∀ stage ∈ course m, stage.2 ≤ 2 := by cases m <;> decide
  exact bounded _ h.stage

theorem OnCourse.finished (h : OnCourse latest a m) (final : a.status.final = true) :
    (a.status, a.attempts) = finishedStage m := by
  have last : ∀ stage ∈ course m, stage.1.final = true → stage = finishedStage m := by
    cases m <;> decide
  exact last _ h.stage final

theorem OnCourse.unfinished (h : OnCourse latest a m) (unfinished : a.status.final = false) :
    a.attempts = 0 ∨ m = .transientThenSuccess ∧ a.attempts = 1 := by
  have early : ∀ stage ∈ course m, stage.1.final = false →
      stage.2 = 0 ∨ m = .transientThenSuccess ∧ stage.2 = 1 := by
    cases m <;> decide
  exact early _ h.stage unfinished

/-- An attempt of an unfinished action leads to its next stage. -/
theorem OnCourse.attempt (h : OnCourse latest a m) (unfinished : a.status.final = false)
    (now : Instant) : OnCourse now (attempt benchmarkOptions a now).action m := by
  have delay : now + benchmarkOptions.retryDelay = now := Int.add_zero now
  have kind := execute_of_mode h.mode (a.attempts + 1)
  have mode := h.mode
  have limit := h.limit
  rcases h.unfinished unfinished with start | ⟨rfl, second⟩
  · rw [start] at kind
    cases m with
    | success =>
      simp at kind
      constructor <;> simp [DotNet.attempt, start, kind, mode, limit, course]
    | transientThenSuccess =>
      simp at kind
      constructor <;> simp [DotNet.attempt, start, kind, mode, limit, course, delay]
    | permanentFailure =>
      simp at kind
      constructor <;> simp [DotNet.attempt, start, kind, mode, limit, course]
  · simp [second] at kind
    constructor <;> simp [DotNet.attempt, second, kind, mode, limit, course]

theorem not_suppresses_attempt (options : OpsProcessingOptions) (a : QueuedAction)
    (now : Instant) : (attempt options a now).audit.suppresses = false := by
  simp only [DotNet.attempt]
  split
  · rfl
  · split
    · rfl
    · simp only [AuditLogEntry.suppresses]
      split <;> rfl

end Attempt

/-! ## One call -/

/-- The attempts of all actions. -/
def Store.attempts (s : Store) : Nat := (s.actions.rows.map QueuedAction.attempts).sum

/-- The statement writes the attempt of the one row with its id. -/
theorem modify_attempted (options : OpsProcessingOptions) {t : Table QueuedAction}
    {a : QueuedAction} (mem : a ∈ t.rows) (now : Instant) :
    t.modify (attempt options a now).action.id (attempt options a now).action.updated
        (attempt options a now).action.key_updated =
      t.modify a.id (fun r => (attempt options r now).action)
        (fun r => attempt_id options r now) := by
  refine Table.ext (List.map_congr_left fun r hr => ?_)
  rw [attempt_id, key_queuedAction]
  by_cases same : r.id = a.id
  · obtain rfl : r = a := t.eq_of_key_eq hr mem same
    rw [if_pos rfl, if_pos rfl, attempt_updated]
  · rw [if_neg same, if_neg same]

theorem unfinished_iff {a : QueuedAction} :
    a.status.final = false ↔ a.status = .queued ∨ a.status = .retry := by
  cases a.status <;> simp [ActionStatus.final]

/-- The store after an attempt. -/
def Store.attempted (s : Store) (options : OpsProcessingOptions) (a : QueuedAction)
    (now : Instant) : Store :=
  s.write [.updateAction (attempt options a now).action, .addAudit (attempt options a now).audit]

section Loop

variable (options : OpsProcessingOptions)

theorem Store.actions_attempted {s : Store} {a : QueuedAction} (mem : a ∈ s.actions.rows)
    (now : Instant) :
    (s.attempted options a now).actions =
      s.actions.modify a.id (fun r => (attempt options r now).action)
        (fun r => attempt_id options r now) := by
  rw [← modify_attempted options mem now]
  rfl

theorem Store.attempts_attempted {s : Store} {a : QueuedAction} (mem : a ∈ s.actions.rows)
    (now : Instant) : (s.attempted options a now).attempts = s.attempts + 1 := by
  rw [Store.attempts, Store.actions_attempted options mem]
  exact s.actions.sum_modify _ (fun r => attempt_attempts options r now) mem

/-- What every attempt of an unfinished row keeps, the loop over unfinished rows keeps: a property
of the executed ids, the readings of the clock and the store. -/
theorem processEach_invariant (clock : Nat → Instant) {I : List String → Nat → Store → Prop}
    (kept : ∀ {done : List String} {k : Nat} {s : Store} {a : QueuedAction}, I done k s →
      a ∈ s.actions.rows → a.status.final = false →
      I (done ++ [a.id]) (k + 1) (s.attempted options a (clock k)))
    (todo : List QueuedAction) :
    ∀ {done : List String} {k : Nat} (r : ActionProcessingBatchResult) {s : Store}, I done k s →
      (todo.map QueuedAction.id).Nodup →
      (∀ a ∈ todo, a ∈ s.actions.rows ∧ a.status.final = false) →
      I (done ++ todo.map QueuedAction.id) (k + todo.length)
        (processEach options clock k todo r s).2 := by
  induction todo with
  | nil =>
    intro done k r s start _ _
    rw [List.map_nil, List.append_nil]
    exact start
  | cons a todo ih =>
    intro done k r s start nodup current
    obtain ⟨mem, unfinished⟩ := current a (.head _)
    obtain ⟨apart, nodup⟩ := List.nodup_cons.mp nodup
    have rest := ih (r.count (attempt options a (clock k)).action.status)
      (kept start mem unfinished) nodup fun b hb => by
        obtain ⟨here, pending⟩ := current b (.tail _ hb)
        refine ⟨?_, pending⟩
        have other : b.id ≠ a.id := fun same => apart (same ▸ List.mem_map_of_mem hb)
        rw [Store.actions_attempted options mem]
        exact s.actions.mem_modify.mpr ⟨b, here, (if_neg other).symm⟩
    rwa [List.append_assoc, Nat.add_right_comm] at rest

/-- A call reads unfinished rows, each once. -/
theorem processPending_invariant (limit : Nat) (clock : Nat → Instant) (ties : List String)
    (s : Store) {I : List String → Nat → Store → Prop}
    (kept : ∀ {done : List String} {k : Nat} {t : Store} {a : QueuedAction}, I done k t →
      a ∈ t.actions.rows → a.status.final = false →
      I (done ++ [a.id]) (k + 1) (t.attempted options a (clock k)))
    (start : I [] 1 s) :
    I ((s.getDueActions limit (clock 0) ties).map QueuedAction.id)
      (1 + (s.getDueActions limit (clock 0) ties).length)
      (processPending options limit clock ties s).2 :=
  processEach_invariant options clock kept _ _ start (s.actions.nodup_select ..) fun a ha => by
    obtain ⟨mem, status⟩ := Store.mem_getDueActions ha
    exact ⟨mem, unfinished_iff.mpr status⟩

theorem count_processed (r : ActionProcessingBatchResult) (status : ActionStatus) :
    (r.count status).processed = r.processed := by
  cases status <;> rfl

theorem count_total (r : ActionProcessingBatchResult) (status : ActionStatus) :
    (r.count status).succeeded + (r.count status).retried + (r.count status).failed =
      r.succeeded + r.retried + r.failed + 1 := by
  cases status <;> simp [ActionProcessingBatchResult.count] <;> omega

/-- Every iteration is counted once, and the number of rows read is not touched. -/
theorem processEach_counts (clock : Nat → Instant)
    (todo : List QueuedAction) :
    ∀ (k : Nat) (r : ActionProcessingBatchResult) (s : Store),
      (processEach options clock k todo r s).1.processed = r.processed ∧
      (processEach options clock k todo r s).1.succeeded +
          (processEach options clock k todo r s).1.retried +
          (processEach options clock k todo r s).1.failed =
        r.succeeded + r.retried + r.failed + todo.length := by
  induction todo with
  | nil => exact fun _ _ _ => ⟨rfl, rfl⟩
  | cons action todo ih =>
    intro k r s
    obtain ⟨processed, total⟩ := ih (k + 1)
      (r.count (attempt options action (clock k)).action.status)
      (s.write [.updateAction (attempt options action (clock k)).action,
        .addAudit (attempt options action (clock k)).audit])
    refine ⟨processed.trans (count_processed r _), total.trans ?_⟩
    rw [count_total, List.length_cons]
    omega

end Loop

section Call

variable {latest : Instant} {s : Store} {log : List Entry}

theorem Follows.length_actions (h : Follows latest s log) :
    s.actions.rows.length = (modes log).length := h.actions.length_eq

theorem Follows.onCourse (h : Follows latest s log) :
    ∀ a ∈ s.actions.rows, ∃ m, OnCourse latest a m :=
  ((List.forall₂_and_left (R := fun _ _ => True) _ _).mp
    (h.actions.imp fun _ m course => ⟨⟨m, course⟩, trivial⟩)).1

theorem Follows.attempts_le (h : Follows latest s log) : s.attempts ≤ 2 * (modes log).length := by
  have aligned := h.actions
  unfold Store.attempts
  generalize s.actions.rows = rows at aligned ⊢
  generalize modes log = ms at aligned ⊢
  induction aligned with
  | nil => exact Nat.le_refl 0
  | cons first rest ih =>
    have := first.attempts_le
    simp only [List.map_cons, List.sum_cons, List.length_cons]
    omega

/-- An attempt of an unfinished row is written and audited. -/
theorem Follows.attempted (h : Follows latest s log) {a : QueuedAction}
    (mem : a ∈ s.actions.rows) (unfinished : a.status.final = false) {now : Instant}
    (later : latest ≤ now) : Follows now (s.attempted benchmarkOptions a now) log := by
  refine ⟨h.events, h.incidents, ?_, ?_⟩
  · rw [Store.actions_attempted benchmarkOptions mem, Table.rows_modify,
      List.forall₂_map_left_iff]
    refine ((List.forall₂_and_left _ _).mpr ⟨fun _ here => here, h.actions⟩).imp ?_
    rintro r m ⟨here, course⟩
    split
    · next same =>
      obtain rfl : r = a := s.actions.eq_of_key_eq here mem same
      exact course.attempt unfinished now
    · exact { course with due := course.due.trans later }
  · rw [← h.suppressed]
    change (s.audits ++ [(attempt benchmarkOptions a now).audit]).countP _ = _
    rw [suppresses_concat, not_suppresses_attempt]
    rfl

end Call

/-! ## All calls -/

/-- The clock does not run backwards, neither during a call nor from one call to the next. -/
structure EngineRun.Forward (run : EngineRun) : Prop where
  within : ∀ j k, run.clock j k ≤ run.clock j (k + 1)
  between : ∀ j k, run.clock j k ≤ run.clock (j + 1) 0

section Drain

variable {latest : Instant} {s : Store} {log : List Entry} {limit : Nat}

/-- A call attempts what it finds due. -/
theorem Follows.processPending (h : Follows latest s log) {clock : Nat → Instant}
    (forward : ∀ k, clock k ≤ clock (k + 1)) (reached : latest ≤ clock 0) (limit : Nat)
    (ties : List String) :
    ∃ t last, (processPending benchmarkOptions limit clock ties s).2 = t ∧
      (processPending benchmarkOptions limit clock ties s).1.processed =
        (s.getDueActions limit (clock 0) ties).length ∧
      last ≤ clock (1 + (s.getDueActions limit (clock 0) ties).length) ∧ Follows last t log ∧
      t.attempts = s.attempts + (s.getDueActions limit (clock 0) ties).length := by
  obtain ⟨⟨last, ended, follows⟩, attempts⟩ :=
    processPending_invariant benchmarkOptions limit clock ties s
      (I := fun done k t => (∃ last, last ≤ clock k ∧ Follows last t log) ∧
        t.attempts = s.attempts + done.length)
      (fun {done k t a} before mem unfinished => by
        obtain ⟨⟨last, ended, follows⟩, attempts⟩ := before
        refine ⟨⟨clock k, forward k, follows.attempted mem unfinished ended⟩, ?_⟩
        rw [Store.attempts_attempted benchmarkOptions mem, attempts, List.length_append]
        rfl)
      ⟨⟨latest, reached.trans (forward 0), h⟩, rfl⟩
  rw [List.length_map] at attempts
  exact ⟨_, last, rfl, (processEach_counts benchmarkOptions clock _ 1 _ s).1, ended, follows,
    attempts⟩

/-- A call that finds nothing due finds every action finished. -/
theorem Follows.final_of_getDueActions_eq_nil (h : Follows latest s log) (positive : 0 < limit)
    {now : Instant} (later : latest ≤ now) {ties : List String}
    (none : s.getDueActions limit now ties = []) :
    ∀ a ∈ s.actions.rows, a.status.final = true := by
  intro a ha
  have notDue := (s.actions.select_eq_nil positive).mp none a ha
  obtain ⟨m, course⟩ := h.onCourse a ha
  by_contra unfinished
  rw [Bool.not_eq_true, unfinished_iff] at unfinished
  simp [Store.due, unfinished, course.due.trans later] at notDue

/-- The calls come to an end with every action finished: each one that finds something due makes
at least one of the two attempts an action can take. -/
theorem Follows.drain {run : EngineRun} (forward : run.Forward) (positive : 0 < run.limit)
    (rounds : Nat) :
    ∀ {j : Nat} {latest : Instant} {s : Store}, latest ≤ run.clock j 0 → Follows latest s log →
      2 * (modes log).length < rounds + s.attempts →
      ∃ t last, drain run rounds j s = some t ∧ Follows last t log ∧
        ∀ a ∈ t.actions.rows, a.status.final = true := by
  induction rounds with
  | zero =>
    intro j latest s _ h enough
    have := h.attempts_le
    omega
  | succ rounds ih =>
    intro j latest s reached h enough
    obtain ⟨t, last, stored, processed, ended, follows, attempts⟩ :=
      h.processPending (forward.within j) reached run.limit (run.ties j)
    simp only [DotNet.drain, processed, stored, List.length_eq_zero_iff]
    by_cases none : s.getDueActions run.limit (run.clock j 0) (run.ties j) = []
    · have same : t = s := by
        rw [← stored, DotNet.processPending, none]
        rfl
      rw [if_pos none, same]
      exact ⟨s, latest, rfl, h, h.final_of_getDueActions_eq_nil positive reached none⟩
    · rw [if_neg none]
      have some := List.length_pos_iff.mpr none
      exact ih (ended.trans (forward.between j _)) follows (by omega)

end Drain

/-! ## The whole run -/

theorem Follows.length_incidents {latest : Instant} {s : Store} {log : List Entry}
    (h : Follows latest s log) :
    s.incidents.rows.length = log.countP fun x => x.decision.opens := by
  rw [← List.length_map (f := Incident.trace), h.incidents, List.length_map,
    List.countP_eq_length_filter]

/-- The counters of actions that are in the stages where the modes of a log lead. -/
theorem counts_of_stages {rows : List QueuedAction} {stage : QueuedAction → ActionStatus × Nat}
    {log : List Entry} (stages : rows.map stage = (modes log).map finishedStage) :
    (rows.countP fun a => (stage a).1 = .succeeded) = (Metrics.ofLog log).succeededActions ∧
    (rows.countP fun a => (stage a).1 = .failedPermanent ∨ (stage a).1 = .failedExhausted) =
      (Metrics.ofLog log).failedActions ∧
    (rows.map fun a => if 1 < (stage a).2 then (stage a).2 - 1 else 0).sum =
      (Metrics.ofLog log).retryAttempts ∧
    (rows.countP fun a => (stage a).1 = .failedPermanent) =
      (Metrics.ofLog log).permanentFailures := by
  have succeeded := countP_column stages fun p => decide (p.1 = .succeeded)
  have failed := countP_column stages fun p =>
    decide (p.1 = .failedPermanent ∨ p.1 = .failedExhausted)
  have permanent := countP_column stages fun p => decide (p.1 = .failedPermanent)
  have retries := sum_column stages (fun p => if 1 < p.2 then p.2 - 1 else 0)
    fun m => by cases m <;> rfl
  refine ⟨succeeded.trans ?_, failed.trans ?_, retries, permanent.trans ?_⟩
  · exact List.countP_congr fun m _ => by cases m <;> decide
  · exact List.countP_congr fun m _ => by cases m <;> decide
  · exact List.countP_congr fun m _ => by cases m <;> decide

/-- The counters of a store whose actions are finished. -/
theorem Follows.dotnetMetrics {latest : Instant} {s : Store} {log : List Entry}
    (h : Follows latest s log) (finished : ∀ a ∈ s.actions.rows, a.status.final = true) :
    dotnetMetrics s = Metrics.ofLog log := by
  have stages : (s.actions.rows.map fun a => (a.status, a.attempts)) =
      (modes log).map finishedStage := by
    rw [← List.forall₂_eq_eq_eq, List.forall₂_map_left_iff, List.forall₂_map_right_iff]
    exact ((List.forall₂_and_left _ _).mpr ⟨finished, h.actions⟩).imp
      fun a m both => both.2.finished both.1
  obtain ⟨succeeded, failed, retries, permanent⟩ := counts_of_stages stages
  simp only [DotNet.dotnetMetrics, Metrics.ofLog, Metrics.mk.injEq]
  exact ⟨h.events, h.length_incidents, h.length_actions, h.suppressed, succeeded, failed, retries,
    permanent⟩

/-- A run over plain events reports no error and the counters of its log. -/
theorem runDotnetEngine_metrics (run : EngineRun) (distinct : run.Distinct)
    (keeps : run.culture.KeepsModes) (forward : run.Forward) (positive : 0 < run.limit)
    {now : Nat → Benchmark.Instant} (times : ∀ i, run.now i = ticks (now i))
    (events : List SharedEvent) (plain : ∀ e ∈ events, Plain run.culture e)
    (before : ∀ i, i < events.length → run.now i ≤ run.clock 0 0) (rounds : Nat)
    (enough : 2 * events.length < rounds) :
    ∃ t, runDotnetEngine run rounds events = some (0, t) ∧
      dotnetMetrics t = Metrics.ofLog (dotnetPolicy.log (timed now 0 events)) := by
  have drawn : Drawn run 0 .empty := ⟨by simp [Store.empty], by simp [Store.empty],
    by simp [Store.empty]⟩
  obtain ⟨s, ingested, follows⟩ := ingestEvents_follows run distinct keeps times events plain 0 0
    (fun j hj => by rw [Nat.zero_add, ← times]; exact before j hj) (.empty _) drawn
  have few := dotnetPolicy.length_modes_log (timed now 0 events)
  rw [length_timed] at few
  obtain ⟨t, last, drained, follows, finished⟩ := follows.drain forward positive rounds
    (Int.le_refl _) (by
      change 2 * (modes (dotnetPolicy.log _)).length < _
      omega)
  refine ⟨t, ?_, follows.dotnetMetrics finished⟩
  simp only [runDotnetEngine, ingested, drained]
  rfl

end SupportOps.DotNet
