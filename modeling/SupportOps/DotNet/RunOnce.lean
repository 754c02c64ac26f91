import SupportOps.DotNet.ConcurrentBatches
import SupportOps.DotNet.LimitedDrain

/-!
# The engine benchmark as it is run

`RunOnceAsync` with its own bound: after the events at most ten calls of `ProcessPendingAsync`, for
10 000 actions each. No action has been attempted when the events are in, so the calls report the
counters of the log as long as nine of them have more places than the queue takes attempts.
-/
namespace SupportOps.DotNet

open Library Benchmark

/-! ## The run -/

namespace EngineRun

variable (run : EngineRun)

/-- The calls of `RunOnceAsync`. -/
def calls : Calls benchmarkOptions where
  limit _ := 10000
  clock := run.clock
  ties := run.ties

variable {run}

theorem Forward.calls (forward : run.Forward) : run.calls.Forward := by
  intro j k
  refine ⟨?_, forward.between j k⟩
  induction k with
  | zero => exact Int.le_refl _
  | succ k ih => exact ih.trans (forward.within j k)

end EngineRun

/-- `RunOnceAsync`: the errors, and the store at `GetMetricsAsync`. -/
def runOnceAsync (run : EngineRun) (events : List SharedEvent) : Nat × Store :=
  let (errors, s) := ingestEvents run 0 events (0, .empty)
  (errors, run.calls.drainActions 10 0 s)

/-- Calls that come to an end within the rounds end where those without a bound do. -/
theorem drainActions_of_drain {run : EngineRun} (limit : run.limit = 10000) (rounds : Nat) :
    ∀ {j : Nat} {s t : Store}, drain run rounds j s = some t →
      run.calls.drainActions rounds j s = t := by
  induction rounds with
  | zero => intro j s t ended; cases ended
  | succ rounds ih =>
    intro j s t ended
    rcases call : processPending benchmarkOptions 10000 (run.clock j) (run.ties j) s with ⟨batch, u⟩
    have same : processPending benchmarkOptions (run.calls.limit j) (run.calls.clock j)
        (run.calls.ties j) s = (batch, u) := call
    simp only [drain, limit, call] at ended
    simp only [Calls.drainActions, same]
    split
    · next idle => rw [if_pos idle] at ended; exact Option.some.inj ended
    · next busy => rw [if_neg busy] at ended; exact ih ended

/-- Where `drain` needs at most ten calls, the run is the one without a bound. -/
theorem runOnceAsync_of_drained {run : EngineRun} (limit : run.limit = 10000)
    {events : List SharedEvent} {errors : Nat} {t : Store}
    (ended : runDotnetEngine run 10 events = some (errors, t)) :
    runOnceAsync run events = (errors, t) := by
  rcases ingested : ingestEvents run 0 events (0, .empty) with ⟨failed, s⟩
  simp only [runDotnetEngine, ingested] at ended
  obtain ⟨u, drained, same⟩ := Option.map_eq_some_iff.mp ended
  rw [← same, ← drainActions_of_drain limit 10 drained]
  simp only [runOnceAsync, ingested]

/-! ## The queue when the events are in -/

/-- No action has been attempted. -/
def Store.Untouched (s : Store) : Prop :=
  ∀ a ∈ s.actions.rows, a.status = .queued ∧ a.attempts = 0

theorem Recorded.untouched {culture : Culture} {c : DecisionCall} {s t : Store}
    {r : EventIngestionResult} (recorded : Recorded culture c s r t) (h : s.Untouched) :
    t.Untouched := by
  rcases actions_of_recorded recorded with same | ⟨-, insert⟩
  · rw [Store.Untouched, same]
    exact h
  · rw [Store.Untouched, insert]
    exact s.actions.forall_insert h ⟨rfl, rfl⟩

theorem ingestEvents_untouched (run : EngineRun) (events : List SharedEvent) :
    ∀ (i : Nat) {errors : Nat} {s : Store}, s.Untouched →
      (ingestEvents run i events (errors, s)).2.Untouched := by
  induction events with
  | nil => exact fun _ _ _ h => h
  | cons e events ih =>
    intro i errors s h
    rw [ingestEvents]
    cases ingested : ingest run.culture benchmarkOptions (toRequest e) (run.now i) (run.guids i)
        s with
    | error _ => exact ih (i + 1) h
    | ok answer =>
      refine ih (i + 1) ?_
      unfold ingest at ingested
      split at ingested
      · cases ingested
      · next event normalized =>
        cases recorded : (decisionCall benchmarkOptions event (run.now i)
            (run.guids i)).recordIngestionDecision run.culture s with
        | error _ => rw [recorded] at ingested; cases ingested
        | ok result =>
          rw [recorded] at ingested
          cases ingested
          exact (recorded_of_recordIngestionDecision recorded).2.untouched h

/-! ## The counters -/

/-- The counters that the store comes to are those of its log. -/
theorem Follows.eventually {latest : Instant} {s : Store} {log : List Entry}
    (h : Follows latest s log) : s.eventually = Metrics.ofLog log := by
  have stages : s.actions.rows.map QueuedAction.conclusion = (modes log).map finishedStage := by
    rw [← List.forall₂_eq_eq_eq, List.forall₂_map_left_iff, List.forall₂_map_right_iff]
    refine h.actions.imp fun a m course => ?_
    rw [QueuedAction.conclusion, course.mode, course.limit]
    cases m <;> decide
  obtain ⟨succeeded, failed, retries, permanent⟩ := counts_of_stages stages
  simp only [Store.eventually, Metrics.ofLog, Metrics.mk.injEq]
  exact ⟨h.events, h.length_incidents, h.length_actions, h.suppressed, succeeded, failed, retries,
    permanent⟩

/-- A run over plain events reports no error and the counters of its log, if nine calls have more
places than the actions take attempts. -/
theorem runOnceAsync_metrics (run : EngineRun) (distinct : run.Distinct)
    (keeps : run.culture.KeepsModes) (forward : run.Forward) {now : Nat → Benchmark.Instant}
    (times : ∀ i, run.now i = ticks (now i)) (events : List SharedEvent)
    (plain : ∀ e ∈ events, Plain run.culture e)
    (before : ∀ i, i < events.length → run.now i ≤ run.clock 0 0)
    (slack : (Metrics.ofLog (dotnetPolicy.log (timed now 0 events))).actions +
      (Metrics.ofLog (dotnetPolicy.log (timed now 0 events))).retryAttempts < 9 * 10000) :
    ∃ t, runOnceAsync run events = (0, t) ∧
      dotnetMetrics t = Metrics.ofLog (dotnetPolicy.log (timed now 0 events)) := by
  have drawn : Drawn run 0 .empty := ⟨by simp [Store.empty], by simp [Store.empty],
    by simp [Store.empty]⟩
  obtain ⟨s, ingested, follows⟩ := ingestEvents_follows run distinct keeps times events plain 0 0
    (fun j hj => by rw [Nat.zero_add, ← times]; exact before j hj) (.empty _) drawn
  have untouched : s.Untouched := by
    have kept : (ingestEvents run 0 events (0, .empty)).2.Untouched :=
      ingestEvents_untouched run events 0 fun a ha => by cases ha
    rwa [ingested] at kept
  have start : AllQueued s (run.calls.clock 0 0) := fun a ha => by
    obtain ⟨m, course⟩ := follows.onCourse a ha
    exact ⟨(untouched a ha).1, (untouched a ha).2, course.due⟩
  have onTime : run.calls.OnTime s :=
    ⟨fun _ => Nat.succ_pos 9999, forward.calls,
      fun j _ k => (Int.add_zero _).trans_le (forward.calls j k).2, start⟩
  have counters : s.eventually = Metrics.ofLog (dotnetPolicy.log (timed now 0 events)) :=
    follows.eventually
  rw [← counters] at slack ⊢
  refine ⟨run.calls.drainActions 10 0 s, ?_, onTime.drainActions_of_slack (fun _ => rfl) slack⟩
  rw [runOnceAsync, ingested]

end SupportOps.DotNet
