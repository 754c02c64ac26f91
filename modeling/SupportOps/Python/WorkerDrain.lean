import Mathlib.Algebra.Order.BigOperators.Group.List
import SupportOps.Library.Paths
import SupportOps.Python.WorkerPass

/-!
# The worker and the retry loop

Passes of the worker, one after another until one of them has nothing to do, beside
`execute_action_with_retry`. For a transport whose outcome depends on what identifies the attempt,
each action has one path to its end. Whoever attempts it follows this path, so that the worker and
the loop agree wherever both arrive.
-/
namespace SupportOps.Python

open Library

/-! ## The path of one action -/

/-- What an attempt reads of an action and decides about it, without the times and the lease. -/
structure Standing where
  id : Nat
  actionType : String
  state : ActionState
  attempts : Nat
  detail : String
  deriving DecidableEq, Repr

def Action.standing (a : Action) : Standing := ⟨a.id, a.actionType, a.state, a.attempts, a.detail⟩

/-- What a transport answers for an id, an action type, a detail and a number of attempts. -/
abbrev Oracle := Nat → String → String → Nat → Bool × String

/-- The transport returns or times out, and what it answers depends on nothing else. -/
def Transport.AnswersBy (transport : Transport) (answer : Oracle) : Prop :=
  ∀ a, (transport a).outcome = some (answer a.id a.actionType a.detail a.attempts)

theorem Transport.AnswersBy.calm {transport : Transport} {answer : Oracle}
    (answers : transport.AnswersBy answer) : transport.Calm := by
  intro a raised
  have none := (TransportReply.outcome_eq_none_iff (transport a)).mpr raised
  rw [answers a] at none
  cases none

namespace Standing

/-- The state an attempt leads to. -/
def reached (maxAttempts : Nat) (v : Standing) (succeeded : Bool) : ActionState :=
  if succeeded then .succeeded
  else if contains "permanent_failure" v.detail || decide (maxAttempts ≤ v.attempts + 1) then
    .failed
  else .retry

/-- Where an attempt leads. -/
def attempted (maxAttempts : Nat) (v : Standing) (succeeded : Bool) (detail : String) :
    Standing :=
  let state := v.reached maxAttempts succeeded
  { v with
    state := state
    attempts := v.attempts + 1
    detail := if state = .retry then v.detail else detail }

def message (v : Standing) : String :=
  v.actionType ++ " finished as " ++ v.state.value ++ " after " ++ toString v.attempts
    ++ " attempts"

/-- One attempt on an unfinished action, and the message that is recorded. -/
def next (maxAttempts : Nat) (answer : Oracle) (v : Standing) : Option (Standing × String) :=
  if v.state = .queued ∨ v.state = .retry then
    let reply := answer v.id v.actionType v.detail (v.attempts + 1)
    let w := v.attempted maxAttempts reply.1 reply.2
    some (w, w.message)
  else none

end Standing

theorem Action.standing_outcome (args : PassArgs) (a : Action) (succeeded : Bool)
    (detail : String) : (a.outcome args succeeded detail).standing =
      a.standing.attempted args.maxAttempts succeeded detail := by
  rw [a.outcome_eq]
  have last : (contains "permanent_failure" a.standing.detail ||
      decide (args.maxAttempts ≤ a.standing.attempts + 1)) = a.attempt.lastAttempt args := rfl
  unfold settled Standing.attempted Standing.reached
  rw [last]
  cases succeeded with
  | true => rfl
  | false => cases a.attempt.lastAttempt args <;> rfl

/-- An attempt of the code is a step of the path. -/
theorem Action.next_standing (args : PassArgs) {answer : Oracle} {a : Action} {succeeded : Bool}
    {detail : String} (unfinished : a.finished = false)
    (answered : answer a.id a.actionType a.detail (a.attempts + 1) = (succeeded, detail)) :
    a.standing.next args.maxAttempts answer =
      some ((a.outcome args succeeded detail).standing,
        (a.outcome args succeeded detail).standing.message) := by
  have waiting : a.standing.state = .queued ∨ a.standing.state = .retry :=
    Action.state_of_unfinished unfinished
  have reply : answer a.standing.id a.standing.actionType a.standing.detail
      (a.standing.attempts + 1) = (succeeded, detail) := answered
  rw [a.standing_outcome, Standing.next, if_pos waiting, reply]

/-- The path ends where the action is finished. -/
theorem Action.next_standing_eq_none {m : Nat} {answer : Oracle} {a : Action}
    (finished : a.finished = true) : a.standing.next m answer = none := by
  refine if_neg fun waiting => ?_
  have waiting : a.state = .queued ∨ a.state = .retry := waiting
  rcases waiting with state | state <;> simp [Action.finished, state] at finished

/-! ## Following the paths -/

/-- The messages of the `action_executed` audit rows of an action. -/
def Store.executedMessages (s : Store) (id : Nat) : List String :=
  (s.audits.filter fun r => r.eventType = "action_executed" ∧ r.entityType = "action" ∧
    r.entityId = id).map AuditLog.message

theorem executedMessages_attempt {args : PassArgs} {a : Action} {succeeded : Bool}
    {detail : String} {s t : Store} (attempt : Attempt args a succeeded detail s t) (id : Nat) :
    t.executedMessages id = s.executedMessages id ++
      if a.id = id then [(a.outcome args succeeded detail).standing.message] else [] := by
  unfold Store.executedMessages
  rw [attempt.audits_eq, List.filter_append, List.map_append]
  congr 1
  by_cases same : a.id = id <;> simp [same, Action.executed, Standing.message, Action.standing]

/-- Every action has gone along its path, and what was recorded on it was added to its audit
rows. -/
def FollowsPaths (m : Nat) (answer : Oracle) (s t : Store) : Prop :=
  ∀ a ∈ s.actions.rows, ∃ b messages, t.actions.find? a.id = some b ∧
    Path (Standing.next m answer) a.standing messages b.standing ∧
    t.executedMessages a.id = s.executedMessages a.id ++ messages

namespace FollowsPaths

variable {m : Nat} {answer : Oracle} {s t u : Store}

theorem refl (s : Store) : FollowsPaths m answer s s :=
  fun a ha => ⟨a, [], s.actions.find?_of_mem ha, .refl _, (List.append_nil _).symm⟩

theorem trans (h : FollowsPaths m answer s t) (g : FollowsPaths m answer t u) :
    FollowsPaths m answer s u := by
  intro a ha
  obtain ⟨b, first, found, path, log⟩ := h a ha
  obtain ⟨c, second, stored, further, rest⟩ := g b (t.actions.mem_of_find? found)
  have same : b.id = a.id := t.actions.key_of_find? found
  rw [same] at stored rest
  refine ⟨c, first ++ second, stored, path.trans further, ?_⟩
  rw [rest, log, List.append_assoc]

/-- One more attempt. -/
theorem attempt (h : FollowsPaths m answer s t) {args : PassArgs} (limit : args.maxAttempts = m)
    {a : Action} {succeeded : Bool} {detail : String}
    (answered : answer a.id a.actionType a.detail (a.attempts + 1) = (succeeded, detail))
    (attempt : Attempt args a succeeded detail t u) : FollowsPaths m answer s u := by
  intro r hr
  obtain ⟨b, messages, found, path, log⟩ := h r hr
  have key : b.id = r.id := t.actions.key_of_find? found
  refine ⟨_, messages ++ if a.id = r.id then
    [(a.outcome args succeeded detail).standing.message] else [], attempt.find? found, ?_, ?_⟩
  · by_cases same : b.id = a.id
    · obtain rfl := attempt.row_eq found same
      have step := Action.next_standing args attempt.unfinished answered
      rw [limit] at step
      rw [if_pos rfl, if_pos key]
      exact path.trans (.single step)
    · rw [if_neg same, if_neg fun e => same (key.trans e.symm), List.append_nil]
      exact path
  · rw [executedMessages_attempt attempt, log, List.append_assoc]

end FollowsPaths

/-- A pass that returns goes along the paths. -/
theorem follows_of_pass {args : PassArgs} {transport : Transport} {answer : Oracle}
    (answers : transport.AnswersBy answer) (s : Store)
    (returns : (processDueActions args transport s).failure = none) :
    FollowsPaths args.maxAttempts answer s (processDueActions args transport s).store :=
  processDueActions_invariant (I := fun t _ => FollowsPaths args.maxAttempts answer s t)
    (fun t _ a succeeded detail h current unfinished outcome => by
      rw [answers] at outcome
      exact h.attempt rfl (Option.some.inj outcome)
        (attempt_attempted current unfinished succeeded detail))
    [] (FollowsPaths.refl s) returns

/-- A loop that returns goes along the path of its action. -/
theorem follows_of_retry {args : RetryArgs} {transport : Transport} {answer : Oracle}
    (answers : transport.AnswersBy answer) {fuel : Nat} {a : Action} {s : Store} {run : RetryRun}
    (current : s.actions.find? a.id = some a)
    (returned : executeActionWithRetry args transport fuel a s = some (.ok run)) :
    FollowsPaths args.maxAttempts answer s run.store ∧
      run.store.actions.find? a.id = some run.action :=
  executeActionWithRetry_invariant (I := FollowsPaths args.maxAttempts answer s)
    (fun t i a succeeded detail h current unfinished outcome => by
      rw [answers] at outcome
      have attempt : Attempt (args.once i) a succeeded detail t _ :=
        attempt_retried current unfinished succeeded detail
      exact h.attempt rfl (Option.some.inj outcome) attempt)
    (FollowsPaths.refl s) current returned

/-! ## Passes until one has nothing to do -/

/-- A worker without a retry delay; each of its passes has a time and a lease of its own, and the
time of a stale lease is a `datetime`. -/
structure WorkerRun where
  limit : Nat
  maxAttempts : Nat
  leaseSeconds : Int
  clock : Nat → Instant
  leaseId : Nat → String
  ties : Nat → List Nat := fun _ => []
  aged : ∀ j, (plus (clock j) (-seconds leaseSeconds)).isSome

/-- The arguments of the `j`-th pass. -/
def WorkerRun.args (w : WorkerRun) (j : Nat) : PassArgs where
  limit := w.limit
  maxAttempts := w.maxAttempts
  retryDelay := 0
  leaseSeconds := w.leaseSeconds
  now := w.clock j
  leaseId := w.leaseId j
  ties := w.ties j

theorem WorkerRun.staleLeaseBefore (w : WorkerRun) (j : Nat) :
    (w.args j).staleLeaseBefore.isSome := w.aged j

/-- Without a delay every attempt settles, when the transport does not raise. -/
theorem WorkerRun.settles (w : WorkerRun) {transport : Transport} (calm : transport.Calm) (j : Nat)
    (s : Store) :
    ∀ a ∈ dueActions (w.args j) s, (a.leased (w.args j)).settles (w.args j) transport := by
  have timed : (w.args j).Timed := by
    rw [PassArgs.Timed, WorkerRun.args, plus_zero]
    rfl
  exact fun _ _ => Action.settles_of_timed timed (calm _)

/-- The passes from the `j`-th on until one reports `processed = 0`; `none` if none of them does. -/
def untilIdle (w : WorkerRun) (transport : Transport) :
    (passes j : Nat) → Store → Option (Except ExecuteError Store)
  | 0, _, _ => none
  | passes + 1, j, s =>
    let run := processDueActions (w.args j) transport s
    match run.failure with
    | some e => some (.error e)
    | none =>
      if (PassCounts.of run.rows).processed = 0 then some (.ok run.store)
      else untilIdle w transport passes (j + 1) run.store

/-- An action that the worker may attempt at once. -/
structure Action.Ready (now : Instant) (a : Action) : Prop where
  waiting : a.state = .queued ∨ a.state = .retry
  time : ∀ t, a.nextAttemptAt = some t → t ≤ now
  unleased : a.leaseId = none

theorem Action.Ready.due {args : PassArgs} {a : Action} (ready : a.Ready args.now) : Due args a :=
  ⟨ready.waiting, ready.time, .inl ready.unleased⟩

/-- Without a delay, an attempted action is finished or ready for the next pass. -/
theorem Action.ready_outcome {args : PassArgs} (delay : args.retryDelay = 0) (a : Action)
    (succeeded : Bool) (detail : String) {now : Instant} (later : args.now ≤ now) :
    (a.outcome args succeeded detail).finished = true ∨
      (a.outcome args succeeded detail).Ready now := by
  rcases a.outcome_cases args succeeded detail with state | ⟨state, -⟩ | ⟨state, -⟩
  · exact .inl (by simp [finished, state])
  · exact .inl (by simp [finished, state])
  · have next := a.nextAttemptAt_outcome args succeeded detail state
    refine .inr ⟨.inr state, fun t ht => ?_, (a.outcome_unleased args succeeded detail).1⟩
    rw [next, delay] at ht
    cases ht
    rwa [Int.add_zero]

/-- The attempts that can still be made on an action. -/
def Action.work (m : Nat) (a : Action) : Nat :=
  if a.finished then 0 else max 1 (m - a.attempts)

theorem Action.work_outcome (args : PassArgs) {a : Action} (unfinished : a.finished = false)
    (succeeded : Bool) (detail : String) :
    (a.outcome args succeeded detail).work args.maxAttempts < a.work args.maxAttempts := by
  have before : a.work args.maxAttempts = max 1 (args.maxAttempts - a.attempts) := by
    simp [work, unfinished]
  rcases a.ended_or_lt args succeeded detail with ended | ⟨open_, left⟩
  · have after : (a.outcome args succeeded detail).work args.maxAttempts = 0 := by
      rcases ended with state | state <;> simp [work, finished, state]
    omega
  · have after : (a.outcome args succeeded detail).work args.maxAttempts =
        max 1 (args.maxAttempts - (a.attempts + 1)) := by
      simp [work, open_]
    omega

def Store.work (m : Nat) (s : Store) : Nat := (s.actions.rows.map (Action.work m)).sum

/-- The action is finished, or the next pass may attempt it. -/
def Store.Tracks (s : Store) (now : Instant) (id : Nat) : Prop :=
  ∃ b, s.actions.find? id = some b ∧ (b.finished = true ∨ b.Ready now)

section Pass

variable {args : PassArgs} {transport : Transport} {s : Store}
  (positive : 1 ≤ args.maxAttempts) (lease : args.staleLeaseBefore.isSome)
  (settles : ∀ a ∈ dueActions args s, (a.leased args).settles args transport)

include positive lease settles

/-- A pass that selects something leaves less to do. -/
theorem work_pass (busy : dueActions args s ≠ []) :
    (processDueActions args transport s).store.work args.maxAttempts < s.work args.maxAttempts := by
  obtain ⟨-, -, -, rows⟩ := processDueActions_spec positive lease settles
  have less : ∀ a ∈ dueActions args s,
      (a.executedIn args transport).work args.maxAttempts < a.work args.maxAttempts := by
    intro a ha
    obtain ⟨succeeded, detail, outcome, -⟩ := Action.settles_iff.mp (settles a ha)
    rw [Action.executedIn_eq outcome]
    exact a.work_outcome args (dueActions_current a ha).2 succeeded detail
  obtain ⟨a, ha⟩ := List.exists_mem_of_ne_nil _ busy
  unfold Store.work
  rw [rows, List.map_map]
  refine List.sum_lt_sum _ _ (fun r _ => ?_) ⟨a, (s.actions.mem_of_mem_select ha).1, ?_⟩
  · simp only [Function.comp_apply]
    split
    · next selected => exact (less r selected).le
    · exact Nat.le_refl _
  · simp only [Function.comp_apply]
    rw [if_pos ha]
    exact less a ha

/-- A pass keeps track of an action, whether it selects it or not. -/
theorem tracks_pass (delay : args.retryDelay = 0) {id : Nat} (tracked : s.Tracks args.now id)
    {now : Instant} (later : args.now ≤ now) :
    (processDueActions args transport s).store.Tracks now id := by
  obtain ⟨b, found, going⟩ := tracked
  refine ⟨if b ∈ dueActions args s then b.executedIn args transport else b, ?_, ?_⟩
  · rw [find?_processDueActions positive lease settles, found]
    rfl
  split
  · next selected =>
    obtain ⟨succeeded, detail, outcome, -⟩ := Action.settles_iff.mp (settles b selected)
    rw [Action.executedIn_eq outcome]
    exact b.ready_outcome delay succeeded detail later
  · exact going.imp_right fun ready =>
      ⟨ready.waiting, fun t ht => (ready.time t ht).trans later, ready.unleased⟩

end Pass

/-- Passes with a transport that answers end when there is nothing left to do; they have gone along
the paths, and what was tracked is finished. -/
theorem untilIdle_drains {w : WorkerRun} {transport : Transport} {answer : Oracle}
    (attempts : 1 ≤ w.maxAttempts) (limit : 1 ≤ w.limit)
    (forward : ∀ j, w.clock j ≤ w.clock (j + 1)) (answers : transport.AnswersBy answer)
    (passes : Nat) :
    ∀ (j : Nat) (s : Store), s.work w.maxAttempts < passes →
      ∃ t, untilIdle w transport passes j s = some (.ok t) ∧
        FollowsPaths w.maxAttempts answer s t ∧
        ∀ id, s.Tracks (w.clock j) id → ∃ b, t.actions.find? id = some b ∧ b.finished = true := by
  induction passes with
  | zero => intro j s enough; omega
  | succ passes ih =>
    intro j s enough
    have positive : 1 ≤ (w.args j).maxAttempts := attempts
    have lease := w.staleLeaseBefore j
    have settles := w.settles answers.calm j s
    obtain ⟨returns, rows, -, -⟩ := processDueActions_spec positive lease settles
    have follows := follows_of_pass answers s returns
    have counted : (PassCounts.of (processDueActions (w.args j) transport s).rows).processed =
        (dueActions (w.args j) s).length := by
      rw [rows]
      exact List.length_map ..
    rw [untilIdle]
    simp only [returns, counted, List.length_eq_zero_iff]
    by_cases idle : dueActions (w.args j) s = []
    · have nothing := (s.actions.select_eq_nil limit).mp idle
      refine ⟨_, by rw [if_pos idle], follows, fun id tracked => ?_⟩
      obtain ⟨b, found, going⟩ := tracked
      refine ⟨b, ?_, ?_⟩
      · rw [find?_processDueActions positive lease settles, found, Option.map_some, idle]
        exact congrArg some (if_neg List.not_mem_nil)
      · refine going.resolve_right fun ready => ?_
        have due := nothing b (s.actions.mem_of_find? found)
        have isDue : Due (w.args j) b := Action.Ready.due ready
        rw [due_iff.mpr isDue] at due
        cases due
    · have less := work_pass positive lease settles idle
      obtain ⟨t, drained, further, ended⟩ :=
        ih (j + 1) (processDueActions (w.args j) transport s).store
          (Nat.lt_of_lt_of_le less (Nat.le_of_lt_succ enough))
      refine ⟨t, by rw [if_neg idle, drained], follows.trans further, fun id tracked => ?_⟩
      exact ended id (tracks_pass positive lease settles rfl tracked (forward j))

/-- The worker's passes come to an end, and leave every action that was ready at the first of them
in the same state, with the same attempts, detail and recorded messages, as
`execute_action_with_retry` on that action alone. -/
theorem untilIdle_agrees_with_retry (w : WorkerRun) (transport : Transport) (answer : Oracle)
    (attempts : 1 ≤ w.maxAttempts) (limit : 1 ≤ w.limit)
    (forward : ∀ j, w.clock j ≤ w.clock (j + 1)) (answers : transport.AnswersBy answer)
    (s : Store) :
    ∃ passes t, untilIdle w transport passes 0 s = some (.ok t) ∧
      ∀ a ∈ s.actions.rows, a.Ready (w.clock 0) → ∀ clock, ∃ fuel run b,
        executeActionWithRetry ⟨w.maxAttempts, clock⟩ transport fuel a s = some (.ok run) ∧
        t.actions.find? a.id = some b ∧ b.state = run.action.state ∧
        b.attempts = run.action.attempts ∧ b.detail = run.action.detail ∧
        t.executedMessages a.id = run.store.executedMessages a.id := by
  obtain ⟨t, drained, follows, finished⟩ :=
    untilIdle_drains attempts limit forward answers _ 0 s (Nat.lt_succ_self _)
  refine ⟨_, t, drained, fun a ha ready clock => ?_⟩
  have current := s.actions.find?_of_mem ha
  have going : a.state ≠ .skipped := by
    rcases ready.waiting with state | state <;> simp [state]
  obtain ⟨run, returned, ended, -⟩ := @retryLoop_returns ⟨w.maxAttempts, clock⟩ _ attempts
    answers.calm _ 0 a s going (Nat.lt_succ_self _)
  rw [← executeActionWithRetry_eq attempts] at returned
  obtain ⟨alone, stored⟩ := follows_of_retry answers current returned
  obtain ⟨b, first, found, path, log⟩ := follows a ha
  obtain ⟨c, second, found', path', log'⟩ := alone a ha
  rw [stored] at found'
  cases found'
  have last : b.finished = true := by
    obtain ⟨b', here, last⟩ := finished a.id ⟨a, current, .inr ready⟩
    rw [found] at here
    cases here
    exact last
  have last' : run.action.finished = true := by
    rcases ended with state | state <;> simp [Action.finished, state]
  obtain ⟨standing, messages⟩ := path.unique path' (Action.next_standing_eq_none last)
    (Action.next_standing_eq_none last')
  refine ⟨_, run, b, returned, found, congrArg Standing.state standing,
    congrArg Standing.attempts standing, congrArg Standing.detail standing, ?_⟩
  rw [log, log', messages]

/-- What the default transport answers. -/
def defaultAnswer (timeout : Int) : Oracle := fun id actionType detail attempts =>
  ((defaultTransport timeout
    { queuedAt id 0 with actionType, detail, attempts }).outcome).getD (false, "")

theorem answersBy_defaultTransport (timeout : Int) :
    Transport.AnswersBy (defaultTransport timeout) (defaultAnswer timeout) := by
  intro a
  obtain ⟨succeeded, detail, outcome⟩ := (calm_defaultTransport timeout).outcome a
  have same : (defaultTransport timeout { queuedAt a.id 0 with
      actionType := a.actionType, detail := a.detail, attempts := a.attempts }).outcome =
      some (succeeded, detail) := outcome
  rw [outcome, defaultAnswer, same]
  rfl

/-- A worker that takes one action at a time. -/
def oneByOne : WorkerRun where
  limit := 1
  maxAttempts := 3
  leaseSeconds := 60
  clock := fun j => j
  leaseId := fun _ => "lease"
  aged := fun j => by
    have below : ¬ (j : Int) + -60000000 < firstInstant := by unfold firstInstant; omega
    simp [plus, seconds, below]

theorem untilIdle_oneByOne :
    ∃ passes t, untilIdle oneByOne (defaultTransport 1) passes 0 twoQueued = some (.ok t) ∧
      ∀ a ∈ twoQueued.actions.rows, a.Ready (oneByOne.clock 0) → ∀ clock, ∃ fuel run b,
        executeActionWithRetry ⟨oneByOne.maxAttempts, clock⟩ (defaultTransport 1) fuel a twoQueued =
          some (.ok run) ∧
        t.actions.find? a.id = some b ∧ b.state = run.action.state ∧
        b.attempts = run.action.attempts ∧ b.detail = run.action.detail ∧
        t.executedMessages a.id = run.store.executedMessages a.id :=
  untilIdle_agrees_with_retry oneByOne (defaultTransport 1) (defaultAnswer 1) (by decide)
    (by decide) (fun j => Int.ofNat_le.mpr (Nat.le_succ j)) (answersBy_defaultTransport 1) twoQueued

end SupportOps.Python
