import SupportOps.Python.LifeCycle

/-!
# One pass of the worker

`process_due_actions` with a transport that returns or times out: it selects the first due actions
in their order, attempts each of them once, and touches no other action. A lease or a delay that
leads out of the range of `datetime` makes it raise instead, and then nothing of it is stored.
-/
namespace SupportOps.Python

open Library

/-! ## The due actions -/

/-- When an action is due for a pass. -/
structure Due (args : PassArgs) (a : Action) : Prop where
  waiting : a.state = .queued ∨ a.state = .retry
  time : ∀ t, a.nextAttemptAt = some t → t ≤ args.now
  lease : a.leaseId = none ∨ ∃ t, a.leasedAt = some t ∧ t ≤ args.now - seconds args.leaseSeconds

theorem due_iff {args : PassArgs} {a : Action} : due args a = true ↔ Due args a := by
  unfold due
  constructor
  · intro h
    simp only [Bool.and_eq_true, decide_eq_true_eq, Bool.or_eq_true] at h
    obtain ⟨⟨waiting, time⟩, lease⟩ := h
    refine ⟨waiting, fun t next => ?_, ?_⟩
    · simpa [next] using time
    · rcases lease with free | stale
      · exact .inl (Option.isNone_iff_eq_none.mp free)
      · exact .inr (by simpa [Option.any_eq_true] using stale)
  · rintro ⟨waiting, time, lease⟩
    simp only [Bool.and_eq_true, decide_eq_true_eq, Bool.or_eq_true]
    refine ⟨⟨waiting, ?_⟩, ?_⟩
    · cases next : a.nextAttemptAt with
      | none => rfl
      | some t => simpa using time t next
    · rcases lease with free | ⟨t, leased, old⟩
      · exact .inl (by simp [free])
      · exact .inr (by simpa [leased] using old)

instance : Std.Total dueBefore where
  total a b := by
    unfold dueBefore
    cases a.nextAttemptAt <;> cases b.nextAttemptAt <;> grind

instance : IsTrans Action dueBefore where
  trans a b c := by
    unfold dueBefore
    cases a.nextAttemptAt <;> cases b.nextAttemptAt <;> cases c.nextAttemptAt <;> grind

theorem firstOf_dueActions (args : PassArgs) (s : Store) :
    s.actions.FirstOf (Due args) dueBefore args.limit (dueActions args s) :=
  s.actions.firstOf_select_tied (fun _ => due_iff) args.ties args.limit

/-- Any first due actions are what the query returns for some order of its ties. -/
theorem dueActions_of_firstOf {args : PassArgs} {s : Store} {selected : List Action}
    (first : s.actions.FirstOf (Due args) dueBefore args.limit selected) :
    ∃ ties, dueActions { args with ties := ties } s = selected :=
  s.actions.exists_ties (fun _ => due_iff) first

/-! ## The batch -/

/-- The row that an execution in a pass leaves. -/
def Action.executedIn (args : PassArgs) (transport : Transport) (a : Action) : Action :=
  match (transport (a.leased args).attempt).outcome with
  | some (succeeded, detail) => a.outcome args succeeded detail
  | none => a.leased args

theorem Action.executedIn_eq {args : PassArgs} {transport : Transport} {a : Action}
    {succeeded : Bool} {detail : String}
    (outcome : (transport (a.leased args).attempt).outcome = some (succeeded, detail)) :
    a.executedIn args transport = a.outcome args succeeded detail := by
  rw [executedIn, outcome]

@[simp] theorem Action.executedIn_id (args : PassArgs) (transport : Transport) (a : Action) :
    (a.executedIn args transport).id = a.id := by
  unfold executedIn
  split
  · exact a.outcome_id args _ _
  · rfl

/-- A batch of current, unfinished rows is executed row by row. -/
theorem processBatch_spec {args : PassArgs} {transport : Transport}
    (positive : 1 ≤ args.maxAttempts) (batch : List Action) :
    ∀ {s : Store}, (∀ a ∈ batch, (a.leased args).settles args transport) →
      (batch.map Action.id).Nodup →
      (∀ a ∈ batch, s.actions.find? a.id = some a ∧ a.finished = false) →
      (processBatch args transport batch s).failure = none ∧
      (processBatch args transport batch s).rows = batch.map (Action.executedIn args transport) ∧
      (processBatch args transport batch s).calls.map Prod.fst = batch.map Action.id ∧
      (processBatch args transport batch s).store.actions.rows =
        s.actions.rows.map fun r => if r ∈ batch then r.executedIn args transport else r := by
  induction batch with
  | nil =>
    intro s _ _ _
    refine ⟨rfl, rfl, rfl, ?_⟩
    simp [processBatch]
  | cons a rest ih =>
    intro s settles nodup current
    obtain ⟨fresh, nodup⟩ := List.nodup_cons.mp nodup
    obtain ⟨here, unfinished⟩ := current a (.head _)
    obtain ⟨succeeded, detail, outcome, fits⟩ := Action.settles_iff.mp (settles a (.head _))
    have row := Action.executedIn_eq outcome
    have next := Store.rows_attempted args here succeeded detail
    obtain ⟨returns, rows, calls, stored⟩ :=
      ih (s := s.attempted args a (a.outcome args succeeded detail))
          (fun r hr => settles r (.tail _ hr)) nodup fun r hr => by
        obtain ⟨there, pending⟩ := current r (.tail _ hr)
        have other : r.id ≠ a.id := fun same => fresh (same ▸ List.mem_map_of_mem hr)
        refine ⟨?_, pending⟩
        rw [Store.find?_attempted args here, if_neg other, there]
    rw [processBatch_cons rest s positive unfinished outcome fits]
    refine ⟨returns, ?_, ?_, ?_⟩
    · rw [List.map_cons, row, ← rows]
    · rw [List.map_cons, List.map_cons, ← calls]
    · change (processBatch args transport rest _).store.actions.rows = _
      rw [stored, next, List.map_map]
      refine List.map_congr_left fun r hr => ?_
      simp only [Function.comp_apply, List.mem_cons]
      by_cases same : r.id = a.id
      · obtain rfl : r = a := s.actions.eq_of_key_eq hr (s.actions.mem_of_find? here) same
        have done : r.outcome args succeeded detail ∉ rest := fun later =>
          fresh (r.outcome_id args succeeded detail ▸ List.mem_map_of_mem later)
        simp [done, row]
      · have other : r ≠ a := fun e => same (congrArg Action.id e)
        simp [same, other]

/-- A batch in which an attempt does not settle raises there, when the transport does not. -/
theorem processBatch_overflows {args : PassArgs} {transport : Transport}
    (positive : 1 ≤ args.maxAttempts) (calm : transport.Calm) (batch : List Action) :
    ∀ {s : Store}, (∀ a ∈ batch, a.finished = false) →
      (∃ a ∈ batch, (a.leased args).settles args transport = false) →
      (processBatch args transport batch s).failure = some .overflow := by
  induction batch with
  | nil => rintro s - ⟨a, ha, -⟩; cases ha
  | cons a rest ih =>
    rintro s unfinished ⟨b, hb, stuck⟩
    have leased : (a.leased args).finished = false := unfinished a (.head _)
    obtain ⟨succeeded, detail, outcome⟩ := calm.outcome (a.leased args).attempt
    cases past : (a.leased args).attempt.overflows args succeeded with
    | true =>
      have attempts : ¬ args.maxAttempts < 1 := Nat.not_lt.mpr positive
      have raised : executeActionOnce args transport (a.leased args) = .error .overflow := by
        simp [executeActionOnce, attempts, leased, outcome, past]
      simp [processBatch, raised]
    | false =>
      rw [processBatch_cons rest s positive (unfinished a (.head _)) outcome past]
      have later : b ∈ rest := by
        rcases List.mem_cons.mp hb with rfl | later
        · have settles := Action.settles_iff.mpr ⟨succeeded, detail, outcome, past⟩
          rw [stuck] at settles
          cases settles
        · exact later
      exact ih (fun r hr => unfinished r (.tail _ hr)) ⟨b, later, stuck⟩

/-! ## The pass -/

/-- A pass that returned has executed the selected actions, once each, and nothing else. -/
structure PassExecutes (args : PassArgs) (s : Store) (selected : List Action) (run : BatchRun) :
    Prop where
  returns : run.failure = none
  calls : run.calls.map Prod.fst = selected.map Action.id
  once : (selected.map Action.id).Nodup
  executed : ∀ a ∈ selected, ∃ b ∈ run.rows, run.store.actions.find? a.id = some b ∧
    b.attempts = a.attempts + 1 ∧ b.leaseId = none ∧ b.leasedAt = none ∧
    (b.state = .retry → b.nextAttemptAt = some (args.now + args.retryDelay))
  others : ∀ id, id ∉ selected.map Action.id →
    run.store.actions.find? id = s.actions.find? id
  processed : (PassCounts.of run.rows).processed = selected.length
  counted : (PassCounts.of run.rows).processed = (PassCounts.of run.rows).succeeded +
    (PassCounts.of run.rows).failed + (PassCounts.of run.rows).retried

theorem Action.nextAttemptAt_outcome (args : PassArgs) (a : Action) (succeeded : Bool)
    (detail : String) (retry : (a.outcome args succeeded detail).state = .retry) :
    (a.outcome args succeeded detail).nextAttemptAt = some (args.now + args.retryDelay) := by
  rw [a.outcome_eq] at retry ⊢
  rw [settled_state] at retry
  unfold settled
  split
  · next good => simp [good] at retry
  · next bad =>
    split
    · next last => simp [bad, last] at retry
    · rfl

/-- An execution ends in exactly one of three states. -/
theorem PassCounts.of_executed {args : PassArgs} {transport : Transport} {batch : List Action}
    (settles : ∀ a ∈ batch, (a.leased args).settles args transport) :
    (PassCounts.of (batch.map (Action.executedIn args transport))).processed =
      (PassCounts.of (batch.map (Action.executedIn args transport))).succeeded +
      (PassCounts.of (batch.map (Action.executedIn args transport))).failed +
      (PassCounts.of (batch.map (Action.executedIn args transport))).retried := by
  simp only [PassCounts.of]
  induction batch with
  | nil => rfl
  | cons a rest ih =>
    obtain ⟨succeeded, detail, outcome, -⟩ := Action.settles_iff.mp (settles a (.head _))
    have ways := a.outcome_cases args succeeded detail
    simp only [List.map_cons, List.length_cons, List.countP_cons,
      ih fun r hr => settles r (.tail _ hr), Action.executedIn_eq outcome]
    rcases ways with state | ⟨state, -⟩ | ⟨state, -⟩ <;> simp [state] <;> omega

section Pass

variable {args : PassArgs} {transport : Transport} {s : Store}
  (positive : 1 ≤ args.maxAttempts) (lease : args.staleLeaseBefore.isSome)
  (settles : ∀ a ∈ dueActions args s, (a.leased args).settles args transport)

include positive lease settles

/-- What a pass whose attempts settle has done. -/
theorem processDueActions_spec :
    (processDueActions args transport s).failure = none ∧
    (processDueActions args transport s).rows =
      (dueActions args s).map (Action.executedIn args transport) ∧
    (processDueActions args transport s).calls.map Prod.fst =
      (dueActions args s).map Action.id ∧
    (processDueActions args transport s).store.actions.rows = s.actions.rows.map fun r =>
      if r ∈ dueActions args s then r.executedIn args transport else r := by
  rw [processDueActions_eq lease]
  exact processBatch_spec positive (dueActions args s) settles (dueActions_nodup args s)
    dueActions_current

theorem runOnce_of_settles :
    runOnce args transport s = (processDueActions args transport s).store := by
  have returns := (processDueActions_spec positive lease settles).1
  simp [runOnce, returns]

/-- The store after a pass whose attempts settle. -/
theorem find?_processDueActions (id : Nat) :
    (processDueActions args transport s).store.actions.find? id = (s.actions.find? id).map fun r =>
      if r ∈ dueActions args s then r.executedIn args transport else r := by
  obtain ⟨-, -, -, stored⟩ := processDueActions_spec positive lease settles
  refine Table.find?_of_rows_map (fun r => ?_) stored id
  split
  · exact r.executedIn_id args transport
  · rfl

theorem passExecutes_of_settles :
    PassExecutes args s (dueActions args s) (processDueActions args transport s) := by
  obtain ⟨returns, rows, calls, -⟩ := processDueActions_spec positive lease settles
  have find := find?_processDueActions positive lease settles
  refine ⟨returns, calls, dueActions_nodup args s, fun a ha => ?_, fun id other => ?_, ?_, ?_⟩
  · obtain ⟨succeeded, detail, outcome, -⟩ := Action.settles_iff.mp (settles a ha)
    have row := Action.executedIn_eq outcome
    obtain ⟨mem, -⟩ := s.actions.mem_of_mem_select ha
    refine ⟨a.executedIn args transport, ?_, ?_, ?_⟩
    · rw [rows]
      exact List.mem_map_of_mem ha
    · rw [find, ← key_action, s.actions.find?_of_mem mem, Option.map_some, if_pos ha]
    · rw [row]
      obtain ⟨lease, leasedAt⟩ := a.outcome_unleased args succeeded detail
      exact ⟨a.outcome_attempts args succeeded detail, lease, leasedAt,
        a.nextAttemptAt_outcome args succeeded detail⟩
  · rw [find]
    refine (Option.map_congr fun r hr => ?_).trans (congrFun Option.map_id _)
    refine if_neg fun selected => other ?_
    exact List.mem_map.mpr ⟨r, selected, s.actions.key_of_find? hr⟩
  · rw [rows]
    exact List.length_map ..
  · rw [rows]
    exact PassCounts.of_executed settles

end Pass

/-- A pass with a transport that returns or times out raises before its query where the time of a
stale lease is no `datetime`. Otherwise it selects the first `limit` of the due actions, in the
order of their next attempt and creation, and executes exactly these; unless one of them has failed
and is to be repeated at a time that is no `datetime`, and then it raises. -/
theorem processDueActions_executes_due (args : PassArgs) (transport : Transport) (s : Store)
    (positive : 1 ≤ args.maxAttempts) (calm : transport.Calm) :
    (args.staleLeaseBefore = none →
      processDueActions args transport s = ⟨s, [], [], some .overflow⟩ ∧
      runOnce args transport s = s) ∧
    (args.staleLeaseBefore.isSome →
      ∃ selected, s.actions.FirstOf (Due args) dueBefore args.limit selected ∧
        ((∀ a ∈ selected, (a.leased args).settles args transport) →
          PassExecutes args s selected (processDueActions args transport s) ∧
          runOnce args transport s = (processDueActions args transport s).store) ∧
        ((∃ a ∈ selected, (a.leased args).settles args transport = false) →
          (processDueActions args transport s).failure = some .overflow ∧
          runOnce args transport s = s)) := by
  have rolled {e : ExecuteError} (raised : (processDueActions args transport s).failure = some e) :
      runOnce args transport s = s := by simp [runOnce, raised]
  constructor
  · intro lease
    have raised : processDueActions args transport s = ⟨s, [], [], some .overflow⟩ :=
      processDueActions_of_overflow lease
    exact ⟨raised, rolled (congrArg BatchRun.failure raised)⟩
  · intro lease
    refine ⟨dueActions args s, firstOf_dueActions args s, fun settles => ?_, fun stuck => ?_⟩
    · exact ⟨passExecutes_of_settles positive lease settles,
        runOnce_of_settles positive lease settles⟩
    · have raised : (processDueActions args transport s).failure = some .overflow := by
        rw [processDueActions_eq lease]
        exact processBatch_overflows positive calm (dueActions args s)
          (fun a ha => (dueActions_current a ha).2) stuck
      exact ⟨raised, rolled raised⟩

/-- A lease of more seconds than there are since the first `datetime`. -/
def farLease : PassArgs := { passArgs 1 with leaseSeconds := 100000000000 }

/-- A delay that leads past the last `datetime`. -/
def farDelay : PassArgs := { passArgs 3 with retryDelay := seconds 1000000000000 }

/-- An action of which the first attempt fails. -/
def failsOnce : Store :=
  { Store.empty with actions := ⟨[{ queuedAt 1 0 with detail := "fail_once" }], by decide⟩ }

theorem processDueActions_twoQueued :
    (∃ selected,
      twoQueued.actions.FirstOf (Due (passArgs 1)) dueBefore (passArgs 1).limit selected ∧
      PassExecutes (passArgs 1) twoQueued selected
        (processDueActions (passArgs 1) (defaultTransport 1) twoQueued)) ∧
    runOnce farLease (defaultTransport 1) twoQueued = twoQueued := by
  constructor
  · obtain ⟨selected, first, executes, -⟩ :=
      (processDueActions_executes_due (passArgs 1) (defaultTransport 1) twoQueued (by decide)
        (calm_defaultTransport 1)).2 (by decide)
    have settles (a : Action) :
        (a.leased (passArgs 1)).settles (passArgs 1) (defaultTransport 1) :=
      Action.settles_of_timed (by decide) (calm_defaultTransport 1 _)
    exact ⟨selected, first, (executes fun a _ => settles a).1⟩
  · exact ((processDueActions_executes_due farLease (defaultTransport 1) twoQueued (by decide)
      (calm_defaultTransport 1)).1 (by decide)).2

/-- With such a lease no due action is executed; with such a delay the transport is called, and the
pass raises and stores nothing. -/
theorem farLease_executes_nothing :
    (¬ ∃ selected, twoQueued.actions.FirstOf (Due farLease) dueBefore farLease.limit selected ∧
      PassExecutes farLease twoQueued selected
        (processDueActions farLease (defaultTransport 1) twoQueued)) ∧
    (dueActions farLease twoQueued).map Action.id = [1, 2] ∧
    (processDueActions farLease (defaultTransport 1) twoQueued).calls = [] ∧
    (processDueActions farDelay (defaultTransport 1) failsOnce).calls.map Prod.fst = [1] ∧
    (processDueActions farDelay (defaultTransport 1) failsOnce).failure = some .overflow ∧
    (runOnce farDelay (defaultTransport 1) failsOnce).actions.rows = failsOnce.actions.rows := by
  refine ⟨?_, by decide, by decide, by decide, by decide, by decide⟩
  rintro ⟨selected, -, executes⟩
  exact absurd executes.returns (by decide)

end SupportOps.Python
