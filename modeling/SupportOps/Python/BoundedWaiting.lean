import SupportOps.Python.FollowUps
import SupportOps.Python.LifeCycle
import SupportOps.Python.WorkerPass

/-!
# How long an action waits

A pass takes the due actions in the order of their next attempt. New actions and retries queue up
behind an action that is already due, the follow-ups of a health sweep in front of it. So the
places that the passes have must outnumber the actions ahead and the follow-ups on the way, and
then the action has been attempted.
-/
namespace SupportOps.Python

open Library

/-! ## Between commands no action is leased -/

def Unleased (s : Store) : Prop := ∀ a ∈ s.actions.rows, a.leaseId = none

theorem Unleased.change {c : Command} {s t : Store} {as : List Action} (h : Unleased s)
    (change : Change c s as t) : Unleased t := by
  have grown : ∀ {bs}, t.actions.rows = s.actions.rows ++ bs → (∀ a ∈ bs, a.Fresh) →
      Unleased t := by
    intro bs rows fresh a ha
    rw [rows] at ha
    rcases List.mem_append.mp ha with old | new
    · exact h a old
    · exact (fresh a new).2.2.1
  cases change with
  | new process new => exact grown new.rows_actions new.fresh
  | followedUp i staleMinutes now process mem =>
    refine grown (rows_insert_action_nextId s _ rfl) fun a ha => ?_
    obtain rfl := List.mem_singleton.mp ha
    exact ⟨rfl, rfl, rfl, rfl⟩
  | @attempted args a succeeded detail _ _ limit attempt =>
    intro r hr
    rw [attempt.rows] at hr
    obtain ⟨x, hx, rfl⟩ := List.mem_map.mp hr
    split
    · exact (a.outcome_unleased args succeeded detail).1
    · exact h x hx
  | _ => exact h

theorem Unleased.apply {b : Begin} {c : Command} {s t : Store} (h : Unleased s)
    (step : c.apply b s = some t) : Unleased t := by
  by_cases reset : c.isReset = true
  · cases c with
    | reset =>
      cases step
      intro a ha
      cases ha
    | _ => cases reset
  · exact Changes.invariant (I := fun t _ => Unleased t) (fun h change => h.change change) []
      h (changes_of_apply step (Bool.not_eq_true _ ▸ reset))

theorem unleased_of_run {b : Begin} {assets : Table Asset} {rules : Table AutomationRule}
    {cs : List Command} {s : Store}
    (run : (commands b).run (Store.seeded assets rules) cs = some s) : Unleased s :=
  (commands b).run_invariant (fun _ _ _ h step => Unleased.apply h step)
    (fun a ha => by cases ha) run

/-! ## The queue in front of an action -/

/-- The row stands in the queue in front of `a`. -/
def Action.before (a r : Action) : Bool :=
  !r.finished && decide (dueBefore r a) && decide (r.id ≠ a.id)

/-- How many actions a pass takes before `a`. -/
def Store.ahead (s : Store) (a : Action) : Nat := s.actions.rows.countP a.before

/-- `a` has been due since before `now`. -/
def Action.DueSince (a : Action) (now : Instant) : Prop :=
  ∀ t, a.nextAttemptAt = some t → t < now

instance (a : Action) (now : Instant) : Decidable (a.DueSince now) :=
  match h : a.nextAttemptAt with
  | none => isTrue fun t ht => by rw [h] at ht; cases ht
  | some t => decidable_of_iff (t < now) <| by simp [Action.DueSince, h]

/-- The command runs while `a` is due, and a pass neither raises nor sets retries back in time. -/
def Command.Serves (a : Action) : Command → Prop
  | .process call => a.DueSince call.env.now
  | .processDueActions args transport =>
    a.DueSince args.now ∧ 1 ≤ args.maxAttempts ∧ 0 ≤ args.retryDelay ∧ transport.Calm ∧
      args.staleLeaseBefore.isSome ∧ args.Timed
  | .executeActionWithRetry _ args _ _ => ∀ i, a.DueSince (args.clock i)
  | .reset => False
  | _ => True

/-- How many actions a pass has room for. -/
def Command.places : Command → Nat
  | .processDueActions args _ => args.limit
  | _ => 0

/-- How many follow-ups a sweep adds. -/
def Command.followUps (s : Store) : Command → Nat
  | .healthSweep now staleMinutes => (staleIncidents now staleMinutes s).length
  | _ => 0

/-- `a` is still stored as it was. -/
def Waits (a : Action) (s : Store) : Prop := s.actions.find? a.id = some a

/-- `a` has been attempted since. -/
def AttemptedSince (a : Action) (s : Store) : Prop :=
  ∃ r, s.actions.find? a.id = some r ∧ a.attempts < r.attempts

section Steps

variable {a : Action} {s t : Store}

/-- A row that is set for a later time does not stand in front of an action that is due. -/
theorem Action.DueSince.not_before {now next : Instant} (due : a.DueSince now) {r : Action}
    (set : r.nextAttemptAt = some next) (later : now ≤ next) : a.before r = false := by
  have behind : ¬ dueBefore r a := by
    unfold dueBefore
    rw [set]
    cases at_ : a.nextAttemptAt with
    | none => simp
    | some t =>
      have past : t < next := (due t at_).trans_le later
      simp only [not_or, not_and, not_lt]
      exact ⟨past.le, fun same => absurd same past.ne'⟩
  simp [before, behind]

/-- The row an attempt leaves does not stand in front of an action that is due. -/
theorem Action.DueSince.not_before_outcome {args : PassArgs} (due : a.DueSince args.now)
    (forward : 0 ≤ args.retryDelay) (r : Action) (succeeded : Bool) (detail : String) :
    a.before (r.outcome args succeeded detail) = false := by
  rcases r.outcome_cases args succeeded detail with state | ⟨state, -⟩ | ⟨state, -⟩
  · simp [before, finished, state]
  · simp [before, finished, state]
  · exact due.not_before (r.nextAttemptAt_outcome args succeeded detail state)
      (Int.le_add_of_nonneg_right forward)

theorem ahead_of_append {new : List Action} (rows : t.actions.rows = s.actions.rows ++ new) :
    t.ahead a = s.ahead a + new.countP a.before := by
  rw [Store.ahead, rows, List.countP_append, Store.ahead]

theorem Waits.append {new : List Action} (h : Waits a s)
    (rows : t.actions.rows = s.actions.rows ++ new) : Waits a t :=
  Table.find?_of_subset (rows ▸ List.subset_append_left _ _) h

theorem AttemptedSince.append {new : List Action} (h : AttemptedSince a s)
    (rows : t.actions.rows = s.actions.rows ++ new) : AttemptedSince a t := by
  obtain ⟨r, found, more⟩ := h
  exact ⟨r, Table.find?_of_subset (rows ▸ List.subset_append_left _ _) found, more⟩

theorem AttemptedSince.attempt (h : AttemptedSince a s) {args : PassArgs} {r : Action}
    {succeeded : Bool} {detail : String} (attempt : Attempt args r succeeded detail s t) :
    AttemptedSince a t := by
  obtain ⟨x, found, more⟩ := h
  refine ⟨_, attempt.find? found, ?_⟩
  split
  · next same =>
    rw [attempt.row_eq found same] at more
    rw [Action.outcome_attempts]
    exact more.trans (Nat.lt_succ_self _)
  · exact more

/-- An attempt on `a`, or one that leaves `a` where it was. -/
theorem Waits.attempt (h : Waits a s) {args : PassArgs} {r : Action} {succeeded : Bool}
    {detail : String} (attempt : Attempt args r succeeded detail s t) (due : a.DueSince args.now)
    (forward : 0 ≤ args.retryDelay) :
    AttemptedSince a t ∨ Waits a t ∧ t.ahead a ≤ s.ahead a := by
  have found := attempt.find? h
  by_cases same : a.id = r.id
  · left
    obtain rfl := attempt.row_eq h same
    rw [if_pos rfl] at found
    exact ⟨_, found, by simp⟩
  · right
    rw [if_neg same] at found
    refine ⟨found, ?_⟩
    unfold Store.ahead
    rw [attempt.rows, List.countP_map]
    refine List.countP_mono_left fun x _ inFront => ?_
    by_cases this : x.id = r.id
    · simp [this, due.not_before_outcome forward r succeeded detail] at inFront
    · simpa [this] using inFront

end Steps

/-! ## The commands -/

section Commands

variable {a : Action} {s t : Store}

theorem NewCase.nextAttemptAt {settings : Settings} {env : Surroundings} {p : EventBody}
    {o : Processed} (h : NewCase settings env p s o t) :
    ∀ r ∈ o.action.toList, r.nextAttemptAt = some env.now := by
  intro r hr
  rw [Option.mem_toList] at hr
  cases h with
  | queued asset rule opens action room =>
    cases hr
    rfl
  | _ => cases hr

/-- A request adds at most actions that are due from then on. -/
theorem rows_serve (b : Begin) (call : Call) (s : Store) :
    ∃ new, (serve b call s).2.actions.rows = s.actions.rows ++ new ∧
      ∀ r ∈ new, r.nextAttemptAt = some call.env.now := by
  have none : ∃ new : List Action, s.actions.rows = s.actions.rows ++ new ∧
      ∀ r ∈ new, r.nextAttemptAt = some call.env.now :=
    ⟨[], (List.append_nil _).symm, fun r hr => by cases hr⟩
  rcases serve_stored b call s with same | ⟨key, vacant, same⟩
  · rw [same]
    unfold processed
    split
    · next r t ok =>
      cases processCase_of_process ok with
      | unkeyed unkeyed new => exact ⟨_, new.rows_actions, new.nextAttemptAt⟩
      | owned keyed vacant new => exact ⟨_, new.rows_actions, new.nextAttemptAt⟩
      | replayed keyed completed found => exact none
    · exact none
  · rw [same]
    exact none

/-- A pass attempts `a`, or as many actions in front of it as it has room for. -/
theorem Waits.runOnce {args : PassArgs} {transport : Transport} (h : Waits a s)
    (unfinished : a.finished = false) (free : a.leaseId = none) (due : a.DueSince args.now)
    (positive : 1 ≤ args.maxAttempts) (forward : 0 ≤ args.retryDelay) (calm : transport.Calm)
    (lease : args.staleLeaseBefore.isSome) (timed : args.Timed) :
    AttemptedSince a (runOnce args transport s) ∨
      Waits a (runOnce args transport s) ∧
        args.limit + (runOnce args transport s).ahead a ≤ s.ahead a := by
  have settles : ∀ r ∈ dueActions args s, (r.leased args).settles args transport :=
    fun r _ => Action.settles_of_timed timed (calm _)
  obtain ⟨-, -, -, rows⟩ := processDueActions_spec positive lease settles
  have found := find?_processDueActions positive lease settles a.id
  rw [h, Option.map_some] at found
  rw [runOnce_of_settles positive lease settles]
  by_cases selected : a ∈ dueActions args s
  · left
    obtain ⟨succeeded, detail, outcome⟩ := calm.outcome (a.leased args).attempt
    rw [if_pos selected, Action.executedIn_eq outcome] at found
    exact ⟨_, found, by simp⟩
  · right
    rw [if_neg selected] at found
    refine ⟨found, ?_⟩
    have isDue : Due args a :=
      ⟨Action.state_of_unfinished unfinished, fun t ht => (due t ht).le, .inl free⟩
    obtain ⟨full, behind⟩ := Table.FirstOf.before_of_waiting (firstOf_dueActions args s)
      (s.actions.mem_of_find? h) isDue selected
    have counted := s.actions.countP_map_of_batch (q := a.before)
      (f := Action.executedIn args transport)
      (dueActions_nodup args s).of_map
      (fun r hr => ?_) fun r hr => ?_
    · unfold Store.ahead
      rw [rows, ← counted, full]
      omega
    · obtain ⟨current, pending⟩ := dueActions_current r hr
      have other : r.id ≠ a.id := fun same => selected <| by
        rw [same, h] at current
        exact Option.some.inj current ▸ hr
      exact ⟨s.actions.mem_of_find? current, by simp [Action.before, pending, behind r hr, other]⟩
    · obtain ⟨succeeded, detail, outcome⟩ := calm.outcome (r.leased args).attempt
      rw [Action.executedIn_eq outcome]
      exact due.not_before_outcome forward r succeeded detail

/-- The commands that do not write the actions table. -/
theorem actions_of_apply {b : Begin} {c : Command} (step : c.apply b s = some t)
    (other : match c with
      | .createAsset _ | .createRule _ | .createCheck .. | .transitionCheck .. |
        .expireWaitingChecks _ => True
      | _ => False) : t.actions = s.actions := by
  cases c with
  | createAsset externalId =>
    simp only [Command.apply, createAsset, Option.some.injEq] at step
    split at step <;> cases step <;> rfl
  | createRule payload =>
    simp only [Command.apply, createRule, Option.some.injEq] at step
    split at step <;> cases step <;> rfl
  | createCheck now name assetExternalId detail =>
    cases step
    rfl
  | transitionCheck id args =>
    simp only [Command.apply] at step
    split at step
    · cases step
      rfl
    · split at step
      · next moved =>
        cases step
        exact (ChecksOnly.transition (c := .transitionCheck id args) ⟨.done, rfl⟩ moved).2
      · cases step
        rfl
  | expireWaitingChecks now =>
    simp only [Command.apply] at step
    split at step
    · next expired =>
      cases step
      obtain ⟨u, each, same⟩ := map_eq_ok.mp expired
      cases same
      exact (checksOnly_of_expireEach (c := .expireWaitingChecks now) _ ⟨.done, rfl⟩ each).2
    · cases step
      rfl
  | _ => cases other

/-- A command attempts `a`, or it leaves `a` where it was and pays for the places of its pass out
of the queue in front of `a` and the follow-ups it adds there. -/
theorem Waits.apply {b : Begin} {c : Command} (h : Waits a s) (served : c.Serves a)
    (unfinished : a.finished = false) (free : a.leaseId = none) (step : c.apply b s = some t) :
    AttemptedSince a t ∨ Waits a t ∧ c.places + t.ahead a ≤ c.followUps s + s.ahead a := by
  have apart : t.actions = s.actions → AttemptedSince a t ∨
      Waits a t ∧ 0 + t.ahead a ≤ 0 + s.ahead a := fun same => by
    refine .inr ⟨?_, ?_⟩
    · rw [Waits, same]
      exact h
    · rw [Store.ahead, Store.ahead, same]
  cases c with
  | process call =>
    cases step
    obtain ⟨new, rows, set⟩ := rows_serve b call s
    have behind : new.countP a.before = 0 := List.countP_eq_zero.mpr fun r hr => by
      simp [served.not_before (set r hr) le_rfl]
    refine .inr ⟨h.append rows, ?_⟩
    rw [ahead_of_append rows, behind]
    exact le_rfl
  | processDueActions args transport =>
    cases step
    obtain ⟨due, positive, forward, calm, lease, timed⟩ := served
    refine (h.runOnce unfinished free due positive forward calm lease timed).imp_right
      (And.imp_right ?_)
    exact fun paid => paid.trans (Nat.le_add_left _ _)
  | executeActionWithRetry id args transport fuel =>
    obtain ⟨r, found, step⟩ := Option.bind_eq_some_iff.mp step
    obtain ⟨outcome, ended, rfl⟩ := Option.map_eq_some_iff.mp step
    cases outcome with
    | error e => exact apart rfl
    | ok run =>
      have current : s.actions.find? r.id = some r := by
        rw [← key_action, s.actions.key_of_find? found]
        exact found
      refine (executeActionWithRetry_invariant
        (I := fun t => AttemptedSince a t ∨ Waits a t ∧ 0 + t.ahead a ≤ 0 + s.ahead a)
        (fun u i x succeeded detail before current unfinished _ => ?_)
        (.inr ⟨h, le_rfl⟩) current ended).1
      have attempt : Attempt (args.once i) x succeeded detail u _ :=
        attempt_retried current unfinished succeeded detail
      rcases before with done | ⟨still, paid⟩
      · exact .inl (done.attempt attempt)
      · refine (still.attempt attempt (served i) le_rfl).imp_right (And.imp_right fun less => ?_)
        omega
  | healthSweep now staleMinutes =>
    cases step
    obtain ⟨new, rows, incidents, -⟩ := rows_addFollowUps now staleMinutes
      (staleIncidents now staleMinutes s) s
    have length : new.length = (staleIncidents now staleMinutes s).length := by
      simpa using congrArg List.length incidents
    refine .inr ⟨h.append rows, ?_⟩
    have inFront : (runHealthSweep now staleMinutes s).2.ahead a = _ := ahead_of_append rows
    have atMost := new.countP_le_length (p := a.before)
    change 0 + (runHealthSweep now staleMinutes s).2.ahead a ≤
      (staleIncidents now staleMinutes s).length + s.ahead a
    omega
  | reset => exact served.elim
  | createAsset externalId => exact apart (actions_of_apply step trivial)
  | createRule payload => exact apart (actions_of_apply step trivial)
  | createCheck now name assetExternalId detail => exact apart (actions_of_apply step trivial)
  | transitionCheck id args => exact apart (actions_of_apply step trivial)
  | expireWaitingChecks now => exact apart (actions_of_apply step trivial)

theorem AttemptedSince.apply {b : Begin} {c : Command} (h : AttemptedSince a s)
    (served : c.Serves a) (step : c.apply b s = some t) : AttemptedSince a t := by
  have going : c.isReset = false := by
    cases c with
    | reset => exact served.elim
    | _ => rfl
  refine Changes.invariant (I := fun t _ => AttemptedSince a t) (fun h change => ?_) [] h
    (changes_of_apply step going)
  cases change with
  | new process new => exact h.append new.rows_actions
  | followedUp i staleMinutes now process mem => exact h.append (rows_insert_action_nextId _ _ rfl)
  | attempted limit attempt => exact h.attempt attempt
  | _ => exact h

end Commands

/-! ## Every run -/

/-- An action that waits in a reachable state has been attempted by the end of every run in which
the passes have more places than there were actions in front of it and follow-ups of sweeps. -/
theorem attempted_of_places (b : Begin) (assets : Table Asset) (rules : Table AutomationRule)
    (before cs : List Command) (s t : Store) (a : Action)
    (reached : (commands b).run (Store.seeded assets rules) before = some s)
    (stored : a ∈ s.actions.rows) (waiting : a.state = .queued ∨ a.state = .retry)
    (run : (commands b).run s cs = some t) (served : ∀ c ∈ cs, c.Serves a)
    (enough : (commands b).total (fun s c => c.followUps s) s cs + s.ahead a <
      (cs.map Command.places).sum) :
    ∃ r, t.actions.find? a.id = some r ∧ a.attempts < r.attempts := by
  have unfinished : a.finished = false := by
    rcases waiting with state | state <;> simp [Action.finished, state]
  have free := unleased_of_run reached a stored
  exact (commands b).reached_of_potential (D := AttemptedSince a) (I := Waits a)
    (fun s c t admitted h step => h.apply admitted.1 step)
    (fun s c t admitted h step => h.apply admitted.1 unfinished free step)
    (((commands b).along_true s cs).and_label _ served) (s.actions.find?_of_mem stored) run
    enough

/-- A pass with room for one action, half an hour after the outage. -/
def onePlace : PassArgs := { passArgs 3 with limit := 1, now := minutes 31 }

def sweepAndPasses : List Command :=
  [.healthSweep (minutes 30) 30, .processDueActions onePlace (defaultTransport 1),
    .processDueActions onePlace (defaultTransport 1)]

/-- The follow-up of the sweep is taken first, so the action of the outage needs both passes. -/
theorem attempted_pumpOffline : ∃ s t : Store,
    (commands .eager).run demo [.process ⟨⟨1000⟩, ⟨0, "0"⟩, pumpOffline⟩] = some s ∧
    (commands .eager).run s sweepAndPasses = some t ∧
    ∃ r, t.actions.find? 1 = some r ∧ 0 < r.attempts := by
  have served : ∀ c ∈ sweepAndPasses, c.Serves (queuedAt 1 0) := by
    have due : (queuedAt 1 0).DueSince onePlace.now := by decide
    have pass : (Command.processDueActions onePlace (defaultTransport 1)).Serves (queuedAt 1 0) :=
      ⟨due, by decide, by decide, calm_defaultTransport 1, by decide, by decide⟩
    simp only [sweepAndPasses, List.mem_cons, List.not_mem_nil, or_false, forall_eq_or_imp,
      forall_eq]
    exact ⟨trivial, pass, pass⟩
  exact ⟨_, _, rfl, rfl, attempted_of_places .eager demoAssets demoRules
    [.process ⟨⟨1000⟩, ⟨0, "0"⟩, pumpOffline⟩] sweepAndPasses _ _ (queuedAt 1 0) rfl (by decide)
    (.inl rfl) rfl served (by decide)⟩

end SupportOps.Python
