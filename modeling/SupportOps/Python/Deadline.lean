import SupportOps.Python.CheckTrail

/-!
# The confirmation deadline

A check that waits for its confirmation can have a deadline. `expire_waiting_checks` times the
check out when it runs at the deadline or later; `transition_check` does not look at the deadline.
So a late confirmation is accepted until the first sweep, and the order in which a sweep and a
confirmation run at one time decides the outcome.
-/
namespace SupportOps.Python

open Library

/-! ## The property at stake -/

/-- The `now` of a call. -/
def CheckCall.now : CheckCall → Instant
  | .create now _ _ _ => now
  | .transition _ args => args.now
  | .expire now => now

/-- No check that waits with a deadline is confirmed by a call at the deadline or later. -/
def DeadlineBinds (s : Store) (call : CheckCall) : Prop :=
  ∀ t, checkCalls.step s call = some t → ∀ c ∈ s.checks.rows, c.state = .waitingConfirmation →
    ∀ due, c.confirmationDueAt = some due → due ≤ call.now →
      ∀ d ∈ t.checks.rows, d.id = c.id → d.state ≠ .confirmed

/-- The call asks for a confirmation. -/
def TransitionArgs.Confirms (args : TransitionArgs) : Prop :=
  args.target = CheckState.confirmed.value

/-- No confirmation is asked of a check that still waits although its deadline has come. -/
def AsksInTime (s : Store) : CheckCall → Prop
  | .transition id args =>
    args.Confirms → ∀ c, s.checks.find? id = some c → overdue args.now c = false
  | _ => True

/-- The state of a check after some calls. -/
def stateAfter (s : Store) (calls : List CheckCall) (id : Nat) : Option CheckState :=
  (checkCalls.run s calls).bind fun t => (t.checks.find? id).map CheckRun.state

theorem overdue_iff {now : Instant} {c : CheckRun} : overdue now c = true ↔
    c.state = .waitingConfirmation ∧ ∃ due, c.confirmationDueAt = some due ∧ due ≤ now := by
  unfold overdue
  cases c.confirmationDueAt <;> simp

/-! ## One call -/

section Step

variable {s t : Store}

/-- A sweep on one check. -/
def CheckRun.swept (now : Instant) (c : CheckRun) : CheckRun :=
  if overdue now c then c.timedOut now else c

theorem CheckRun.swept_id (now : Instant) (c : CheckRun) : (c.swept now).id = c.id := by
  unfold swept
  split <;> rfl

theorem rows_expire {now : Instant} (step : checkCalls.step s (.expire now) = some t) :
    t.checks.rows = s.checks.rows.map (CheckRun.swept now) :=
  (expire_spec (I := fun _ => True) (fun _ _ => trivial) trivial step).2

theorem find?_expire {now : Instant} (step : checkCalls.step s (.expire now) = some t) (id : Nat) :
    t.checks.find? id = (s.checks.find? id).map (CheckRun.swept now) :=
  Table.find?_of_rows_map (CheckRun.swept_id now) (rows_expire step) id

/-- After a sweep nothing is overdue at its time. -/
theorem not_overdue_of_swept {now : Instant} (c : CheckRun) :
    overdue now (c.swept now) = false := by
  unfold CheckRun.swept
  split
  · rfl
  · next intime => simpa using intime

/-- A confirmation that directly follows a sweep at the same time is in time. -/
theorem asksInTime_of_swept {id : Nat} {args : TransitionArgs}
    (step : checkCalls.step s (.expire args.now) = some t) :
    AsksInTime t (.transition id args) := by
  intro _ c found
  rw [find?_expire step] at found
  obtain ⟨c, -, rfl⟩ := Option.map_eq_some_iff.mp found
  exact not_overdue_of_swept c

/-- A waiting check can be confirmed. -/
theorem transition_of_waiting {c : CheckRun} {args : TransitionArgs} (confirms : args.Confirms)
    (waiting : c.state = .waitingConfirmation) : ∃ d, c.transition args = .ok d ∧
      d.state = .confirmed := by
  have found : (allowedTransitions c.state).find? (fun s => s.value = args.target) =
      some .confirmed := by
    rw [waiting, confirms]
    decide
  have accepted : c.transition args =
      .ok { c.entered args .confirmed with confirmationDueAt := none } := by
    rw [CheckRun.transition, found]
    rfl
  exact ⟨_, accepted, rfl⟩

/-- A confirmation has no deadline to compute. -/
theorem not_overflow_of_confirms {c : CheckRun} {args : TransitionArgs}
    (confirms : args.Confirms) : c.transition args ≠ .error .overflow := by
  intro past
  refine (CheckRun.overflow_iff.mp past).2 fun waiting => ?_
  rw [confirms] at waiting
  exact absurd waiting (by decide)

/-- A confirmation that is accepted leaves the check confirmed. -/
theorem state_of_confirms {c d : CheckRun} {args : TransitionArgs} (confirms : args.Confirms)
    (moved : c.transition args = .ok d) : d.state = .confirmed := by
  have named := (CheckRun.state_of_transition moved).2
  rw [confirms] at named
  revert named
  cases d.state <;> decide

/-- The call meets the deadline of every check exactly when it does not confirm an overdue one. -/
theorem deadlineBinds_iff_asksInTime (call : CheckCall) :
    DeadlineBinds s call ↔ AsksInTime s call := by
  constructor
  · intro binds
    cases call with
    | create now name assetExternalId detail => trivial
    | expire now => trivial
    | transition id args =>
      intro confirms c found
      by_contra late
      obtain ⟨waiting, due, deadline, passed⟩ := overdue_iff.mp (by simpa using late)
      obtain ⟨t, step⟩ : ∃ t, checkCalls.step s (.transition id args) = some t := by
        simp [checkCalls, CheckCall.answer, found]
      obtain ⟨c', found', rfl, ⟨text, refused, -⟩ | ⟨past, -⟩ | ⟨d, moved⟩⟩ :=
        transition_cases step
      · obtain rfl : c' = c := Option.some.inj (found'.symm.trans found)
        obtain ⟨d, accepted, -⟩ := transition_of_waiting confirms waiting
        rw [refused] at accepted
        cases accepted
      · exact absurd past (not_overflow_of_confirms confirms)
      · obtain rfl : c' = c := Option.some.inj (found'.symm.trans found)
        have stored : d ∈ t.checks.rows := by
          rw [moved.rows]
          exact List.mem_map.mpr ⟨c', s.checks.mem_of_find? found, if_pos rfl⟩
        exact binds t step c' (s.checks.mem_of_find? found) waiting due deadline passed d stored
          moved.id_eq (state_of_confirms confirms moved.moved)
  · intro inTime t step c hc waiting due deadline passed d hd same
    have late : overdue call.now c = true := overdue_iff.mpr ⟨waiting, due, deadline, passed⟩
    have current := s.checks.find?_of_mem hc
    have stored := t.checks.find?_of_mem hd
    rw [key_check] at current stored
    rw [same] at stored
    cases call with
    | create now name assetExternalId detail =>
      cases step
      have grown := Table.find?_of_subset (s.checks.rows_subset_insert
        (createCheck now name assetExternalId detail s).1) current
      obtain rfl : d = c := Option.some.inj (stored.symm.trans grown)
      rw [waiting]
      decide
    | expire now =>
      rw [find?_expire step, current] at stored
      obtain rfl : c.swept now = d := Option.some.inj stored
      have late : overdue now c = true := late
      rw [CheckRun.swept, if_pos late]
      simp [CheckRun.timedOut]
    | transition id args =>
      obtain ⟨c', found, rfl, ⟨text, -, rfl⟩ | ⟨-, entered⟩ | ⟨d', moved⟩⟩ :=
        transition_cases step
      · obtain rfl : d = c := Option.some.inj (stored.symm.trans current)
        rw [waiting]
        decide
      · -- a call that overflows leaves the check waiting, and every other one as it was
        have loaded := s.checks.find?_of_mem (s.checks.mem_of_find? found)
        rw [entered.find? loaded] at stored
        split at stored
        · cases stored
          exact fun confirmed => by cases confirmed
        · obtain rfl : d = c := Option.some.inj (stored.symm.trans current)
          rw [waiting]
          decide
      · rw [moved.find?] at stored
        split at stored
        · next here =>
          obtain rfl : d' = d := Option.some.inj stored
          obtain rfl : c' = c :=
            s.checks.eq_of_key_eq (s.checks.mem_of_find? found) hc here.symm
          intro confirmed
          have confirms : args.Confirms := by
            rw [TransitionArgs.Confirms, ← (CheckRun.state_of_transition moved.moved).2, confirmed]
          have intime := inTime confirms c' found
          simp only [CheckCall.now] at late
          rw [late] at intime
          cases intime
        · obtain rfl : d = c := Option.some.inj (stored.symm.trans current)
          rw [waiting]
          decide

end Step

/-! ## A sweep and a confirmation at one time -/

section Order

variable {s : Store} {id : Nat}

theorem stateAfter_two {s t u : Store} {x y : CheckCall} (first : checkCalls.step s x = some t)
    (second : checkCalls.step t y = some u) :
    stateAfter s [x, y] id = (u.checks.find? id).map CheckRun.state := by
  simp [stateAfter, Machine.run_cons, first, second]

theorem step_expire (s : Store) (now : Instant) :
    ∃ t, checkCalls.step s (.expire now) = some t := by
  obtain ⟨t, expired⟩ := expireWaitingChecks_isOk now s
  exact ⟨t, by simp [checkCalls, CheckCall.answer, expired]⟩

theorem step_transition {c : CheckRun} (found : s.checks.find? id = some c)
    (args : TransitionArgs) : ∃ t, checkCalls.step s (.transition id args) = some t := by
  simp [checkCalls, CheckCall.answer, found]

/-- What a confirmation leaves of a check. -/
def CheckRun.confirmedBy (args : TransitionArgs) (c : CheckRun) : CheckRun :=
  (c.transition args).toOption.getD c

theorem find?_transition {t : Store} {c : CheckRun} {args : TransitionArgs}
    (confirms : args.Confirms) (found : s.checks.find? id = some c)
    (step : checkCalls.step s (.transition id args) = some t) :
    t.checks.find? id = some (c.confirmedBy args) := by
  obtain ⟨c', found', rfl, ⟨text, refused, rfl⟩ | ⟨past, -⟩ | ⟨d, moved⟩⟩ := transition_cases step
  · obtain rfl : c' = c := Option.some.inj (found'.symm.trans found)
    rw [found, CheckRun.confirmedBy, refused]
    rfl
  · exact absurd past (not_overflow_of_confirms confirms)
  · obtain rfl : c' = c := Option.some.inj (found'.symm.trans found)
    rw [moved.find?, if_pos rfl, CheckRun.confirmedBy, moved.moved]
    rfl

/-- The two orders, on one check. -/
theorem stateAfter_of_found {c : CheckRun} (found : s.checks.find? id = some c)
    {args : TransitionArgs} (confirms : args.Confirms) :
    stateAfter s [.expire args.now, .transition id args] id =
        some ((c.swept args.now).confirmedBy args).state ∧
      stateAfter s [.transition id args, .expire args.now] id =
        some ((c.confirmedBy args).swept args.now).state := by
  constructor
  · obtain ⟨t, expired⟩ := step_expire s args.now
    have here : t.checks.find? id = some (c.swept args.now) := by
      rw [find?_expire expired, found, Option.map_some]
    obtain ⟨u, moved⟩ := step_transition here args
    rw [stateAfter_two expired moved, find?_transition confirms here moved, Option.map_some]
  · obtain ⟨t, moved⟩ := step_transition found args
    obtain ⟨u, expired⟩ := step_expire t args.now
    rw [stateAfter_two moved expired, find?_expire expired,
      find?_transition confirms found moved, Option.map_some, Option.map_some]

/-- Of an overdue check the first of the two calls decides; of any other one the sweep takes no
notice. -/
theorem orders_agree_iff {c : CheckRun} {args : TransitionArgs} (confirms : args.Confirms) :
    ((c.swept args.now).confirmedBy args).state = ((c.confirmedBy args).swept args.now).state ↔
      overdue args.now c = false := by
  constructor
  · intro same
    by_contra late
    rw [Bool.not_eq_false] at late
    obtain ⟨waiting, -⟩ := overdue_iff.mp late
    obtain ⟨d, accepted, confirmed⟩ := transition_of_waiting confirms waiting
    have swept : c.swept args.now = c.timedOut args.now := if_pos late
    have refused : ((c.timedOut args.now).confirmedBy args) = c.timedOut args.now := by
      simp [CheckRun.confirmedBy, CheckRun.transition, CheckRun.timedOut, allowedTransitions,
        Except.toOption]
    have kept : (c.confirmedBy args).swept args.now = d := by
      have intime : overdue args.now d = false := by simp [overdue, confirmed]
      simp [CheckRun.confirmedBy, accepted, Except.toOption, CheckRun.swept, intime]
    rw [swept, refused, kept, confirmed] at same
    cases same
  · intro intime
    have swept : c.swept args.now = c := if_neg (by simp [intime])
    rw [swept]
    have later : overdue args.now (c.confirmedBy args) = false := by
      cases moved : c.transition args with
      | error e => simpa [CheckRun.confirmedBy, moved, Except.toOption] using intime
      | ok d =>
        have confirmed := state_of_confirms confirms moved
        simp [CheckRun.confirmedBy, moved, Except.toOption, overdue, confirmed]
    rw [CheckRun.swept, later]
    rfl

end Order

/-! ## Runs -/

/-- In every run the deadlines bind exactly as long as no confirmation is asked of an overdue
check, and a sweep and a confirmation at one time can be exchanged exactly if the check is not
overdue then. -/
theorem deadlineBinds_iff (s : Store) :
    (∀ calls : List CheckCall,
      checkCalls.Along DeadlineBinds s calls ↔ checkCalls.Along AsksInTime s calls) ∧
    ∀ (id : Nat) (args : TransitionArgs), args.Confirms →
      (stateAfter s [.expire args.now, .transition id args] id =
          stateAfter s [.transition id args, .expire args.now] id ↔
        ∀ c, s.checks.find? id = some c → overdue args.now c = false) := by
  constructor
  · intro calls
    exact checkCalls.along_iff_of_invariant (I := fun _ => True)
      (fun s call _ => deadlineBinds_iff_asksInTime call) (fun _ _ _ _ _ _ => trivial) trivial calls
  · intro id args confirms
    cases found : s.checks.find? id with
    | some c =>
      obtain ⟨first, second⟩ := stateAfter_of_found found confirms
      rw [first, second, Option.some.injEq, orders_agree_iff confirms]
      simp
    | none =>
      obtain ⟨t, expired⟩ := step_expire s args.now
      have gone : t.checks.find? id = none := by rw [find?_expire expired, found, Option.map_none]
      have early : stateAfter s [.transition id args, .expire args.now] id = none := by
        simp [stateAfter, Machine.run_cons, checkCalls, CheckCall.answer, found]
      have late : stateAfter s [.expire args.now, .transition id args] id = none := by
        rw [stateAfter, Machine.run_cons, expired]
        simp [Machine.run_cons, checkCalls, CheckCall.answer, gone]
      rw [early, late]
      simp

/-- A check that has to be confirmed within 30 seconds. -/
def confirmWithin : List CheckCall :=
  [.create 0 "valve" "VALVE-9" "", .transition 1 (.ascii "started" "" none 1),
    .transition 1 (.ascii "waiting_confirmation" "" (some 30) 2)]

def confirmValve (now : Instant) : TransitionArgs := .ascii "confirmed" "" none now

theorem deadlineBinds_confirmWithin :
    ∃ s, checkCalls.run Store.empty confirmWithin = some s ∧
      stateAfter s [.expire (seconds 29), .transition 1 (confirmValve (seconds 29))] 1 =
        stateAfter s [.transition 1 (confirmValve (seconds 29)), .expire (seconds 29)] 1 := by
  refine ⟨_, rfl, ((deadlineBinds_iff _).2 1 (confirmValve (seconds 29)) rfl).mpr ?_⟩
  intro c found
  cases found
  decide

/-- Half a minute late the confirmation is accepted, unless a sweep has run before it. -/
theorem late_confirmation_accepted :
    ¬ checkCalls.Along DeadlineBinds Store.empty
        (confirmWithin ++ [.transition 1 (confirmValve (seconds 60))]) ∧
    ∃ s, checkCalls.run Store.empty confirmWithin = some s ∧
      stateAfter s [.transition 1 (confirmValve (seconds 60)), .expire (seconds 60)] 1 =
        some .confirmed ∧
      stateAfter s [.expire (seconds 60), .transition 1 (confirmValve (seconds 60))] 1 =
        some .timeout := by
  refine ⟨fun binds => ?_, _, rfl, by decide, by decide⟩
  have last := (binds.2 _ rfl |>.2 _ rfl |>.2 _ rfl).1
  exact last _ rfl _ (List.mem_singleton_self _) rfl _ rfl (by decide) _
    (List.mem_singleton_self _) rfl rfl

end SupportOps.Python
