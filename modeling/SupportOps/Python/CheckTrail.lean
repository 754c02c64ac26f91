import SupportOps.Library.Runs
import SupportOps.Python.Checks

/-!
# The audit trail of checks

Calls of `create_check`, `transition_check` and `expire_waiting_checks` in any order. The audit
rows of a check replay to its state: its creation, then the targets of a path through
`ALLOWED_TRANSITIONS`. Nothing else moves a check, and a rejected transition changes nothing. A
deadline past the last `datetime` is what breaks a trail: the call raises when the check has moved
and its audit row is not written yet.
-/
namespace SupportOps.Python

open Library

/-! ## Calls -/

inductive CheckCall where
  | create (now : Instant) (name assetExternalId detail : String)
  | transition (id : Nat) (args : TransitionArgs)
  | expire (now : Instant)
  deriving DecidableEq, Repr

/-- What a call returns or raises. -/
inductive CheckAnswer where
  | created (check : CheckRun)
  | moved (check : CheckRun)
  | expired (count : Nat)
  | raised (error : TransitionError)
  deriving DecidableEq, Repr

/-- The answer of a call and the store after it, as the session sees it that makes all the calls. A
transition is asked of a stored check. -/
def CheckCall.answer : CheckCall → Store → Option (CheckAnswer × Store)
  | .create now name assetExternalId detail, s =>
    let (c, t) := createCheck now name assetExternalId detail s
    some (.created c, t)
  | .transition id args, s =>
    (s.checks.find? id).map fun c =>
      match transitionCheck args c s with
      | .ok (d, t) => (.moved d, t)
      | .error e => (.raised e, afterRaised args c s e)
  | .expire now, s =>
    match expireWaitingChecks now s with
    | .ok (count, t) => some (.expired count, t)
    | .error e => some (.raised e, s)

/-- Where the call asks for a deadline, its time is a `datetime`. -/
def CheckCall.Timed : CheckCall → Prop
  | .transition _ args => args.Timed
  | _ => True

instance (c : CheckCall) : Decidable c.Timed := by
  cases c <;> unfold CheckCall.Timed <;> infer_instance

def checkCalls : Machine Store CheckCall := ⟨fun s c => (c.answer s).map Prod.snd⟩

/-! ## Trails -/

/-- The targets of transitions that lead from `pending` to a state. -/
inductive TransitionPath : CheckState → List CheckState → Prop
  | start : TransitionPath .pending []
  | step {state next : CheckState} {path : List CheckState} (earlier : TransitionPath state path)
      (allowed : next ∈ allowedTransitions state) : TransitionPath next (path ++ [next])

/-- How many transitions can follow. -/
def CheckState.remaining : CheckState → Nat
  | .pending => 3
  | .started => 2
  | .waitingConfirmation => 1
  | _ => 0

theorem CheckState.remaining_lt {s t : CheckState} (h : t ∈ allowedTransitions s) :
    t.remaining < s.remaining := by
  revert h
  cases s <;> cases t <;> decide

theorem TransitionPath.length_le {state : CheckState} {path : List CheckState}
    (h : TransitionPath state path) : path.length + state.remaining ≤ 3 := by
  induction h with
  | start => decide
  | step earlier allowed ih =>
    have less := CheckState.remaining_lt allowed
    rw [List.length_append, List.length_singleton]
    omega

/-- The audit rows of a check. -/
def Store.checkAudits (s : Store) (id : Nat) : List AuditLog :=
  s.audits.filter fun r => r.entityType = "check" ∧ r.entityId = id

/-- What an audit row says happened. -/
def AuditLog.entry (r : AuditLog) : String × String := (r.eventType, r.message)

def createdEntry (name : String) : String × String :=
  ("check_created", "Check " ++ name ++ " created")

def transitionedEntry (target : CheckState) : String × String :=
  ("check_transitioned", "Check moved to " ++ target.value)

/-- The audit rows of the check replay to its state, and only waiting checks have a deadline. -/
structure Trail (s : Store) (c : CheckRun) : Prop where
  replays : ∃ path, TransitionPath c.state path ∧ path.length ≤ 3 ∧
    (s.checkAudits c.id).map AuditLog.entry = createdEntry c.name :: path.map transitionedEntry
  deadline : c.confirmationDueAt ≠ none → c.state = .waitingConfirmation

/-- Every check has its trail, and no check that is not stored has one. -/
structure Trails (s : Store) : Prop where
  checks : ∀ c ∈ s.checks.rows, Trail s c
  unknown : ∀ id, s.checks.find? id = none → s.checkAudits id = []

/-! ## One transition -/

theorem checkAudits_append {s t : Store} {row : AuditLog} (audits : t.audits = s.audits ++ [row])
    (entity : row.entityType = "check") (id : Nat) :
    t.checkAudits id = s.checkAudits id ++ if row.entityId = id then [row] else [] := by
  unfold Store.checkAudits
  rw [audits, List.filter_append]
  by_cases same : row.entityId = id <;> simp [entity, same]

/-- What a successful transition leaves of the check's other columns. -/
theorem CheckRun.transition_keeps {args : TransitionArgs} {c d : CheckRun}
    (h : c.transition args = .ok d) : d.id = c.id ∧ d.name = c.name ∧
      d.assetExternalId = c.assetExternalId ∧ d.createdAt = c.createdAt ∧
      c.dueAfter args d.state = some d.confirmationDueAt := by
  unfold transition at h
  split at h
  · cases h
  · split at h
    · cases h
    · next due fits =>
      cases h
      exact ⟨rfl, rfl, rfl, rfl, fits⟩

/-- A transition on a stored check: its row and its audit row. -/
structure Moved (s t : Store) (args : TransitionArgs) (c d : CheckRun) : Prop where
  current : s.checks.find? c.id = some c
  moved : c.transition args = .ok d
  rows : t.checks.rows = s.checks.rows.map fun r => if r.id = c.id then d else r
  audits : t.audits = s.audits ++ [d.transitioned args.now]

theorem moved_of_transitionCheck {s t : Store} {args : TransitionArgs} {c d : CheckRun}
    (current : s.checks.find? c.id = some c) (h : transitionCheck args c s = .ok (d, t)) :
    Moved s t args c d := by
  unfold transitionCheck at h
  cases moved : c.transition args with
  | error e => rw [moved] at h; cases h
  | ok d' =>
    rw [moved] at h
    cases h
    obtain ⟨id, name, asset, created, -⟩ := CheckRun.transition_keeps moved
    exact ⟨current, moved, s.rows_flush_check d current id name asset created, rfl⟩

namespace Moved

variable {s t : Store} {args : TransitionArgs} {c d : CheckRun}

theorem id_eq (h : Moved s t args c d) : d.id = c.id := (CheckRun.transition_keeps h.moved).1

theorem find? (h : Moved s t args c d) (k : Nat) :
    t.checks.find? k = if k = c.id then some d else s.checks.find? k :=
  Table.find?_of_rows_replace h.current h.id_eq h.rows k

/-- Only a check that starts to wait is given a deadline, and only a waiting one keeps it. -/
theorem deadline (h : Moved s t args c d)
    (before : c.confirmationDueAt ≠ none → c.state = .waitingConfirmation)
    (due : d.confirmationDueAt ≠ none) : d.state = .waitingConfirmation := by
  have allowed := (CheckRun.state_of_transition h.moved).1
  have after := (CheckRun.transition_keeps h.moved).2.2.2.2
  by_contra other
  unfold CheckRun.dueAfter at after
  split at after
  · exact due (Option.some.inj after).symm
  · next unfinished =>
    rw [← Option.some.inj after] at due
    rw [before due] at allowed
    cases state : d.state <;> simp_all [allowedTransitions, CheckState.finished]

theorem trails (h : Moved s t args c d) (trails : Trails s) : Trails t := by
  have audits := checkAudits_append h.audits rfl
  have entity : (d.transitioned args.now).entityId = c.id := h.id_eq
  refine ⟨?_, ?_⟩
  · intro r hr
    rw [h.rows, List.mem_map] at hr
    obtain ⟨q, hq, rfl⟩ := hr
    split
    · have trail := trails.checks c (s.checks.mem_of_find? h.current)
      obtain ⟨path, leads, -, entries⟩ := trail.replays
      have next := TransitionPath.step leads (CheckRun.state_of_transition h.moved).1
      have short := next.length_le
      refine ⟨⟨path ++ [d.state], next, by omega, ?_⟩, h.deadline trail.deadline⟩
      rw [h.id_eq, audits, if_pos entity, List.map_append, entries,
        (CheckRun.transition_keeps h.moved).2.1, List.map_append]
      rfl
    · next other =>
      obtain ⟨⟨path, leads, short, entries⟩, deadline⟩ := trails.checks q hq
      refine ⟨⟨path, leads, short, ?_⟩, deadline⟩
      rw [audits, if_neg fun same => other (same.symm.trans entity), List.append_nil, entries]
  · intro id none
    have other : id ≠ c.id := by
      rintro rfl
      rw [h.find?, if_pos rfl] at none
      cases none
    rw [h.find?, if_neg other] at none
    rw [audits, if_neg fun same => other (same.symm.trans entity), List.append_nil,
      trails.unknown id none]

end Moved

/-! ## The sweep -/

/-- The loop of the sweep over stored, overdue checks with different ids, and what it keeps
because every transition does. -/
theorem expireEach_spec {now : Instant} {I : Store → Prop}
    (kept : ∀ {s t args c d}, Moved s t args c d → I s → I t) (cs : List CheckRun) :
    ∀ {s : Store}, (cs.map CheckRun.id).Nodup →
      (∀ c ∈ cs, s.checks.find? c.id = some c ∧ overdue now c = true) → I s →
      ∃ t, expireEach now cs s = .ok t ∧ I t ∧ t.checks.rows =
        s.checks.rows.map fun r => if r.id ∈ cs.map CheckRun.id then r.timedOut now else r := by
  induction cs with
  | nil =>
    intro s _ _ start
    refine ⟨s, rfl, start, ?_⟩
    simp
  | cons c rest ih =>
    intro s nodup due start
    obtain ⟨current, late⟩ := due c (List.mem_cons_self ..)
    obtain ⟨fresh, nodup⟩ := List.nodup_cons.mp nodup
    have ok : transitionCheck (timeoutArgs now) c s =
        .ok (c.timedOut now, s.write (c.transitionWrites (c.timedOut now) now)) := by
      rw [transitionCheck, transition_timeout late]
      rfl
    have moved := moved_of_transitionCheck current ok
    obtain ⟨t, expired, after, rows⟩ := ih nodup (fun r hr => by
      obtain ⟨here, overdue⟩ := due r (List.mem_cons_of_mem _ hr)
      have other : r.id ≠ c.id := fun same => fresh (same ▸ List.mem_map_of_mem hr)
      refine ⟨?_, overdue⟩
      rw [moved.find?, if_neg other, here]) (kept moved start)
    refine ⟨t, ?_, after, ?_⟩
    · rw [expireEach, ok]
      exact expired
    · rw [rows, moved.rows, List.map_map]
      refine List.map_congr_left fun r hr => ?_
      simp only [Function.comp_apply, List.map_cons, List.mem_cons]
      by_cases same : r.id = c.id
      · obtain rfl : r = c := s.checks.eq_of_key_eq hr (s.checks.mem_of_find? current) same
        simp [fresh]
      · simp [same]

/-- The sweep moves the overdue checks to `timeout` and no other check, and counts them. -/
def ExpiresOverdue (s : Store) : Prop :=
  ∀ now, ∃ t, (CheckCall.expire now).answer s =
      some (.expired (s.checks.rows.countP (overdue now)), t) ∧
    t.checks.rows = s.checks.rows.map fun c => if overdue now c then c.timedOut now else c

theorem expireWaitingChecks_spec {I : Store → Prop}
    (kept : ∀ {s t args c d}, Moved s t args c d → I s → I t) (now : Instant) {s : Store}
    (start : I s) :
    ∃ t, expireWaitingChecks now s = .ok ((s.checks.rows.filter (overdue now)).length, t) ∧
      I t ∧ t.checks.rows =
        s.checks.rows.map fun c => if overdue now c then c.timedOut now else c := by
  have nodup : ((s.checks.rows.filter (overdue now)).map CheckRun.id).Nodup :=
    s.checks.nodup.sublist (List.filter_sublist.map _)
  obtain ⟨t, expired, after, rows⟩ := expireEach_spec kept (s.checks.rows.filter (overdue now))
    nodup (fun c hc => ⟨s.checks.find?_of_mem (List.mem_filter.mp hc).1,
      (List.mem_filter.mp hc).2⟩) start
  refine ⟨t, by rw [expireWaitingChecks, expired]; rfl, after, ?_⟩
  rw [rows]
  refine List.map_congr_left fun r hr => ?_
  have selected : r.id ∈ (s.checks.rows.filter (overdue now)).map CheckRun.id ↔
      overdue now r = true := by
    rw [List.mem_map]
    constructor
    · rintro ⟨q, hq, same⟩
      obtain ⟨mem, late⟩ := List.mem_filter.mp hq
      rwa [← s.checks.eq_of_key_eq mem hr same]
    · exact fun late => ⟨r, List.mem_filter.mpr ⟨hr, late⟩, rfl⟩
  exact if_congr selected rfl rfl

/-! ## Runs -/

/-- The check has been moved to `waiting_confirmation`, and nothing else has happened. -/
structure Entered (s t : Store) (args : TransitionArgs) (c : CheckRun) : Prop where
  rows : t.checks.rows = s.checks.rows.map fun r =>
    if r.id = c.id then c.entered args .waitingConfirmation else r
  audits : t.audits = s.audits

theorem Entered.find? {s t : Store} {args : TransitionArgs} {c : CheckRun}
    (h : Entered s t args c) (current : s.checks.find? c.id = some c) (k : Nat) :
    t.checks.find? k =
      if k = c.id then some (c.entered args .waitingConfirmation) else s.checks.find? k := by
  have same : (c.entered args .waitingConfirmation).id = c.id := rfl
  exact Table.find?_of_rows_replace current same h.rows k

theorem entered_afterRaised {s : Store} {args : TransitionArgs} {c : CheckRun}
    (current : s.checks.find? c.id = some c) : Entered s (afterRaised args c s .overflow) args c :=
  ⟨s.rows_flush_check (c.entered args .waitingConfirmation) current rfl rfl rfl rfl, rfl⟩

/-- A transition to a state that may follow moves the check there, if the time of its deadline is a
`datetime`, and any other one raises `InvalidCheckTransition` and leaves the store as it is. -/
def RejectsOthers (s : Store) : Prop :=
  ∀ c ∈ s.checks.rows, ∀ args : TransitionArgs,
    if args.target ∈ (allowedTransitions c.state).map CheckState.value then
      if args.Timed then
        ∃ d t, (CheckCall.transition c.id args).answer s = some (.moved d, t) ∧
          d.state.value = args.target ∧
          t.checks.rows = s.checks.rows.map fun r => if r.id = c.id then d else r
      else ∃ t, (CheckCall.transition c.id args).answer s = some (.raised .overflow, t) ∧
        Entered s t args c
    else ∃ text, (CheckCall.transition c.id args).answer s =
      some (.raised (.invalidCheckTransition text), s)

/-- What a transition on a stored check answers. -/
theorem answer_transition {s : Store} {c : CheckRun} (current : s.checks.find? c.id = some c)
    (args : TransitionArgs) : (CheckCall.transition c.id args).answer s =
      some (match transitionCheck args c s with
        | .ok (d, t) => (.moved d, t)
        | .error e => (.raised e, afterRaised args c s e)) := by
  simp [CheckCall.answer, current]

theorem rejectsOthers (s : Store) : RejectsOthers s := by
  intro c hc args
  have current : s.checks.find? c.id = some c := s.checks.find?_of_mem hc
  have answer := answer_transition current args
  cases moved : c.transition args with
  | ok d =>
    have ok : transitionCheck args c s = .ok (d, s.write (c.transitionWrites d args.now)) := by
      simp only [transitionCheck, moved, Except.map]
    have step := moved_of_transitionCheck current ok
    obtain ⟨allowed, named⟩ := CheckRun.state_of_transition moved
    have timed : args.Timed := by
      by_contra far
      have past := CheckRun.overflow_iff.mpr ⟨List.mem_map.mpr ⟨d.state, allowed, named⟩, far⟩
      rw [moved] at past
      cases past
    rw [if_pos (List.mem_map.mpr ⟨d.state, allowed, named⟩), if_pos timed]
    exact ⟨d, _, by rw [answer, ok], named, step.rows⟩
  | error e =>
    have raised : transitionCheck args c s = .error e := by
      simp only [transitionCheck, moved, Except.map]
    rw [raised] at answer
    cases e with
    | overflow =>
      obtain ⟨allowed, far⟩ := CheckRun.overflow_iff.mp moved
      rw [if_pos allowed, if_neg far]
      exact ⟨_, answer, entered_afterRaised current⟩
    | invalidCheckTransition text =>
      rw [if_neg (CheckRun.not_allowed_of_invalid moved)]
      exact ⟨text, answer⟩

theorem Trails.create {s : Store} (h : Trails s) (now : Instant)
    (name assetExternalId detail : String) :
    Trails (createCheck now name assetExternalId detail s).2 := by
  set c : CheckRun := (createCheck now name assetExternalId detail s).1 with hc
  have rows : (createCheck now name assetExternalId detail s).2.checks.rows =
      s.checks.rows ++ [c] := s.checks.rows_insert_of_fresh s.checks.find?_nextId
  have fresh : s.checks.find? c.id = none := s.checks.find?_nextId
  have appended : (createCheck now name assetExternalId detail s).2.audits =
      s.audits ++ [c.created now] := rfl
  have audits := checkAudits_append appended rfl
  have entity : (c.created now).entityId = c.id := rfl
  refine ⟨?_, ?_⟩
  · intro r hr
    rw [rows, List.mem_append, List.mem_singleton] at hr
    rcases hr with old | rfl
    · obtain ⟨⟨path, leads, short, entries⟩, deadline⟩ := h.checks r old
      have other : c.id ≠ r.id := fun same =>
        s.checks.find?_eq_none_iff.mp fresh r old same.symm
      refine ⟨⟨path, leads, short, ?_⟩, deadline⟩
      rw [audits, if_neg fun same => other (entity.symm.trans same), List.append_nil, entries]
    · refine ⟨⟨[], .start, by decide, ?_⟩, fun due => absurd rfl due⟩
      rw [audits, if_pos entity, h.unknown _ fresh]
      rfl
  · intro id none
    have other : c.id ≠ id := by
      rintro rfl
      exact (Table.find?_eq_none_iff _).mp none c (by rw [rows]; simp) rfl
    rw [audits, if_neg fun same => other (entity.symm.trans same), List.append_nil]
    refine h.unknown id (s.checks.find?_eq_none_iff.mpr fun r hr => ?_)
    exact (Table.find?_eq_none_iff _).mp none r (by rw [rows]; exact List.mem_append_left _ hr)

/-- A transition is asked of a stored check. It raises, in the one case when the check has been
moved, or it moves the check. -/
theorem transition_cases {s t : Store} {id : Nat} {args : TransitionArgs}
    (step : checkCalls.step s (.transition id args) = some t) :
    ∃ c, s.checks.find? id = some c ∧ c.id = id ∧
      ((∃ text, c.transition args = .error (.invalidCheckTransition text) ∧ t = s) ∨
        (c.transition args = .error .overflow ∧ Entered s t args c) ∨
        ∃ d, Moved s t args c d) := by
  obtain ⟨⟨answer, u⟩, answered, rfl⟩ := Option.map_eq_some_iff.mp step
  obtain ⟨c, found, answered⟩ := Option.map_eq_some_iff.mp answered
  have current : s.checks.find? c.id = some c :=
    s.checks.find?_of_mem (s.checks.mem_of_find? found)
  refine ⟨c, found, s.checks.key_of_find? found, ?_⟩
  cases moved : c.transition args with
  | error e =>
    simp only [transitionCheck, moved, Except.map] at answered
    cases e with
    | invalidCheckTransition text =>
      cases answered
      exact .inl ⟨text, rfl, rfl⟩
    | overflow =>
      cases answered
      exact .inr (.inl ⟨rfl, entered_afterRaised current⟩)
  | ok d =>
    have ok : transitionCheck args c s = .ok (d, s.write (c.transitionWrites d args.now)) := by
      simp only [transitionCheck, moved, Except.map]
    rw [ok] at answered
    cases answered
    exact .inr (.inr ⟨d, moved_of_transitionCheck current ok⟩)

/-- A sweep moves the overdue checks and no other one, and keeps what every transition keeps. -/
theorem expire_spec {I : Store → Prop} (kept : ∀ {s t args c d}, Moved s t args c d → I s → I t)
    {s t : Store} {now : Instant} (start : I s) (step : checkCalls.step s (.expire now) = some t) :
    I t ∧
      t.checks.rows = s.checks.rows.map fun c => if overdue now c then c.timedOut now else c := by
  obtain ⟨⟨answer, u⟩, answered, rfl⟩ := Option.map_eq_some_iff.mp step
  obtain ⟨v, expired, after, rows⟩ := expireWaitingChecks_spec kept now start
  simp only [CheckCall.answer, expired] at answered
  cases answered
  exact ⟨after, rows⟩

theorem Trails.step {s t : Store} (h : Trails s) {c : CheckCall} (timed : c.Timed)
    (step : checkCalls.step s c = some t) : Trails t := by
  cases c with
  | create now name assetExternalId detail =>
    cases step
    exact h.create now name assetExternalId detail
  | transition id args =>
    obtain ⟨c, -, -, ⟨text, -, rfl⟩ | ⟨past, -⟩ | ⟨d, moved⟩⟩ := transition_cases step
    · exact h
    · exact absurd timed (CheckRun.overflow_iff.mp past).2
    · exact moved.trails h
  | expire now => exact (expire_spec Moved.trails h step).1

/-- In every run from a store without checks whose deadlines all are `datetime`s, each check's audit
rows replay to its state, what is rejected changes nothing, and the sweep moves exactly the overdue
checks. -/
theorem checkTrail_of_run (s₀ : Store) (noChecks : s₀.checks.rows = [])
    (noAudits : ∀ r ∈ s₀.audits, r.entityType ≠ "check") (cs : List CheckCall)
    (timed : ∀ c ∈ cs, c.Timed) (s : Store) (run : checkCalls.run s₀ cs = some s) :
    (∀ c ∈ s.checks.rows, Trail s c) ∧ RejectsOthers s ∧ ExpiresOverdue s := by
  have start : Trails s₀ := by
    refine ⟨fun c hc => (by rw [noChecks] at hc; cases hc), fun id _ => ?_⟩
    refine List.filter_eq_nil_iff.mpr fun r hr => ?_
    simp [noAudits r hr]
  have reached : Trails s :=
    checkCalls.run_invariant_of_along (fun _ _ _ admitted h step => h.step admitted.1 step)
      ((checkCalls.along_true s₀ cs).and_label _ timed) start run
  refine ⟨reached.checks, rejectsOthers s, fun now => ?_⟩
  obtain ⟨t, expired, -, rows⟩ := expireWaitingChecks_spec Moved.trails now reached
  refine ⟨t, ?_, rows⟩
  simp only [CheckCall.answer, expired, List.countP_eq_length_filter]

/-- One check is confirmed, another one times out. -/
def twoChecks : List CheckCall :=
  [.create 0 "valve" "VALVE-9" "", .create 0 "pump" "PUMP-101" "",
    .transition 1 (.ascii "Started" "" none 1), .transition 2 (.ascii "STARTED" "" none 1),
    .transition 1 (.ascii "waiting_confirmation" "" (some 60) 2),
    .transition 1 (.ascii "pending" "" none 3),
    .transition 2 (.ascii "waiting_confirmation" "" (some 1) 2), .expire (seconds 2),
    .transition 1 (.ascii "confirmed" "" none (seconds 3))]

theorem checkTrail_twoChecks : ∃ s : Store, checkCalls.run Store.empty twoChecks = some s ∧
    s.checks.rows.map CheckRun.state = [.confirmed, .timeout] ∧
    (∀ c ∈ s.checks.rows, Trail s c) ∧ RejectsOthers s ∧ ExpiresOverdue s :=
  ⟨_, rfl, by decide,
    checkTrail_of_run Store.empty rfl (fun r hr => by cases hr) twoChecks (by decide) _ rfl⟩

/-- A confirmation that would be due some thirty thousand years later. -/
def farDeadline : List CheckCall :=
  [.create 0 "valve" "VALVE-9" "", .transition 1 (.ascii "started" "" none 1),
    .transition 1 (.ascii "waiting_confirmation" "" (some 1000000000000) 2)]

/-- The call raises `OverflowError`: the check waits, and no audit row says so. -/
theorem farDeadline_breaks_trail : ∃ s t : Store,
    checkCalls.run Store.empty (farDeadline.take 2) = some s ∧
    (CheckCall.transition 1 (.ascii "waiting_confirmation" "" (some 1000000000000) 2)).answer s =
      some (.raised .overflow, t) ∧
    checkCalls.run Store.empty farDeadline = some t ∧
    t.checks.rows.map CheckRun.state = [.waitingConfirmation] ∧
    ¬ ∀ c ∈ t.checks.rows, Trail t c := by
  refine ⟨_, _, rfl, rfl, rfl, by decide, fun trails => ?_⟩
  obtain ⟨path, leads, -, entries⟩ := (trails _ (List.mem_singleton_self _)).replays
  have leads : TransitionPath .waitingConfirmation path := leads
  cases leads with
  | step earlier allowed =>
    -- the last row of the trail would have to be that of the overflowing call
    have last := congrArg List.getLast? entries
    rw [List.map_append, ← List.cons_append] at last
    simp only [List.map_cons, List.map_nil, List.getLast?_append_cons, List.getLast?_singleton]
      at last
    exact absurd last (by decide)

end SupportOps.Python
