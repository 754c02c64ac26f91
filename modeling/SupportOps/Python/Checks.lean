import SupportOps.Python.Writes

/-!
# Checks

`services/checks.py`: a check moves along `ALLOWED_TRANSITIONS`, one transition at a time, and
checks whose confirmation is overdue are timed out together.
-/
namespace SupportOps.Python

open Library

/-- What `transition_check` raises. -/
inductive TransitionError where
  /-- `InvalidCheckTransition`, with its text -/
  | invalidCheckTransition (text : String)
  /-- `OverflowError`, of the time of the deadline -/
  | overflow
  deriving DecidableEq, Repr

/-- `ALLOWED_TRANSITIONS` -/
def allowedTransitions : CheckState → List CheckState
  | .pending => [.started, .cancelled, .failed]
  | .started => [.waitingConfirmation, .cancelled, .failed]
  | .waitingConfirmation => [.confirmed, .timeout, .cancelled, .failed]
  | .confirmed => []
  | .timeout => []
  | .cancelled => []
  | .failed => []

/-- The states that clear `confirmation_due_at`. -/
def CheckState.finished (s : CheckState) : Bool :=
  s = .confirmed ∨ s = .timeout ∨ s = .cancelled ∨ s = .failed

/-- The finished states are those that nothing follows. -/
theorem CheckState.finished_iff (s : CheckState) :
    s.finished = true ↔ allowedTransitions s = [] := by
  cases s <;> simp [finished, allowedTransitions]

theorem CheckState.not_mem_allowed (s : CheckState) : s ∉ allowedTransitions s := by
  cases s <;> simp [allowedTransitions]

/-- `str.lower` of a text of ASCII characters. -/
def asciiLower (text : String) : String := String.ofList (text.toList.map Char.toLower)

def isAscii (text : String) : Bool := text.toList.all fun c => c.toNat < 128

/-- The arguments of `transition_check`, the check apart, and `target_state.lower()`, which for
other letters than those of ASCII is Unicode's. -/
structure TransitionArgs where
  targetState : String
  target : String
  detail : String
  timeoutSeconds : Option Int
  now : Instant
  lowered : isAscii targetState = true → target = asciiLower targetState
  deriving DecidableEq, Repr

namespace TransitionArgs

/-- A call with a target in ASCII. -/
def ascii (targetState detail : String) (timeoutSeconds : Option Int) (now : Instant) :
    TransitionArgs :=
  ⟨targetState, asciiLower targetState, detail, timeoutSeconds, now, fun _ => rfl⟩

/-- Where the call asks for a deadline, its time is a `datetime`. -/
def Timed (args : TransitionArgs) : Prop :=
  args.target = CheckState.waitingConfirmation.value →
    ∀ timeout ∈ args.timeoutSeconds, (plus args.now (seconds timeout)).isSome

instance (args : TransitionArgs) : Decidable args.Timed := inferInstanceAs (Decidable (_ → _))

end TransitionArgs

namespace CheckRun

/-- The first three columns that `transition_check` sets. -/
def entered (args : TransitionArgs) (state : CheckState) (c : CheckRun) : CheckRun :=
  { c with
    state := state
    detail := if args.detail = "" then c.detail else args.detail
    updatedAt := args.now }

/-- `confirmation_due_at` after a transition to `state`, if its time is a `datetime`. -/
def dueAfter (args : TransitionArgs) (state : CheckState) (c : CheckRun) :
    Option (Option Instant) :=
  if state.finished then some none
  else if state = .waitingConfirmation then
    match args.timeoutSeconds with
    | some timeout => (plus args.now (seconds timeout)).map some
    | none => some c.confirmationDueAt
  else some c.confirmationDueAt

/-- The check in memory after `transition_check`, before the flush. -/
def transition (args : TransitionArgs) (c : CheckRun) : Except TransitionError CheckRun :=
  match (allowedTransitions c.state).find? fun s => s.value = args.target with
  | none =>
    .error (.invalidCheckTransition
      ("cannot transition check from " ++ c.state.value ++ " to " ++ args.target))
  | some state =>
    match c.dueAfter args state with
    | none => .error .overflow
    | some due => .ok { c.entered args state with confirmationDueAt := due }

def created (c : CheckRun) (now : Instant) : AuditLog :=
  ⟨"check_created", "check", c.id, "Check " ++ c.name ++ " created", now⟩

def transitioned (c : CheckRun) (now : Instant) : AuditLog :=
  ⟨"check_transitioned", "check", c.id, "Check moved to " ++ c.state.value, now⟩

/-- The flush of a transition and its audit row. -/
def transitionWrites (loaded new : CheckRun) (now : Instant) : List Write :=
  [.updateCheck (loaded.flush new), .insertAudit (new.transitioned now)]

theorem state_of_transition {args : TransitionArgs} {c d : CheckRun}
    (h : c.transition args = .ok d) :
    d.state ∈ allowedTransitions c.state ∧ d.state.value = args.target := by
  unfold transition at h
  split at h
  · cases h
  · next state found =>
    have named : state.value = args.target := by simpa using List.find?_some found
    split at h
    · cases h
    · cases h
      exact ⟨List.mem_of_find?_eq_some found, named⟩

theorem not_allowed_of_invalid {args : TransitionArgs} {c : CheckRun} {text : String}
    (h : c.transition args = .error (.invalidCheckTransition text)) :
    args.target ∉ (allowedTransitions c.state).map CheckState.value := by
  intro allowed
  obtain ⟨state, mem, named⟩ := List.mem_map.mp allowed
  unfold transition at h
  split at h
  · next none => exact List.find?_eq_none.mp none state mem (by simpa using named)
  · split at h <;> cases h

/-- Only a transition to `waiting_confirmation` can overflow. -/
theorem dueAfter_eq_none {args : TransitionArgs} {state : CheckState} {c : CheckRun}
    (h : c.dueAfter args state = none) :
    state = .waitingConfirmation ∧ ∃ timeout ∈ args.timeoutSeconds,
      (plus args.now (seconds timeout)).isSome = false := by
  unfold dueAfter at h
  split at h
  · cases h
  · split at h
    · next waiting =>
      refine ⟨waiting, ?_⟩
      split at h
      · next timeout asked => exact ⟨timeout, asked, by simpa using h⟩
      · cases h
    · cases h

theorem overflow_iff {args : TransitionArgs} {c : CheckRun} :
    c.transition args = .error .overflow ↔
      args.target ∈ (allowedTransitions c.state).map CheckState.value ∧ ¬ args.Timed := by
  unfold transition
  split
  · next none =>
    refine iff_of_false (fun h => by cases h) fun h => ?_
    obtain ⟨state, mem, named⟩ := List.mem_map.mp h.1
    exact List.find?_eq_none.mp none state mem (by simpa using named)
  · next state found =>
    have named : state.value = args.target := by simpa using List.find?_some found
    have allowed : args.target ∈ (allowedTransitions c.state).map CheckState.value :=
      List.mem_map.mpr ⟨state, List.mem_of_find?_eq_some found, named⟩
    split
    · next past =>
      obtain ⟨rfl, timeout, asked, outside⟩ := dueAfter_eq_none past
      refine iff_of_true rfl ⟨allowed, fun timed => ?_⟩
      rw [timed named.symm timeout asked] at outside
      cases outside
    · next due fits =>
      refine iff_of_false (fun h => by cases h) fun h => h.2 fun waiting timeout asked => ?_
      have state : state = .waitingConfirmation := by
        rw [← named] at waiting
        cases state <;> first | rfl | exact absurd waiting (by decide)
      rw [state, dueAfter, if_neg (by decide), if_pos rfl, asked] at fits
      cases sum : plus args.now (seconds timeout) with
      | none => simp [sum] at fits
      | some due => rfl

end CheckRun

/-- `create_check` -/
def createCheck (now : Instant) (name assetExternalId detail : String) (s : Store) :
    CheckRun × Store :=
  let c : CheckRun :=
    ⟨s.checks.nextId, name, assetExternalId, .pending, detail, none, now, now⟩
  (c, s.write [.insertCheck c, .insertAudit (c.created now)])

/-- `transition_check` -/
def transitionCheck (args : TransitionArgs) (c : CheckRun) (s : Store) :
    Except TransitionError (CheckRun × Store) :=
  (c.transition args).map fun d => (d, s.write (c.transitionWrites d args.now))

/-- What a session that goes on works with after `transition_check` has raised. The time of a
deadline is computed after the first columns have been set, and the next query flushes these. -/
def afterRaised (args : TransitionArgs) (c : CheckRun) (s : Store) : TransitionError → Store
  | .invalidCheckTransition _ => s
  | .overflow => s.write [.updateCheck (c.flush (c.entered args .waitingConfirmation))]

/-- The `WHERE` clauses of `expire_waiting_checks`. -/
def overdue (now : Instant) (c : CheckRun) : Bool :=
  decide (c.state = .waitingConfirmation) && c.confirmationDueAt.any fun t => decide (t ≤ now)

/-- The transition `expire_waiting_checks` asks for. -/
def timeoutArgs (now : Instant) : TransitionArgs :=
  .ascii CheckState.timeout.value "confirmation timeout" none now

def expireEach (now : Instant) : List CheckRun → Store → Except TransitionError Store
  | [], s => .ok s
  | c :: rest, s =>
    (transitionCheck (timeoutArgs now) c s).bind fun (_, t) => expireEach now rest t

/-- `expire_waiting_checks` -/
def expireWaitingChecks (now : Instant) (s : Store) : Except TransitionError (Nat × Store) :=
  let checks := s.checks.rows.filter (overdue now)
  (expireEach now checks s).map fun t => (checks.length, t)

/-- A check whose confirmation is overdue, after the sweep. -/
def CheckRun.timedOut (now : Instant) (c : CheckRun) : CheckRun :=
  { c with
    state := .timeout
    detail := "confirmation timeout"
    updatedAt := now
    confirmationDueAt := none }

@[simp] theorem CheckRun.timedOut_id (now : Instant) (c : CheckRun) :
    (c.timedOut now).id = c.id := rfl

/-- An overdue check can always be timed out. -/
theorem transition_timeout {now : Instant} {c : CheckRun} (h : overdue now c = true) :
    c.transition (timeoutArgs now) = .ok (c.timedOut now) := by
  simp only [overdue, Bool.and_eq_true, decide_eq_true_eq] at h
  have found : (allowedTransitions c.state).find?
      (fun s => s.value = (timeoutArgs now).target) = some .timeout := by
    rw [h.1]
    change (allowedTransitions .waitingConfirmation).find?
      (fun s => s.value = asciiLower CheckState.timeout.value) = _
    decide
  rw [CheckRun.transition, found]
  rfl

theorem expireEach_isOk {now : Instant} (cs : List CheckRun)
    (h : ∀ c ∈ cs, overdue now c = true) (s : Store) : ∃ t, expireEach now cs s = .ok t := by
  induction cs generalizing s with
  | nil => exact ⟨s, rfl⟩
  | cons c rest ih =>
    have ok := transition_timeout (h c (List.mem_cons_self ..))
    obtain ⟨t, ht⟩ := ih (fun x hx => h x (List.mem_cons_of_mem _ hx))
      (s.write (c.transitionWrites (c.timedOut now) (timeoutArgs now).now))
    exact ⟨t, by simpa [expireEach, transitionCheck, ok, Except.map, Except.bind] using ht⟩

/-- `expire_waiting_checks` never raises, and reports how many checks were overdue. -/
theorem expireWaitingChecks_isOk (now : Instant) (s : Store) :
    ∃ t, expireWaitingChecks now s = .ok ((s.checks.rows.filter (overdue now)).length, t) := by
  obtain ⟨t, ht⟩ := expireEach_isOk (s.checks.rows.filter (overdue now))
    (fun c hc => (List.mem_filter.mp hc).2) s
  exact ⟨t, by simp [expireWaitingChecks, ht, Except.map]⟩

end SupportOps.Python
