import SupportOps.Library.Runs
import SupportOps.Python.Actions

/-!
# Worker passes, one after another

Each pass runs in a session of its own that is committed when the pass returns and rolled
back when it raises. The transport's effects are outside the database: its calls stay made
whatever happens to the session. A pass raises when the transport raises something that is
not a timeout, and when a failed action is to be repeated at a time that is no `datetime`; then
the attempts and results of the whole batch are forgotten.
-/
namespace SupportOps.Python

open Library

/-- The store between passes and every transport call so far: action and reply. -/
structure PassState where
  store : Store
  calls : List (Nat × TransportReply)

abbrev Pass := PassArgs × Transport

def passes : Machine PassState Pass where
  step s p := some
    ⟨runOnce p.1 p.2 s.store, s.calls ++ (processDueActions p.1 p.2 s.store).calls⟩

/-- How often the transport has been called for an action. -/
def callsFor (calls : List (Nat × TransportReply)) (k : Nat) : Nat :=
  calls.countP fun c => c.1 = k

/-- No action is passed to the transport again after a call for it reported success. -/
def NeverAfterSuccess (calls : List (Nat × TransportReply)) : Prop :=
  calls.Pairwise fun c d => c.2.reportsSuccess = true → d.1 ≠ c.1

/-- The property at stake: at most `m` calls for each action, none after a success. -/
def BoundedExecution (m : Nat) (s : PassState) : Prop :=
  (∀ k, callsFor s.calls k ≤ m) ∧ NeverAfterSuccess s.calls

/-- Nothing is raised once the pass has called the transport for an action: the call returns or
times out, and the time of a repetition is a `datetime`. -/
def AttemptsSettle (s : PassState) (p : Pass) : Prop :=
  p.1.staleLeaseBefore.isSome → ∀ a ∈ dueActions p.1 s.store, (a.leased p.1).settles p.1 p.2

instance (s : PassState) (p : Pass) : Decidable (AttemptsSettle s p) :=
  inferInstanceAs (Decidable (_ → _))

/-- Stored attempts count the calls, and a reported success is a stored one. -/
structure CallsRecorded (m : Nat) (store : Store) (calls : List (Nat × TransportReply)) :
    Prop where
  counted : ∀ k a, store.actions.find? k = some a → callsFor calls k = a.attempts
  bounded : ∀ k a, store.actions.find? k = some a → a.attempts ≤ m
  spare : ∀ k a, store.actions.find? k = some a → a.finished = false → a.attempts < m
  success : ∀ c ∈ calls, c.2.reportsSuccess = true →
    ∀ a, store.actions.find? c.1 = some a → a.finished = true
  known : ∀ c ∈ calls, ∃ a, store.actions.find? c.1 = some a
  order : NeverAfterSuccess calls

theorem CallsRecorded.boundedExecution {m : Nat} {s : PassState}
    (h : CallsRecorded m s.store s.calls) : BoundedExecution m s := by
  refine ⟨fun k => ?_, h.order⟩
  cases found : s.store.actions.find? k with
  | some a => exact (h.counted k a found).trans_le (h.bounded k a found)
  | none =>
    have : callsFor s.calls k = 0 := by
      refine List.countP_eq_zero.mpr fun c hc => ?_
      obtain ⟨a, ha⟩ := h.known c hc
      simp only [decide_eq_true_eq]
      rintro rfl
      rw [found] at ha; cases ha
    omega

theorem callsFor_append (calls : List (Nat × TransportReply)) (c : Nat × TransportReply)
    (k : Nat) : callsFor (calls ++ [c]) k = callsFor calls k + if c.1 = k then 1 else 0 := by
  simp [callsFor, List.countP_append, List.countP_singleton]

/-- One attempt on an unfinished row that is stored as it was loaded. -/
theorem CallsRecorded.attempt {m : Nat} {s : Store} {calls : List (Nat × TransportReply)}
    (h : CallsRecorded m s calls) {args : PassArgs} (limit : args.maxAttempts = m) {a : Action}
    (current : s.actions.find? a.id = some a) (unfinished : a.finished = false)
    {reply : TransportReply} {succeeded : Bool} {detail : String}
    (outcome : reply.outcome = some (succeeded, detail)) :
    CallsRecorded m (s.attempted args a (a.outcome args succeeded detail))
      (calls ++ [(a.id, reply)]) := by
  have spare := h.spare _ _ current unfinished
  have counted := h.counted _ _ current
  have stored := Store.find?_attempted args current succeeded detail
  have attempts : (a.outcome args succeeded detail).attempts = a.attempts + 1 := by
    simp [Action.outcome, Action.attempt, Action.leased]
  -- a call for `a` cannot have reported success: its row would be finished
  have fresh : ∀ c ∈ calls, c.2.reportsSuccess = true → c.1 ≠ a.id := by
    intro c hc good same
    have := h.success c hc good a (same ▸ current)
    rw [unfinished] at this; cases this
  constructor
  · intro k b hb
    rw [stored] at hb
    rw [callsFor_append]
    split at hb
    · next same => cases hb; rw [if_pos same.symm, same, counted, attempts]
    · next other => rw [if_neg fun e => other e.symm, Nat.add_zero, h.counted k b hb]
  · intro k b hb
    rw [stored] at hb
    split at hb
    · cases hb; omega
    · exact h.bounded k b hb
  · intro k b hb open_
    rw [stored] at hb
    split at hb
    · cases hb
      have := Action.attempts_lt_of_settled_unfinished args _ _ _ open_
      rw [limit] at this
      rw [attempts]
      exact this
    · exact h.spare k b hb open_
  · intro c hc good b hb
    rw [stored] at hb
    rcases List.mem_append.mp hc with old | new
    · rw [if_neg (fresh c old good)] at hb
      exact h.success c old good b hb
    · obtain rfl := List.mem_singleton.mp new
      rw [if_pos rfl] at hb
      cases hb
      have : succeeded = true := (TransportReply.succeeded_of_outcome outcome).symm.trans good
      simp [Action.finished, Action.outcome, Action.settled_state, this]
  · intro c hc
    rw [stored]
    rcases List.mem_append.mp hc with old | new
    · split
      · exact ⟨_, rfl⟩
      · exact h.known c old
    · obtain rfl := List.mem_singleton.mp new
      exact ⟨_, if_pos rfl⟩
  · refine List.pairwise_append.mpr ⟨h.order, List.pairwise_singleton _ _, ?_⟩
    intro c hc d hd good
    obtain rfl := List.mem_singleton.mp hd
    exact fun same => fresh c hc good same.symm

/-- A pass whose attempts settle, or that raises before its query. -/
theorem CallsRecorded.pass {m : Nat} (positive : 1 ≤ m) {s t : PassState} {p : Pass}
    (limit : p.1.maxAttempts = m) (settles : AttemptsSettle s p)
    (h : CallsRecorded m s.store s.calls) (step : passes.step s p = some t) :
    CallsRecorded m t.store t.calls := by
  obtain ⟨args, transport⟩ := p
  cases step
  by_cases lease : args.staleLeaseBefore.isSome
  · have returns : (processDueActions args transport s.store).failure = none := by
      rw [processDueActions_eq lease]
      exact processBatch_failure_eq_none (positive.trans_eq limit.symm)
        (fun a ha => ⟨(dueActions_current a ha).2, settles lease a ha⟩) _
    have committed : runOnce args transport s.store =
        (processDueActions args transport s.store).store := by simp [runOnce, returns]
    rw [committed]
    exact processDueActions_invariant
      (fun _ _ _ _ _ h current unfinished outcome => h.attempt limit current unfinished outcome)
      s.calls h returns
  · have raised : processDueActions args transport s.store = ⟨s.store, [], [], some .overflow⟩ :=
      processDueActions_of_overflow (by simpa using lease)
    have kept : runOnce args transport s.store = s.store := by simp [runOnce, raised]
    rw [kept, raised, List.append_nil]
    exact h

/-- While no exception but a timeout follows a transport call, the transport is called at most
`max_attempts` times for each action, and never again after it reported success. -/
theorem boundedExecution_of_attemptsSettle (maxAttempts : Nat) (positive : 1 ≤ maxAttempts)
    (s : Store) (unattempted : ∀ a ∈ s.actions.rows, a.attempts = 0) (ps : List Pass)
    (fixed : ∀ p ∈ ps, p.1.maxAttempts = maxAttempts)
    (settle : passes.Along AttemptsSettle ⟨s, []⟩ ps) (t : PassState)
    (run : passes.run ⟨s, []⟩ ps = some t) : BoundedExecution maxAttempts t := by
  have zero : ∀ k a, s.actions.find? k = some a → a.attempts = 0 :=
    fun k a h => unattempted a (s.actions.mem_of_find? h)
  have start : CallsRecorded maxAttempts s [] := by
    refine ⟨fun k a h => by simp [callsFor, zero k a h], fun k a h => by simp [zero k a h],
      fun k a h _ => by rw [zero k a h]; exact positive, ?_, ?_, List.Pairwise.nil⟩ <;>
      simp
  exact (passes.run_invariant_of_along (I := fun s => CallsRecorded maxAttempts s.store s.calls)
    (fun s p t admitted h step => h.pass positive admitted.1 admitted.2 step)
    (settle.and_label _ fixed) start run).boundedExecution

/-! ## Two queued actions -/

/-- An action as `process` queues it. -/
def queuedAt (id : Nat) (now : Instant) : Action where
  id := id
  incidentId := id
  actionType := "create_ticket"
  state := .queued
  attempts := 0
  detail := "success"
  nextAttemptAt := some now
  leaseId := none
  leasedAt := none
  createdAt := now
  updatedAt := now

/-- A store that holds the actions 1 and 2, both queued. -/
def twoQueued : Store := { Store.empty with actions := ⟨[queuedAt 1 0, queuedAt 2 0], by decide⟩ }

def passArgs (maxAttempts : Nat) : PassArgs where
  limit := 100
  maxAttempts := maxAttempts
  retryDelay := 0
  leaseSeconds := 60
  now := 0
  leaseId := "lease"

/-- Action 1 times out once, action 2 fails every time. -/
def timesOutOnce : Transport := fun a =>
  if a.id = 2 then .result false "refused"
  else if a.attempts = 1 then .timeoutError "no answer"
  else .result true "completed"

/-- Two passes attempt both actions, one raises before its query, and the last finds nothing due:
action 1 has succeeded, and action 2 has used up its two attempts. -/
def fourPasses : List Pass :=
  [(passArgs 2, timesOutOnce), ({ passArgs 2 with leaseSeconds := 100000000000 }, timesOutOnce),
    ({ passArgs 2 with now := minutes 5 }, timesOutOnce),
    ({ passArgs 2 with now := minutes 10 }, timesOutOnce)]

theorem boundedExecution_fourPasses : ∃ t : PassState,
    passes.run ⟨twoQueued, []⟩ fourPasses = some t ∧ t.calls.map Prod.fst = [1, 2, 1, 2] ∧
    t.store.actions.rows.map Action.state = [.succeeded, .failed] ∧ BoundedExecution 2 t :=
  ⟨_, rfl, by decide, by decide,
    boundedExecution_of_attemptsSettle 2 (by decide) twoQueued (by decide) fourPasses (by decide)
      (by decide) _ rfl⟩

/-- The transport completes action 1 and raises for action 2. -/
def raisesForSecond : Transport := fun a =>
  if a.id = 1 then .result true "completed" else .otherError

/-- One attempt is allowed, and the first pass has action 1 completed. The exception for
action 2 rolls that back with the batch, and the next pass executes action 1 again. -/
theorem unboundedExecution_twoQueued : ∃ t : PassState,
    passes.run ⟨twoQueued, []⟩ [(passArgs 1, raisesForSecond), (passArgs 1, raisesForSecond)]
      = some t ∧
    (∀ a ∈ twoQueued.actions.rows, a.attempts = 0) ∧
    callsFor t.calls 1 = 2 ∧ ¬ NeverAfterSuccess t.calls ∧ ¬ BoundedExecution 1 t := by
  refine ⟨_, rfl, by decide, by decide, ?_, ?_⟩
  · unfold NeverAfterSuccess; decide
  · intro h
    exact absurd (h.1 1) (by decide)

end SupportOps.Python
