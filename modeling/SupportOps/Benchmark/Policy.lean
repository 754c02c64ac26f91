import Mathlib.Algebra.GroupWithZero.Nat
import Mathlib.Data.List.Basic
import Mathlib.Data.List.Induction

/-!
# What an engine decides

The purpose of both engines, without their tables: each event is ignored, suppressed, or opens an
incident with or without an action, given what was decided before. A policy says which events are
worth an incident, how far the cooldown reaches and how many actions may wait. The counters of a
finished run depend on the decisions alone.
-/
namespace SupportOps.Benchmark

/-- `datetime` in UTC, in microseconds. -/
abbrev Instant := Int

/-- The executor modes of the shared workload. -/
inductive ExecutorMode where
  | success | transientThenSuccess | permanentFailure
  deriving DecidableEq, Repr

def ExecutorMode.value : ExecutorMode → String
  | .success => "success"
  | .transientThenSuccess => "transient_then_success"
  | .permanentFailure => "permanent_failure"

/-- One line of the shared workload. -/
structure SharedEvent where
  assetId : String
  source : String
  category : String
  severity : Int
  occurredAt : Instant
  message : String
  executorMode : ExecutorMode
  deriving DecidableEq, Repr

/-- The counters that both engines report. -/
structure Metrics where
  events : Nat
  incidents : Nat
  actions : Nat
  cooldownSuppressions : Nat
  succeededActions : Nat
  failedActions : Nat
  retryAttempts : Nat
  permanentFailures : Nat
  deriving DecidableEq, Repr

/-! ## Decisions -/

inductive Decision where
  | ignored
  | suppressed
  /-- an incident without an action -/
  | incident
  /-- an incident whose action finds the queue full -/
  | rejected
  /-- an incident and its action -/
  | action (mode : ExecutorMode)
  deriving DecidableEq, Repr

namespace Decision

def opens : Decision → Bool
  | .ignored | .suppressed => false
  | .incident | .rejected | .action _ => true

def mode? : Decision → Option ExecutorMode
  | .action mode => some mode
  | _ => none

end Decision

/-- A decided event. -/
structure Entry where
  assetId : String
  category : String
  decidedAt : Instant
  decision : Decision
  deriving DecidableEq, Repr

/-- The actions of a log, in order. -/
def modes (log : List Entry) : List ExecutorMode := log.filterMap fun x => x.decision.mode?

/-- The counters once every action is finished: a transient failure is repeated once, a permanent
one never. -/
def Metrics.ofLog (log : List Entry) : Metrics where
  events := log.length
  incidents := log.countP fun x => x.decision.opens
  actions := (modes log).length
  cooldownSuppressions := log.countP fun x => x.decision = .suppressed
  succeededActions := (modes log).countP fun m => m ≠ .permanentFailure
  failedActions := (modes log).countP fun m => m = .permanentFailure
  retryAttempts := (modes log).countP fun m => m = .transientThenSuccess
  permanentFailures := (modes log).countP fun m => m = .permanentFailure

/-- One more decided event, its action finished. -/
def Metrics.after (c : Metrics) (decision : Decision) : Metrics where
  events := c.events + 1
  incidents := if decision.opens then c.incidents + 1 else c.incidents
  actions := if decision.mode?.isSome then c.actions + 1 else c.actions
  cooldownSuppressions :=
    if decision = .suppressed then c.cooldownSuppressions + 1 else c.cooldownSuppressions
  succeededActions :=
    if decision = .action .success ∨ decision = .action .transientThenSuccess
    then c.succeededActions + 1 else c.succeededActions
  failedActions :=
    if decision = .action .permanentFailure then c.failedActions + 1 else c.failedActions
  retryAttempts :=
    if decision = .action .transientThenSuccess then c.retryAttempts + 1 else c.retryAttempts
  permanentFailures :=
    if decision = .action .permanentFailure then c.permanentFailures + 1 else c.permanentFailures

/-! ## Policies -/

/-- An incident alone, or an incident with an action. -/
inductive Band where
  | warning | critical
  deriving DecidableEq, Repr

/-- What an unsuppressed event of the band opens. -/
def Band.outcome (mode : ExecutorMode) (room : Bool) : Band → Decision
  | .warning => .incident
  | .critical => if room then .action mode else .rejected

@[simp] theorem Band.opens_outcome (mode : ExecutorMode) (room : Bool) (band : Band) :
    (band.outcome mode room).opens = true := by
  cases band with
  | warning => rfl
  | critical => cases room <;> rfl

@[simp] theorem Band.mode?_outcome (mode : ExecutorMode) (room : Bool) (band : Band) :
    (band.outcome mode room).mode? =
      if band = .critical ∧ room = true then some mode else none := by
  cases band with
  | warning => rfl
  | critical => cases room <;> rfl

structure Policy where
  /-- what an event of a category and a severity is worth -/
  band : String → Int → Option Band
  /-- the earlier events whose incidents suppress an event -/
  covers : Entry → SharedEvent → Bool
  /-- whether another action may be queued -/
  room : Nat → Bool

/-- Five minutes. -/
def cooldown : Int := 300000000

namespace Policy

variable (P : Policy)

/-- The entry has opened an incident that suppresses the event. -/
def suppresses (now : Instant) (e : SharedEvent) (x : Entry) : Bool :=
  x.decision.opens && P.covers x e && decide (now - cooldown ≤ x.decidedAt)

def decide (log : List Entry) (e : SharedEvent) (now : Instant) : Decision :=
  match P.band e.category e.severity with
  | none => .ignored
  | some band =>
    if log.any (P.suppresses now e) then .suppressed
    else band.outcome e.executorMode (P.room (modes log).length)

def entry (log : List Entry) (e : SharedEvent) (now : Instant) : Entry :=
  ⟨e.assetId, e.category, now, P.decide log e now⟩

/-- The log goes on with the events, each decided at its time. -/
def extend (log : List Entry) (events : List (SharedEvent × Instant)) : List Entry :=
  events.foldl (fun log e => log ++ [P.entry log e.1 e.2]) log

def log (events : List (SharedEvent × Instant)) : List Entry := P.extend [] events

theorem extend_cons (log : List Entry) (e : SharedEvent × Instant)
    (events : List (SharedEvent × Instant)) :
    P.extend log (e :: events) = P.extend (log ++ [P.entry log e.1 e.2]) events := rfl

theorem log_concat (events : List (SharedEvent × Instant)) (e : SharedEvent × Instant) :
    P.log (events ++ [e]) = P.log events ++ [P.entry (P.log events) e.1 e.2] := by
  simp [log, extend, List.foldl_append]

theorem length_extend (log : List Entry) (events : List (SharedEvent × Instant)) :
    (P.extend log events).length = log.length + events.length := by
  induction events generalizing log with
  | nil => rfl
  | cons e events ih =>
    rw [extend_cons, ih, List.length_append, List.length_singleton, List.length_cons]
    omega

/-- No event queues more than one action. -/
theorem length_modes_log (events : List (SharedEvent × Instant)) :
    (modes (P.log events)).length ≤ events.length := by
  have length := P.length_extend [] events
  rw [List.length_nil, Nat.zero_add] at length
  exact length ▸ List.length_filterMap_le ..

/-- An entry is about one of the events. -/
theorem exists_of_mem_log {events : List (SharedEvent × Instant)} {x : Entry}
    (mem : x ∈ P.log events) :
    ∃ e ∈ events, x.assetId = e.1.assetId ∧ x.category = e.1.category := by
  induction events using List.reverseRecOn with
  | nil => cases mem
  | append_singleton events e ih =>
    rw [log_concat, List.mem_append, List.mem_singleton] at mem
    rcases mem with earlier | rfl
    · obtain ⟨e', he', same⟩ := ih earlier
      exact ⟨e', List.mem_append_left _ he', same⟩
    · exact ⟨e, List.mem_append_right _ (.head _), rfl, rfl⟩

section Decide

variable {P} {log : List Entry} {e : SharedEvent} {now : Instant}

theorem decide_of_none (worth : P.band e.category e.severity = none) :
    P.decide log e now = .ignored := by
  rw [decide, worth]

variable {band : Band} (worth : P.band e.category e.severity = some band)

include worth

theorem decide_of_recent (recent : log.any (P.suppresses now e) = true) :
    P.decide log e now = .suppressed := by
  simp only [decide, worth, recent, if_true]

theorem decide_of_clear (clear : log.any (P.suppresses now e) = false) :
    P.decide log e now = band.outcome e.executorMode (P.room (modes log).length) := by
  simp only [decide, worth, clear, Bool.false_eq_true, if_false]

end Decide

end Policy

/-- The events from the `i`-th on, each with its time. -/
def timed (now : Nat → Instant) : Nat → List SharedEvent → List (SharedEvent × Instant)
  | _, [] => []
  | i, e :: events => (e, now i) :: timed now (i + 1) events

theorem map_fst_timed (now : Nat → Instant) (i : Nat) (events : List SharedEvent) :
    (timed now i events).map Prod.fst = events := by
  induction events generalizing i with
  | nil => rfl
  | cons e events ih => exact congrArg _ (ih (i + 1))

theorem length_timed (now : Nat → Instant) (i : Nat) (events : List SharedEvent) :
    (timed now i events).length = events.length := by
  rw [← List.length_map (f := Prod.fst), map_fst_timed]

/-! ## One more entry -/

section Concat

variable (log : List Entry) (x : Entry)

theorem modes_concat : modes (log ++ [x]) = modes log ++ x.decision.mode?.toList := by
  rw [modes, List.filterMap_append]
  cases mode : x.decision.mode? <;> simp [modes, mode]

theorem Metrics.ofLog_concat :
    Metrics.ofLog (log ++ [x]) = (Metrics.ofLog log).after x.decision := by
  obtain ⟨assetId, category, decidedAt, decision⟩ := x
  simp only [Metrics.ofLog, Metrics.after, modes_concat, List.length_append, List.countP_append,
    List.countP_singleton, List.length_singleton]
  cases decision with
  | ignored => rfl
  | suppressed => rfl
  | incident => rfl
  | rejected => rfl
  | action mode => cases mode <;> rfl

end Concat

/-! ## Counting finished actions -/

section Columns

variable {α β : Type} {rows : List α} {ms : List ExecutorMode} {f : α → β} {g : ExecutorMode → β}
  (same : rows.map f = ms.map g)

include same

/-- A count over rows whose column the modes determine is a count over the modes. -/
theorem countP_column (p : β → Bool) :
    (rows.countP fun a => p (f a)) = ms.countP fun m => p (g m) := by
  have counts := congrArg (List.countP p) same
  rwa [List.countP_map, List.countP_map] at counts

/-- A sum over such rows in which each transient failure counts once. -/
theorem sum_column (h : β → Nat)
    (once : ∀ m, h (g m) = if m = .transientThenSuccess then 1 else 0) :
    (rows.map fun a => h (f a)).sum = ms.countP fun m => m = .transientThenSuccess := by
  have column : (rows.map fun a => h (f a)) = ms.map fun m => h (g m) := by
    have := congrArg (List.map h) same
    rwa [List.map_map, List.map_map] at this
  rw [column]
  clear column same
  induction ms with
  | nil => rfl
  | cons m ms ih =>
    rw [List.map_cons, List.sum_cons, ih, List.countP_cons, once, Nat.add_comm]
    simp only [decide_eq_true_eq]

end Columns

end SupportOps.Benchmark
