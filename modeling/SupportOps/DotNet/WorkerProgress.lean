import SupportOps.DotNet.Worker

/-!
# Progress of the background worker

The worker on its own: from every state that the service can reach it gets, in a number of steps
bounded by what is stored and signalled, to waiting before an empty channel. By then it has
attempted what had been signalled, unless a full batch left some of it behind.
-/
namespace SupportOps.DotNet

open Library

section Progress

variable {ι : Type} [DecidableEq ι] {culture : Culture} {options : WorkerOptions}
  {w v u : Working ι} {ties : Nat → List String} {m n : Nat}

/-- `n` steps of the worker, with the orders in which equal rows are answered. -/
def workerSteps (ties : Nat → List String) (n : Nat) : List (WorkerStep ι) :=
  (List.range n).map fun k => .worker (ties k)

omit [DecidableEq ι] in
theorem workerSteps_succ (ties : Nat → List String) (n : Nat) :
    (workerSteps ties (n + 1) : List (WorkerStep ι)) =
      .worker (ties 0) :: workerSteps (fun k => ties (k + 1)) n := by
  rw [workerSteps, List.range_succ_eq_map, List.map_cons, List.map_map]
  rfl

variable (culture options) in
/-- `n` steps of the worker lead from `w` to `u`. -/
def Works (w : Working ι) (ties : Nat → List String) (n : Nat) (u : Working ι) : Prop :=
  (working culture options).run w (workerSteps ties n) = some u

theorem Works.refl (w : Working ι) (ties : Nat → List String) : Works culture options w ties 0 w :=
  rfl

theorem works_succ : Works culture options w ties (n + 1) u ↔
    ∃ v, w.work culture options (ties 0) = some v ∧
      Works culture options v (fun k => ties (k + 1)) n u := by
  rw [Works, workerSteps_succ]
  exact (working culture options).run_cons_eq_some

theorem Works.cons (step : w.work culture options (ties 0) = some v)
    (rest : Works culture options v (fun k => ties (k + 1)) n u) :
    Works culture options w ties (n + 1) u := works_succ.mpr ⟨v, step, rest⟩

theorem Works.trans (first : Works culture options w ties m v)
    (rest : Works culture options v (fun k => ties (k + m)) n u) :
    Works culture options w ties (m + n) u := by
  induction m generalizing w ties with
  | zero => cases first; rw [Nat.zero_add]; exact rest
  | succ m ih =>
    obtain ⟨x, step, later⟩ := works_succ.mp first
    rw [Nat.add_right_comm]
    exact Works.cons step (ih later rest)

/-- What the worker's own steps leave alone. -/
structure Undisturbed (w u : Working ι) : Prop where
  sent : u.sent = w.sent
  length : u.system.stored.actions.rows.length = w.system.stored.actions.rows.length

omit [DecidableEq ι] in
theorem Undisturbed.trans (first : Undisturbed w v) (rest : Undisturbed v u) : Undisturbed w u :=
  ⟨rest.sent.trans first.sent, rest.length.trans first.length⟩

/-! ## A batch -/

/-- The steps until a batch returns. -/
def Batch.steps (b : Batch) : Nat :=
  3 * b.todo.length + match b.phase with
    | .execute => 1
    | .update _ => 3
    | .audit _ => 2

theorem Batch.steps_pos (b : Batch) : 0 < b.steps := by
  obtain ⟨phase, todo, result⟩ := b
  cases phase <;> exact Nat.succ_pos _

/-- A batch can always go on, and each step brings it nearer to its return. -/
theorem advance_steps (culture : Culture) (options : OpsProcessingOptions) {p : Processing ι}
    {i : ι} {b : Batch} (here : p.batches i = some b) (now : Instant) :
    ∃ q, p.step culture options (.advance i now) = some q ∧
      q.stored.actions.rows.length = p.stored.actions.rows.length ∧
      ((∃ result, b = ⟨.execute, [], result⟩) ∨
        ∃ after, q.batches i = some after ∧ after.steps + 1 = b.steps) := by
  obtain ⟨phase, todo, result⟩ := b
  cases phase with
  | execute =>
    cases todo with
    | nil =>
      simp only [Processing.step, here, Option.some.injEq, exists_eq_left']
      exact ⟨rfl, .inl ⟨result, rfl⟩⟩
    | cons action todo =>
      simp only [Processing.step, here, Option.some.injEq, exists_eq_left']
      refine ⟨rfl, .inr ⟨_, p.setBatch_self i _, ?_⟩⟩
      simp only [Batch.steps, List.length_cons]
      omega
  | update attempted =>
    simp only [Processing.step, here, Option.some.injEq, exists_eq_left']
    exact ⟨List.length_map _, .inr ⟨_, p.setBatch_self i _, rfl⟩⟩
  | audit attempted =>
    simp only [Processing.step, here, Option.some.injEq, exists_eq_left']
    exact ⟨rfl, .inr ⟨_, p.setBatch_self i _, rfl⟩⟩

/-- The worker's batch is worked off, and the worker waits. -/
theorem works_batch {b : Batch} (phase : w.phase = .processing)
    (here : w.system.batches none = some b) (ties : Nat → List String) :
    ∃ u last, Works culture options w ties b.steps u ∧ u.phase = .waiting last ∧
      u.channel = w.channel ∧ Undisturbed w u := by
  generalize steps : b.steps = n
  induction n generalizing w b ties with
  | zero => exact absurd steps b.steps_pos.ne'
  | succ n ih =>
    obtain ⟨q, advance, length, worked | ⟨after, there, fewer⟩⟩ := advance_steps
      culture options.toOpsProcessingOptions here w.clock
    · obtain ⟨result, rfl⟩ := worked
      obtain rfl : 0 = n := Nat.succ.inj steps
      refine ⟨{ w with system := q, phase := .waiting result }, result, .cons ?_ (.refl _ _), rfl,
        rfl, rfl, length⟩
      simp only [Working.work, phase, advance, here, Option.map_some]
    · have more : w.work culture options (ties 0) = some { w with system := q } := by
        simp only [Working.work, phase, advance, here, Option.map_some, Option.some.injEq]
        congr 1
        split
        · next result same =>
          cases same
          exact absurd (Nat.succ.inj fewer) after.steps_pos.ne'
        · rfl
      obtain ⟨u, last, works, waiting, channel, same⟩ :=
        ih (w := { w with system := q }) phase there _ (Nat.succ.inj (fewer.trans steps))
      have here : Undisturbed w { w with system := q } := ⟨rfl, length⟩
      exact ⟨u, last, .cons more works, waiting, channel, here.trans same⟩

/-! ## A pass -/

/-- The read and the batch. -/
theorem works_read {now : Instant} (phase : w.phase = .reading now)
    (idle : w.system.batches none = none) (ties : Nat → List String) :
    ∃ n u last, n ≤ 3 * w.system.stored.actions.rows.length + 2 ∧
      Works culture options w ties n u ∧ u.phase = .waiting last ∧ u.channel = w.channel ∧
      Undisturbed w u := by
  let due := w.system.stored.getDueActions (w.system.stored.limited options.workerBatchSize) now
    (ties 0)
  let read : Batch := ⟨.execute, due, ⟨due.length, 0, 0, 0, 0⟩⟩
  let busy : Working ι := { w with
    system := w.system.setBatch none (some read)
    phase := .processing }
  have few : due.length ≤ w.system.stored.actions.rows.length := by
    refine (List.length_take_le' ..).trans ?_
    rw [List.length_insertionSort]
    exact List.length_filter_le ..
  have first : w.work culture options (ties 0) = some busy := by
    simp only [Working.work, phase, Processing.step, idle, Option.map_some]
    rfl
  obtain ⟨u, last, works, waiting, channel, same⟩ :=
    works_batch (w := busy) rfl (w.system.setBatch_self none (some read)) fun k => ties (k + 1)
  refine ⟨_, u, last, ?_, .cons first works, waiting, channel, same.sent, same.length⟩
  change 3 * due.length + 1 + 1 ≤ _
  omega

/-- From the head of the loop. -/
theorem works_pass (phase : w.phase = .ready) (idle : w.system.batches none = none)
    (ties : Nat → List String) :
    ∃ n u last, n ≤ 3 * w.system.stored.actions.rows.length + 3 ∧
      Works culture options w ties n u ∧ u.phase = .waiting last ∧ u.channel = w.channel ∧
      Undisturbed w u := by
  let begun : Working ι := { w with
    phase := .reading w.clock
    scanned := w.system.stored.actions.rows.map QueuedAction.id }
  have first : w.work culture options (ties 0) = some begun := by
    simp only [Working.work, phase, begun]
  obtain ⟨n, u, last, few, works, waiting, channel, same⟩ :=
    works_read (w := begun) rfl idle fun k => ties (k + 1)
  exact ⟨n + 1, u, last, Nat.succ_le_succ few, .cons first works, waiting, channel, same.sent,
    same.length⟩

/-- The channel is emptied before the pass. -/
theorem works_drain (phase : w.phase = .draining) (idle : w.system.batches none = none)
    (ties : Nat → List String) :
    ∃ n u last, n ≤ w.channel.length + (3 * w.system.stored.actions.rows.length + 4) ∧
      Works culture options w ties n u ∧ u.phase = .waiting last ∧ u.channel = [] ∧
      Undisturbed w u := by
  generalize channel : w.channel = ids
  induction ids generalizing w ties with
  | nil =>
    have empty : w.work culture options (ties 0) = some { w with phase := .ready } := by
      simp only [Working.work, phase, channel]
    obtain ⟨n, u, last, few, works, waiting, same, kept⟩ :=
      works_pass (w := { w with phase := .ready }) rfl idle fun k => ties (k + 1)
    refine ⟨n + 1, u, last, ?_, .cons empty works, waiting, same.trans channel, kept.sent,
      kept.length⟩
    rw [List.length_nil, Nat.zero_add]
    exact Nat.succ_le_succ few
  | cons id ids ih =>
    have taken : w.work culture options (ties 0) = some { w with channel := ids } := by
      simp only [Working.work, phase, channel]
    obtain ⟨n, u, last, few, works, waiting, same, kept⟩ :=
      ih (w := { w with channel := ids }) phase idle (fun k => ties (k + 1)) rfl
    refine ⟨n + 1, u, last, ?_, .cons taken works, waiting, same, kept.sent, kept.length⟩
    rw [List.length_cons, Nat.add_right_comm]
    exact Nat.succ_le_succ few

/-- A waiting worker that has been signalled. -/
theorem works_wait {last : ActionProcessingBatchResult} (phase : w.phase = .waiting last)
    (idle : w.system.batches none = none) (ties : Nat → List String) :
    ∃ n u last, n ≤ w.channel.length + 3 * w.system.stored.actions.rows.length + 5 ∧
      Works culture options w ties n u ∧ u.phase = .waiting last ∧ u.channel = [] ∧
      Undisturbed w u := by
  by_cases quiet : w.channel = []
  · exact ⟨0, w, last, Nat.zero_le _, .refl w ties, phase, quiet, rfl, rfl⟩
  · have woken : w.work culture options (ties 0) = some { w with phase := .draining } := by
      simp only [Working.work, phase, if_neg quiet]
    obtain ⟨n, u, last, few, works, waiting, same, kept⟩ :=
      works_drain (w := { w with phase := .draining }) rfl idle fun k => ties (k + 1)
    exact ⟨n + 1, u, last, Nat.succ_le_succ few, .cons woken works, waiting, same, kept.sent,
      kept.length⟩

/-! ## From any state -/

/-- The invariants of the service hold after the worker's own steps. -/
theorem Works.kept (works : Works culture options w ties n u) (h : Attentive options w)
    (heard : Wakeups.Heard w.wakeups) : Attentive options u ∧ Wakeups.Heard u.wakeups := by
  induction n generalizing w ties with
  | zero => cases works; exact ⟨h, heard⟩
  | succ n ih =>
    obtain ⟨x, step, later⟩ := works_succ.mp works
    refine ih later (h.work step) ?_
    rcases h.wakeups_step (l := .worker (ties 0)) step with same | ⟨k, consumer⟩
    · rw [same]; exact heard
    · exact heard.step consumer

/-- The steps that the worker's batch has left. -/
def Working.pending (w : Working ι) : Nat :=
  match w.system.batches none with
  | some b => b.steps
  | none => 0

/-- A bound on the steps until the worker waits before an empty channel. -/
def Working.stepsToQuiet (w : Working ι) : Nat :=
  w.pending + w.channel.length + 6 * w.system.stored.actions.rows.length + 8

/-- After a first stretch that ends in waiting, the signals that are left. -/
theorem works_quiet (h : Attentive options w) (heard : Wakeups.Heard w.wakeups)
    {last : ActionProcessingBatchResult} (first : Works culture options w ties m v)
    (waiting : v.phase = .waiting last) (channel : v.channel = w.channel) (same : Undisturbed w v)
    (few : m ≤ w.pending + 3 * w.system.stored.actions.rows.length + 3) :
    ∃ n u last, n ≤ w.stepsToQuiet ∧ Works culture options w ties n u ∧ u.phase = .waiting last ∧
      u.channel = [] ∧ Undisturbed w u := by
  have idle := (first.kept h heard).1.idle (by simp [waiting])
  obtain ⟨n, u, last, more, rest, waits, quiet, kept⟩ :=
    works_wait waiting idle fun k => ties (k + m)
  refine ⟨m + n, u, last, ?_, first.trans rest, waits, quiet, same.trans kept⟩
  rw [channel, same.length] at more
  unfold Working.stepsToQuiet
  omega

/-- On its own the worker always gets to waiting before an empty channel. -/
theorem works_to_quiet (h : Attentive options w) (heard : Wakeups.Heard w.wakeups)
    (ties : Nat → List String) :
    ∃ n u last, n ≤ w.stepsToQuiet ∧ Works culture options w ties n u ∧ u.phase = .waiting last ∧
      u.channel = [] ∧ Undisturbed w u := by
  cases phase : w.phase with
  | ready =>
    obtain ⟨m, v, last, few, first, waiting, channel, same⟩ :=
      works_pass phase (h.idle (by simp [phase])) ties
    exact works_quiet h heard first waiting channel same (by omega)
  | reading now =>
    obtain ⟨m, v, last, few, first, waiting, channel, same⟩ :=
      works_read phase (h.idle (by simp [phase])) ties
    exact works_quiet h heard first waiting channel same (by omega)
  | processing =>
    obtain ⟨b, here, -⟩ := h.processing phase
    have pending : w.pending = b.steps := by rw [Working.pending, here]
    obtain ⟨v, last, first, waiting, channel, same⟩ := works_batch phase here ties
    exact works_quiet h heard first waiting channel same (by omega)
  | waiting last =>
    exact works_quiet h heard (.refl w ties) phase rfl ⟨rfl, rfl⟩ (Nat.zero_le _)
  | draining =>
    obtain ⟨n, u, last, few, works, waiting, quiet, same⟩ :=
      works_drain phase (h.idle (by simp [phase])) ties
    refine ⟨n, u, last, ?_, works, waiting, quiet, same⟩
    unfold Working.stepsToQuiet
    omega

/-- From every state of the service that a timely run leads to the worker's own steps, at most
`stepsToQuiet` of them, lead to waiting before an empty channel; and if the last batch was not full,
no signalled action is queued by then. -/
theorem worker_attempts_signalled (culture : Culture) (options : WorkerOptions) {s : Store}
    {clock : Instant} (due : ∀ a ∈ s.actions.rows, a.status = .queued → a.nextAttemptAt ≤ clock)
    {ls : List (WorkerStep ι)} {w : Working ι}
    (timely : (working culture options).Along Timely (Working.started s clock) ls)
    (run : (working culture options).run (Working.started s clock) ls = some w)
    (ties : Nat → List String) :
    ∃ n ≤ w.stepsToQuiet, ∃ u last,
      (working culture options).run w (workerSteps ties n) = some u ∧
      u.phase = .waiting last ∧ u.channel = [] ∧
      ((last.processed : Int) ≠ options.workerBatchSize →
        ∀ a ∈ u.system.stored.actions.rows, a.id ∈ w.sent → a.status ≠ .queued) := by
  have attentive := attentive_of_run due timely run
  have heard := heard_of_run due timely run
  obtain ⟨n, u, last, few, works, waiting, quiet, same⟩ := works_to_quiet attentive heard ties
  refine ⟨n, few, u, last, works, waiting, quiet, fun room a ha sent => ?_⟩
  obtain ⟨after, signals⟩ := Works.kept works attentive heard
  exact (after.none_queued signals waiting room).2 quiet a ha (same.sent ▸ sent)

/-- The signal of an outage is in the channel, and the worker is waiting. -/
def outageSignalled : List (WorkerStep Unit) := signalledOutage.take 6

theorem worker_attempts_outage : ∃ w : Working Unit,
    (working asciiCulture {}).run (Working.started .empty 0) outageSignalled = some w ∧
    w.channel = ["act_1"] ∧ w.stepsToQuiet = 15 ∧
    ∃ n ≤ w.stepsToQuiet, ∃ u last,
      (working asciiCulture {}).run w (workerSteps (fun _ => []) n) = some u ∧
      u.phase = .waiting last ∧ u.channel = [] ∧
      ((last.processed : Int) ≠ 100 →
        ∀ a ∈ u.system.stored.actions.rows, a.id ∈ w.sent → a.status ≠ .queued) := by
  have due : ∀ a ∈ Store.empty.actions.rows, a.status = .queued → a.nextAttemptAt ≤ 0 :=
    fun a ha => by cases ha
  have timely : (working asciiCulture {}).Along Timely (Working.started .empty 0)
      outageSignalled := by decide
  exact ⟨_, rfl, by decide, by decide,
    worker_attempts_signalled asciiCulture {} due timely rfl fun _ => []⟩

end Progress

end SupportOps.DotNet
