import SupportOps.DotNet.ConcurrentBatches
import SupportOps.Library.Wakeups

/-!
# The background worker

`ActionWorker` and `ChannelActionSignalQueue` beside any number of ingestions and of other batches.
An ingestion commits first and signals its action afterwards, or is cancelled in between. The
worker reads the clock, reads the due rows, works the batch off and waits for a signal or for its
poll interval; only a signal makes it empty the channel. What is stored and not yet due when the
clock is read waits for a later pass, and so does what a full batch leaves behind.
-/
namespace SupportOps.DotNet

open Library

/-- `OpsProcessingOptions`, with what the worker reads. -/
structure WorkerOptions extends OpsProcessingOptions where
  workerBatchSize : Int := 100
  deriving DecidableEq, Repr

inductive WorkerPhase where
  /-- At the head of the loop. -/
  | ready
  /-- In `ProcessPendingAsync`, past `GetUtcNow`. -/
  | reading (now : Instant)
  | processing
  /-- In `WaitForSignalOrDelayAsync`; the result of the batch is discarded. -/
  | waiting (last : ActionProcessingBatchResult)
  /-- In its loop of `TryRead`. -/
  | draining
  deriving DecidableEq, Repr

/-- The service: the worker's batch is `none`, the batches of `ι` are other calls of
`ProcessPendingAsync`. -/
structure Working (ι : Type) where
  clock : Instant
  system : Processing (Option ι)
  /-- Actions whose ingestion has committed and not yet signalled. -/
  committed : List String
  channel : List String
  phase : WorkerPhase
  /-- The signals so far. -/
  sent : List String
  /-- The actions that were stored when the worker last read the clock. -/
  scanned : List String

inductive WorkerStep (ι : Type) where
  | tick (elapsed : Int)
  /-- The store call of an ingestion, committed or rolled back. -/
  | ingest (call : DecisionCall)
  | signal (actionId : String)
  /-- `SignalAsync` is cancelled. -/
  | cancel (actionId : String)
  /-- `ProcessPendingAsync` of the maintenance endpoint or the benchmark, up to its read. -/
  | processPending (i : ι) (limit : Nat) (now : Instant) (ties : List String)
  | advance (i : ι) (now : Instant)
  /-- The worker's next step; if that is its read, the database answers equal rows in this order. -/
  | worker (ties : List String)
  /-- The poll interval is over. -/
  | delay

section Machine

variable {ι : Type} [DecidableEq ι] (culture : Culture) (options : WorkerOptions)

/-- The worker's next step. -/
def Working.work (w : Working ι) (ties : List String) : Option (Working ι) :=
  match w.phase with
  | .ready =>
    some { w with
      phase := .reading w.clock
      scanned := w.system.stored.actions.rows.map QueuedAction.id }
  | .reading now =>
    let limit := w.system.stored.limited options.workerBatchSize
    (w.system.step culture options.toOpsProcessingOptions
      (.processPending none limit now ties)).map
      fun p => { w with system := p, phase := .processing }
  | .processing =>
    (w.system.step culture options.toOpsProcessingOptions (.advance none w.clock)).map
      fun p => { w with
        system := p
        phase := match w.system.batches none with
          | some ⟨.execute, [], result⟩ => .waiting result
          | _ => .processing }
  | .waiting _ => if w.channel = [] then none else some { w with phase := .draining }
  | .draining =>
    match w.channel with
    | [] => some { w with phase := .ready }
    | _ :: rest => some { w with channel := rest }

def Working.step (w : Working ι) : WorkerStep ι → Option (Working ι)
  | .tick elapsed => some { w with clock := w.clock + elapsed }
  | .ingest call =>
    match call.recordIngestionDecision culture w.system.stored with
    | .ok (r, t) => some { w with
        system := { w.system with stored := t }
        committed := w.committed ++ r.actionId.toList }
    | .error _ => some w
  | .signal actionId =>
    if actionId ∈ w.committed then
      some { w with
        committed := w.committed.erase actionId
        channel := w.channel ++ [actionId]
        sent := w.sent ++ [actionId] }
    else none
  | .cancel actionId =>
    if actionId ∈ w.committed then some { w with committed := w.committed.erase actionId }
    else none
  | .processPending i limit now ties =>
    (w.system.step culture options.toOpsProcessingOptions
      (.processPending (some i) limit now ties)).map
      fun p => { w with system := p }
  | .advance i now =>
    (w.system.step culture options.toOpsProcessingOptions (.advance (some i) now)).map
      fun p => { w with system := p }
  | .worker ties => w.work culture options ties
  | .delay =>
    match w.phase with
    | .waiting _ => some { w with phase := .ready }
    | _ => none

/-- Every interleaving of ingestions, signals, batches and the worker. -/
def working : Machine (Working ι) (WorkerStep ι) := ⟨Working.step culture options⟩

end Machine

section Start

variable {ι : Type}

/-- The process has just started over the tables of an earlier one. -/
def Working.started (s : Store) (clock : Instant) : Working ι :=
  ⟨clock, ⟨s, fun _ => none, [], []⟩, [], [], .ready, [], []⟩

/-- The clock does not go back, and an ingestion has read it by the time it commits. -/
def Timely (w : Working ι) : WorkerStep ι → Prop
  | .tick elapsed => 0 ≤ elapsed
  | .ingest call => call.now ≤ w.clock
  | _ => True

instance (w : Working ι) (l : WorkerStep ι) : Decidable (Timely w l) := by
  unfold Timely
  split <;> infer_instance

/-- What the abstract consumer sees of the worker. -/
def Working.wakeups (w : Working ι) : Wakeups String where
  published := w.system.stored.actions.rows.map QueuedAction.id
  channel := w.channel
  sent := w.sent
  scanned := w.scanned
  phase := match w.phase with
    | .ready => .ready
    | .reading _ | .processing => .scanning
    | .waiting _ => .waiting
    | .draining => .draining

end Start

/-! ## What batches do to queued actions -/

section Batches

variable {ι : Type} {culture : Culture} {options : OpsProcessingOptions}

theorem attempt_status_ne_queued (options : OpsProcessingOptions) (a : QueuedAction)
    (now : Instant) : (attempt options a now).action.status ≠ .queued := by
  simp only [attempt]
  split
  · simp
  · split
    · simp
    · split <;> simp

/-- No batch is about to queue an action. -/
def Unqueuing (p : Processing ι) : Prop :=
  ∀ i b x, p.batches i = some b → b.phase = .update x → x.action.status ≠ .queued

/-- A written attempt leaves no queued row of its id. -/
theorem queued_updateAction {s : Store} {x : QueuedAction} (attempted : x.status ≠ .queued)
    {a : QueuedAction} (mem : a ∈ ((Write.updateAction x).apply s).actions.rows)
    (queued : a.status = .queued) : a ∈ s.actions.rows ∧ a.id ≠ x.id := by
  have row : a ∈ (s.actions.modify x.id _ x.key_updated).rows := mem
  obtain ⟨r, hr, rfl⟩ := s.actions.mem_modify.mp row
  split at queued
  · exact absurd queued attempted
  · next other => rw [if_neg other]; exact ⟨hr, other⟩

theorem ids_updateAction (s : Store) (x : QueuedAction) :
    ((Write.updateAction x).apply s).actions.rows.map QueuedAction.id =
      s.actions.rows.map QueuedAction.id := by
  simp only [Write.apply, Table.rows_modify, List.map_map]
  refine List.map_congr_left fun r _ => ?_
  simp only [Function.comp_apply]
  split <;> rfl

/-- What every step of a batch keeps. -/
structure Kept (p u : Processing ι) : Prop where
  unqueuing : Unqueuing u
  queued : ∀ a ∈ u.stored.actions.rows, a.status = .queued → a ∈ p.stored.actions.rows
  ids : u.stored.actions.rows.map QueuedAction.id = p.stored.actions.rows.map QueuedAction.id

variable [DecidableEq ι]

theorem Unqueuing.setBatch {p u : Processing ι} (h : Unqueuing p) {i : ι} {new : Option Batch}
    (batches : u.batches = (p.setBatch i new).batches)
    (own : ∀ b x, new = some b → b.phase = .update x → x.action.status ≠ .queued) :
    Unqueuing u := by
  intro j b x hj phase
  rw [batches] at hj
  rcases batches_setBatch hj with ⟨-, hb⟩ | ⟨-, old⟩
  · exact own b x hb phase
  · exact h j b x old phase

theorem Unqueuing.step {p u : Processing ι} (h : Unqueuing p) {l : ProcessStep ι}
    (batch : ∀ call, l ≠ .ingest call) (step : p.step culture options l = some u) :
    Kept p u := by
  cases processed_of_step culture options step with
  | ingested call r t ok => exact absurd rfl (batch call)
  | refused call => exact absurd rfl (batch call)
  | read i limit now ties result idle =>
    refine ⟨h.setBatch rfl fun b x hb phase => ?_, fun a ha _ => ha, rfl⟩
    cases hb
    cases phase
  | returned i now result here =>
    refine ⟨h.setBatch (i := i) rfl fun b x hb phase => ?_, fun a ha _ => ha, rfl⟩
    cases hb
  | executed i now action todo result here =>
    refine ⟨h.setBatch (i := i) rfl fun b x hb phase => ?_, fun a ha _ => ha, rfl⟩
    cases hb
    cases phase
    exact attempt_status_ne_queued options action now
  | updated i now attempted todo result here =>
    refine ⟨h.setBatch (i := i) rfl fun b x hb phase => ?_, fun a ha queued => ?_,
      ids_updateAction ..⟩
    · cases hb
      cases phase
    · exact (queued_updateAction (h i _ _ here rfl) ha queued).1
  | audited i now attempted todo result after here =>
    refine ⟨h.setBatch (i := i) rfl fun b x hb phase => ?_, fun a ha _ => ha, rfl⟩
    cases hb
    cases phase

theorem batches_of_advance {p u : Processing ι} {i j : ι} (other : j ≠ i) {now : Instant}
    (step : p.step culture options (.advance i now) = some u) : u.batches j = p.batches j := by
  have processed : Processed culture options p (.advance i now) u := processed_of_step _ _ step
  cases processed with
  | returned _ _ result here => exact Function.update_of_ne other ..
  | executed _ _ action todo result here => exact Function.update_of_ne other ..
  | updated _ _ attempted todo result here => exact Function.update_of_ne other ..
  | audited _ _ attempted todo result after here => exact Function.update_of_ne other ..

/-- A batch that has not returned holds what it held, but for the actions that are queued no
more. -/
theorem Unqueuing.advance {p u : Processing ι} (h : Unqueuing p) {i : ι} {now : Instant} {b : Batch}
    (here : p.batches i = some b) (more : ¬ (b.phase = .execute ∧ b.todo = []))
    (step : p.step culture options (.advance i now) = some u) :
    ∃ after, u.batches i = some after ∧ after.result.processed = b.result.processed ∧
      ∀ a ∈ u.stored.actions.rows, a.status = .queued → a.id ∈ b.held → a.id ∈ after.held := by
  obtain ⟨phase, todo, result⟩ := b
  simp only [Processing.step, here] at step
  cases phase with
  | execute =>
    cases todo with
    | nil => exact absurd ⟨rfl, rfl⟩ more
    | cons action todo =>
      cases step
      refine ⟨_, p.setBatch_self i _, rfl, fun a _ _ held => ?_⟩
      simpa [Batch.held] using held
  | update attempted =>
    cases step
    refine ⟨_, p.setBatch_self i _, rfl, fun a ha queued held => ?_⟩
    have other := (queued_updateAction (h i _ _ here rfl) ha queued).2
    simpa [Batch.held, other] using held
  | audit attempted =>
    cases step
    refine ⟨_, p.setBatch_self i _, ?_, fun a _ _ held => ?_⟩
    · simp only [ActionProcessingBatchResult.count]
      split <;> rfl
    · simpa [Batch.held] using held

end Batches

/-! ## The invariant -/

section Invariant

variable {ι : Type}

/-- Actions that the worker's last pass had to find and that are still queued. -/
def Working.missed (w : Working ι) (a : QueuedAction) : Prop :=
  a ∈ w.system.stored.actions.rows ∧ a.status = .queued ∧ a.id ∈ w.scanned

/-- The batch was as large as it may be. -/
def WorkerOptions.full (options : WorkerOptions) (r : ActionProcessingBatchResult) : Prop :=
  (r.processed : Int) = options.workerBatchSize

structure Attentive (options : WorkerOptions) (w : Working ι) : Prop where
  unqueuing : Unqueuing w.system
  due : ∀ a ∈ w.system.stored.actions.rows, a.status = .queued → a.nextAttemptAt ≤ w.clock
  committed : ∀ id ∈ w.committed, id ∈ w.system.stored.actions.rows.map QueuedAction.id
  scanned : ∀ id ∈ w.scanned, id ∈ w.system.stored.actions.rows.map QueuedAction.id
  idle : w.phase ≠ .processing → w.system.batches none = none
  reading : ∀ now, w.phase = .reading now → ∀ a, w.missed a → a.nextAttemptAt ≤ now
  processing : w.phase = .processing → ∃ b, w.system.batches none = some b ∧
    (options.full b.result ∨ ∀ a, w.missed a → a.id ∈ b.held)
  waiting : ∀ last, w.phase = .waiting last → options.full last ∨ ∀ a, ¬ w.missed a

variable {culture : Culture} {options : WorkerOptions}

theorem Attentive.started {s : Store} {clock : Instant}
    (due : ∀ a ∈ s.actions.rows, a.status = .queued → a.nextAttemptAt ≤ clock) :
    Attentive options (Working.started s clock : Working ι) where
  unqueuing i b x h := by cases h
  due := due
  committed id h := by cases h
  scanned id h := by cases h
  idle _ := rfl
  reading now h := by cases h
  processing h := by cases h
  waiting last h := by cases h

variable {w u : Working ι}

/-- A step that leaves the worker's batch alone and queues nothing that the worker had to find. -/
theorem Attentive.beside (h : Attentive options w) (unqueuing : Unqueuing u.system)
    (due : ∀ a ∈ u.system.stored.actions.rows, a.status = .queued → a.nextAttemptAt ≤ u.clock)
    (committed : ∀ id ∈ u.committed, id ∈ u.system.stored.actions.rows.map QueuedAction.id)
    (scanned : ∀ id ∈ u.scanned, id ∈ u.system.stored.actions.rows.map QueuedAction.id)
    (batch : u.system.batches none = w.system.batches none) (phase : u.phase = w.phase)
    (missed : ∀ a, u.missed a → w.missed a) : Attentive options u where
  unqueuing := unqueuing
  due := due
  committed := committed
  scanned := scanned
  idle := by rw [phase, batch]; exact h.idle
  reading now reading a ha := h.reading now (phase ▸ reading) a (missed a ha)
  processing processing := by
    obtain ⟨b, here, found⟩ := h.processing (phase ▸ processing)
    exact ⟨b, batch.trans here, found.imp_right fun held a ha => held a (missed a ha)⟩
  waiting last waiting :=
    (h.waiting last (phase ▸ waiting)).imp_right fun none a ha => none a (missed a ha)

/-- A step that neither reads nor writes the store, into a phase without an obligation. -/
theorem Attentive.rest (h : Attentive options w) (clock : u.clock = w.clock)
    (system : u.system = w.system) (committed : u.committed = w.committed)
    (scanned : u.scanned = w.scanned) (idle : w.phase ≠ .processing)
    (phase : u.phase = .ready ∨ u.phase = .draining) :
    Attentive options u where
  unqueuing := by rw [system]; exact h.unqueuing
  due := by rw [system, clock]; exact h.due
  committed := by rw [system, committed]; exact h.committed
  scanned := by rw [system, scanned]; exact h.scanned
  idle _ := by rw [system]; exact h.idle idle
  reading now reading := by rcases phase with p | p <;> simp [p] at reading
  processing processing := by rcases phase with p | p <;> simp [p] at processing
  waiting last waiting := by rcases phase with p | p <;> simp [p] at waiting

/-- Ids taken out of the committed ones. -/
theorem Attentive.erase (h : Attentive options w) (actionId : String) :
    ∀ id ∈ w.committed.erase actionId, id ∈ w.system.stored.actions.rows.map QueuedAction.id :=
  fun id hid => h.committed id (List.mem_of_mem_erase hid)

theorem actionId_of_recorded {c : DecisionCall} {s t : Store} {r : EventIngestionResult}
    (h : Recorded culture c s r t) : (t.actions = s.actions ∧ r.actionId = none) ∨
      (s.actions.find? c.actionId = none ∧ t.actions = s.actions.insert c.action ∧
        r.actionId = some c.actionId) := by
  cases h with
  | actionQueued worthy clear new queues newAction => exact .inr ⟨newAction, rfl, rfl⟩
  | _ => exact .inl ⟨rfl, rfl⟩

theorem Attentive.ingested (h : Attentive options w) {c : DecisionCall} {t : Store}
    {r : EventIngestionResult} (read : c.now ≤ w.clock)
    (recorded : Recorded culture c w.system.stored r t) :
    Attentive options { w with
      system := { w.system with stored := t }
      committed := w.committed ++ r.actionId.toList } := by
  rcases actionId_of_recorded recorded with ⟨actions, none⟩ | ⟨fresh, actions, queued⟩
  · have committed : w.committed ++ r.actionId.toList = w.committed := by simp [none]
    refine h.beside h.unqueuing ?_ ?_ ?_ rfl rfl ?_
    · simp only [actions]; exact h.due
    · simp only [actions, committed]; exact h.committed
    · simp only [actions]; exact h.scanned
    · simp only [Working.missed, actions]; exact fun _ ha => ha
  · have rows : t.actions.rows = w.system.stored.actions.rows ++ [c.action] := by
      rw [actions]; exact w.system.stored.actions.rows_insert_of_fresh fresh
    have ids : t.actions.rows.map QueuedAction.id =
        w.system.stored.actions.rows.map QueuedAction.id ++ [c.actionId] := by
      rw [rows, List.map_append]; rfl
    refine h.beside h.unqueuing ?_ ?_ ?_ rfl rfl ?_
    · intro a ha status
      rw [rows] at ha
      rcases List.mem_append.mp ha with old | new
      · exact h.due a old status
      · rw [List.mem_singleton.mp new]; exact read
    · intro id hid
      rw [ids]
      rcases List.mem_append.mp hid with old | new
      · exact List.mem_append_left _ (h.committed id old)
      · rw [queued] at new; exact List.mem_append_right _ new
    · intro id hid
      rw [ids]
      exact List.mem_append_left _ (h.scanned id hid)
    · rintro a ⟨ha, status, scanned⟩
      rw [rows] at ha
      rcases List.mem_append.mp ha with old | new
      · exact ⟨old, status, scanned⟩
      · -- the pass began without the new action
        obtain rfl := List.mem_singleton.mp new
        obtain ⟨b, hb, same⟩ := List.mem_map.mp (h.scanned _ scanned)
        exact absurd same (w.system.stored.actions.find?_eq_none_iff.mp fresh b hb)

variable [DecidableEq ι]

/-- A step of another batch. -/
theorem Attentive.others (h : Attentive options w) {l : ProcessStep (Option ι)}
    {p : Processing (Option ι)} (batch : ∀ call, l ≠ .ingest call)
    (own : p.batches none = w.system.batches none)
    (step : w.system.step culture options.toOpsProcessingOptions l = some p) :
    Attentive options { w with system := p } := by
  have kept := h.unqueuing.step batch step
  refine h.beside kept.unqueuing ?_ ?_ ?_ own rfl ?_
  · exact fun a ha queued => h.due a (kept.queued a ha queued) queued
  · intro id hid; rw [kept.ids]; exact h.committed id hid
  · intro id hid; rw [kept.ids]; exact h.scanned id hid
  · exact fun a ⟨ha, queued, scanned⟩ => ⟨kept.queued a ha queued, queued, scanned⟩

/-- The batch of the worker's read holds what the pass had to find, or it is full. -/
theorem mem_getDueActions_limited {s : Store} (size : Int) {now : Instant} {ties : List String}
    (room : ((s.getDueActions (s.limited size) now ties).length : Int) ≠ size) {a : QueuedAction}
    (mem : a ∈ s.actions.rows) (queued : a.status = .queued) (due : a.nextAttemptAt ≤ now) :
    a ∈ s.getDueActions (s.limited size) now ties := by
  refine s.actions.mem_select_of_room ?_ mem (by simp [Store.due, queued, due])
  unfold Store.limited
  split
  · exact .inr (Nat.le_refl _)
  · next positive =>
    left
    have bound : (s.getDueActions size.toNat now ties).length ≤ size.toNat := by
      rw [Store.getDueActions, Table.select]; exact List.length_take_le ..
    have ne : ((s.getDueActions size.toNat now ties).length : Int) ≠ size := by
      rw [Store.limited, if_neg positive] at room; exact room
    change (s.getDueActions size.toNat now ties).length < size.toNat
    omega

theorem Attentive.work (h : Attentive options w) {ties : List String}
    (step : w.work culture options ties = some u) : Attentive options u := by
  unfold Working.work at step
  split at step
  · next phase =>
    cases step
    refine ⟨h.unqueuing, h.due, h.committed, fun _ hid => hid, fun _ => h.idle (by simp [phase]),
      fun now reading a ha => ?_, fun processing => by simp at processing,
      fun last waiting => by simp at waiting⟩
    cases reading
    exact h.due a ha.1 ha.2.1
  · next now phase =>
    obtain ⟨p, read, rfl⟩ := Option.map_eq_some_iff.mp step
    have kept := h.unqueuing.step (fun _ => by simp) read
    have idle := h.idle (by simp [phase])
    simp only [Processing.step, idle] at read
    cases read
    refine ⟨kept.unqueuing, h.due, h.committed, h.scanned, fun other => absurd rfl other,
      fun now reading => by simp at reading, fun _ => ⟨_, w.system.setBatch_self none _, ?_⟩,
      fun last waiting => by simp at waiting⟩
    refine or_iff_not_imp_left.mpr fun room a ha => ?_
    have due := h.reading now phase a ha
    have mem := mem_getDueActions_limited options.workerBatchSize room ha.1 ha.2.1 due
    simpa [Batch.held] using List.mem_map_of_mem (f := QueuedAction.id) mem
  · next phase =>
    obtain ⟨p, advance, rfl⟩ := Option.map_eq_some_iff.mp step
    have kept := h.unqueuing.step (fun _ => by simp) advance
    obtain ⟨b, here, found⟩ := h.processing phase
    have due : ∀ a ∈ p.stored.actions.rows, a.status = .queued → a.nextAttemptAt ≤ w.clock :=
      fun a ha queued => h.due a (kept.queued a ha queued) queued
    have committed : ∀ id ∈ w.committed, id ∈ p.stored.actions.rows.map QueuedAction.id :=
      fun id hid => by rw [kept.ids]; exact h.committed id hid
    have scanned : ∀ id ∈ w.scanned, id ∈ p.stored.actions.rows.map QueuedAction.id :=
      fun id hid => by rw [kept.ids]; exact h.scanned id hid
    by_cases worked : b.phase = .execute ∧ b.todo = []
    · obtain ⟨phase, todo, result⟩ := b
      obtain ⟨rfl, rfl⟩ := worked
      rw [here]
      simp only [Processing.step, here] at advance
      cases advance
      refine ⟨kept.unqueuing, due, committed, scanned, fun _ => w.system.setBatch_self none _,
        fun now reading => by simp at reading, fun processing => by simp at processing,
        fun last waiting => ?_⟩
      cases waiting
      exact found.imp_right fun held a ha => by simpa [Batch.held] using held a ha
    · obtain ⟨after, now, processed, held⟩ := h.unqueuing.advance here worked advance
      rw [here]
      split
      · next same => cases same; exact absurd ⟨rfl, rfl⟩ worked
      refine ⟨kept.unqueuing, due, committed, scanned, fun other => absurd rfl other,
        fun now reading => by simp at reading, fun _ => ⟨after, now, ?_⟩,
        fun last waiting => by simp at waiting⟩
      refine found.imp (fun full => ?_) fun before a here => ?_
      · unfold WorkerOptions.full at full ⊢
        rw [processed]
        exact full
      · obtain ⟨ha, queued, scanned⟩ := here
        exact held a ha queued (before a ⟨kept.queued a ha queued, queued, scanned⟩)
  · next last phase =>
    split at step
    · cases step
    · cases step
      exact h.rest rfl rfl rfl rfl (by simp [phase]) (.inr rfl)
  · next phase =>
    split at step
    · cases step
      exact h.rest rfl rfl rfl rfl (by simp [phase]) (.inl rfl)
    · cases step
      exact h.rest rfl rfl rfl rfl (by simp [phase]) (.inr phase)

theorem Attentive.step (h : Attentive options w) {l : WorkerStep ι} (timely : Timely w l)
    (step : (working culture options).step w l = some u) : Attentive options u := by
  cases l with
  | tick elapsed =>
    cases step
    have later : w.clock ≤ w.clock + elapsed := Int.le_add_of_nonneg_right timely
    exact h.beside h.unqueuing (fun a ha queued => (h.due a ha queued).trans later) h.committed
      h.scanned rfl rfl fun _ ha => ha
  | ingest call =>
    simp only [working, Working.step] at step
    split at step
    · next r t ok =>
      cases step
      exact h.ingested timely (recorded_of_recordIngestionDecision ok).2
    · cases step; exact h
  | signal actionId =>
    simp only [working, Working.step] at step
    split at step
    · cases step
      exact h.beside h.unqueuing h.due (h.erase actionId) h.scanned rfl rfl fun _ ha => ha
    · cases step
  | cancel actionId =>
    simp only [working, Working.step] at step
    split at step
    · cases step
      exact h.beside h.unqueuing h.due (h.erase actionId) h.scanned rfl rfl fun _ ha => ha
    · cases step
  | processPending i limit now ties =>
    have other : (none : Option ι) ≠ some i := Option.some_ne_none i |>.symm
    obtain ⟨p, read, rfl⟩ := Option.map_eq_some_iff.mp step
    refine h.others (fun _ => by simp) ?_ read
    have processed : Processed culture options.toOpsProcessingOptions w.system
        (.processPending (some i) limit now ties) p := processed_of_step _ _ read
    cases processed with
    | read _ _ _ _ result idle => exact w.system.setBatch_of_ne _ other
  | advance i now =>
    have other : (none : Option ι) ≠ some i := Option.some_ne_none i |>.symm
    obtain ⟨p, advance, rfl⟩ := Option.map_eq_some_iff.mp step
    refine h.others (fun _ => by simp) ?_ advance
    exact batches_of_advance other advance
  | worker ties => exact h.work step
  | delay =>
    simp only [working, Working.step] at step
    split at step
    · next last phase =>
      cases step
      exact h.rest rfl rfl rfl rfl (by simp [phase]) (.inl rfl)
    · cases step

/-! ## The worker as a consumer of signals -/

/-- In the abstract consumer's view a step of the service is one of its steps, or nothing. -/
theorem Attentive.wakeups_step (h : Attentive options w) {l : WorkerStep ι}
    (step : (working culture options).step w l = some u) :
    u.wakeups = w.wakeups ∨ ∃ k, Wakeups.machine.step w.wakeups k = some u.wakeups := by
  -- a step of a batch leaves the ids alone
  have same : ∀ {l : ProcessStep (Option ι)} {p : Processing (Option ι)},
      (∀ call, l ≠ .ingest call) →
      w.system.step culture options.toOpsProcessingOptions l = some p →
      p.stored.actions.rows.map QueuedAction.id =
        w.system.stored.actions.rows.map QueuedAction.id :=
    fun batch step => (h.unqueuing.step batch step).ids
  cases l with
  | tick elapsed => cases step; exact .inl rfl
  | ingest call =>
    simp only [working, Working.step] at step
    split at step
    · next r t ok =>
      cases step
      rcases actionId_of_recorded (recorded_of_recordIngestionDecision ok).2 with
        ⟨actions, -⟩ | ⟨fresh, actions, -⟩
      · left; simp only [Working.wakeups, actions]
      · right
        refine ⟨.publish call.actionId, ?_⟩
        have rows := w.system.stored.actions.rows_insert_of_fresh (r := call.action) fresh
        simp only [Wakeups.machine, Wakeups.step, Working.wakeups, actions, rows, List.map_append,
          List.map_cons, List.map_nil]
        rfl
    · cases step; exact .inl rfl
  | signal actionId =>
    simp only [working, Working.step] at step
    split at step
    · next here =>
      cases step
      exact .inr ⟨.send actionId, if_pos (h.committed actionId here)⟩
    · cases step
  | cancel actionId =>
    simp only [working, Working.step] at step
    split at step
    · cases step; exact .inl rfl
    · cases step
  | processPending i limit now ties =>
    obtain ⟨p, read, rfl⟩ := Option.map_eq_some_iff.mp step
    left
    simp only [Working.wakeups, same (fun _ => by simp) read]
  | advance i now =>
    obtain ⟨p, advance, rfl⟩ := Option.map_eq_some_iff.mp step
    left
    simp only [Working.wakeups, same (fun _ => by simp) advance]
  | delay =>
    simp only [working, Working.step] at step
    split at step
    · next last phase =>
      cases step
      exact .inr ⟨.timeOut, by simp [Wakeups.machine, Wakeups.step, Working.wakeups, phase]⟩
    · cases step
  | worker ties =>
    simp only [working, Working.step, Working.work] at step
    split at step
    · next phase =>
      cases step
      exact .inr ⟨.scan, by simp [Wakeups.machine, Wakeups.step, Working.wakeups, phase]⟩
    · next now phase =>
      obtain ⟨p, read, rfl⟩ := Option.map_eq_some_iff.mp step
      left
      simp only [Working.wakeups, phase, same (fun _ => by simp) read]
    · next phase =>
      obtain ⟨p, advance, rfl⟩ := Option.map_eq_some_iff.mp step
      have ids := same (fun _ => by simp) advance
      split
      · right
        refine ⟨.wait, ?_⟩
        simp [Wakeups.machine, Wakeups.step, Working.wakeups, phase, ids]
      · left
        simp only [Working.wakeups, phase, ids]
    · next last phase =>
      split at step
      · cases step
      · next pending =>
        cases step
        refine .inr ⟨.wake, ?_⟩
        simp [Wakeups.machine, Wakeups.step, Working.wakeups, phase, pending]
    · next phase =>
      split at step
      · next empty =>
        cases step
        exact .inr ⟨.take, by simp [Wakeups.machine, Wakeups.step, Working.wakeups, phase, empty]⟩
      · next x rest some =>
        cases step
        exact .inr ⟨.take, by simp [Wakeups.machine, Wakeups.step, Working.wakeups, phase, some]⟩

/-- Every interleaving of the service is a run of the abstract consumer. -/
theorem wakeups_of_run {s : Store} {clock : Instant} {ls : List (WorkerStep ι)}
    (due : ∀ a ∈ s.actions.rows, a.status = .queued → a.nextAttemptAt ≤ clock)
    (timely : (working culture options).Along Timely (Working.started s clock) ls)
    (run : (working culture options).run (Working.started s clock) ls = some w) :
    ∃ ks, Wakeups.machine.run (Working.started s clock : Working ι).wakeups ks = some w.wakeups :=
  (working culture options).run_of_simulation
    (fun _ _ _ admitted h step => Attentive.step h admitted step)
    (fun _ _ _ _ h step => h.wakeups_step step) timely (Attentive.started due) run

theorem attentive_of_run {s : Store} {clock : Instant} {ls : List (WorkerStep ι)}
    (due : ∀ a ∈ s.actions.rows, a.status = .queued → a.nextAttemptAt ≤ clock)
    (timely : (working culture options).Along Timely (Working.started s clock) ls)
    (run : (working culture options).run (Working.started s clock) ls = some w) :
    Attentive options w :=
  (working culture options).run_invariant_of_along
    (fun _ _ _ admitted h step => Attentive.step h admitted step) timely (Attentive.started due) run

theorem heard_of_run {s : Store} {clock : Instant} {ls : List (WorkerStep ι)}
    (due : ∀ a ∈ s.actions.rows, a.status = .queued → a.nextAttemptAt ≤ clock)
    (timely : (working culture options).Along Timely (Working.started s clock) ls)
    (run : (working culture options).run (Working.started s clock) ls = some w) :
    Wakeups.Heard w.wakeups := by
  obtain ⟨ks, consumer⟩ := wakeups_of_run due timely run
  exact Wakeups.machine.run_invariant (fun _ _ _ h step => h.step step) (.start rfl) consumer

omit [DecidableEq ι] in
/-- What a waiting worker has not left queued. -/
theorem Attentive.none_queued (h : Attentive options w) (heard : Wakeups.Heard w.wakeups)
    {last : ActionProcessingBatchResult} (waiting : w.phase = .waiting last)
    (room : (last.processed : Int) ≠ options.workerBatchSize) :
    (∀ a ∈ w.system.stored.actions.rows, a.id ∈ w.scanned → a.status ≠ .queued) ∧
      (w.channel = [] →
        ∀ a ∈ w.system.stored.actions.rows, a.id ∈ w.sent → a.status ≠ .queued) := by
  have passed : ∀ a ∈ w.system.stored.actions.rows, a.id ∈ w.scanned → a.status ≠ .queued := by
    intro a ha scanned queued
    rcases h.waiting last waiting with full | none
    · exact room full
    · exact none a ⟨ha, queued, scanned⟩
  refine ⟨passed, fun quiet a ha sent => passed a ha ?_⟩
  exact heard.scanned_of_idle (by simp [Working.wakeups, waiting]) quiet a.id sent

/-- Whenever the worker waits after a batch that was not full, no action is queued that had been
stored when the pass began; if the channel is empty as well, none of the signalled ones is. -/
theorem not_queued_of_waiting (culture : Culture) (options : WorkerOptions) {s : Store}
    {clock : Instant} (due : ∀ a ∈ s.actions.rows, a.status = .queued → a.nextAttemptAt ≤ clock)
    {ls : List (WorkerStep ι)} {w : Working ι}
    (timely : (working culture options).Along Timely (Working.started s clock) ls)
    (run : (working culture options).run (Working.started s clock) ls = some w)
    {last : ActionProcessingBatchResult} (waiting : w.phase = .waiting last)
    (room : (last.processed : Int) ≠ options.workerBatchSize) :
    (∀ a ∈ w.system.stored.actions.rows, a.id ∈ w.scanned → a.status ≠ .queued) ∧
      (w.channel = [] →
        ∀ a ∈ w.system.stored.actions.rows, a.id ∈ w.sent → a.status ≠ .queued) :=
  (attentive_of_run due timely run).none_queued (heard_of_run due timely run) waiting room

/-- The worker waits, an outage is ingested and signalled, and the worker works its batch off. -/
def signalledOutage : List (WorkerStep Unit) :=
  List.replicate 3 (.worker []) ++
    [.tick 10, .ingest (decisionCall {} transientOutage 10 ⟨"1", "1", "1", []⟩), .signal "act_1"] ++
    List.replicate 9 (.worker [])

theorem not_queued_signalledOutage : ∃ w : Working Unit,
    (working asciiCulture {}).run (Working.started .empty 0) signalledOutage = some w ∧
    w.channel = [] ∧ w.sent = ["act_1"] ∧
    (w.system.stored.actions.rows.map QueuedAction.status) = [.retry] ∧
    ∀ a ∈ w.system.stored.actions.rows, a.id ∈ w.sent → a.status ≠ .queued := by
  have due : ∀ a ∈ Store.empty.actions.rows, a.status = .queued → a.nextAttemptAt ≤ 0 :=
    fun a ha => by cases ha
  have timely : (working asciiCulture {}).Along Timely (Working.started .empty 0)
      signalledOutage := by decide
  obtain ⟨-, signalled⟩ := not_queued_of_waiting asciiCulture {} due timely rfl rfl (by decide)
  exact ⟨_, rfl, by decide, by decide, by decide, signalled (by decide)⟩

end Invariant

end SupportOps.DotNet
