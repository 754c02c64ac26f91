import Mathlib.Data.Fintype.Basic
import SupportOps.DotNet.ActionProcessor

/-!
# Concurrent batches

A batch writes its snapshot of a row back by id, without a look at what is stored by then. While no
batch reads a row that another batch holds and has not yet written, the snapshots are current:
final rows stay, and the stored attempts count the executions. Two batches that hold one row lose
an attempt, and the slower one undoes a final status.
-/
namespace SupportOps.DotNet

open Library

section Property

variable {ι : Type}

/-- The executor's runs for the action. -/
def executionsOf (executions : List (ι × String)) (id : String) : Nat :=
  executions.countP fun e => e.2 = id

def AttemptsCounted (w : Processing ι) : Prop :=
  ∀ a ∈ w.stored.actions.rows, a.attempts = executionsOf w.executions a.id

/-- Final rows stay as they are. -/
def FinalStays (s t : Store) : Prop :=
  ∀ a ∈ s.actions.rows, a.status.final = true → t.actions.find? a.id = some a

/-- No row that a batch reads is held by another one. -/
def Unshared (w : Processing ι) : ProcessStep ι → Prop
  | .processPending i limit now ties => w.batches i = none →
    ∀ a ∈ w.stored.getDueActions limit now ties, ∀ j, ∀ b ∈ w.batches j, a.id ∉ b.held
  | _ => True

instance [DecidableEq ι] [Fintype ι] (w : Processing ι) (l : ProcessStep ι) :
    Decidable (Unshared w l) := by
  unfold Unshared
  split <;> infer_instance

theorem executionsOf_concat (executions : List (ι × String)) (i : ι) (k id : String) :
    executionsOf (executions ++ [(i, k)]) id =
      executionsOf executions id + if k = id then 1 else 0 := by
  simp [executionsOf, List.countP_append, List.countP_singleton]

end Property

/-! ## What ingestion does to the actions -/

theorem actions_of_recorded {culture : Culture} {c : DecisionCall} {s t : Store}
    {r : EventIngestionResult} (h : Recorded culture c s r t) :
    t.actions = s.actions ∨
      s.actions.find? c.action.id = none ∧ t.actions = s.actions.insert c.action := by
  cases h with
  | actionQueued worthy clear new queues newAction => exact .inr ⟨newAction, rfl⟩
  | _ => exact .inl rfl

theorem find?_insert_of_some {t : Table QueuedAction} {k : String} {a : QueuedAction}
    (h : t.find? k = some a) (b : QueuedAction) : (t.insert b).find? k = some a := by
  rw [Table.find?_insert, h]
  rfl

/-! ## The invariant -/

section Invariant

variable {ι : Type} (options : OpsProcessingOptions)

/-- The batch has executed the action and not yet written it. -/
def Batch.Updates (b : Batch) (id : String) : Prop :=
  ∃ attempted, b.phase = .update attempted ∧ attempted.action.id = id

theorem Batch.Updates.mem_held {b : Batch} {id : String} (h : b.Updates id) : id ∈ b.held := by
  obtain ⟨attempted, phase, rfl⟩ := h
  simp [Batch.held, phase]

/-- The snapshots are current and apart, and attempts lag behind executions by the one that a
batch is about to write. -/
structure Counted (w : Processing ι) : Prop where
  current : ∀ i b, w.batches i = some b → ∀ a ∈ b.todo,
    w.stored.actions.find? a.id = some a ∧ a.status.final = false
  pending : ∀ i b x, w.batches i = some b → b.phase = .update x →
    ∃ a now, x = attempt options a now ∧ w.stored.actions.find? a.id = some a ∧
      a.status.final = false ∧ executionsOf w.executions a.id = a.attempts + 1
  nodup : ∀ i b, w.batches i = some b → b.held.Nodup
  apart : ∀ i j bi bj, w.batches i = some bi → w.batches j = some bj →
    ∀ id ∈ bi.held, id ∈ bj.held → i = j
  counted : ∀ a ∈ w.stored.actions.rows,
    (∀ i b, w.batches i = some b → ¬ b.Updates a.id) →
    a.attempts = executionsOf w.executions a.id
  unknown : ∀ id, w.stored.actions.find? id = none → executionsOf w.executions id = 0

theorem Counted.initial : Counted options (Processing.initial : Processing ι) where
  current i b h := by cases h
  pending i b x h := by cases h
  nodup i b h := by cases h
  apart i j bi bj h := by cases h
  counted a h := by cases h
  unknown id h := rfl

variable {options}

theorem Counted.attemptsCounted {w : Processing ι} (h : Counted options w)
    (idle : ∀ i, w.batches i = none) : AttemptsCounted w := fun a ha =>
  h.counted a ha fun i b hb => by rw [idle i] at hb; cases hb

/-- A step that changes neither actions nor executions nor batches. -/
theorem Counted.congr {w u : Processing ι} (h : Counted options w)
    (actions : u.stored.actions = w.stored.actions) (executions : u.executions = w.executions)
    (batches : u.batches = w.batches) : Counted options u := by
  constructor
  · rw [actions, batches]; exact h.current
  · rw [actions, executions, batches]; exact h.pending
  · rw [batches]; exact h.nodup
  · rw [batches]; exact h.apart
  · rw [actions, executions, batches]; exact h.counted
  · rw [actions, executions]; exact h.unknown

/-- A new action has no executions. -/
theorem Counted.ingested {w : Processing ι} (h : Counted options w) {t : Store} {a : QueuedAction}
    (fresh : w.stored.actions.find? a.id = none) (attempts : a.attempts = 0)
    (actions : t.actions = w.stored.actions.insert a) : Counted options { w with stored := t } := by
  have found : ∀ {k b}, w.stored.actions.find? k = some b → t.actions.find? k = some b := by
    intro k b hk
    rw [actions]
    exact find?_insert_of_some hk a
  refine ⟨?_, ?_, h.nodup, h.apart, ?_, ?_⟩
  · intro i b hb x hx
    obtain ⟨here, unfinished⟩ := h.current i b hb x hx
    exact ⟨found here, unfinished⟩
  · intro i b x hb phase
    obtain ⟨a, now, same, here, rest⟩ := h.pending i b x hb phase
    exact ⟨a, now, same, found here, rest⟩
  · intro b hb idle
    change b ∈ t.actions.rows at hb
    rw [actions] at hb
    rcases w.stored.actions.mem_of_mem_insert hb with old | rfl
    · exact h.counted b old idle
    · rw [attempts]
      exact (h.unknown b.id fresh).symm
  · intro id none
    refine h.unknown id ?_
    cases before : w.stored.actions.find? id with
    | none => rfl
    | some b =>
      have := (found before).symm.trans none
      cases this

/-- A step that leaves actions and executions alone and changes the batch of `i` only, which has
nothing to write before and after. -/
theorem Counted.quiet [DecidableEq ι] {w u : Processing ι} (h : Counted options w) (i : ι)
    (new : Option Batch) (actions : u.stored.actions = w.stored.actions)
    (executions : u.executions = w.executions) (batches : u.batches = (w.setBatch i new).batches)
    (before : ∀ b id, w.batches i = some b → ¬ b.Updates id)
    (waits : ∀ b x, new = some b → b.phase ≠ .update x)
    (nodup : ∀ b, new = some b → b.held.Nodup)
    (current : ∀ b, new = some b → ∀ a ∈ b.todo,
      w.stored.actions.find? a.id = some a ∧ a.status.final = false)
    (apart : ∀ b j bj, new = some b → j ≠ i → w.batches j = some bj →
      ∀ id ∈ b.held, id ∉ bj.held) : Counted options u := by
  have cases_ : ∀ {j b}, u.batches j = some b →
      (j = i ∧ new = some b) ∨ (j ≠ i ∧ w.batches j = some b) := fun hb =>
    batches_setBatch (by rw [← batches]; exact hb)
  refine ⟨?_, ?_, ?_, ?_, ?_, ?_⟩
  · intro j b hb x hx
    rw [actions]
    rcases cases_ hb with ⟨-, own⟩ | ⟨-, old⟩
    · exact current b own x hx
    · exact h.current j b old x hx
  · intro j b x hb phase
    rw [actions, executions]
    rcases cases_ hb with ⟨-, own⟩ | ⟨-, old⟩
    · exact absurd phase (waits b x own)
    · exact h.pending j b x old phase
  · intro j b hb
    rcases cases_ hb with ⟨-, own⟩ | ⟨-, old⟩
    · exact nodup b own
    · exact h.nodup j b old
  · intro j k bj bk hj hk id mj mk
    rcases cases_ hj with ⟨rfl, ownJ⟩ | ⟨neJ, oldJ⟩ <;>
      rcases cases_ hk with ⟨rfl, ownK⟩ | ⟨neK, oldK⟩
    · rfl
    · exact absurd mk (apart bj k bk ownJ neK oldK id mj)
    · exact absurd mj (apart bk j bj ownK neJ oldJ id mk)
    · exact h.apart j k bj bk oldJ oldK id mj mk
  · intro a ha idle
    rw [actions] at ha
    rw [executions]
    refine h.counted a ha fun j b hb => ?_
    by_cases same : j = i
    · exact before b a.id (same ▸ hb)
    · refine idle j b ?_
      rw [batches, w.setBatch_of_ne _ same]
      exact hb
  · intro id none
    rw [actions] at none
    rw [executions]
    exact h.unknown id none

/-! ## One batch moves -/

/-- Batch `i` goes on from `old` to `new`, and the others stay where they are. -/
structure Moved (w u : Processing ι) (i : ι) (old new : Batch) : Prop where
  before : w.batches i = some old
  after : u.batches i = some new
  others : ∀ j, j ≠ i → u.batches j = w.batches j

section Moved

variable {w u : Processing ι} {i j : ι} {old new b : Batch} {id id' : String}

theorem Moved.batches_cases (move : Moved w u i old new) (hb : u.batches j = some b) :
    (j = i ∧ b = new) ∨ (j ≠ i ∧ w.batches j = some b) := by
  by_cases same : j = i
  · subst same
    rw [move.after] at hb
    exact .inl ⟨rfl, (Option.some.inj hb).symm⟩
  · rw [move.others j same] at hb
    exact .inr ⟨same, hb⟩

/-- Nobody is about to write the row after the move, so nobody was before. -/
theorem Moved.idle_before (move : Moved w u i old new) (own : ¬ old.Updates id)
    (idle : ∀ j b, u.batches j = some b → ¬ b.Updates id) :
    ∀ j b, w.batches j = some b → ¬ b.Updates id := by
  intro j b hb
  by_cases same : j = i
  · subst same
    rw [move.before] at hb
    cases hb
    exact own
  · refine idle j b ?_
    rw [move.others j same]
    exact hb

/-- Two batches hold different rows. -/
theorem Counted.elsewhere (h : Counted options w) (here : w.batches i = some old)
    (mine : id ∈ old.held) (ne : j ≠ i) (there : w.batches j = some b) (theirs : id' ∈ b.held) :
    id' ≠ id := by
  rintro rfl
  exact ne (h.apart j i b old there here id' theirs mine)

/-- A batch that takes no new row stays apart from the others. -/
theorem Counted.apart_moved (h : Counted options w) (move : Moved w u i old new)
    (held : ∀ id ∈ new.held, id ∈ old.held) :
    ∀ j k bj bk, u.batches j = some bj → u.batches k = some bk →
      ∀ id ∈ bj.held, id ∈ bk.held → j = k := by
  intro j k bj bk hj hk id mj mk
  have before : ∀ {j b}, u.batches j = some b → id ∈ b.held →
      ∃ b', w.batches j = some b' ∧ id ∈ b'.held := by
    intro j b hb hid
    rcases move.batches_cases hb with ⟨rfl, rfl⟩ | ⟨-, there⟩
    · exact ⟨old, move.before, held id hid⟩
    · exact ⟨b, there, hid⟩
  obtain ⟨bj', hj', mj'⟩ := before hj mj
  obtain ⟨bk', hk', mk'⟩ := before hk mk
  exact h.apart j k bj' bk' hj' hk' id mj' mk'

end Moved

/-- A batch that waits for its next row is about to write none. -/
theorem not_updates_execute {todo : List QueuedAction} {result : ActionProcessingBatchResult}
    (id : String) : ¬ (⟨.execute, todo, result⟩ : Batch).Updates id := by
  rintro ⟨x, phase, -⟩
  cases phase

/-- An execution: the batch has one more row to write, which nobody else holds. -/
theorem Counted.executed {w u : Processing ι} (h : Counted options w) {i : ι}
    {a : QueuedAction} {todo : List QueuedAction} {result : ActionProcessingBatchResult}
    {now : Instant} (move : Moved w u i ⟨.execute, a :: todo, result⟩
      ⟨.update (attempt options a now), todo, result⟩)
    (stored : u.stored = w.stored) (executions : u.executions = w.executions ++ [(i, a.id)]) :
    Counted options u := by
  obtain ⟨found, unfinished⟩ := h.current i _ move.before a (List.mem_cons_self ..)
  have mine : a.id ∈ (⟨.execute, a :: todo, result⟩ : Batch).held := List.mem_cons_self ..
  have counted : a.attempts = executionsOf w.executions a.id := by
    refine h.counted a (w.stored.actions.mem_of_find? found) fun j b hb updates => ?_
    obtain rfl := h.apart j i b _ hb move.before a.id updates.mem_held mine
    rw [move.before] at hb
    cases hb
    exact not_updates_execute _ updates
  have held : (⟨.update (attempt options a now), todo, result⟩ : Batch).held =
      (⟨.execute, a :: todo, result⟩ : Batch).held := by
    simp [Batch.held]
  have others : ∀ {id}, id ≠ a.id → executionsOf u.executions id =
      executionsOf w.executions id := fun ne => by
    rw [executions, executionsOf_concat, if_neg ne.symm, Nat.add_zero]
  refine ⟨?_, ?_, ?_, h.apart_moved move fun id hid => held ▸ hid, ?_, ?_⟩
  · intro j b hb x hx
    rw [stored]
    rcases move.batches_cases hb with ⟨-, rfl⟩ | ⟨-, old⟩
    · exact h.current i _ move.before x (List.mem_cons_of_mem _ hx)
    · exact h.current j b old x hx
  · intro j b x hb phase
    rw [stored]
    rcases move.batches_cases hb with ⟨-, rfl⟩ | ⟨ne, old⟩
    · cases phase
      refine ⟨a, now, rfl, found, unfinished, ?_⟩
      rw [executions, executionsOf_concat, if_pos rfl, counted]
    · obtain ⟨c, t, rfl, foundC, unfinishedC, runs⟩ := h.pending j b x old phase
      have updates : b.Updates (attempt options c t).action.id := ⟨_, phase, rfl⟩
      rw [attempt_id] at updates
      exact ⟨c, t, rfl, foundC, unfinishedC,
        (others (h.elsewhere move.before mine ne old updates.mem_held)).trans runs⟩
  · intro j b hb
    rcases move.batches_cases hb with ⟨-, rfl⟩ | ⟨-, old⟩
    · rw [held]
      exact h.nodup i _ move.before
    · exact h.nodup j b old
  · intro b hb idle
    rw [stored] at hb
    have other : b.id ≠ a.id := fun same =>
      idle i _ move.after ⟨_, rfl, (attempt_id options a now).trans same.symm⟩
    rw [others other]
    exact h.counted b hb (move.idle_before (not_updates_execute _) idle)
  · intro id none
    rw [stored] at none
    have other : id ≠ a.id := by
      rintro rfl
      rw [found] at none
      cases none
    rw [others other]
    exact h.unknown id none

/-- A row is written back: it is still the one the batch has read. -/
theorem Counted.updated {w u : Processing ι} (h : Counted options w) {i : ι}
    {x : Attempted} {todo : List QueuedAction} {result : ActionProcessingBatchResult}
    (move : Moved w u i ⟨.update x, todo, result⟩ ⟨.audit x, todo, result⟩)
    (actions : u.stored.actions =
      w.stored.actions.modify x.action.id x.action.updated x.action.key_updated)
    (executions : u.executions = w.executions) :
    Counted options u ∧ FinalStays w.stored u.stored := by
  obtain ⟨a, now, rfl, found, unfinished, runs⟩ := h.pending i _ x move.before rfl
  rw [attempt_id] at actions
  have mine : a.id ∈ (⟨.update (attempt options a now), todo, result⟩ : Batch).held := by
    simp [Batch.held]
  have rest : a.id ∉ todo.map QueuedAction.id ∧ (todo.map QueuedAction.id).Nodup := by
    have := h.nodup i _ move.before
    simpa [Batch.held] using this
  have kept : ∀ {k c}, w.stored.actions.find? k = some c → k ≠ a.id →
      u.stored.actions.find? k = some c := by
    intro k c hk ne
    rw [actions, Table.find?_modify, if_neg ne]
    exact hk
  refine ⟨⟨?_, ?_, ?_, h.apart_moved move fun id hid => List.mem_append_right _ hid, ?_, ?_⟩, ?_⟩
  · intro j b hb c hc
    rcases move.batches_cases hb with ⟨-, rfl⟩ | ⟨ne, old⟩
    · obtain ⟨foundC, unfinishedC⟩ := h.current i _ move.before c hc
      exact ⟨kept foundC fun e => rest.1 (e ▸ List.mem_map_of_mem hc), unfinishedC⟩
    · obtain ⟨foundC, unfinishedC⟩ := h.current j b old c hc
      exact ⟨kept foundC (h.elsewhere move.before mine ne old
        (List.mem_append_right _ (List.mem_map_of_mem hc))), unfinishedC⟩
  · intro j b y hb phase
    rcases move.batches_cases hb with ⟨-, rfl⟩ | ⟨ne, old⟩
    · cases phase
    · obtain ⟨c, t, rfl, foundC, unfinishedC, runsC⟩ := h.pending j b y old phase
      have updates : b.Updates (attempt options c t).action.id := ⟨_, phase, rfl⟩
      rw [attempt_id] at updates
      rw [executions]
      exact ⟨c, t, rfl, kept foundC (h.elsewhere move.before mine ne old updates.mem_held),
        unfinishedC, runsC⟩
  · intro j b hb
    rcases move.batches_cases hb with ⟨-, rfl⟩ | ⟨-, old⟩
    · exact rest.2
    · exact h.nodup j b old
  · intro c hc idle
    rw [actions] at hc
    rw [executions]
    obtain ⟨q, hq, rfl⟩ := w.stored.actions.mem_modify.mp hc
    by_cases same : Keyed.key q = a.id
    · obtain rfl : q = a := w.stored.actions.eq_of_key_eq hq
        (w.stored.actions.mem_of_find? found) same
      rw [if_pos same]
      change (attempt options q now).action.attempts = executionsOf w.executions q.id
      rw [attempt_attempts, runs]
    · rw [if_neg same] at idle ⊢
      refine h.counted q hq (move.idle_before (fun updates => same ?_) idle)
      obtain ⟨y, phase, id⟩ := updates
      cases phase
      exact ((attempt_id options a now).symm.trans id).symm
  · intro id none
    rw [executions]
    refine h.unknown id ?_
    rw [actions, Table.find?_modify] at none
    split at none
    · exact Option.map_eq_none_iff.mp none
    · exact none
  · intro c hc final
    refine kept (w.stored.actions.find?_of_mem hc) fun same => ?_
    have : c = a := w.stored.actions.eq_of_key_eq hc (w.stored.actions.mem_of_find? found) same
    rw [this, unfinished] at final
    cases final

theorem moved_setBatch [DecidableEq ι] {w : Processing ι} {i : ι} {old : Batch}
    (here : w.batches i = some old) (new : Batch) {u : Processing ι}
    (batches : u.batches = (w.setBatch i (some new)).batches) : Moved w u i old new where
  before := here
  after := by rw [batches, w.setBatch_self]
  others j ne := by rw [batches, w.setBatch_of_ne _ ne]

theorem finalStays_of_eq {s t : Store} (actions : t.actions = s.actions) : FinalStays s t := by
  intro a ha _
  rw [actions]
  exact s.actions.find?_of_mem ha

/-- Each admitted step keeps the invariant and the final rows. -/
theorem Counted.step [DecidableEq ι] {culture : Culture} {w u : Processing ι}
    {l : ProcessStep ι} (h : Counted options w) (unshared : Unshared w l)
    (step : Processed culture options w l u) :
    Counted options u ∧ FinalStays w.stored u.stored := by
  cases step with
  | ingested call r t ok =>
    rcases actions_of_recorded (recorded_of_recordIngestionDecision ok).2 with same | ⟨new, insert⟩
    · exact ⟨h.congr same rfl rfl, finalStays_of_eq same⟩
    · refine ⟨h.ingested new rfl insert, fun a ha _ => ?_⟩
      change t.actions.find? a.id = some a
      rw [insert]
      exact find?_insert_of_some (w.stored.actions.find?_of_mem ha) _
  | refused call => exact ⟨h, finalStays_of_eq rfl⟩
  | read i limit now ties result idle =>
    refine ⟨h.quiet i (some ⟨.execute, w.stored.getDueActions limit now ties, result⟩) rfl rfl rfl
      (fun b id hb => by rw [idle] at hb; cases hb) ?_ ?_ ?_ ?_,
      finalStays_of_eq rfl⟩
    · rintro b x ⟨⟩ phase
      cases phase
    · rintro b ⟨⟩
      exact w.stored.actions.nodup_select _ _ _
    · rintro b ⟨⟩ a ha
      obtain ⟨mem, status⟩ := Store.mem_getDueActions ha
      refine ⟨w.stored.actions.find?_of_mem mem, ?_⟩
      rcases status with queued | retry
      · rw [queued]; rfl
      · rw [retry]; rfl
    · rintro b j bj ⟨⟩ - hj id hid
      obtain ⟨a, ha, rfl⟩ := List.mem_map.mp hid
      exact unshared idle a ha j bj hj
  | returned i now result here =>
    refine ⟨h.quiet i none rfl rfl rfl ?_ (fun b x new => ?_) (fun b new => ?_) (fun b new => ?_)
      (fun b j bj new => ?_), finalStays_of_eq rfl⟩
    · intro b id hb
      rw [here] at hb
      cases hb
      exact not_updates_execute id
    all_goals cases new
  | executed i now action todo result here =>
    exact ⟨h.executed (moved_setBatch here _ rfl) rfl rfl, finalStays_of_eq rfl⟩
  | updated i now attempted todo result here =>
    exact h.updated (moved_setBatch here _ rfl) rfl rfl
  | audited i now attempted todo result after here =>
    refine ⟨h.quiet i (some ⟨.execute, todo, after⟩) rfl rfl rfl ?_ ?_ ?_ ?_ ?_,
      finalStays_of_eq rfl⟩
    · rintro b id hb ⟨x, phase, -⟩
      rw [here] at hb
      cases hb
      cases phase
    · rintro b x ⟨⟩ phase
      cases phase
    · rintro b ⟨⟩
      have nodup := h.nodup i _ here
      exact nodup
    · rintro b ⟨⟩ a ha
      have current := h.current i _ here
      exact current a ha
    · rintro b j bj ⟨⟩ ne hj id hid held
      exact ne (h.apart j i bj _ hj here id held hid)

/-- While no batch reads a row that another one holds, in every interleaving the attempts count
the executions whenever no batch is in progress, and final rows stay. -/
theorem finalStays_and_attemptsCounted [DecidableEq ι] (culture : Culture)
    (options : OpsProcessingOptions) (ls : List (ProcessStep ι))
    (unshared : (processing culture options).Along Unshared Processing.initial ls) :
    (∀ w, (processing culture options).run Processing.initial ls = some w →
        (∀ i, w.batches i = none) → AttemptsCounted w) ∧
      ∀ pre post v w, ls = pre ++ post →
        (processing culture options).run Processing.initial pre = some v →
        (processing culture options).run v post = some w → FinalStays v.stored w.stored := by
  have kept : ∀ (w : Processing ι) l u, Unshared w l → Counted options w →
      (processing culture options).step w l = some u → Counted options u :=
    fun _ _ _ admitted h step => (h.step admitted (processed_of_step _ _ step)).1
  refine ⟨?_, ?_⟩
  · intro w run idle
    have counted := (processing culture options).run_invariant_of_along kept unshared
      (Counted.initial options) run
    exact counted.attemptsCounted idle
  · rintro pre post v w rfl before after
    have along := (processing culture options).along_of_invariant
      (Q := fun w l => ∀ u, (processing culture options).step w l = some u →
        FinalStays w.stored u.stored)
      kept (fun _ _ admitted h _ step => (h.step admitted (processed_of_step _ _ step)).2)
      unshared (Counted.initial options)
    have later := ((processing culture options).along_append.mp along).2 v before
    refine (processing culture options).rel_of_along
      (R := fun v w => FinalStays v.stored w.stored) (fun _ => finalStays_of_eq rfl)
      (fun a b c ab bc x hx final => ?_) later after
    exact bc x (b.stored.actions.mem_of_find? (ab x hx final)) final

end Invariant

/-! ## Two batches -/

/-- An outage whose first attempt fails transiently. -/
def transientOutage : OperationEvent :=
  ⟨"evt_1", "synthetic-test", "asset-001", "offline", 92, "Synthetic outage",
    ExecutorModes.transientThenSuccess, 0, 0⟩

/-- One action is ingested. -/
def outageIngested : ProcessStep Bool :=
  .ingest (decisionCall {} transientOutage 0 ⟨"1", "1", "1", []⟩)

/-- An outage of another asset, whose first attempt succeeds. -/
def secondIngested : ProcessStep Bool :=
  .ingest (decisionCall {} { transientOutage with
    id := "evt_2", assetId := "asset-002", executorMode := ExecutorModes.success } 0
    ⟨"2", "2", "2", []⟩)

/-- A batch from its read to its return: `n` rows are executed and written. -/
def wholeBatch (i : Bool) (n : Nat) (now : Instant) : List (ProcessStep Bool) :=
  .processPending i 100 now [] :: List.replicate (3 * n + 1) (.advance i now)

/-- Two calls take one row each and work on them by turns. The second call is done first; the action
that it has left final is stored when a third call repeats the other one. -/
def twoBatches : List (ProcessStep Bool) :=
  [outageIngested, secondIngested, .processPending false 1 0 ["act_1"],
    .processPending true 1 0 ["act_2"], .advance false 0, .advance true 0, .advance true 0,
    .advance false 0, .advance true 0, .advance true 0, .advance false 0, .advance false 0] ++
    wholeBatch true 1 (fromSeconds 1)

theorem finalStays_twoBatches : ∃ w : Processing Bool,
    (processing asciiCulture {}).run Processing.initial twoBatches = some w ∧
    (w.stored.actions.rows.map fun a => (a.status, a.attempts)) =
      [(.succeeded, 2), (.succeeded, 1)] ∧
    w.executions = [(false, "act_1"), (true, "act_2"), (true, "act_1")] ∧
    AttemptsCounted w ∧
    ∀ pre post v w, twoBatches = pre ++ post →
      (processing asciiCulture {}).run Processing.initial pre = some v →
      (processing asciiCulture {}).run v post = some w → FinalStays v.stored w.stored := by
  obtain ⟨counted, stays⟩ :=
    finalStays_and_attemptsCounted asciiCulture {} twoBatches (by decide)
  exact ⟨_, rfl, by decide, by decide, counted _ rfl (by decide), stays⟩

/-- Both batches read the action; one succeeds with it in two calls before the other writes. The
slow one puts its own first attempt over the final row. -/
def slowBatch : List (ProcessStep Bool) :=
  [outageIngested, .processPending true 100 0 []] ++ wholeBatch false 1 0 ++
    wholeBatch false 1 (fromSeconds 1)

theorem final_row_regresses : ∃ v w : Processing Bool,
    (processing asciiCulture {}).run Processing.initial slowBatch = some v ∧
    (v.stored.actions.rows.map fun a => (a.status, a.attempts)) = [(.succeeded, 2)] ∧
    (processing asciiCulture {}).run v (List.replicate 4 (.advance true (fromSeconds 2))) = some w ∧
    (∀ i, w.batches i = none) ∧
    (w.stored.actions.rows.map fun a => (a.status, a.attempts)) = [(.retry, 1)] ∧
    executionsOf w.executions "act_1" = 3 ∧
    ¬ FinalStays v.stored w.stored ∧ ¬ AttemptsCounted w := by
  refine ⟨_, _, rfl, by decide, rfl, by decide, by decide, by decide, ?_, ?_⟩
  · intro stays
    have := stays _ (List.mem_singleton_self _) (by decide)
    exact absurd this (by decide)
  · intro counted
    exact absurd (counted _ (List.mem_singleton_self _)) (by decide)

end SupportOps.DotNet
