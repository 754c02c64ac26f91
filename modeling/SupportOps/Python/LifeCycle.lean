import SupportOps.Python.Passes
import SupportOps.Python.Service

/-!
# The life of an action

Queued, perhaps retried, then succeeded or failed for good. The executor mode is stored in the
column that the outcome overwrites, so the invariant speaks about the detail an action was
created with, which the journal keeps. Between commands no action is leased.
-/
namespace SupportOps.Python

open Library

/-- The `action_executed` audit rows of an action. -/
def Store.executions (s : Store) (id : Nat) : Nat :=
  s.audits.countP fun r =>
    r.eventType = "action_executed" ∧ r.entityType = "action" ∧ r.entityId = id

/-- The action was created with this detail. -/
def CreatedWith (created : List Creation) (id : Nat) (detail : String) : Prop :=
  ∃ c ∈ created, c.row.id = id ∧ c.row.detail = detail

/-- Where an action can be in its life, under a fixed number of attempts. -/
structure LifeCycle (maxAttempts : Nat) (s : Store) (created : List Creation) (a : Action) :
    Prop where
  queued : a.state = .queued → a.attempts = 0
  retry : a.state = .retry →
    1 ≤ a.attempts ∧ a.attempts < maxAttempts ∧ a.nextAttemptAt.isSome
  ended : a.state = .succeeded ∨ a.state = .failed → 1 ≤ a.attempts ∧ a.attempts ≤ maxAttempts
  failed : a.state = .failed → a.attempts = maxAttempts ∨
    ∃ detail, CreatedWith created a.id detail ∧ contains "permanent_failure" detail = true
  detail : a.state = .queued ∨ a.state = .retry → CreatedWith created a.id a.detail
  unleased : a.leaseId = none ∧ a.leasedAt = none
  executions : s.executions a.id = a.attempts

/-- Every stored action is somewhere in its life, and was created once. -/
structure LifeCycles (maxAttempts : Nat) (s : Store) (created : List Creation) : Prop where
  rows : ∀ a ∈ s.actions.rows, LifeCycle maxAttempts s created a
  nodup : (created.map fun c => c.row.id).Nodup
  stored : ∀ c ∈ created, (s.actions.find? c.row.id).isSome
  unknown : ∀ id, s.actions.find? id = none → s.executions id = 0

/-- Rows that have succeeded or failed are not changed again. -/
def EndedStay (s t : Store) : Prop :=
  ∀ a ∈ s.actions.rows, a.state = .succeeded ∨ a.state = .failed → a ∈ t.actions.rows

/-! ## One attempt -/

/-- The three ways an attempt can leave an action. -/
theorem Action.outcome_cases (args : PassArgs) (a : Action) (succeeded : Bool) (detail : String) :
    (a.outcome args succeeded detail).state = .succeeded ∨
    ((a.outcome args succeeded detail).state = .failed ∧
      (contains "permanent_failure" a.detail = true ∨ args.maxAttempts ≤ a.attempts + 1)) ∨
    ((a.outcome args succeeded detail).state = .retry ∧ a.attempts + 1 < args.maxAttempts ∧
      (a.outcome args succeeded detail).detail = a.detail ∧
      (a.outcome args succeeded detail).nextAttemptAt.isSome) := by
  rw [a.outcome_eq]
  unfold settled
  cases succeeded with
  | true => exact .inl rfl
  | false =>
    cases last : a.attempt.lastAttempt args with
    | true =>
      refine .inr (.inl ⟨rfl, ?_⟩)
      simp only [lastAttempt, Bool.or_eq_true, decide_eq_true_eq] at last
      exact last
    | false =>
      simp only [lastAttempt, Bool.or_eq_false_iff, decide_eq_false_iff_not, not_le] at last
      exact .inr (.inr ⟨rfl, last.2, rfl, rfl⟩)

theorem Action.outcome_unleased (args : PassArgs) (a : Action) (succeeded : Bool)
    (detail : String) : (a.outcome args succeeded detail).leaseId = none ∧
      (a.outcome args succeeded detail).leasedAt = none := by
  rw [a.outcome_eq]
  unfold settled
  split
  · exact ⟨rfl, rfl⟩
  · split <;> exact ⟨rfl, rfl⟩

theorem Action.state_of_unfinished {a : Action} (h : a.finished = false) :
    a.state = .queued ∨ a.state = .retry := by
  cases state : a.state <;> simp_all [Action.finished]

theorem executions_append {s t : Store} {rows : List AuditLog}
    (audits : t.audits = s.audits ++ rows) (id : Nat) :
    t.executions id = s.executions id + rows.countP fun r =>
      r.eventType = "action_executed" ∧ r.entityType = "action" ∧ r.entityId = id := by
  unfold Store.executions
  rw [audits, List.countP_append]

namespace LifeCycle

variable {m : Nat} {s t : Store} {created : List Creation} {a : Action}

/-- An unfinished action has an attempt left. -/
theorem spare (h : LifeCycle m s created a) (positive : 1 ≤ m) (unfinished : a.finished = false) :
    a.attempts < m := by
  rcases Action.state_of_unfinished unfinished with queued | retry
  · rw [h.queued queued]
    exact positive
  · exact (h.retry retry).2.1

/-- The action that is attempted. -/
theorem outcome (h : LifeCycle m s created a) (positive : 1 ≤ m) (unfinished : a.finished = false)
    {args : PassArgs} (limit : args.maxAttempts = m) {succeeded : Bool} {detail : String}
    (executed : t.executions a.id = s.executions a.id + 1) :
    LifeCycle m t created (a.outcome args succeeded detail) := by
  have spare := h.spare positive unfinished
  have original := h.detail (Action.state_of_unfinished unfinished)
  have ways := a.outcome_cases args succeeded detail
  rw [limit] at ways
  refine ⟨?_, ?_, ?_, ?_, ?_, a.outcome_unleased args succeeded detail, ?_⟩
  · intro queued
    rcases ways with state | ⟨state, -⟩ | ⟨state, -⟩ <;> rw [queued] at state <;> cases state
  · intro retry
    rcases ways with state | ⟨state, -⟩ | ⟨-, left, -, next⟩
    · rw [retry] at state; cases state
    · rw [retry] at state; cases state
    · exact ⟨by simp, by simpa using left, next⟩
  · intro _
    simp only [Action.outcome_attempts]
    omega
  · intro failed
    rcases ways with state | ⟨-, permanent | last⟩ | ⟨state, -⟩
    · rw [failed] at state; cases state
    · exact .inr ⟨a.detail, by simpa using original, permanent⟩
    · left
      simp only [Action.outcome_attempts]
      omega
    · rw [failed] at state; cases state
  · intro open_
    rcases ways with state | ⟨state, -⟩ | ⟨-, -, same, -⟩
    · rw [state] at open_; simp at open_
    · rw [state] at open_; simp at open_
    · rw [Action.outcome_id, same]
      exact original
  · rw [Action.outcome_id, executed, h.executions, Action.outcome_attempts]

/-- An action that a change leaves alone. -/
theorem keep (h : LifeCycle m s created a) {later : List Creation} (log : created ⊆ later)
    (executions : t.executions a.id = s.executions a.id) : LifeCycle m t later a := by
  have kept : ∀ {detail}, CreatedWith created a.id detail → CreatedWith later a.id detail := by
    rintro detail ⟨c, hc, id, same⟩
    exact ⟨c, log hc, id, same⟩
  refine ⟨h.queued, h.retry, h.ended, ?_, ?_, h.unleased, ?_⟩
  · intro failed
    refine (h.failed failed).imp_right ?_
    rintro ⟨detail, made, permanent⟩
    exact ⟨detail, kept made, permanent⟩
  · exact fun open_ => kept (h.detail open_)
  · rw [executions, h.executions]

end LifeCycle

/-! ## Every change -/

/-- What a new action looks like. -/
def Action.Fresh (a : Action) : Prop :=
  a.state = .queued ∧ a.attempts = 0 ∧ a.leaseId = none ∧ a.leasedAt = none

theorem NewCase.fresh {settings : Settings} {env : Surroundings} {p : EventBody} {s t : Store}
    {o : Processed} (h : NewCase settings env p s o t) : ∀ a ∈ o.action.toList, a.Fresh := by
  intro a ha
  rw [Option.mem_toList] at ha
  cases h with
  | queued asset rule opens action room =>
    cases ha
    exact ⟨rfl, rfl, rfl, rfl⟩
  | _ => cases ha

namespace LifeCycles

variable {m : Nat} {s t : Store} {created : List Creation}

/-- A change that may create actions, but attempts none. -/
theorem grow (h : LifeCycles m s created) {as : List Action} {rows : List AuditLog} (b : Bool)
    (actions : t.actions.rows = s.actions.rows ++ as) (fresh : ∀ a ∈ as, a.Fresh)
    (audits : t.audits = s.audits ++ rows) (foreign : ∀ r ∈ rows, r.eventType ≠ "action_executed") :
    LifeCycles m t (created ++ as.map (Creation.mk b)) := by
  have nodup := t.actions.nodup
  rw [actions, List.map_append] at nodup
  have unknown : ∀ a ∈ as, s.actions.find? a.id = none := by
    intro a ha
    refine s.actions.find?_eq_none_iff.mpr fun r hr same => ?_
    exact List.disjoint_of_nodup_append nodup (List.mem_map_of_mem hr)
      (List.mem_map.mpr ⟨a, ha, same.symm⟩)
  have executions : ∀ id, t.executions id = s.executions id := by
    intro id
    have none : rows.countP (fun r => r.eventType = "action_executed" ∧
        r.entityType = "action" ∧ r.entityId = id) = 0 := by
      refine List.countP_eq_zero.mpr fun r hr => ?_
      simp [foreign r hr]
    rw [executions_append audits, none, Nat.add_zero]
  refine ⟨?_, ?_, ?_, ?_⟩
  · intro a ha
    rw [actions, List.mem_append] at ha
    rcases ha with old | new
    · exact (h.rows a old).keep (List.subset_append_left _ _) (executions a.id)
    · obtain ⟨state, attempts, lease, leased⟩ := fresh a new
      refine ⟨fun _ => attempts, ?_, ?_, ?_, fun _ => ?_, ⟨lease, leased⟩, ?_⟩
      · intro retry
        rw [state] at retry; cases retry
      · intro ended
        rw [state] at ended; simp at ended
      · intro failed
        rw [state] at failed; cases failed
      · exact ⟨⟨b, a⟩, List.mem_append_right _ (List.mem_map_of_mem new), rfl, rfl⟩
      · rw [executions, h.unknown _ (unknown a new), attempts]
  · rw [List.map_append, List.map_map]
    have ids : ((fun c : Creation => c.row.id) ∘ Creation.mk b) = Keyed.key := rfl
    rw [ids]
    refine List.Nodup.append h.nodup (List.Nodup.of_append_right nodup) ?_
    intro id old new
    obtain ⟨c, hc, rfl⟩ := List.mem_map.mp old
    obtain ⟨a, ha, same⟩ := List.mem_map.mp new
    have found := h.stored c hc
    rw [← same, key_action, unknown a ha] at found
    cases found
  · intro c hc
    rcases List.mem_append.mp hc with old | new
    · obtain ⟨a, found⟩ := Option.isSome_iff_exists.mp (h.stored c old)
      have rows : s.actions.rows ⊆ t.actions.rows := by
        rw [actions]
        exact List.subset_append_left _ _
      exact Option.isSome_iff_exists.mpr ⟨a, Table.find?_of_subset rows found⟩
    · obtain ⟨a, ha, rfl⟩ := List.mem_map.mp new
      have mem : a ∈ t.actions.rows := by
        rw [actions]
        exact List.mem_append_right _ ha
      exact Option.isSome_iff_exists.mpr ⟨a, t.actions.find?_of_mem mem⟩
  · intro id none
    rw [executions]
    refine h.unknown id (s.actions.find?_eq_none_iff.mpr fun r hr => ?_)
    refine t.actions.find?_eq_none_iff.mp none r ?_
    rw [actions]
    exact List.mem_append_left _ hr

/-- A change that leaves the actions and their audit rows alone. -/
theorem same (h : LifeCycles m s created) (rows : List AuditLog) (b : Bool)
    (actions : t.actions = s.actions) (audits : t.audits = s.audits ++ rows)
    (foreign : ∀ r ∈ rows, r.eventType ≠ "action_executed") :
    LifeCycles m t (created ++ ([] : List Action).map (Creation.mk b)) :=
  h.grow b (by rw [actions, List.append_nil]) (fun a ha => by cases ha) audits foreign

theorem attempted (h : LifeCycles m s created) (positive : 1 ≤ m) {args : PassArgs}
    (limit : args.maxAttempts = m) {a : Action} {succeeded : Bool} {detail : String}
    (attempt : Attempt args a succeeded detail s t) : LifeCycles m t created := by
  have mem := s.actions.mem_of_find? attempt.current
  have executions : ∀ id, t.executions id = s.executions id + if a.id = id then 1 else 0 := by
    intro id
    rw [executions_append attempt.audits_eq]
    simp [List.countP_singleton, Action.executed]
  refine ⟨?_, h.nodup, ?_, ?_⟩
  · intro b hb
    rw [attempt.rows, List.mem_map] at hb
    obtain ⟨r, hr, rfl⟩ := hb
    split
    · refine (h.rows a mem).outcome positive attempt.unfinished limit ?_
      rw [executions, if_pos rfl]
    · next other =>
      refine (h.rows r hr).keep (List.Subset.refl _) ?_
      rw [executions, if_neg fun same => other same.symm, Nat.add_zero]
  · intro c hc
    obtain ⟨r, found⟩ := Option.isSome_iff_exists.mp (h.stored c hc)
    exact Option.isSome_iff_exists.mpr ⟨_, attempt.find? found⟩
  · intro id none
    have absent : s.actions.find? id = .none := by
      cases found : s.actions.find? id with
      | none => rfl
      | some r =>
        rw [attempt.find? found] at none
        cases none
    have other : a.id ≠ id := by
      rintro rfl
      rw [attempt.current] at absent
      cases absent
    rw [executions, if_neg other, h.unknown id absent]

/-- Every change keeps every action in its life. -/
theorem change (h : LifeCycles m s created) (positive : 1 ≤ m) {c : Command}
    (limit : ∀ n, c.maxAttempts = some n → n = m) {as : List Action} (change : Change c s as t) :
    LifeCycles m t (created ++ as.map (Creation.mk c.isProcess)) := by
  cases change with
  | asset a fresh => exact h.same [] _ rfl (List.append_nil _).symm fun r hr => by cases hr
  | rule r fresh => exact h.same [] _ rfl (List.append_nil _).symm fun r hr => by cases hr
  | new process new =>
    rcases new.added with ⟨-, -, -, entry, audits, kind⟩ | ⟨i, rule, entry, opened⟩
    · refine h.grow _ new.rows_actions new.fresh audits fun r hr => ?_
      obtain rfl := List.mem_singleton.mp hr
      rcases kind with kind | kind <;> rw [kind] <;> decide
    · refine h.grow _ new.rows_actions new.fresh opened.audits fun r hr => ?_
      obtain rfl := List.mem_singleton.mp hr
      rcases opened.outcome with ⟨kind, -⟩ | ⟨kind, -⟩ <;> rw [kind] <;> decide
  | claimed key now vacant =>
    exact h.same [] _ rfl (List.append_nil _).symm fun r hr => by cases hr
  | completed id o now stored =>
    exact h.same [] _ rfl (List.append_nil _).symm fun r hr => by cases hr
  | replayed record now mem =>
    refine h.same [idempotencyHit record now] _ rfl rfl fun r hr => ?_
    obtain rfl := List.mem_singleton.mp hr
    simp [idempotencyHit]
  | attempted attempts attempt =>
    simpa using h.attempted positive (limit _ attempts) attempt
  | followedUp i staleMinutes now process mem =>
    refine h.grow _ (rows_insert_action_nextId s _ rfl) (fun a ha => ?_) (List.append_nil _).symm
      fun r hr => by cases hr
    obtain rfl := List.mem_singleton.mp ha
    exact ⟨rfl, rfl, rfl, rfl⟩
  | job row => exact h.same [] _ rfl (List.append_nil _).symm fun r hr => by cases hr
  | check checks row kind =>
    refine h.same [row] _ rfl rfl fun r hr => ?_
    obtain rfl := List.mem_singleton.mp hr
    rcases kind with kind | kind <;> rw [kind] <;> decide

end LifeCycles

/-! ## Rows that have ended -/

theorem EndedStay.refl (s : Store) : EndedStay s s := fun _ ha _ => ha

theorem EndedStay.trans {s t u : Store} (h : EndedStay s t) (g : EndedStay t u) : EndedStay s u :=
  fun a ha ended => g a (h a ha ended) ended

/-- An attempt is made on an unfinished row, and every other row stays. -/
theorem endedStay_of_change {c : Command} {s t : Store} {as : List Action}
    (change : Change c s as t) : EndedStay s t := by
  have grown : ∀ {bs}, t.actions.rows = s.actions.rows ++ bs → EndedStay s t := by
    intro bs rows a ha _
    rw [rows]
    exact List.mem_append_left _ ha
  cases change with
  | new process new => exact grown new.rows_actions
  | followedUp i staleMinutes now process mem => exact grown (rows_insert_action_nextId s _ rfl)
  | attempted attempts attempt =>
    intro r hr ended
    rw [attempt.rows]
    refine List.mem_map.mpr ⟨r, hr, if_neg fun same => ?_⟩
    have unfinished := attempt.unfinished
    rw [← attempt.row_eq (s.actions.find?_of_mem hr) same] at unfinished
    rcases ended with state | state <;> simp [Action.finished, state] at unfinished
  | _ => exact EndedStay.refl _

theorem endedStay_of_changes {c : Command} {s t : Store} {as : List Action}
    (h : Changes c s as t) : EndedStay s t := by
  induction h with
  | done => exact EndedStay.refl s
  | step earlier change ih => exact ih.trans (endedStay_of_change change)

/-! ## Every run -/

/-- A command of the life: no reset, and attempts only under the fixed limit. -/
def Command.Under (maxAttempts : Nat) (c : Command) : Prop :=
  c.isReset = false ∧ ∀ n, c.maxAttempts = some n → n = maxAttempts

/-- In every run under a fixed number of attempts each action is somewhere in its life, and one
that has ended stays as it is through every continuation of the run. -/
theorem lifeCycles_of_run (b : Begin) (maxAttempts : Nat) (positive : 1 ≤ maxAttempts)
    (assets : Table Asset) (rules : Table AutomationRule) (cs ds : List Command)
    (under : ∀ c ∈ cs ++ ds, c.Under maxAttempts) (j k : Journal)
    (run : (journal b).run ⟨Store.seeded assets rules, []⟩ cs = some j)
    (later : (journal b).run j ds = some k) :
    LifeCycles maxAttempts j.store j.created ∧ EndedStay j.store k.store := by
  have start : LifeCycles maxAttempts (Store.seeded assets rules) [] := by
    refine ⟨fun a ha => (by cases ha), List.nodup_nil, fun c hc => (by cases hc), fun _ _ => rfl⟩
  refine ⟨?_, ?_⟩
  · exact journal_invariant (A := fun c => ∀ n, c.maxAttempts = some n → n = maxAttempts)
      (I := LifeCycles maxAttempts) (fun limit h change => h.change positive limit change)
      (fun c hc => under c (List.mem_append_left _ hc)) start run
  · have going : ∀ c ∈ ds, c.isReset = false :=
      fun c hc => (under c (List.mem_append_right _ hc)).1
    have steps := (((journal b).along_true j ds).and_label _ going).mono _
      (H := fun j c => ∀ k, (journal b).step j c = some k → EndedStay j.store k.store) ?_
    · exact (journal b).rel_of_along (R := fun j k => EndedStay j.store k.store)
        (fun j => .refl j.store) (fun _ _ _ h g => h.trans g) steps later
    · rintro j c ⟨going, -⟩ k step
      obtain ⟨t, applied, rfl⟩ := Option.map_eq_some_iff.mp step
      exact endedStay_of_changes (changes_of_apply applied going)

/-- An event that fails once: its action is retried by a pass and ended by the retry loop. -/
def pumpFlaps : EventCreate where
  assetExternalId := "PUMP-101"
  source := "monitor"
  category := "offline"
  severity := 90
  message := "No heartbeat"
  executorMode := "fail_once"
  accepted := by decide

def flapShift : List Command :=
  [.process ⟨⟨1000⟩, ⟨0, "0"⟩, pumpFlaps⟩, .processDueActions (passArgs 3) (defaultTransport 1)]

def flapRetry : List Command :=
  [.executeActionWithRetry 1 ⟨3, fun _ => 1⟩ (defaultTransport 1) 3, .healthSweep (minutes 30) 30]

theorem lifeCycles_flapShift : ∃ j k : Journal,
    (journal .eager).run ⟨demo, []⟩ flapShift = some j ∧
    (journal .eager).run j flapRetry = some k ∧
    j.store.actions.rows.map (fun a => (a.state, a.attempts, a.detail)) =
      [(.retry, 1, "fail_once")] ∧
    k.store.actions.rows.map (fun a => (a.state, a.attempts)) =
      [(.succeeded, 2), (.queued, 0)] ∧
    LifeCycles 3 j.store j.created ∧ EndedStay j.store k.store := by
  have under : ∀ c ∈ flapShift ++ flapRetry, c.Under 3 := by
    simp [flapShift, flapRetry, Command.Under, Command.isReset, Command.maxAttempts, passArgs]
  exact ⟨_, _, rfl, rfl, by decide, by decide,
    lifeCycles_of_run .eager 3 (by decide) demoAssets demoRules flapShift flapRetry under _ _
      rfl rfl⟩

end SupportOps.Python
