import SupportOps.Library.Sessions
import SupportOps.Python.Actions

/-!
# Concurrent workers

`process_due_actions` in any number of sessions at once. A session selects its rows when it
opens; the lease it writes is seen by the others only when it commits, together with the
outcome, which gives the lease back. So what keeps two sessions apart is not the lease but
that no row is selected while another open session has it in its batch.
-/
namespace SupportOps.Python

open Library

/-! ## One call as a program -/

/-- Where a call is between two statements on a row: nothing done yet, lease flushed, or
transport called (with the row to be flushed and its audit rows). -/
inductive PassPhase where
  | between
  | leased (a : Action)
  | called (a b : Action) (audits : List AuditLog)

/-- A `process_due_actions` call after its `SELECT`: the ids it loaded, and the rows it has not
begun yet. -/
structure PassProgram where
  args : PassArgs
  loaded : List Nat
  rest : List Action
  phase : PassPhase

inductive PassStep where
  | select (args : PassArgs)
  | lease
  | transport (reply : TransportReply)
  | outcome
  | commit
  deriving DecidableEq, Repr

/-- What happens outside the database. -/
inductive PassEvent where
  /-- The transport is called for an action leased at `leasedAt`. -/
  | invoked (action : Nat) (leasedAt : Instant)
  | committed
  deriving DecidableEq, Repr

/-- The session opens with its `SELECT`, which a call that raises before it does not reach. -/
def selectDue : PassStep → Store → Option PassProgram
  | .select args, s =>
    if args.staleLeaseBefore.isSome then
      some ⟨args, (dueActions args s).map Action.id, dueActions args s, .between⟩
    else none
  | _, _ => none

/-- The statements of the loop of `process_due_actions`, and the commit after it. -/
def passStatement : PassStep → PassProgram → Option (Effect PassProgram Write PassEvent)
  | .lease, ⟨args, loaded, a :: rest, .between⟩ =>
    some (.next ⟨args, loaded, rest, .leased (a.leased args)⟩
      [.updateAction (a.flush (a.leased args))] [])
  | .transport reply, ⟨args, loaded, rest, .leased a⟩ =>
    match executeActionOnce args (fun _ => reply) a with
    | .error _ =>
      some (.rollback ((transportCalls args (fun _ => reply) a).map fun c => .invoked c.1 args.now))
    | .ok (b, audits) =>
      some (.next ⟨args, loaded, rest, .called a b audits⟩ []
        ((transportCalls args (fun _ => reply) a).map fun c => .invoked c.1 args.now))
  | .outcome, ⟨args, loaded, rest, .called a b audits⟩ =>
    some (.next ⟨args, loaded, rest, .between⟩
      (.updateAction (a.flush b) :: audits.map .insertAudit) [])
  | .commit, ⟨_, _, [], .between⟩ => some (.commit [.committed])
  | _, _ => none

/-- The workers. No statement after the `SELECT` reads rows again: the objects are loaded. -/
def workers : Client Store Write RowKey PassProgram PassStep PassEvent where
  apply := Write.apply
  locks := Write.locks
  start := selectDue
  exec l p _ _ := passStatement l p

abbrev Workers (ι : Type) := World ι Store Write RowKey PassProgram PassEvent

/-- How often the transport has been called for an action. -/
def invocations {ι : Type} (log : List (ι × PassEvent)) (k : Nat) : Nat :=
  log.countP fun e => match e.2 with
    | .invoked action _ => action = k
    | .committed => false

/-- The row a call is working on, and those it has not begun. -/
def PassProgram.pending (p : PassProgram) : List Action :=
  match p.phase with
  | .between => p.rest
  | .leased a => a :: p.rest
  | .called a _ _ => a :: p.rest

/-- One more attempt than the flushed row says, between the transport call and the flush. -/
def PassProgram.inFlight (p : PassProgram) (k : Nat) : Nat :=
  match p.phase with
  | .called a _ _ => if a.id = k then 1 else 0
  | _ => 0

/-- Every statement a call can take after its `SELECT`. -/
inductive PassCase : PassStep → PassProgram → Effect PassProgram Write PassEvent → Prop
  | lease (args : PassArgs) (loaded : List Nat) (a : Action) (rest : List Action) :
      PassCase .lease ⟨args, loaded, a :: rest, .between⟩
        (.next ⟨args, loaded, rest, .leased (a.leased args)⟩
          [.updateAction (a.flush (a.leased args))] [])
  | raised (args : PassArgs) (loaded : List Nat) (a : Action) (rest : List Action)
      (reply : TransportReply) (e : ExecuteError)
      (raises : executeActionOnce args (fun _ => reply) a = .error e) :
      PassCase (.transport reply) ⟨args, loaded, rest, .leased a⟩
        (.rollback ((transportCalls args (fun _ => reply) a).map fun c => .invoked c.1 args.now))
  | called (args : PassArgs) (loaded : List Nat) (a b : Action) (rest : List Action)
      (reply : TransportReply) (audits : List AuditLog)
      (returns : executeActionOnce args (fun _ => reply) a = .ok (b, audits)) :
      PassCase (.transport reply) ⟨args, loaded, rest, .leased a⟩
        (.next ⟨args, loaded, rest, .called a b audits⟩ []
          ((transportCalls args (fun _ => reply) a).map fun c => .invoked c.1 args.now))
  | outcome (args : PassArgs) (loaded : List Nat) (a b : Action) (rest : List Action)
      (audits : List AuditLog) :
      PassCase .outcome ⟨args, loaded, rest, .called a b audits⟩
        (.next ⟨args, loaded, rest, .between⟩
          (.updateAction (a.flush b) :: audits.map .insertAudit) [])
  | commit (args : PassArgs) (loaded : List Nat) :
      PassCase .commit ⟨args, loaded, [], .between⟩ (.commit [.committed])

theorem passCase_of_statement {l : PassStep} {p : PassProgram}
    {e : Effect PassProgram Write PassEvent} (h : passStatement l p = some e) :
    PassCase l p e := by
  unfold passStatement at h
  split at h
  · cases h; exact .lease ..
  · split at h
    · next raises => cases h; exact .raised _ _ _ _ _ _ raises
    · next returns => cases h; exact .called _ _ _ _ _ _ _ returns
  · cases h; exact .outcome ..
  · cases h; exact .commit ..
  · cases h

/-! ## What one call writes -/

/-- The statement touches no action but those of the batch. -/
def WritesOnly (loaded : List Nat) : Write → Prop
  | .updateAction u => u.id ∈ loaded
  | .insertAudit _ => True
  | _ => False

theorem Store.find?_apply_congr {s t : Store} {w : Write} {loaded : List Nat}
    (only : WritesOnly loaded w) {k : Nat} (same : s.actions.find? k = t.actions.find? k) :
    (w.apply s).actions.find? k = (w.apply t).actions.find? k := by
  cases w with
  | updateAction u => simp only [Write.apply_actions, Table.find?_modify, same]
  | insertAudit row => exact same
  | _ => exact only.elim

/-- What a session sees of a row depends on the stored row only. -/
theorem Store.find?_write_congr {s t : Store} {ws : List Write} {loaded : List Nat}
    (only : ∀ w ∈ ws, WritesOnly loaded w) {k : Nat}
    (same : s.actions.find? k = t.actions.find? k) :
    (s.write ws).actions.find? k = (t.write ws).actions.find? k := by
  induction ws generalizing s t with
  | nil => exact same
  | cons w ws ih =>
    exact ih (fun x hx => only x (List.mem_cons_of_mem _ hx))
      (Store.find?_apply_congr (only w (List.mem_cons_self ..)) same)

/-- A session leaves the rows outside its batch alone. -/
theorem Store.find?_write_of_not_mem {s : Store} {ws : List Write} {loaded : List Nat}
    (only : ∀ w ∈ ws, WritesOnly loaded w) {k : Nat} (outside : k ∉ loaded) :
    (s.write ws).actions.find? k = s.actions.find? k := by
  induction ws generalizing s with
  | nil => rfl
  | cons w ws ih =>
    rw [Store.write_cons, ih fun x hx => only x (List.mem_cons_of_mem _ hx)]
    have here := only w (List.mem_cons_self ..)
    cases w with
    | updateAction u =>
      have : k ≠ u.id := fun e => outside (e ▸ here)
      simp [Write.apply_actions, Table.find?_modify, this]
    | insertAudit row => rfl
    | _ => exact here.elim

/-- An attempt on an unfinished row: the row that will be flushed, and the one call made. -/
structure Attempted (args : PassArgs) (reply : TransportReply) (a b : Action)
    (audits : List AuditLog) : Prop where
  id : b.id = a.id
  incident : b.incidentId = a.incidentId
  type : b.actionType = a.actionType
  created : b.createdAt = a.createdAt
  attempts : b.attempts = a.attempts + 1
  allowed : 1 ≤ args.maxAttempts
  calls : transportCalls args (fun _ => reply) a = [(a.id, reply)]

theorem attempted_of_ok {args : PassArgs} {reply : TransportReply} {a b : Action}
    {audits : List AuditLog} (unfinished : a.finished = false)
    (h : executeActionOnce args (fun _ => reply) a = .ok (b, audits)) :
    Attempted args reply a b audits := by
  have quiet : ¬ (args.maxAttempts < 1 ∨ a.settles args (fun _ => reply) = false) := by
    rw [← executeActionOnce_isError unfinished, h]
    rintro ⟨e, raised⟩
    cases raised
  obtain ⟨positive, settles⟩ := not_or.mp quiet
  obtain ⟨succeeded, detail, outcome, fits⟩ :=
    Action.settles_iff.mp (Bool.not_eq_false _ ▸ settles)
  rw [executeActionOnce_of_settles (Nat.not_lt.mp positive) unfinished outcome fits] at h
  simp only [Except.ok.injEq, Prod.mk.injEq] at h
  obtain ⟨rfl, rfl⟩ := h
  exact ⟨by simp [Action.attempt], by simp [Action.attempt], by simp [Action.attempt],
    by simp [Action.attempt], by simp [Action.attempt], Nat.not_lt.mp positive,
    by simp [transportCalls, positive, unfinished]⟩

/-- Only a call that allows no attempts raises, when the attempt settles. -/
theorem maxAttempts_of_error {args : PassArgs} {reply : TransportReply} {a : Action}
    {e : ExecuteError} (unfinished : a.finished = false)
    (settles : a.settles args (fun _ => reply))
    (h : executeActionOnce args (fun _ => reply) a = .error e) : args.maxAttempts < 1 :=
  ((executeActionOnce_isError unfinished).mp ⟨e, h⟩).resolve_right (by simp [settles])

end SupportOps.Python
