import SupportOps.Python.Ingestion
import SupportOps.Python.Seed

/-!
# Many calls in one session

A session that processes one event after another and commits once at the end, as
`process_contract_events` does. A call in it takes the statements of `process`; what it returns
goes to the caller, and the session stays open. The session's own rollback, after a unique
violation on a key, ends more than the call: it takes everything the session has not committed.
-/
namespace SupportOps.Python

open Library

/-- The calls still to make, the one in progress, and what the others have returned. -/
structure BatchProgram where
  settings : Settings
  rest : List EventCreate
  current : Option IngestProgram
  returned : List Answer

inductive BatchStep where
  | batch (settings : Settings) (payloads : List EventCreate)
  | statement (tick : Tick)

/-- A statement of the call in progress, as one of the session. -/
def BatchProgram.lift (b : BatchProgram) : IngestEffect → Effect BatchProgram Write Answer
  | .next p writes events => .next { b with current := some p } writes events
  | .restart p => .restart { b with current := some p }
  | .commit answers => .next { b with current := none, returned := b.returned ++ answers } [] []
  | .rollback events => .rollback events

/-- The session's next statement; after the last call it commits. -/
def batchStatement (tick : Tick) (b : BatchProgram) (s : Store) :
    Option (Effect BatchProgram Write Answer) :=
  match b.current, b.rest with
  | some p, _ => (ingestStatement tick p s).map b.lift
  | none, payload :: rest =>
    (openCall (.call b.settings payload) s).map fun p =>
      .next { b with rest := rest, current := some p } [] []
  | none, [] => some (.commit b.returned)

/-- The sessions that process a list of events each. -/
def batching : Client Store Write RowKey BatchProgram BatchStep Answer where
  apply := Write.apply
  locks := Write.locks
  start
    | .batch settings payloads, _ => some ⟨settings, payloads, none, []⟩
    | .statement _, _ => none
  exec
    | .statement tick, b, s, _ => batchStatement tick b s
    | .batch _ _, _, _, _ => none

abbrev Batching (ι : Type) := World ι Store Write RowKey BatchProgram Answer

/-! ## A call that lost its key -/

section Replay

variable {ι : Type}

/-- A call of the session is in progress. -/
def InCall (i : ι) (w : Batching ι) : Prop :=
  ∃ ses p, w.sessions i = some ses ∧ ses.program.current = some p

instance [DecidableEq ι] (i : ι) (w : Batching ι) : Decidable (InCall i w) :=
  decidable_of_iff ((w.sessions i).any fun ses => ses.program.current.isSome) <| by
    simp [InCall, Option.any_eq_true, Option.isSome_iff_exists]

/-- The call has rolled the session back and waits for the result of the other session, or replays
it; `answers` is what the earlier calls have returned. -/
def Waiting (answers : List Answer) (key : Option String) (ses : Session BatchProgram Write) :
    Prop :=
  ∃ p, ses.program.current = some p ∧ ses.program.returned = answers ∧ p.payload.key? = key ∧
    match p.phase with
    | .poll _ _ | .replay _ _ => ses.writes = []
    | .reload record _ => ∃ now, ses.writes = record.replayed now
    | .answer response =>
      response.replay = true ∧ ∃ record now, ses.writes = IdempotencyRecord.replayed record now
    | _ => False

/-- The call has returned the replay. -/
def ReturnedReplay (answers : List Answer) (key : Option String)
    (ses : Session BatchProgram Write) : Prop :=
  ses.program.current = none ∧
    (∃ response, ses.program.returned = answers ++ [⟨key, response⟩] ∧ response.replay = true) ∧
    ∃ record now, ses.writes = IdempotencyRecord.replayed record now

/-- The statement after a conflict on the key. -/
theorem batchStatement_conflict {tick : Tick} {b : BatchProgram} {p : IngestProgram} {key : String}
    {s : Store} (current : b.current = some p) (claim : p.phase = .claim key)
    (conflict : (s.recordByKey key).isSome) :
    batchStatement tick b s =
      some (.restart { b with current := some (p.goto tick (.poll key 100)) }) := by
  simp [batchStatement, current, ingestStatement, claim, conflict, BatchProgram.lift]

/-- What the statements of a waiting call do to its session. -/
theorem waiting_next {tick : Tick} {answers : List Answer} {key : Option String}
    {ses : Session BatchProgram Write} {s : Store} (waiting : Waiting answers key ses) (since : Nat)
    {e : Effect BatchProgram Write Answer} (exec : batchStatement tick ses.program s = some e) :
    (∃ b ws, e = .next b ws [] ∧ (Waiting answers key ⟨b, ses.writes ++ ws, since⟩ ∨
      ReturnedReplay answers key ⟨b, ses.writes ++ ws, since⟩)) ∨ ∃ es, e = .rollback es := by
  obtain ⟨⟨settings, rest, current, returned⟩, writes, start⟩ := ses
  obtain ⟨⟨settings', payload, claimed, clock, phase⟩, rfl, rfl, rfl, shape⟩ := waiting
  simp only [batchStatement, Option.map_eq_some_iff] at exec
  obtain ⟨f, exec, rfl⟩ := exec
  cases phase with
  | poll key attempts =>
    obtain rfl : writes = [] := shape
    cases attempts with
    | zero =>
      cases exec
      exact .inr ⟨[], rfl⟩
    | succ attempts =>
      simp only [ingestStatement] at exec
      split at exec <;> cases exec <;> exact .inl ⟨_, [], rfl, .inl ⟨_, rfl, rfl, rfl, rfl⟩⟩
  | replay record eventId =>
    obtain rfl : writes = [] := shape
    cases exec
    exact .inl ⟨_, _, rfl, .inl ⟨_, rfl, rfl, rfl, tick.now, rfl⟩⟩
  | reload record eventId =>
    obtain ⟨now, rfl⟩ := shape
    simp only [ingestStatement] at exec
    split at exec <;> cases exec
    · exact .inr ⟨[], rfl⟩
    · exact .inl ⟨_, [], rfl,
        .inl ⟨_, rfl, rfl, rfl, rfl, record, now, List.append_nil _⟩⟩
  | answer response =>
    obtain ⟨replay, record, now, rfl⟩ := shape
    cases exec
    exact .inl ⟨_, [], rfl,
      .inr ⟨rfl, ⟨response, rfl, replay⟩, record, now, List.append_nil _⟩⟩
  | _ => cases shape

variable [DecidableEq ι]

/-- Whatever the other sessions do, the call waits until it returns or raises. -/
theorem waiting_step {answers : List Answer} {key : Option String} {i j : ι} {l : BatchStep}
    {w u : Batching ι}
    (waiting : ∀ ses, w.sessions i = some ses → Waiting answers key ses ∨
      ReturnedReplay answers key ses) (inCall : InCall i w)
    (step : batching.Stepped w j l u) :
    ∀ ses, u.sessions i = some ses → Waiting answers key ses ∨ ReturnedReplay answers key ses := by
  intro ses found
  obtain ⟨old, p, here, current⟩ := inCall
  have before : Waiting answers key old := by
    refine (waiting old here).resolve_right fun returned => ?_
    rw [returned.1] at current
    cases current
  have stay : w.sessions i = some ses → Waiting answers key ses ∨ ReturnedReplay answers key ses :=
    waiting ses
  have statement : ∀ {e}, batching.exec l old.program (batching.view old w.stored)
      (Client.foreign w i) = some e → ∃ tick, batchStatement tick old.program
        (batching.view old w.stored) = some e := by
    intro e exec
    cases l with
    | batch settings payloads => cases exec
    | statement tick => exact ⟨tick, exec⟩
  cases step with
  | begin q closed start =>
    rcases Client.sessions_begin found with ⟨rfl, -⟩ | ⟨-, same⟩
    · rw [here] at closed; cases closed
    · exact stay same
  | next s q ws es here' exec free =>
    rcases Client.sessions_advance batching found with ⟨rfl, rfl⟩ | ⟨-, same⟩
    · rw [here] at here'
      cases here'
      obtain ⟨tick, exec⟩ := statement exec
      rcases waiting_next before _ exec with ⟨b, vs, e, after⟩ | ⟨es, e⟩
      · cases e; exact after
      · cases e
    · exact stay same
  | restart s q here' exec =>
    rcases Client.sessions_restart found with ⟨rfl, rfl⟩ | ⟨-, same⟩
    · rw [here] at here'
      cases here'
      obtain ⟨tick, exec⟩ := statement exec
      rcases waiting_next before 0 exec with ⟨b, vs, e, -⟩ | ⟨es, e⟩ <;> cases e
    · exact stay same
  | commit s es here' exec => exact stay (Client.sessions_commit batching found).2
  | rollback s es here' exec => exact stay (Client.sessions_rollback found).2

/-- A call whose key another session has taken meanwhile keeps what its session had written before,
so that the next commit stores it with the replay's hit and audit row, exactly if there was
nothing. -/
theorem replay_keeps_work_iff (i : ι) (w u : Batching ι) (ses ses' : Session BatchProgram Write)
    (p : IngestProgram) (key : String) (tick : Tick) (ls : List (ι × BatchStep))
    (here : w.sessions i = some ses) (current : ses.program.current = some p)
    (claim : p.phase = .claim key)
    (conflict : ((batching.view ses w.stored).recordByKey key).isSome)
    (inCall : batching.machine.Along (fun v _ => InCall i v) w ((i, .statement tick) :: ls))
    (run : batching.machine.run w ((i, .statement tick) :: ls) = some u)
    (after : u.sessions i = some ses') (ended : ses'.program.current = none) :
    (∃ response, ses'.program.returned = ses.program.returned ++ [⟨p.payload.key?, response⟩] ∧
      response.replay = true) ∧
    ((∃ record now, ses'.writes = ses.writes ++ IdempotencyRecord.replayed record now) ↔
      ses.writes = []) := by
  obtain ⟨v, step, rest⟩ := batching.machine.run_cons_eq_some.mp run
  have restarted : v = Client.restart w i ses
      { ses.program with current := some (p.goto tick (.poll key 100)) } := by
    have exec : batching.exec (.statement tick) ses.program (batching.view ses w.stored)
        (Client.foreign w i) = some (.restart
          { ses.program with current := some (p.goto tick (.poll key 100)) }) :=
      batchStatement_conflict current claim conflict
    simp only [Client.machine, Client.step, here, exec] at step
    exact (Option.some.inj step).symm
  have waiting : ∀ s, v.sessions i = some s →
      Waiting ses.program.returned p.payload.key? s ∨
        ReturnedReplay ses.program.returned p.payload.key? s := by
    intro s found
    rw [restarted] at found
    rcases Client.sessions_restart found with ⟨-, rfl⟩ | ⟨other, -⟩
    · exact .inl ⟨_, rfl, rfl, rfl, rfl⟩
    · exact absurd rfl other
  have kept := batching.invariant_of_along
    (I := fun v => ∀ s, v.sessions i = some s → Waiting ses.program.returned p.payload.key? s ∨
      ReturnedReplay ses.program.returned p.payload.key? s)
    (fun v j l u inCall waiting step => waiting_step waiting inCall step) (inCall.2 v step) waiting
    rest
  have returned : ReturnedReplay ses.program.returned p.payload.key? ses' := by
    refine (kept ses' after).resolve_left ?_
    rintro ⟨q, still, -⟩
    rw [ended] at still
    cases still
  obtain ⟨-, response, record, now, writes⟩ := returned
  refine ⟨response, ?_, ?_⟩
  · rintro ⟨record', now', kept⟩
    have lengths := congrArg List.length (writes.symm.trans kept)
    have two : ∀ (r : IdempotencyRecord) now, (r.replayed now).length = 2 := fun _ _ => rfl
    rw [List.length_append, two, two] at lengths
    exact List.eq_nil_of_length_eq_zero (by omega)
  · intro empty
    exact ⟨record, now, by rw [empty, writes, List.nil_append]⟩

end Replay

/-! ## A batch and a single call -/

/-- `n` statements of a session at one time, with `id` for every row they insert. -/
def batchStatements (i : Bool) (n : Nat) (now : Instant) (id : Nat) : List (Bool × BatchStep) :=
  List.replicate n (i, .statement ⟨now, "0", id⟩)

/-- A batch processes an event without a key and looks the key of a second one up; then another
session processes that one and commits. -/
def batchUntilConflict (payloads : List EventCreate) (n : Nat) : List (Bool × BatchStep) :=
  [(true, .batch ⟨1000⟩ payloads), (false, .batch ⟨1000⟩ [keyedOffline])] ++
    batchStatements true n 1 1 ++ batchStatements false 13 2 2

/-- The batch meets the conflict, and its call returns the replay. -/
def batchReplay : List (Bool × BatchStep) := batchStatements true 5 3 3

def atConflict : Batching Bool :=
  (batching.machine.run (Client.initial demo)
    (batchUntilConflict [gatewayOffline, keyedOffline] 11)).getD (Client.initial demo)

def afterReplay : Batching Bool := (batching.machine.run atConflict batchReplay).getD atConflict

theorem replay_keeps_work_gateway : ∃ (ses ses' : Session BatchProgram Write) (p : IngestProgram),
    atConflict.sessions true = some ses ∧ afterReplay.sessions true = some ses' ∧
    ses.program.current = some p ∧
    (∃ response, ses'.program.returned = ses.program.returned ++ [⟨p.payload.key?, response⟩] ∧
      response.replay = true) ∧
    ((∃ record now, ses'.writes = ses.writes ++ IdempotencyRecord.replayed record now) ↔
      ses.writes = []) :=
  ⟨_, _, _, rfl, rfl, rfl,
    replay_keeps_work_iff true atConflict afterReplay _ _ _ "pump-101-offline" ⟨3, "0", 3⟩
      (batchStatements true 4 3 3) rfl rfl rfl rfl (of_decide_eq_true rfl) rfl rfl rfl⟩

/-- The batch has answered that event 1 is recorded and an action queued. After the replay it
commits, and neither is stored. -/
theorem batch_lost_to_replay : ∃ v : Batching Bool,
    batching.machine.run (Client.initial demo)
      (batchUntilConflict [gatewayOffline, keyedOffline] 11) = some atConflict ∧
    ((atConflict.sessions true).map fun ses => ses.writes.isEmpty) = some false ∧
    batching.machine.run atConflict batchReplay = some afterReplay ∧
    ((afterReplay.sessions true).map fun ses =>
      (ses.program.current.isNone, ses.writes.length)) = some (true, 2) ∧
    batching.machine.run afterReplay (batchStatements true 1 4 4) = some v ∧
    (v.log.map fun e => (e.1, e.2.response.processed.event.id, e.2.response.replay)) =
      [(false, 2, false), (true, 1, false), (true, 2, true)] ∧
    v.stored.events.rows.map OperationalEvent.id = [2] ∧
    v.stored.actions.rows.map Action.id = [2] :=
  ⟨_, rfl, by decide, rfl, by decide, rfl, by decide, by decide, by decide⟩

end SupportOps.Python
