import SupportOps.Library.Savepoints
import SupportOps.Python.Records
import SupportOps.Python.Seed

/-!
# Requests on SQLite

`POST /events` and `POST /assets`, one request after another, each on a connection of its own
that `get_session` commits or rolls back. The record of a key is inserted in a savepoint before
anything else has changed a row. `sqlite3` sends `BEGIN` only before a change, so there the
savepoint is the transaction and its release commits the record by itself.
-/
namespace SupportOps.Python

open Library

/-- The end of a request: `get_session` commits, or rolls back when `process` raised. -/
def endRequest (replay : Bool) (c : Connection Store) :
    Except ProcessError (Processed × Store) → Except ProcessError Response × Store
  | .ok (o, t) => (.ok ⟨o, replay⟩, (c.change fun _ => t).commit.stored)
  | .error e => (.error e, c.rollback.stored)

/-- `_process_with_idempotency` on a connection. -/
def serveWithIdempotency (b : Begin) (settings : Settings) (env : Surroundings) (p : EventBody)
    (key : String) (c : Connection Store) : Except ProcessError Response × Store :=
  match completedRecord c.view key with
  | some (record, eventId) =>
    endRequest true c (replayIdempotentRecord env.now record eventId c.view)
  | none =>
    let nested := c.savepoint b
    if (nested.view.recordByKey key).isSome then
      -- the INSERT violates the unique index
      let c := nested.rollbackTo.rollback
      endRequest true c (waitForIdempotentResult env.now key c.view 100)
    else
      let record := newRecord nested.view.records.nextId key env.now
      let c := (nested.change fun s => s.write [.insertRecord record]).release
      endRequest false c ((processNew settings env p c.view).map fun (o, t) =>
        (o, t.write [.completeRecord record.id o.columns env.now]))

/-- `POST /events`: the answer, and what is stored afterwards. -/
def serve (b : Begin) (call : Call) (s : Store) : Except ProcessError Response × Store :=
  let p := call.payload.toEventBody
  match p.key? with
  | some key => serveWithIdempotency b call.settings call.env p key (.idle s)
  | none =>
    endRequest false (.idle s) (processNew call.settings call.env p s)

/-- `POST /assets`; a taken external id is answered with a conflict. -/
def createAsset (externalId : String) (s : Store) : Store :=
  if (s.assetByExternalId externalId).isSome then s
  else { s with assets := s.assets.insert ⟨s.assets.nextId, externalId, "registered"⟩ }

inductive Request where
  | event (call : Call)
  | asset (externalId : String)

def requests (b : Begin) : Machine Store Request where
  step s
    | .event call => some (serve b call s).2
    | .asset externalId => some (createAsset externalId s)

/-! ## What a request leaves behind -/

/-- A key without a record, for an asset nobody has registered. -/
def Poisons (p : EventBody) (s : Store) (key : String) : Prop :=
  p.key? = some key ∧ s.recordByKey key = none ∧ s.assetByExternalId p.assetExternalId = none

@[simp] theorem endRequest_ok (replay : Bool) (c : Connection Store) (ot : Processed × Store) :
    endRequest replay c (.ok ot) = (.ok ⟨ot.1, replay⟩, ot.2) := by simp [endRequest]

@[simp] theorem endRequest_error (replay : Bool) (c : Connection Store) (e : ProcessError) :
    endRequest replay c (.error e) = (.error e, c.stored) := by simp [endRequest]

/-- A request that processes its event, up to the record it may leave when it raises. -/
theorem serve_new {b : Begin} {call : Call} {s : Store} {key : String}
    (keyed : call.payload.key? = some key) (vacant : s.recordByKey key = none) :
    serve b call s =
      match processNew call.settings call.env call.payload.toEventBody
        (s.write [.insertRecord (newRecord s.records.nextId key call.env.now)]) with
      | .ok (o, t) => (.ok ⟨o, false⟩,
          t.write [.completeRecord s.records.nextId o.columns call.env.now])
      | .error e => (.error e, if b = .eager then s
          else s.write [.insertRecord (newRecord s.records.nextId key call.env.now)]) := by
  have pending : completedRecord s key = none := by simp [completedRecord, vacant]
  simp only [serve, keyed, serveWithIdempotency, Connection.view_idle, pending,
    Connection.view_savepoint, vacant, Option.isSome_none, Bool.false_eq_true, if_false,
    Connection.view_release, Connection.view_change]
  cases processNew call.settings call.env call.payload.toEventBody
      (s.write [.insertRecord (newRecord s.records.nextId key call.env.now)]) with
  | ok ot => simp only [Except.map, endRequest_ok]; rfl
  | error e => simp only [Except.map, endRequest_error, Connection.stored_release_savepoint]

/-- A request that does not poison its key is one atomic call of `process`. -/
theorem serve_eq {b : Begin} {call : Call} {s : Store}
    (clean : b = .eager ∨ ∀ key, ¬ Poisons call.payload.toEventBody s key) :
    serve b call s = ((process call.settings call.env call.payload.toEventBody s).map Prod.fst,
      processed call.settings call.env call.payload.toEventBody s) := by
  cases keyed : call.payload.key? with
  | none =>
    simp only [serve, process, processed, keyed]
    cases processNew call.settings call.env call.payload.toEventBody s <;>
      simp [Except.map]
  | some key =>
    cases found : s.recordByKey key with
    | none =>
      have pending : completedRecord s key = none := by simp [completedRecord, found]
      rw [serve_new keyed found]
      simp only [process, processed, keyed, processWithIdempotency, pending, found,
        Option.isSome_none, Bool.false_eq_true, if_false]
      cases new : processNew call.settings call.env call.payload.toEventBody
          (s.write [.insertRecord (newRecord s.records.nextId key call.env.now)]) with
      | ok ot => rfl
      | error e =>
        simp only [Except.map]
        rcases clean with eager | clean
        · rw [if_pos eager]
        · cases known : s.assetByExternalId call.payload.assetExternalId with
          | none => exact absurd ⟨keyed, found, known⟩ (clean key)
          | some asset =>
            obtain ⟨o, t, ok⟩ := processNew_isOk call.settings call.env
              (p := call.payload.toEventBody)
              (s := s.write [.insertRecord (newRecord s.records.nextId key call.env.now)]) known
            rw [new] at ok; cases ok
    | some record =>
      simp only [serve, process, processed, keyed, processWithIdempotency,
        serveWithIdempotency, Connection.view_idle, Connection.view_savepoint, found,
        Option.isSome_some, if_true, Connection.view_rollback, Connection.stored_rollbackTo,
        Connection.stored_savepoint, Connection.stored_idle]
      cases completedRecord s key with
      | none =>
        cases waitForIdempotentResult call.env.now key s 100 <;> simp [Except.map]
      | some completed =>
        obtain ⟨record, eventId⟩ := completed
        dsimp only
        cases replayIdempotentRecord call.env.now record eventId s <;> simp [Except.map]

/-- A request that poisons its key raises, and leaves the record without a result. -/
theorem serve_poisons {call : Call} {s : Store} {key : String}
    (h : Poisons call.payload.toEventBody s key) :
    serve .beforeChange call s = (.error (.unknownAsset call.payload.assetExternalId),
      s.write [.insertRecord (newRecord s.records.nextId key call.env.now)]) := by
  obtain ⟨keyed, vacant, unknown⟩ := h
  have unknown : (s.write [.insertRecord (newRecord s.records.nextId key
      call.env.now)]).assetByExternalId call.payload.assetExternalId = none := unknown
  rw [serve_new keyed vacant, processNew_unknown unknown]
  rfl

/-- Only the driver that begins before a change lets a request poison a key. -/
theorem poisons_of_unclean {b : Begin} {call : Call} {s : Store}
    (unclean : ¬(b = .eager ∨ ∀ key, ¬ Poisons call.payload.toEventBody s key)) :
    b = .beforeChange ∧ ∃ key, Poisons call.payload.toEventBody s key := by
  obtain ⟨change, poisons⟩ := not_or.mp unclean
  refine ⟨?_, not_forall_not.mp poisons⟩
  cases b with
  | eager => exact absurd rfl change
  | beforeChange => rfl

/-- A request leaves what `process` leaves, or a record without a result for a new key. -/
theorem serve_stored (b : Begin) (call : Call) (s : Store) :
    (serve b call s).2 = processed call.settings call.env call.payload.toEventBody s ∨
    ∃ key, s.recordByKey key = none ∧ (serve b call s).2 =
      s.write [.insertRecord (newRecord s.records.nextId key call.env.now)] := by
  by_cases clean : b = .eager ∨ ∀ key, ¬ Poisons call.payload.toEventBody s key
  · exact .inl (by rw [serve_eq clean])
  · obtain ⟨rfl, key, poisons⟩ := poisons_of_unclean clean
    exact .inr ⟨key, poisons.2.1, by rw [serve_poisons poisons]⟩

/-! ## Runs of requests -/

/-- The asset is registered, or the key is answered already. -/
def KnownOrAnswered (s : Store) : Request → Prop
  | .event call => ∀ key ∈ call.payload.key?,
    (completedRecord s key).isSome ∨
      (s.assetByExternalId call.payload.assetExternalId).isSome
  | .asset _ => True

theorem not_poisons_of_known {s : Store} {call : Call} (known : KnownOrAnswered s (.event call))
    (key : String) : ¬ Poisons call.payload.toEventBody s key := by
  rintro ⟨keyed, vacant, unknown⟩
  rcases known key keyed with answered | registered
  · simp [completedRecord, vacant] at answered
  · simp [unknown] at registered

/-- A request with a key that raises leaves no record of the key without a result, and one for a
registered asset is answered, by a fresh result or a replay. -/
def NeverPoisons (b : Begin) (s : Store) : Request → Prop
  | .event call => ∀ key ∈ call.payload.key?,
    (∀ e, (serve b call s).1 = .error e →
      ∀ r ∈ (serve b call s).2.records.rows, r.key = key → r.eventId ≠ none) ∧
    ((s.assetByExternalId call.payload.assetExternalId).isSome →
      ∃ r, (serve b call s).1 = .ok r)
  | .asset _ => True

theorem RecordsComplete.createAsset {s : Store} (h : RecordsComplete s) (externalId : String) :
    RecordsComplete (createAsset externalId s) := by
  unfold Python.createAsset; split <;> exact h

/-- Where every record holds a result, a request for a registered asset is answered, and so is
one whose key is answered already. -/
theorem process_isOk {s : Store} (complete : RecordsComplete s) {call : Call} {key : String}
    (keyed : call.payload.key? = some key)
    (h : (completedRecord s key).isSome ∨
      (s.assetByExternalId call.payload.assetExternalId).isSome) :
    ∃ r t, process call.settings call.env call.payload.toEventBody s = .ok (r, t) := by
  cases found : s.recordByKey key with
  | some record =>
    obtain ⟨k, event, completed, stored⟩ := complete.answered found
    exact ⟨_, _, process_replayed keyed completed stored⟩
  | none =>
    have pending : completedRecord s key = none := by simp [completedRecord, found]
    rw [pending] at h
    obtain ⟨asset, known⟩ := Option.isSome_iff_exists.mp (h.resolve_left (by simp))
    refine process_isOk_of_vacant call.settings call.env (fun k hk => ?_) known
    cases keyed.symm.trans hk
    exact found

/-- In a store without unfinished records, the requests that leave none are those for a
registered asset and those already answered. -/
theorem neverPoisons_iff_knownOrAnswered {s : Store} (complete : RecordsComplete s)
    (q : Request) : NeverPoisons .beforeChange s q ↔ KnownOrAnswered s q := by
  cases q with
  | asset externalId => exact Iff.rfl
  | event call =>
    constructor
    · intro safe key keyed
      by_contra stuck
      obtain ⟨unanswered, unknown⟩ := not_or.mp stuck
      have vacant : s.recordByKey key = none := by
        by_contra taken
        obtain ⟨record, found⟩ := Option.ne_none_iff_exists'.mp taken
        obtain ⟨k, -, completed, -⟩ := complete.answered found
        exact unanswered (by simp [completed])
      have poisons : Poisons call.payload.toEventBody s key :=
        ⟨keyed, vacant, by simpa using unknown⟩
      have left := (safe key keyed).1 _ (by rw [serve_poisons poisons])
        (newRecord s.records.nextId key call.env.now)
        (by rw [serve_poisons poisons]; exact s.records.mem_insert_self s.records.find?_nextId) rfl
      exact left rfl
    · intro known key keyed
      obtain ⟨r, t, ok⟩ := process_isOk complete keyed (known key keyed)
      rw [serve_eq (Or.inr (not_poisons_of_known known)), ok]
      exact ⟨fun e raised => by simp [Except.map] at raised, fun _ => ⟨r, rfl⟩⟩

theorem RecordsComplete.request {b : Begin} {s t : Store} {q : Request} (h : RecordsComplete s)
    (clean : b = .eager ∨ KnownOrAnswered s q) (step : (requests b).step s q = some t) :
    RecordsComplete t := by
  cases q with
  | asset externalId => cases step; exact h.createAsset externalId
  | event call =>
    cases step
    rw [serve_eq (clean.imp_right not_poisons_of_known)]
    exact h.processed call

/-- On SQLite a run of requests never poisons a key exactly when each request with a key either
finds its asset registered or its key answered. -/
theorem neverPoisons_iff (assets : Table Asset) (rules : Table AutomationRule)
    (qs : List Request) :
    (requests .beforeChange).Along (NeverPoisons .beforeChange) (Store.seeded assets rules) qs ↔
      (requests .beforeChange).Along KnownOrAnswered (Store.seeded assets rules) qs :=
  (requests .beforeChange).along_iff_of_invariant
    (fun _ q complete => neverPoisons_iff_knownOrAnswered complete q)
    (fun _ _ _ complete known step => complete.request (Or.inr known) step)
    (fun _ hr => by cases hr) qs

/-- With a driver that begins its transaction before the savepoint, no run poisons a key. -/
theorem neverPoisons_of_eager (assets : Table Asset) (rules : Table AutomationRule)
    (qs : List Request) :
    (requests .eager).Along (NeverPoisons .eager) (Store.seeded assets rules) qs := by
  refine ((requests .eager).along_iff_of_invariant (H := fun _ _ => True)
    (fun s q complete => iff_true_intro ?_)
    (fun _ _ _ complete _ step => RecordsComplete.request complete (Or.inl rfl) step)
    (fun _ hr => by cases hr) qs).mpr ((requests .eager).along_true _ _)
  cases q with
  | asset externalId => trivial
  | event call =>
    intro key keyed
    rw [serve_eq (Or.inl rfl)]
    refine ⟨?_, ?_⟩
    · intro e raised r hr same
      obtain ⟨k, hk, -⟩ := (RecordsComplete.processed complete call) r hr
      simp [hk]
    · intro registered
      obtain ⟨r, t, ok⟩ := process_isOk complete keyed (Or.inr registered)
      exact ⟨r, by rw [ok]; rfl⟩

/-! ## A valve registered too late -/

/-- An event with a key for an asset the demo data does not know. -/
def valveOffline : EventCreate where
  assetExternalId := "VALVE-9"
  source := "monitor"
  category := "offline"
  severity := 90
  message := "No heartbeat"
  idempotencyKey := some "valve-9-offline"
  accepted := by decide

/-- The first request finds no asset and raises; the asset is registered; the second request
with the key waits for a result that nobody will commit. -/
theorem poisoned_valveOffline : ∃ s t : Store,
    serve .beforeChange ⟨⟨1000⟩, ⟨0, "0"⟩, valveOffline⟩ demo =
      (.error (.unknownAsset "VALVE-9"), s) ∧
    s.records.rows.map (fun r => (r.key, r.eventId)) = [("valve-9-offline", none)] ∧
    createAsset "VALVE-9" s = t ∧
    (serve .beforeChange ⟨⟨1000⟩, ⟨1, "1"⟩, valveOffline⟩ t).1 = .error .notCommitted ∧
    ¬ (requests .beforeChange).Along (NeverPoisons .beforeChange) demo
      [.event ⟨⟨1000⟩, ⟨0, "0"⟩, valveOffline⟩] := by
  refine ⟨_, _, rfl, by decide, rfl, by decide, ?_⟩
  rintro ⟨safe, -⟩
  exact (safe "valve-9-offline" rfl).1 _ rfl _ (List.mem_singleton_self _) rfl rfl

end SupportOps.Python
