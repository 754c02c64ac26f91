import SupportOps.Python.IngestSessions
import SupportOps.Python.Seed

/-!
# At most one result for each key

In every interleaving of `process` calls a key is processed by one committed call, every other
committed call with the key replays its result, and the record's `hits` counts the replays. The
unique index makes the insertion of the key's record the one place where calls with the same
key meet: whoever holds the uncommitted record is alone, and once it is committed it carries
its result.
-/
namespace SupportOps.Python

open Library

/-! ## The property at stake -/

section Property

variable {ι : Type}

/-- Committed calls with the key that processed their event. -/
def freshAnswers (log : List (ι × Answer)) (key : String) : Nat :=
  log.countP fun e => e.2.key = some key ∧ e.2.response.replay = false

/-- Committed calls with the key that replayed a result. -/
def replays (log : List (ι × Answer)) (key : String) : Nat :=
  log.countP fun e => e.2.key = some key ∧ e.2.response.replay = true

structure OncePerKey (w : Ingest ι) : Prop where
  fresh : ∀ key, freshAnswers w.log key ≤ 1
  /-- Event id, incident id, action id and reason are the same in all answers. -/
  same : ∀ x ∈ w.log, ∀ y ∈ w.log, ∀ key, x.2.key = some key → y.2.key = some key →
    x.2.response.processed.columns = y.2.response.processed.columns
  hits : ∀ r ∈ w.stored.records.rows, r.hits = replays w.log r.key
  recorded : ∀ x ∈ w.log, ∀ key, x.2.key = some key → ∃ r ∈ w.stored.records.rows, r.key = key

/-- The rows of a result, and no others, are new in `t`. -/
structure Inserted (s t : Store) (o : Processed) : Prop where
  events : t.events.rows = s.events.rows ++ [o.event]
  incidents : t.incidents.rows = s.incidents.rows ++ o.incident.toList
  actions : t.actions.rows = s.actions.rows ++ o.action.toList

/-- What a commit does to the store: a replay adds one hit and one audit row to it, any other
answer comes with its own rows. -/
def AnswerEffect (s t : Store) (a : Answer) : Prop :=
  if a.response.replay then
    ∃ r ∈ s.records.rows, a.key = some r.key ∧ ∃ now, t =
      { s with
        records := s.records.modify r.id _ (IdempotencyRecord.key_hit now)
        audits := s.audits ++ [idempotencyHit r now] }
  else Inserted s t a.response.processed

/-- A step answers one call, or leaves store and answers as they are. -/
def StepEffect (w u : Ingest ι) : Prop :=
  (u.stored = w.stored ∧ u.log = w.log) ∨
  ∃ i a, u.log = w.log ++ [(i, a)] ∧ AnswerEffect w.stored u.stored a

theorem freshAnswers_concat (log : List (ι × Answer)) (i : ι) (a : Answer) (key : String) :
    freshAnswers (log ++ [(i, a)]) key = freshAnswers log key +
      if a.key = some key ∧ a.response.replay = false then 1 else 0 := by
  simp [freshAnswers, List.countP_append, List.countP_singleton]

theorem replays_concat (log : List (ι × Answer)) (i : ι) (a : Answer) (key : String) :
    replays (log ++ [(i, a)]) key = replays log key +
      if a.key = some key ∧ a.response.replay = true then 1 else 0 := by
  simp [replays, List.countP_append, List.countP_singleton]

/-- A key nobody has answered has been neither processed nor replayed. -/
theorem unanswered {log : List (ι × Answer)} {key : String}
    (h : ∀ x ∈ log, x.2.key ≠ some key) : freshAnswers log key = 0 ∧ replays log key = 0 := by
  constructor
  · refine List.countP_eq_zero.mpr fun x hx => ?_
    simp [h x hx]
  · refine List.countP_eq_zero.mpr fun x hx => ?_
    simp [h x hx]

end Property

/-! ## What a commit does to the store -/

/-- The rows of a finished result are stored with it. -/
theorem inserted_of_made {s : Store} {ws : List Write} {o : Processed} (made : MadeResult ws o)
    (unborn : ∀ x ∈ ws, Unborn s x) : Inserted s (s.write ws) o := by
  obtain ⟨event, incident, action, reason⟩ := o
  refine ⟨?_, ?_, ?_⟩
  · rw [events_write, made.events]
    exact rows_insert_fresh _ (unborn _ (made.mem_event (List.mem_singleton_self _)))
  · rw [incidents_write, made.incidents]
    cases incident with
    | none => exact (List.append_nil _).symm
    | some i => exact rows_insert_fresh _ (unborn _ (made.mem_incident (List.mem_singleton_self _)))
  · rw [actions_write, made.actions]
    cases action with
    | none => exact (List.append_nil _).symm
    | some a => exact rows_insert_fresh _ (unborn _ (made.mem_action (List.mem_singleton_self _)))

theorem backed_of_made {s : Store} {ws : List Write} {o : Processed} (made : MadeResult ws o)
    (unborn : ∀ x ∈ ws, Unborn s x) : Backed (s.write ws) o.columns := by
  obtain ⟨events, incidents, actions⟩ := inserted_of_made made unborn
  obtain ⟨event, incident, action, reason⟩ := o
  have stored : ∀ {ρ : Type} [Keyed ρ Nat] (t : Table ρ) (r : ρ), r ∈ t.rows →
      (t.find? (Keyed.key r)).isSome := fun t r h => by rw [t.find?_of_mem h]; rfl
  refine ⟨stored _ event (by simp [events]), ?_, ?_⟩
  · intro k hk
    obtain ⟨i, rfl, rfl⟩ := Option.map_eq_some_iff.mp hk
    have free := unborn _ (made.mem_incident (List.mem_singleton_self i))
    exact ⟨((fresh_iff _).mp free).1, stored _ i (by simp [incidents])⟩
  · intro k hk
    obtain ⟨a, rfl, rfl⟩ := Option.map_eq_some_iff.mp hk
    have free := unborn _ (made.mem_action (List.mem_singleton_self a))
    exact ⟨((fresh_iff _).mp free).1, stored _ a (by simp [actions])⟩

/-- A record inserted and completed in one transaction. -/
theorem rows_of_completed {s : Store} {ws : List Write} {row : IdempotencyRecord}
    {c : ResultColumns} {now : Instant} (absent : fresh s.records row.id = true)
    (filter : ws.filter Write.onRecords = [.insertRecord row, .completeRecord row.id c now]) :
    (s.write ws).records.rows = s.records.rows ++ [row.complete c now] := by
  rw [records_write, filter]
  change ((s.records.insert row).modify row.id _ (IdempotencyRecord.key_complete c now)).rows = _
  rw [Table.rows_modify, rows_insert_fresh _ absent, List.map_append]
  have old : s.records.rows.map
      (fun r => if Keyed.key r = row.id then r.complete c now else r) = s.records.rows := by
    refine (List.map_congr_left fun q hq => ?_).trans (List.map_id _)
    exact if_neg (s.records.find?_eq_none_iff.mp ((fresh_iff _).mp absent).2 q hq)
  rw [old]
  simp

theorem rows_replayed (s : Store) (r : IdempotencyRecord) (now : Instant) :
    (s.write (r.replayed now)).records.rows =
      s.records.rows.map fun q => if q.id = r.id then q.hit now else q := rfl

/-- What an answer does to the records: one hit, one new record with the result, or nothing. -/
inductive RecordsAfter (s t : Store) (a : Answer) : Prop
  | replayed (r : IdempotencyRecord) (now : Instant) (mem : r ∈ s.records.rows)
      (key : a.key = some r.key) (holds : r.Holds a.response.processed.columns)
      (replay : a.response.replay = true) (store : t = s.write (r.replayed now))
  | recorded (r : IdempotencyRecord) (key : a.key = some r.key)
      (holds : r.Holds a.response.processed.columns) (hits : r.hits = 0)
      (replay : a.response.replay = false) (backed : Backed t a.response.processed.columns)
      (vacant : ∀ q ∈ s.records.rows, q.key ≠ r.key)
      (rows : t.records.rows = s.records.rows ++ [r])
  | unkeyed (key : a.key = none) (replay : a.response.replay = false)
      (records : t.records = s.records)

/-- What the commit of a call that has its answer does to the store. -/
theorem committed {s : Store} {p : IngestProgram} {ws : List Write} {a : Response}
    (shape : Shape s p ws) (answer : p.phase = .answer a) (unborn : ∀ x ∈ ws, Unborn s x) :
    RecordsAfter s (s.write ws) ⟨p.payload.key?, a⟩ ∧
      AnswerEffect s (s.write ws) ⟨p.payload.key?, a⟩ := by
  unfold Shape at shape
  rw [answer] at shape
  obtain ⟨o, replay⟩ := a
  cases replay with
  | true =>
    obtain ⟨r, ⟨keyed, c, holds, q, mem, id, key, qholds⟩, columns, now, rfl⟩ := shape
    obtain rfl := holds.eq columns
    -- the row may have been hit since it was read; its id, key and result stay
    have same : r.replayed now = q.replayed now := by
      unfold IdempotencyRecord.replayed idempotencyHit
      rw [id]
    rw [same, keyed, ← key]
    exact ⟨.replayed q now mem rfl qholds rfl rfl, q, mem, rfl, now, rfl⟩
  | false =>
    obtain ⟨completed, made⟩ := shape
    refine ⟨?_, inserted_of_made made unborn⟩
    unfold Completed at completed
    split at completed
    · obtain ⟨unkeyed, filter⟩ := completed
      exact .unkeyed unkeyed rfl (by rw [records_write, filter]; rfl)
    · next id _ =>
      obtain ⟨key, t, t', keyed, filter⟩ := completed
      have waiting : .insertRecord (newRecord id key t) ∈ ws :=
        List.mem_of_mem_filter (by rw [filter]; exact List.mem_cons_self ..)
      obtain ⟨free, vacant⟩ := unborn _ waiting
      exact .recorded ((newRecord id key t).complete o.columns t') keyed
        (IdempotencyRecord.holds_complete _ _ _) rfl rfl (backed_of_made made unborn)
        (fun q hq => recordByKey_eq_none_iff.mp vacant q hq) (rows_of_completed free filter)

/-- Committed records keep their id, their key and their result. -/
def RecordsKept (s t : Store) : Prop :=
  ∀ q ∈ s.records.rows, ∃ q' ∈ t.records.rows, q'.id = q.id ∧ q'.key = q.key ∧
    ∀ c, q.Holds c → q'.Holds c

theorem RecordsAfter.kept {s t : Store} {a : Answer} (h : RecordsAfter s t a) :
    RecordsKept s t := by
  intro q hq
  cases h with
  | replayed r now mem key holds replay store =>
    refine ⟨if q.id = r.id then q.hit now else q, ?_, ?_⟩
    · rw [store, rows_replayed]
      exact List.mem_map_of_mem hq
    · split
      · exact ⟨rfl, rfl, fun c h => ⟨h.event, h.incident, h.action, h.reason⟩⟩
      · exact ⟨rfl, rfl, fun _ h => h⟩
  | recorded r key holds hits replay backed vacant rows =>
    exact ⟨q, by rw [rows]; exact List.mem_append_left _ hq, rfl, rfl, fun _ h => h⟩
  | unkeyed key replay records =>
    exact ⟨q, by rw [records]; exact hq, rfl, rfl, fun _ h => h⟩

/-- What an open session knows of the records outlives the commits of others. -/
theorem Shape.frame {s t : Store} {p : IngestProgram} {ws : List Write} (h : Shape s p ws)
    (kept : RecordsKept s t) : Shape t p ws := by
  have loaded : ∀ {r}, Loaded s p r → Loaded t p r := by
    rintro r ⟨keyed, c, holds, q, mem, id, key, qholds⟩
    obtain ⟨q', mem', id', key', holds'⟩ := kept q mem
    exact ⟨keyed, c, holds, q', mem', id'.trans id, key'.trans key, holds' c qholds⟩
  obtain ⟨settings, payload, claimed, clock, phase⟩ := p
  cases phase with
  | replay r e => exact ⟨loaded h.1, h.2⟩
  | reload r e => exact ⟨loaded h.1, h.2⟩
  | answer a =>
    obtain ⟨o, replay⟩ := a
    cases replay with
    | true =>
      obtain ⟨r, known, rest⟩ := h
      exact ⟨r, loaded known, rest⟩
    | false => exact h
  | _ => exact h

/-! ## Records against answers -/

section Ledger

variable {ι : Type}

/-- A committed record and the answers with its key. -/
structure Accounted (s : Store) (log : List (ι × Answer)) (r : IdempotencyRecord) : Prop where
  answered : ∃ c, r.Holds c ∧ Backed s c ∧
    ∀ x ∈ log, x.2.key = some r.key → x.2.response.processed.columns = c
  fresh : freshAnswers log r.key ≤ 1
  hits : r.hits = replays log r.key

structure Ledger (s : Store) (log : List (ι × Answer)) : Prop where
  keys : ∀ r ∈ s.records.rows, ∀ q ∈ s.records.rows, r.key = q.key → r = q
  accounted : ∀ r ∈ s.records.rows, Accounted s log r
  recorded : ∀ x ∈ log, ∀ key, x.2.key = some key → ∃ r ∈ s.records.rows, r.key = key

theorem Ledger.backed {s : Store} {log : List (ι × Answer)} (h : Ledger s log) :
    RecordsBacked s := by
  intro r hr
  obtain ⟨c, holds, backed, -⟩ := (h.accounted r hr).answered
  exact ⟨c, holds, backed⟩

/-- An answer with another key, or none, leaves the account of a record as it was. -/
theorem Accounted.other {s t : Store} {log : List (ι × Answer)} {r : IdempotencyRecord}
    (h : Accounted s log r) (grows : Grows s t) (i : ι) {a : Answer} (ne : a.key ≠ some r.key) :
    Accounted t (log ++ [(i, a)]) r := by
  obtain ⟨⟨c, holds, backed, all⟩, fresh, hits⟩ := h
  refine ⟨⟨c, holds, backed.grow grows, ?_⟩, ?_, ?_⟩
  · intro x hx key
    rcases List.mem_append.mp hx with old | new
    · exact all x old key
    · obtain rfl := List.mem_singleton.mp new
      exact absurd key ne
  · rw [freshAnswers_concat]
    simpa [ne] using fresh
  · rw [replays_concat]
    simpa [ne] using hits

/-- The one hit of a replay is counted. -/
theorem Accounted.hit {s t : Store} {log : List (ι × Answer)} {r : IdempotencyRecord}
    (h : Accounted s log r) (grows : Grows s t) (i : ι) (now : Instant) {a : Answer}
    (key : a.key = some r.key) (columns : r.Holds a.response.processed.columns)
    (replay : a.response.replay = true) : Accounted t (log ++ [(i, a)]) (r.hit now) := by
  obtain ⟨⟨c, holds, backed, all⟩, fresh, hits⟩ := h
  have same : (r.hit now).Holds c := ⟨holds.event, holds.incident, holds.action, holds.reason⟩
  refine ⟨⟨c, same, backed.grow grows, ?_⟩, ?_, ?_⟩
  · intro x hx same
    rcases List.mem_append.mp hx with old | new
    · exact all x old same
    · obtain rfl := List.mem_singleton.mp new
      exact columns.eq holds
  · rw [freshAnswers_concat]
    simpa [replay, IdempotencyRecord.hit] using fresh
  · rw [replays_concat]
    simp [key, replay, IdempotencyRecord.hit, hits]

theorem Ledger.step {s t : Store} {log : List (ι × Answer)} {i : ι} {a : Answer}
    (h : Ledger s log) (after : RecordsAfter s t a) (grows : Grows s t) :
    Ledger t (log ++ [(i, a)]) := by
  cases after with
  | replayed r now mem key holds replay store =>
    have rows := rows_replayed s r now
    rw [← store] at rows
    have same : ∀ q : IdempotencyRecord, (if q.id = r.id then q.hit now else q).key = q.key := by
      intro q; split <;> rfl
    refine ⟨?_, ?_, ?_⟩
    · intro x hx y hy keys
      rw [rows] at hx hy
      obtain ⟨q, hq, rfl⟩ := List.mem_map.mp hx
      obtain ⟨q', hq', rfl⟩ := List.mem_map.mp hy
      rw [same, same] at keys
      rw [h.keys q hq q' hq' keys]
    · intro x hx
      rw [rows] at hx
      obtain ⟨q, hq, rfl⟩ := List.mem_map.mp hx
      by_cases hit : q.id = r.id
      · obtain rfl := s.records.eq_of_key_eq hq mem hit
        rw [if_pos hit]
        exact (h.accounted q hq).hit grows i now key holds replay
      · rw [if_neg hit]
        refine (h.accounted q hq).other grows i fun e => hit ?_
        rw [key] at e
        rw [h.keys r mem q hq (Option.some.inj e)]
    · intro x hx k hk
      have : ∃ q ∈ s.records.rows, q.key = k := by
        rcases List.mem_append.mp hx with old | new
        · exact h.recorded x old k hk
        · obtain rfl := List.mem_singleton.mp new
          exact ⟨r, mem, Option.some.inj (key.symm.trans hk)⟩
      obtain ⟨q, hq, rfl⟩ := this
      exact ⟨_, by rw [rows]; exact List.mem_map_of_mem hq, same q⟩
  | recorded r key holds hits replay backed vacant rows =>
    have first : ∀ x ∈ log, x.2.key ≠ some r.key := by
      intro x hx e
      obtain ⟨q, hq, same⟩ := h.recorded x hx r.key e
      exact vacant q hq same
    obtain ⟨noFresh, noReplay⟩ := unanswered first
    refine ⟨?_, ?_, ?_⟩
    · intro x hx y hy keys
      rw [rows, List.mem_append, List.mem_singleton] at hx hy
      rcases hx with hx | rfl <;> rcases hy with hy | rfl
      · exact h.keys x hx y hy keys
      · exact absurd keys (vacant x hx)
      · exact absurd keys.symm (vacant y hy)
      · rfl
    · intro x hx
      rw [rows, List.mem_append, List.mem_singleton] at hx
      rcases hx with hx | rfl
      · refine (h.accounted x hx).other grows i fun e => ?_
        rw [key] at e
        exact vacant x hx (Option.some.inj e).symm
      · refine ⟨⟨_, holds, backed, ?_⟩, ?_, ?_⟩
        · intro y hy same
          rcases List.mem_append.mp hy with old | new
          · exact absurd same (first y old)
          · obtain rfl := List.mem_singleton.mp new
            rfl
        · simp [freshAnswers_concat, noFresh, key, replay]
        · simp [replays_concat, noReplay, replay, hits]
    · intro x hx k hk
      rw [rows]
      rcases List.mem_append.mp hx with old | new
      · obtain ⟨q, hq, same⟩ := h.recorded x old k hk
        exact ⟨q, List.mem_append_left _ hq, same⟩
      · obtain rfl := List.mem_singleton.mp new
        exact ⟨r, by simp, Option.some.inj (key.symm.trans hk)⟩
  | unkeyed key replay records =>
    refine ⟨by rw [records]; exact h.keys, ?_, ?_⟩
    · intro x hx
      rw [records] at hx
      exact (h.accounted x hx).other grows i (by rw [key]; exact Option.some_ne_none _ |>.symm)
    · intro x hx k hk
      rw [records]
      rcases List.mem_append.mp hx with old | new
      · exact h.recorded x old k hk
      · obtain rfl := List.mem_singleton.mp new
        rw [key] at hk; cases hk

theorem Ledger.oncePerKey {w : Ingest ι} (h : Ledger w.stored w.log) : OncePerKey w := by
  refine ⟨?_, ?_, fun r hr => (h.accounted r hr).hits, h.recorded⟩
  · intro key
    by_cases known : ∃ x ∈ w.log, x.2.key = some key
    · obtain ⟨x, hx, hkx⟩ := known
      obtain ⟨r, hr, rfl⟩ := h.recorded x hx key hkx
      exact (h.accounted r hr).fresh
    · have never : ∀ x ∈ w.log, x.2.key ≠ some key := fun x hx hkx => known ⟨x, hx, hkx⟩
      rw [(unanswered never).1]
      exact Nat.zero_le _
  · intro x hx y hy key hkx hky
    obtain ⟨r, hr, rfl⟩ := h.recorded x hx key hkx
    obtain ⟨c, -, -, all⟩ := (h.accounted r hr).answered
    exact (all x hx hkx).trans (all y hy hky).symm

end Ledger

/-! ## Every interleaving -/

section Interleavings

variable {ι : Type} [DecidableEq ι]

/-- The invariant of all sessions. -/
structure Consistent (w : Ingest ι) : Prop where
  locks : ingestion.LocksHeld w
  unborn : ∀ i ses, w.sessions i = some ses → ∀ x ∈ ses.writes, Unborn w.stored x
  shape : ∀ i ses, w.sessions i = some ses → Shape w.stored ses.program ses.writes
  ledger : Ledger w.stored w.log

theorem shape_openCall {l : IngestStep} {s : Store} {p : IngestProgram}
    (h : openCall l s = some p) : Shape s p [] := by
  cases l with
  | statement tick => cases h
  | call settings payload =>
    cases h
    cases key : payload.key? with
    | none => exact ⟨⟨key, rfl⟩, ⟨rfl, rfl, rfl⟩⟩
    | some k => exact ⟨key, rfl, rfl⟩

/-- Each step keeps the invariant, and answers at most one call. -/
theorem Consistent.step {w u : Ingest ι} {i : ι} {l : IngestStep} (h : Consistent w)
    (step : ingestion.Stepped w i l u) : Consistent u ∧ StepEffect w u := by
  have locks := ingestion.locksHeld_step h.locks step
  cases step with
  | begin p closed start =>
    refine ⟨⟨locks, ?_, ?_, h.ledger⟩, .inl ⟨rfl, rfl⟩⟩
    · intro j sj hj
      rcases Client.sessions_begin hj with ⟨-, rfl⟩ | ⟨-, old⟩
      · exact fun x hx => absurd hx List.not_mem_nil
      · exact h.unborn j sj old
    · intro j sj hj
      rcases Client.sessions_begin hj with ⟨-, rfl⟩ | ⟨-, old⟩
      · exact shape_openCall start
      · exact h.shape j sj old
  | next ses p ws es here exec free =>
    obtain ⟨tick, rfl, statement⟩ := exec_statement exec
    obtain ⟨rfl, shape, unborn⟩ := shape_next h.ledger.backed (h.shape i ses here) statement
    refine ⟨⟨locks, ?_, ?_, ?_⟩, .inl ⟨rfl, List.append_nil _⟩⟩
    · intro j sj hj
      rcases Client.sessions_advance ingestion hj with ⟨-, rfl⟩ | ⟨-, old⟩
      · intro x hx
        rcases List.mem_append.mp hx with old | new
        · exact h.unborn i ses here x old
        · exact unborn x new
      · exact h.unborn j sj old
    · intro j sj hj
      rcases Client.sessions_advance ingestion hj with ⟨-, rfl⟩ | ⟨-, old⟩
      · exact shape
      · exact h.shape j sj old
    · simpa [Client.advance] using h.ledger
  | restart ses p here exec =>
    obtain ⟨tick, rfl, statement⟩ := exec_statement exec
    obtain ⟨key, phase, rfl⟩ := restart_cases statement
    have asking : Asking ses.program key ses.writes := by
      have := h.shape i ses here
      unfold Shape at this
      rwa [phase] at this
    refine ⟨⟨locks, ?_, ?_, h.ledger⟩, .inl ⟨rfl, rfl⟩⟩
    · intro j sj hj
      rcases Client.sessions_restart hj with ⟨-, rfl⟩ | ⟨-, old⟩
      · exact fun x hx => absurd hx List.not_mem_nil
      · exact h.unborn j sj old
    · intro j sj hj
      rcases Client.sessions_restart hj with ⟨-, rfl⟩ | ⟨-, old⟩
      · exact ⟨asking.1, asking.2.1, rfl⟩
      · exact h.shape j sj old
  | commit ses es here exec =>
    obtain ⟨tick, rfl, statement⟩ := exec_statement exec
    obtain ⟨a, phase, rfl⟩ := commit_cases statement
    obtain ⟨after, effect⟩ := committed (h.shape i ses here) phase (h.unborn i ses here)
    refine ⟨⟨locks, ?_, ?_, ?_⟩, .inr ⟨i, _, rfl, effect⟩⟩
    · intro j sj hj x hx
      obtain ⟨ne, old⟩ := Client.sessions_commit ingestion hj
      refine (h.unborn j sj old x hx).write fun y hy k hkx hky => ne ?_
      exact ingestion.eq_of_common_lock h.locks old here hx hy hkx hky
    · intro j sj hj
      obtain ⟨ne, old⟩ := Client.sessions_commit ingestion hj
      exact (h.shape j sj old).frame after.kept
    · exact h.ledger.step after (grows_write _ _)
  | rollback ses es here exec =>
    obtain ⟨tick, rfl, statement⟩ := exec_statement exec
    obtain rfl := rollback_cases statement
    refine ⟨⟨locks, ?_, ?_, ?_⟩, .inl ⟨rfl, List.append_nil _⟩⟩
    · intro j sj hj
      exact h.unborn j sj (Client.sessions_rollback hj).2
    · intro j sj hj
      exact h.shape j sj (Client.sessions_rollback hj).2
    · simpa [Client.rollback] using h.ledger

omit [DecidableEq ι] in
/-- Without records and sessions nothing is owed. -/
theorem Consistent.initial {s : Store} (none : s.records.rows = []) :
    Consistent (Client.initial s : Ingest ι) where
  locks := ingestion.locksHeld_initial s
  unborn i ses h := by cases h
  shape i ses h := by cases h
  ledger := by
    refine ⟨?_, ?_, ?_⟩
    · intro r hr
      change r ∈ s.records.rows at hr
      rw [none] at hr; cases hr
    · intro r hr
      change r ∈ s.records.rows at hr
      rw [none] at hr; cases hr
    · intro x hx
      cases hx

/-- In every interleaving of calls each key is processed once, all its answers agree, its hits
count its replays, and every step changes the store as its answer says. -/
theorem oncePerKey_and_stepEffect (s : Store) (ls : List (ι × IngestStep)) (w : Ingest ι)
    (run : ingestion.machine.run (Client.initial { s with records := .empty }) ls = some w) :
    OncePerKey w ∧ ∀ il u, ingestion.machine.step w il = some u → StepEffect w u := by
  have consistent : Consistent w :=
    ingestion.invariant (fun _ _ _ _ h step => (h.step step).1) (Consistent.initial rfl) run
  exact ⟨consistent.ledger.oncePerKey, fun il u step =>
    (consistent.step (ingestion.stepped_of_step step)).2⟩

end Interleavings

/-! ## Two calls with one key -/

/-- Both calls look the key up before either inserts its record; the second polls and replays. -/
theorem oncePerKey_keyedOffline : ∃ w : Ingest Bool,
    ingestion.machine.run (Client.initial demo)
      ([(false, .call ⟨1000⟩ keyedOffline), (true, .call ⟨1000⟩ keyedOffline)] ++
        statements true 1 0 2 ++ statements false 11 0 1 ++ statements true 5 1 2) = some w ∧
    freshAnswers w.log "pump-101-offline" = 1 ∧ replays w.log "pump-101-offline" = 1 ∧
    OncePerKey w ∧ ∀ il u, ingestion.machine.step w il = some u → StepEffect w u :=
  ⟨_, rfl, by decide, by decide, oncePerKey_and_stepEffect demo
    ([(false, .call ⟨1000⟩ keyedOffline), (true, .call ⟨1000⟩ keyedOffline)] ++
      statements true 1 0 2 ++ statements false 11 0 1 ++ statements true 5 1 2) _ rfl⟩

end SupportOps.Python
