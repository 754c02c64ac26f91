import SupportOps.Python.Ingestion

/-!
# What an ingestion session has written

For each statement a call can be at, the rows it has inserted so far and what it knows of the
committed records. A row that waits for its commit stays unknown to the store, since every
write that could make it known takes one of its locks.
-/
namespace SupportOps.Python

open Library

/-! ## Records and results -/

/-- The record carries the result. -/
structure IdempotencyRecord.Holds (r : IdempotencyRecord) (c : ResultColumns) : Prop where
  event : r.eventId = some c.eventId
  incident : r.incidentId = c.incidentId
  action : r.actionId = c.actionId
  reason : r.skippedReason = c.skippedReason

theorem IdempotencyRecord.Holds.eq {r : IdempotencyRecord} {c d : ResultColumns} (hc : r.Holds c)
    (hd : r.Holds d) : c = d := by
  cases c; cases d
  have event := hc.event.symm.trans hd.event
  have incident := hc.incident.symm.trans hd.incident
  have action := hc.action.symm.trans hd.action
  have reason := hc.reason.symm.trans hd.reason
  simp_all

theorem IdempotencyRecord.holds_complete (r : IdempotencyRecord) (c : ResultColumns)
    (now : Instant) : (r.complete c now).Holds c := ⟨rfl, rfl, rfl, rfl⟩

/-- The rows of a result are stored. -/
structure Backed (s : Store) (c : ResultColumns) : Prop where
  event : (s.events.find? c.eventId).isSome
  incident : ∀ k ∈ c.incidentId, k ≠ 0 ∧ (s.incidents.find? k).isSome
  action : ∀ k ∈ c.actionId, k ≠ 0 ∧ (s.actions.find? k).isSome

theorem Backed.grow {s t : Store} {c : ResultColumns} (h : Backed s c) (grows : Grows s t) :
    Backed t c :=
  ⟨grows.events _ h.event,
    fun k hk => ⟨(h.incident k hk).1, grows.incidents k (h.incident k hk).2⟩,
    fun k hk => ⟨(h.action k hk).1, grows.actions k (h.action k hk).2⟩⟩

/-- A stored row reloaded by its id gives the id back. -/
theorem reload_id {ρ : Type} [Keyed ρ Nat] (t : Table ρ) {id : Option Nat}
    (h : ∀ k ∈ id, k ≠ 0 ∧ (t.find? k).isSome) :
    ((truthy id).bind t.find?).map Keyed.key = id := by
  cases id with
  | none => rfl
  | some k =>
    obtain ⟨positive, stored⟩ := h k rfl
    obtain ⟨r, hr⟩ := Option.isSome_iff_exists.mp stored
    have true_ : truthy (some k) = some k := by simp [truthy, Option.filter, positive]
    rw [true_, Option.bind_some, hr, Option.map_some, t.key_of_find? hr]

/-- A replay returns the ids the record holds. -/
theorem columns_of_result {r : IdempotencyRecord} {c : ResultColumns} {s : Store}
    {event : OperationalEvent} (holds : r.Holds c) (backed : Backed s c)
    (found : s.events.find? c.eventId = some event) : (r.result event s).columns = c := by
  have incident := reload_id s.incidents backed.incident
  have action := reload_id s.actions backed.action
  have id : event.id = c.eventId := s.events.key_of_find? found
  cases c
  simp only [Processed.columns, IdempotencyRecord.result, holds.incident, holds.action,
    holds.reason, ResultColumns.mk.injEq]
  exact ⟨id, incident, action, trivial⟩

/-! ## Rows that only one session knows -/

/-- The id of a row that waits to be inserted is free, and so is its key. -/
def Unborn (s : Store) : Write → Prop
  | .insertEvent row => fresh s.events row.id = true
  | .insertIncident row => fresh s.incidents row.id = true
  | .insertAction row => fresh s.actions row.id = true
  | .insertRecord row => fresh s.records row.id = true ∧ s.recordByKey row.key = none
  | _ => True

theorem recordByKey_eq_none_iff {s : Store} {key : String} :
    s.recordByKey key = none ↔ ∀ r ∈ s.records.rows, r.key ≠ key := by
  simp [Store.recordByKey]

theorem recordByKey_modify_eq_none {s t : Store} {key : String} {j : Nat}
    (f : IdempotencyRecord → IdempotencyRecord) (hf : ∀ r, Keyed.key (f r) = Keyed.key r)
    (keeps : ∀ r, (f r).key = r.key) (records : t.records = s.records.modify j f hf)
    (h : s.recordByKey key = none) : t.recordByKey key = none := by
  rw [recordByKey_eq_none_iff] at h ⊢
  intro r hr
  rw [records] at hr
  obtain ⟨q, hq, rfl⟩ := s.records.mem_modify.mp hr
  split
  · rw [keeps]; exact h q hq
  · exact h q hq

/-- A write that shares no lock with the waiting row leaves it unborn. -/
theorem Unborn.apply {s : Store} {x y : Write} (h : Unborn s x)
    (apart : ∀ k ∈ x.locks, k ∉ y.locks) : Unborn (y.apply s) x := by
  cases x with
  | insertEvent row =>
    unfold Unborn at h ⊢
    rw [Write.apply_events]
    cases y with
    | insertEvent other =>
      exact fresh_insert _ h fun e =>
        apart (.event row.id) (by simp [Write.locks]) (by simp [Write.locks, ← e])
    | _ => exact h
  | insertIncident row =>
    unfold Unborn at h ⊢
    rw [Write.apply_incidents]
    cases y with
    | insertIncident other =>
      exact fresh_insert _ h fun e =>
        apart (.incident row.id) (by simp [Write.locks]) (by simp [Write.locks, ← e])
    | _ => exact h
  | insertAction row =>
    unfold Unborn at h ⊢
    rw [Write.apply_actions]
    cases y with
    | insertAction other =>
      exact fresh_insert _ h fun e =>
        apart (.action row.id) (by simp [Write.locks]) (by simp [Write.locks, ← e])
    | updateAction u => exact fresh_modify _ h _ _ _
    | _ => exact h
  | insertRecord row =>
    obtain ⟨id, key⟩ := h
    unfold Unborn
    cases y with
    | insertRecord other =>
      refine ⟨fresh_insert _ id fun e =>
        apart (.record row.id) (by simp [Write.locks]) (by simp [Write.locks, ← e]), ?_⟩
      rw [recordByKey_eq_none_iff] at key ⊢
      intro r hr
      rcases s.records.mem_of_mem_insert hr with old | rfl
      · exact key r old
      · intro e
        exact apart (.recordKey row.key) (by simp [Write.locks]) (by simp [Write.locks, ← e])
    | completeRecord j c now =>
      exact ⟨fresh_modify _ id j _ (IdempotencyRecord.key_complete c now),
        recordByKey_modify_eq_none (fun r => r.complete c now)
          (IdempotencyRecord.key_complete c now) (fun _ => rfl) rfl key⟩
    | hitRecord j now =>
      exact ⟨fresh_modify _ id j _ (IdempotencyRecord.key_hit now),
        recordByKey_modify_eq_none (fun r => r.hit now) (IdempotencyRecord.key_hit now)
          (fun _ => rfl) rfl key⟩
    | _ => exact ⟨id, key⟩
  | _ => trivial

theorem Unborn.write {s : Store} {x : Write} {ws : List Write} (h : Unborn s x)
    (apart : ∀ y ∈ ws, ∀ k ∈ x.locks, k ∉ y.locks) : Unborn (s.write ws) x := by
  induction ws generalizing s with
  | nil => exact h
  | cons y ws ih =>
    exact ih (h.apply (apart y (List.mem_cons_self ..)))
      fun z hz => apart z (List.mem_cons_of_mem _ hz)

/-! ## Statements by the table they write -/

/-- Statements on the events table. -/
def Write.onEvents : Write → Bool
  | .insertEvent _ => true
  | _ => false

/-- Statements on the incidents table. -/
def Write.onIncidents : Write → Bool
  | .insertIncident _ => true
  | _ => false

/-- Statements on the actions table. -/
def Write.onActions : Write → Bool
  | .insertAction _ | .updateAction _ => true
  | _ => false

/-- Statements on the records table. -/
def Write.onRecords : Write → Bool
  | .insertRecord _ | .completeRecord _ _ _ | .hitRecord _ _ => true
  | _ => false

/-- A table after a transaction depends on the statements that write it. -/
theorem write_filter {α : Type} (table : Store → α) (on : Write → Bool)
    (off : ∀ (w : Write) s, on w = false → table (w.apply s) = table s)
    (congr : ∀ (w : Write) s t, table s = table t → table (w.apply s) = table (w.apply t))
    (ws : List Write) {s t : Store} (h : table s = table t) :
    table (s.write ws) = table (t.write (ws.filter on)) := by
  induction ws generalizing s t with
  | nil => exact h
  | cons w ws ih =>
    rw [List.filter_cons]
    cases kind : on w with
    | true => exact ih (congr w s t h)
    | false => exact ih ((off w s kind).trans h)

theorem events_write (s : Store) (ws : List Write) :
    (s.write ws).events = (s.write (ws.filter Write.onEvents)).events := by
  refine write_filter Store.events _ ?_ ?_ ws rfl
  · intro w _ off
    cases w <;> first | rfl | cases off
  · intro w _ _ same
    rw [Write.apply_events, Write.apply_events, same]

theorem incidents_write (s : Store) (ws : List Write) :
    (s.write ws).incidents = (s.write (ws.filter Write.onIncidents)).incidents := by
  refine write_filter Store.incidents _ ?_ ?_ ws rfl
  · intro w _ off
    cases w <;> first | rfl | cases off
  · intro w _ _ same
    rw [Write.apply_incidents, Write.apply_incidents, same]

theorem actions_write (s : Store) (ws : List Write) :
    (s.write ws).actions = (s.write (ws.filter Write.onActions)).actions := by
  refine write_filter Store.actions _ ?_ ?_ ws rfl
  · intro w _ off
    cases w <;> first | rfl | cases off
  · intro w _ _ same
    rw [Write.apply_actions, Write.apply_actions, same]

theorem records_write (s : Store) (ws : List Write) :
    (s.write ws).records = (s.write (ws.filter Write.onRecords)).records := by
  refine write_filter Store.records _ ?_ ?_ ws rfl
  · intro w _ off
    cases w <;> first | rfl | cases off
  · intro w _ _ same
    rw [Write.apply_records, Write.apply_records, same]

/-! ## What a session has written, by phase -/

/-- The rows a session has inserted. -/
structure Made (ws : List Write) (events : List OperationalEvent) (incidents : List Incident)
    (actions : List Action) : Prop where
  events : ws.filter Write.onEvents = events.map .insertEvent
  incidents : ws.filter Write.onIncidents = incidents.map .insertIncident
  actions : ws.filter Write.onActions = actions.map .insertAction

theorem Made.append {ws vs : List Write} {es es' : List OperationalEvent} {is is' : List Incident}
    {as as' : List Action} (h : Made ws es is as) (h' : Made vs es' is' as') :
    Made (ws ++ vs) (es ++ es') (is ++ is') (as ++ as') := by
  constructor
  · rw [List.filter_append, h.events, h'.events, List.map_append]
  · rw [List.filter_append, h.incidents, h'.incidents, List.map_append]
  · rw [List.filter_append, h.actions, h'.actions, List.map_append]

/-- Nothing but audit rows and records is added. -/
theorem Made.append_quiet {ws vs : List Write} {es : List OperationalEvent} {is : List Incident}
    {as : List Action} (h : Made ws es is as) (quiet : Made vs [] [] []) :
    Made (ws ++ vs) es is as := by
  simpa using h.append quiet

section Members

variable {ws : List Write} {es : List OperationalEvent} {is : List Incident} {as : List Action}

theorem Made.mem_event (h : Made ws es is as) {e : OperationalEvent} (he : e ∈ es) :
    .insertEvent e ∈ ws := by
  have := List.mem_map_of_mem (f := Write.insertEvent) he
  rw [← h.events] at this
  exact List.mem_of_mem_filter this

theorem Made.mem_incident (h : Made ws es is as) {i : Incident} (hi : i ∈ is) :
    .insertIncident i ∈ ws := by
  have := List.mem_map_of_mem (f := Write.insertIncident) hi
  rw [← h.incidents] at this
  exact List.mem_of_mem_filter this

theorem Made.mem_action (h : Made ws es is as) {a : Action} (ha : a ∈ as) :
    .insertAction a ∈ ws := by
  have := List.mem_map_of_mem (f := Write.insertAction) ha
  rw [← h.actions] at this
  exact List.mem_of_mem_filter this

end Members

theorem made_incident (i : Incident) : Made [.insertIncident i] [] [i] [] := ⟨rfl, rfl, rfl⟩

theorem made_action (a : Action) (entry : AuditLog) :
    Made [.insertAction a, .insertAudit entry] [] [] [a] := ⟨rfl, rfl, rfl⟩

theorem made_audit (entry : AuditLog) : Made [.insertAudit entry] [] [] [] := ⟨rfl, rfl, rfl⟩

/-- The rows of a result. -/
def MadeResult (ws : List Write) (o : Processed) : Prop :=
  Made ws [o.event] o.incident.toList o.action.toList

/-- Without a key the call has not touched the records; with one it has inserted its record. -/
def Claimed (p : IngestProgram) (ws : List Write) : Prop :=
  match p.claimed with
  | none => p.payload.key? = none ∧ ws.filter Write.onRecords = []
  | some id => ∃ key t, p.payload.key? = some key ∧
      ws.filter Write.onRecords = [.insertRecord (newRecord id key t)]

/-- The record, if the call has one, is inserted and completed with the result. -/
def Completed (p : IngestProgram) (ws : List Write) (o : Processed) : Prop :=
  match p.claimed with
  | none => p.payload.key? = none ∧ ws.filter Write.onRecords = []
  | some id => ∃ key t t', p.payload.key? = some key ∧ ws.filter Write.onRecords =
      [.insertRecord (newRecord id key t), .completeRecord id o.columns t']

/-- The call has read a record of its key that held a result, and holds it still. -/
def Loaded (s : Store) (p : IngestProgram) (r : IdempotencyRecord) : Prop :=
  p.payload.key? = some r.key ∧ ∃ c, r.Holds c ∧
    ∃ q ∈ s.records.rows, q.id = r.id ∧ q.key = r.key ∧ q.Holds c

/-- Nothing is written while the call asks for its key. -/
def Asking (p : IngestProgram) (key : String) (ws : List Write) : Prop :=
  p.payload.key? = some key ∧ p.claimed = none ∧ ws = []

/-- What an open session has written over the store `s`, and what it knows. -/
def Shape (s : Store) (p : IngestProgram) (ws : List Write) : Prop :=
  match p.phase with
  | .lookup key => Asking p key ws
  | .claim key => Asking p key ws
  | .poll key _ => Asking p key ws
  | .replay r e => Loaded s p r ∧ r.eventId = some e ∧ ws = []
  | .reload r e => Loaded s p r ∧ r.eventId = some e ∧ ∃ now, ws = r.replayed now
  | .loadAsset => Claimed p ws ∧ Made ws [] [] []
  | .recordEvent _ => Claimed p ws ∧ Made ws [] [] []
  | .matchRule _ e => Claimed p ws ∧ Made ws [e] [] []
  | .checkCooldown _ e _ => Claimed p ws ∧ Made ws [e] [] []
  | .openIncident _ e _ => Claimed p ws ∧ Made ws [e] [] []
  | .checkBacklog e _ i => Claimed p ws ∧ Made ws [e] [i] []
  | .queueAction e _ i => Claimed p ws ∧ Made ws [e] [i] []
  | .complete id o => p.claimed = some id ∧ Claimed p ws ∧ MadeResult ws o
  | .answer a =>
    if a.replay then
      ∃ r, Loaded s p r ∧ r.Holds a.processed.columns ∧ ∃ now, ws = r.replayed now
    else Completed p ws a.processed ∧ MadeResult ws a.processed

theorem Claimed.append {p : IngestProgram} {ws : List Write} (h : Claimed p ws) {vs : List Write}
    (off : vs.filter Write.onRecords = []) : Claimed p (ws ++ vs) := by
  unfold Claimed at h ⊢
  rw [List.filter_append, off, List.append_nil]
  exact h

/-- `_process_new` has returned, with its last rows in `vs`. -/
theorem shape_finish {s : Store} {p : IngestProgram} {ws vs : List Write} {o : Processed}
    (claimed : Claimed p ws) (off : vs.filter Write.onRecords = []) (made : MadeResult (ws ++ vs) o)
    (tick : Tick) : Shape s (p.finish tick o) (ws ++ vs) := by
  have claimed := claimed.append off
  obtain ⟨settings, payload, record, clock, phase⟩ := p
  cases record with
  | some id => exact ⟨rfl, claimed, made⟩
  | none => exact ⟨claimed, made⟩

theorem onRecords_eventWrites (asset : Asset) (event : OperationalEvent) :
    (eventWrites asset event).filter Write.onRecords = [] := by
  unfold eventWrites; split <;> rfl

theorem made_eventWrites (asset : Asset) (event : OperationalEvent) :
    Made (eventWrites asset event) [event] [] [] := by
  unfold eventWrites; split <;> exact ⟨rfl, rfl, rfl⟩

/-- Everything stored holds a result whose rows are stored. -/
def RecordsBacked (s : Store) : Prop :=
  ∀ r ∈ s.records.rows, ∃ c, r.Holds c ∧ Backed s c

theorem loaded_of_completed {s : Store} {p : IngestProgram} {key : String}
    {r : IdempotencyRecord} {e : Nat} (backed : RecordsBacked s)
    (keyed : p.payload.key? = some key) (h : completedRecord s key = some (r, e)) :
    Loaded s p r ∧ r.eventId = some e := by
  obtain ⟨q, found, hq⟩ := Option.bind_eq_some_iff.mp h
  obtain ⟨e', he', same⟩ := Option.map_eq_some_iff.mp hq
  obtain ⟨rfl, rfl⟩ := Prod.mk.inj same
  have mem : q ∈ s.records.rows := List.mem_of_find?_eq_some found
  have key_eq : q.key = key := by simpa using List.find?_some found
  obtain ⟨c, holds, -⟩ := backed q mem
  exact ⟨⟨by rw [key_eq]; exact keyed, c, holds, q, mem, rfl, rfl, holds⟩, he'⟩

/-- A completed record of the key is loaded, and leads to its replay. -/
theorem shape_of_completed {s : Store} {p : IngestProgram} {key : String} {ws : List Write}
    {r : IdempotencyRecord} {e : Nat} (backed : RecordsBacked s) (asking : Asking p key ws)
    (h : completedRecord (s.write ws) key = some (r, e)) (tick : Tick) :
    Shape s (p.goto tick (.replay r e)) ws := by
  obtain ⟨keyed, unclaimed, rfl⟩ := asking
  rw [Store.write_nil] at h
  obtain ⟨loaded, event⟩ := loaded_of_completed backed keyed h
  exact ⟨loaded, event, rfl⟩

/-- `_process_new` returns with one more audit row. -/
theorem shape_audited {s : Store} {p : IngestProgram} {ws : List Write} {o : Processed}
    (claimed : Claimed p ws) (made : MadeResult ws o) (tick : Tick) (row : AuditLog) :
    Shape s (p.finish tick o) (ws ++ [.insertAudit row]) ∧
      ∀ x ∈ [Write.insertAudit row], Unborn s x :=
  ⟨shape_finish claimed rfl (made.append_quiet (made_audit row)) tick, by simp [Unborn]⟩

/-- A statement that only reads leads from one shape of the rows to another. -/
theorem shape_read {s : Store} {q : IngestProgram} {ws : List Write} (shape : Shape s q ws) :
    Shape s q (ws ++ []) ∧ ∀ x ∈ ([] : List Write), Unborn s x :=
  ⟨by rw [List.append_nil]; exact shape, by simp⟩

/-- The rows of the event are there already, so the replay returns what its record holds. -/
theorem shape_reloaded {s : Store} {p : IngestProgram} {ws : List Write} {r : IdempotencyRecord}
    {e : Nat} {row : OperationalEvent} (backed : RecordsBacked s) (loaded : Loaded s p r)
    (event : r.eventId = some e) {now : Instant} (written : ws = r.replayed now)
    (found : (s.write ws).events.find? e = some row) (tick : Tick) :
    Shape s (p.goto tick (.answer ⟨r.result row (s.write ws), true⟩)) ws := by
  obtain ⟨-, c, holds, q, mem, -, -, qholds⟩ := id loaded
  obtain ⟨c', holds', rows⟩ := backed q mem
  obtain rfl := qholds.eq holds'
  obtain rfl : e = c.eventId := Option.some.inj (event.symm.trans holds.event)
  have columns := columns_of_result holds (rows.grow (grows_write ws s)) found
  simp only [Shape, IngestProgram.goto, if_true]
  exact ⟨r, loaded, by rw [columns]; exact holds, now, written⟩

theorem unborn_eventWrites {s : Store} {event : OperationalEvent}
    (new : fresh s.events event.id = true) (asset : Asset) :
    ∀ x ∈ eventWrites asset event, Unborn s x := by
  intro x hx
  unfold eventWrites at hx
  rcases List.mem_append.mp hx with status | inserted
  · split at status
    · cases status
    · obtain rfl := List.mem_singleton.mp status; trivial
  · obtain rfl := List.mem_singleton.mp inserted; exact new

/-- Each statement keeps the shape, and inserts rows whose ids are free. -/
theorem shape_next {s : Store} {p q : IngestProgram} {ws vs : List Write} {es : List Answer}
    {tick : Tick} (backed : RecordsBacked s) (shape : Shape s p ws)
    (h : ingestStatement tick p (s.write ws) = some (.next q vs es)) :
    es = [] ∧ Shape s q (ws ++ vs) ∧ ∀ x ∈ vs, Unborn s x := by
  obtain ⟨settings, payload, claimed, clock, phase⟩ := p
  cases phase with
  | lookup key =>
    simp only [ingestStatement] at h
    split at h
    · next record eventId completed =>
      cases h
      exact ⟨rfl, shape_read (shape_of_completed backed shape completed tick)⟩
    · cases h; exact ⟨rfl, shape_read shape⟩
  | claim key =>
    obtain ⟨keyed, unclaimed, rfl⟩ := shape
    rw [Store.write_nil] at h
    simp only [ingestStatement] at h
    split at h
    · cases h
    · next vacant =>
      split at h
      · next new =>
        cases h
        refine ⟨rfl, ⟨⟨key, tick.now, keyed, rfl⟩, ⟨rfl, rfl, rfl⟩⟩, fun x hx => ?_⟩
        obtain rfl := List.mem_singleton.mp hx
        exact ⟨new, by simpa [newRecord] using vacant⟩
      · cases h
  | poll key attempts =>
    cases attempts with
    | zero => cases h
    | succ attempts =>
      simp only [ingestStatement] at h
      split at h
      · next record eventId completed =>
        cases h
        exact ⟨rfl, shape_read (shape_of_completed backed shape completed tick)⟩
      · cases h; exact ⟨rfl, shape_read shape⟩
  | replay record eventId =>
    obtain ⟨loaded, event, rfl⟩ := shape
    cases h
    refine ⟨rfl, ⟨loaded, event, tick.now, rfl⟩, ?_⟩
    simp [IdempotencyRecord.replayed, Unborn]
  | reload record eventId =>
    obtain ⟨loaded, event, now, rfl⟩ := shape
    simp only [ingestStatement] at h
    split at h
    · cases h
    · next row found =>
      cases h
      exact ⟨rfl, shape_read (shape_reloaded backed loaded event rfl found tick)⟩
  | loadAsset =>
    simp only [ingestStatement] at h
    split at h <;> cases h
    exact ⟨rfl, shape_read shape⟩
  | recordEvent asset =>
    obtain ⟨record, made⟩ := shape
    simp only [ingestStatement] at h
    split at h
    · next new =>
      cases h
      exact ⟨rfl, ⟨record.append (onRecords_eventWrites _ _),
        made.append (made_eventWrites _ _)⟩,
        unborn_eventWrites (fresh_of_grown s.events new ((grows_write ws s).events _)) asset⟩
    · cases h
  | matchRule asset event =>
    obtain ⟨record, made⟩ := shape
    simp only [ingestStatement] at h
    split at h
    · cases h
      refine ⟨rfl, shape_audited record ?_ tick _⟩
      exact made
    · cases h
      exact ⟨rfl, shape_read ⟨record, made⟩⟩
  | checkCooldown asset event rule =>
    obtain ⟨record, made⟩ := shape
    simp only [ingestStatement] at h
    split at h
    · cases h
      refine ⟨rfl, shape_audited record ?_ tick _⟩
      exact made
    · cases h
      exact ⟨rfl, shape_read ⟨record, made⟩⟩
  | openIncident asset event rule =>
    obtain ⟨record, made⟩ := shape
    simp only [ingestStatement] at h
    split at h
    · next new =>
      cases h
      have unborn := fresh_of_grown s.incidents new ((grows_write ws s).incidents _)
      refine ⟨rfl, ⟨record.append rfl, made.append (made_incident _)⟩, fun x hx => ?_⟩
      obtain rfl := List.mem_singleton.mp hx
      exact unborn
    · cases h
  | checkBacklog event rule incident =>
    obtain ⟨record, made⟩ := shape
    simp only [ingestStatement] at h
    split at h
    · cases h
      refine ⟨rfl, shape_audited record ?_ tick _⟩
      exact made
    · split at h
      · cases h
        refine ⟨rfl, shape_audited record ?_ tick _⟩
        exact made
      · cases h
        exact ⟨rfl, shape_read ⟨record, made⟩⟩
  | queueAction event rule incident =>
    obtain ⟨record, made⟩ := shape
    simp only [ingestStatement] at h
    split at h
    · next new =>
      cases h
      have unborn := fresh_of_grown s.actions new ((grows_write ws s).actions _)
      refine ⟨rfl, shape_finish record rfl ?_ tick, ?_⟩
      · exact made.append (made_action _ _)
      · intro x hx
        rcases List.mem_cons.mp hx with rfl | audit
        · exact unborn
        · obtain rfl := List.mem_singleton.mp audit; trivial
    · cases h
  | complete id o =>
    obtain ⟨mine, record, made⟩ := shape
    cases h
    refine ⟨rfl, ⟨?_, made.append_quiet ⟨rfl, rfl, rfl⟩⟩, by simp [Unborn]⟩
    cases mine
    obtain ⟨key, t, keyed, inserted⟩ := record
    exact ⟨key, t, tick.now, keyed, by rw [List.filter_append, inserted]; rfl⟩
  | answer response => cases h

/-! ## The other effects of a statement -/

theorem exec_statement {l : IngestStep} {p : IngestProgram} {s : Store} {locked : RowKey → Bool}
    {e : IngestEffect} (h : ingestion.exec l p s locked = some e) :
    ∃ tick, l = .statement tick ∧ ingestStatement tick p s = some e := by
  cases l with
  | call settings payload => cases h
  | statement tick => exact ⟨tick, rfl, h⟩

theorem commit_cases {tick : Tick} {p : IngestProgram} {s : Store} {es : List Answer}
    (h : ingestStatement tick p s = some (.commit es)) :
    ∃ a, p.phase = .answer a ∧ es = [⟨p.payload.key?, a⟩] := by
  obtain ⟨settings, payload, claimed, clock, phase⟩ := p
  cases phase with
  | answer a => cases h; exact ⟨a, rfl, rfl⟩
  | poll key attempts =>
    cases attempts <;> simp only [ingestStatement] at h <;> (repeat' split at h) <;> cases h
  | _ => simp only [ingestStatement] at h; (repeat' split at h) <;> cases h

theorem restart_cases {tick : Tick} {p q : IngestProgram} {s : Store}
    (h : ingestStatement tick p s = some (.restart q)) :
    ∃ key, p.phase = .claim key ∧ q = p.goto tick (.poll key 100) := by
  obtain ⟨settings, payload, claimed, clock, phase⟩ := p
  cases phase with
  | claim key =>
    simp only [ingestStatement] at h
    (repeat' split at h) <;> cases h
    exact ⟨key, rfl, rfl⟩
  | poll key attempts =>
    cases attempts <;> simp only [ingestStatement] at h <;> (repeat' split at h) <;> cases h
  | _ => simp only [ingestStatement] at h; (repeat' split at h) <;> cases h

theorem rollback_cases {tick : Tick} {p : IngestProgram} {s : Store} {es : List Answer}
    (h : ingestStatement tick p s = some (.rollback es)) : es = [] := by
  obtain ⟨settings, payload, claimed, clock, phase⟩ := p
  cases phase with
  | poll key attempts =>
    cases attempts <;> simp only [ingestStatement] at h <;> (repeat' split at h) <;> cases h
    rfl
  | _ =>
    simp only [ingestStatement] at h
    (repeat' split at h) <;> cases h
    all_goals rfl

end SupportOps.Python
