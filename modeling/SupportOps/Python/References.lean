import SupportOps.Python.Service

/-!
# Referential integrity

SQLite is not told to enforce the foreign keys. They hold nevertheless after every command: a
row is inserted after those it refers to, an idempotency record is completed with the ids of
one result, and the reset deletes a table before those its rows refer to.
-/
namespace SupportOps.Python

open Library

/-! ## References of one row -/

def OperationalEvent.Refers (e : OperationalEvent) (s : Store) : Prop :=
  (s.assets.find? e.assetId).isSome

def Incident.Refers (i : Incident) (s : Store) : Prop :=
  (∃ e, s.events.find? i.eventId = some e ∧ e.assetId = i.assetId) ∧
    (s.assets.find? i.assetId).isSome ∧ (s.rules.find? i.ruleId).isSome

def Action.Refers (a : Action) (s : Store) : Prop := (s.incidents.find? a.incidentId).isSome

/-- A completed record refers to an event, to its incident and to an action of that incident. -/
def IdempotencyRecord.Refers (r : IdempotencyRecord) (s : Store) : Prop :=
  (r.eventId = none → r.incidentId = none ∧ r.actionId = none) ∧
  ∀ k, r.eventId = some k → (s.events.find? k).isSome ∧
    (∀ j, r.incidentId = some j → ∃ i, s.incidents.find? j = some i ∧ i.eventId = k) ∧
    (∀ l, r.actionId = some l →
      ∃ a, s.actions.find? l = some a ∧ r.incidentId = some a.incidentId)

/-- No row refers to one that is not stored. -/
structure Referential (s : Store) : Prop where
  event : ∀ e ∈ s.events.rows, e.Refers s
  incident : ∀ i ∈ s.incidents.rows, i.Refers s
  action : ∀ a ∈ s.actions.rows, a.Refers s
  record : ∀ r ∈ s.records.rows, r.Refers s

/-! ## Growing tables -/

/-- What a row of `s` can refer to is in `t` as well. -/
structure Extends (s t : Store) : Prop where
  assets : ∀ k, (s.assets.find? k).isSome → (t.assets.find? k).isSome
  rules : ∀ k, (s.rules.find? k).isSome → (t.rules.find? k).isSome
  events : ∀ k e, s.events.find? k = some e → t.events.find? k = some e
  incidents : ∀ k i, s.incidents.find? k = some i → t.incidents.find? k = some i
  actions : ∀ k a, s.actions.find? k = some a →
    ∃ b, t.actions.find? k = some b ∧ b.incidentId = a.incidentId

namespace Extends

variable {s t : Store}

theorem event (h : Extends s t) {e : OperationalEvent} (refers : e.Refers s) : e.Refers t :=
  h.assets _ refers

theorem incident (h : Extends s t) {i : Incident} (refers : i.Refers s) : i.Refers t := by
  obtain ⟨⟨e, found, same⟩, asset, rule⟩ := refers
  exact ⟨⟨e, h.events _ _ found, same⟩, h.assets _ asset, h.rules _ rule⟩

theorem action (h : Extends s t) {a : Action} (refers : a.Refers s) : a.Refers t := by
  obtain ⟨i, found⟩ := Option.isSome_iff_exists.mp refers
  exact Option.isSome_iff_exists.mpr ⟨i, h.incidents _ _ found⟩

theorem record (h : Extends s t) {r : IdempotencyRecord} (refers : r.Refers s) : r.Refers t := by
  refine ⟨refers.1, fun k hk => ?_⟩
  obtain ⟨event, incident, action⟩ := refers.2 k hk
  refine ⟨?_, ?_, ?_⟩
  · obtain ⟨e, found⟩ := Option.isSome_iff_exists.mp event
    exact Option.isSome_iff_exists.mpr ⟨e, h.events _ _ found⟩
  · intro j hj
    obtain ⟨i, found, same⟩ := incident j hj
    exact ⟨i, h.incidents _ _ found, same⟩
  · intro l hl
    obtain ⟨a, found, same⟩ := action l hl
    obtain ⟨b, stored, owner⟩ := h.actions _ _ found
    exact ⟨b, stored, by rw [same, owner]⟩

/-- Tables with more rows. -/
theorem of_subset (assets : ∀ k, (s.assets.find? k).isSome → (t.assets.find? k).isSome)
    (rules : s.rules.rows ⊆ t.rules.rows) (events : s.events.rows ⊆ t.events.rows)
    (incidents : s.incidents.rows ⊆ t.incidents.rows) (actions : s.actions.rows ⊆ t.actions.rows) :
    Extends s t := by
  refine ⟨assets, ?_, fun _ _ => Table.find?_of_subset events,
    fun _ _ => Table.find?_of_subset incidents, ?_⟩
  · intro k found
    obtain ⟨r, found⟩ := Option.isSome_iff_exists.mp found
    exact Option.isSome_iff_exists.mpr ⟨r, Table.find?_of_subset rules found⟩
  · intro k a found
    exact ⟨a, Table.find?_of_subset actions found, rfl⟩

end Extends

namespace Referential

variable {s t : Store}

/-- The rows that were there keep their references; those of the new rows remain to be seen. -/
theorem extend (h : Referential s) (extend : Extends s t)
    (event : ∀ e ∈ t.events.rows, e ∈ s.events.rows ∨ e.Refers t)
    (incident : ∀ i ∈ t.incidents.rows, i ∈ s.incidents.rows ∨ i.Refers t)
    (action : ∀ a ∈ t.actions.rows,
      (∃ b ∈ s.actions.rows, a.incidentId = b.incidentId) ∨ a.Refers t)
    (record : ∀ r ∈ t.records.rows, r ∈ s.records.rows ∨ r.Refers t) : Referential t := by
  refine ⟨?_, ?_, ?_, ?_⟩
  · intro e he
    exact (event e he).elim (fun old => extend.event (h.event e old)) id
  · intro i hi
    exact (incident i hi).elim (fun old => extend.incident (h.incident i old)) id
  · intro a ha
    rcases action a ha with ⟨b, old, same⟩ | new
    · have refers := extend.action (h.action b old)
      unfold Action.Refers at refers ⊢
      rwa [same]
    · exact new
  · intro r hr
    exact (record r hr).elim (fun old => extend.record (h.record r old)) id

/-- A change that keeps the tables with references. -/
theorem same (h : Referential s) (assets : s.assets.rows ⊆ t.assets.rows)
    (rules : s.rules.rows ⊆ t.rules.rows) (events : t.events = s.events)
    (incidents : t.incidents = s.incidents) (actions : t.actions = s.actions)
    (records : ∀ r ∈ t.records.rows, r ∈ s.records.rows ∨ r.Refers t) : Referential t := by
  refine h.extend (.of_subset ?_ rules (by rw [events]; exact List.Subset.refl _)
    (by rw [incidents]; exact List.Subset.refl _) (by rw [actions]; exact List.Subset.refl _))
    ?_ ?_ ?_ records
  · intro k found
    obtain ⟨r, found⟩ := Option.isSome_iff_exists.mp found
    exact Option.isSome_iff_exists.mpr ⟨r, Table.find?_of_subset assets found⟩
  · rw [events]
    exact fun e he => .inl he
  · rw [incidents]
    exact fun i hi => .inl hi
  · rw [actions]
    exact fun a ha => .inl ⟨a, ha, rfl⟩

end Referential

section Process

variable {settings : Settings} {env : Surroundings} {p : EventBody} {s t : Store} {o : Processed}

/-- The status of an asset may change, but assets stay. -/
theorem NewCase.assets_stay (h : NewCase settings env p s o t) (k : Nat)
    (found : (s.assets.find? k).isSome) : (t.assets.find? k).isSome := by
  have recorded : ∀ asset, ((s.recorded env p asset).assets.find? k).isSome := by
    intro asset
    rcases @recorded_assets env p s asset with same | modified
    · rw [same]
      exact found
    · rw [modified, Table.find?_modify]
      split
      · simpa using found
      · exact found
  cases h <;>
    simpa only [Store.write_cons, Store.write_nil, Write.apply_assets] using recorded _

theorem NewCase.event_refers (h : NewCase settings env p s o t) : o.event.Refers t := by
  have known : ∀ asset, s.assetByExternalId p.assetExternalId = some asset →
      (s.assets.find? asset.id).isSome := by
    intro asset known
    have found := s.assets.find?_of_mem (List.mem_of_find?_eq_some known)
    rw [key_asset] at found
    simp [found]
  refine h.assets_stay _ ?_
  cases h with
  | unmatched asset found none => exact known asset found
  | suppressed asset rule found matched recent => exact known asset found
  | incidentOnly asset rule opens noAction => exact known asset opens.known
  | rejected asset rule opens action full => exact known asset opens.known
  | queued asset rule opens action room => exact known asset opens.known

theorem Referential.new (h : Referential s) (new : NewCase settings env p s o t) :
    Referential t := by
  have rules : s.rules.rows ⊆ t.rules.rows := by
    rw [new.rules_eq]
    exact List.Subset.refl _
  have events : s.events.rows ⊆ t.events.rows := by
    rw [new.rows_events]
    exact List.subset_append_left _ _
  have actions : s.actions.rows ⊆ t.actions.rows := by
    rw [new.rows_actions]
    exact List.subset_append_left _ _
  have event : ∀ e ∈ t.events.rows, e ∈ s.events.rows ∨ e.Refers t := by
    intro e he
    rw [new.rows_events, List.mem_append, List.mem_singleton] at he
    rcases he with old | rfl
    · exact .inl old
    · exact .inr new.event_refers
  have record : ∀ r ∈ t.records.rows, r ∈ s.records.rows ∨ r.Refers t := by
    rw [new.records_eq]
    exact fun r hr => .inl hr
  rcases new.added with ⟨-, quiet, incidents, -⟩ | ⟨i, rule, entry, opened⟩
  · refine h.extend (.of_subset new.assets_stay rules events ?_ actions) event ?_ ?_ record
    · rw [incidents]
      exact List.Subset.refl _
    · rw [incidents]
      exact fun i hi => .inl hi
    · rw [new.rows_actions, quiet]
      intro a ha
      exact .inl ⟨a, by simpa using ha, rfl⟩
  · have here : t.incidents.find? i.id = some i := (new.stored.incident i opened.incident).1
    refine h.extend (.of_subset new.assets_stay rules events ?_ actions) event ?_ ?_ record
    · rw [opened.incidents]
      exact List.subset_append_left _ _
    · intro j hj
      rw [opened.incidents, List.mem_append, List.mem_singleton] at hj
      rcases hj with old | rfl
      · exact .inl old
      · refine .inr ⟨⟨o.event, ?_, opened.asset.symm⟩, ?_, ?_⟩
        · rw [opened.event]
          exact new.find?_event
        · rw [opened.asset]
          exact new.event_refers
        · rw [new.rules_eq, opened.known]
          rfl
    · intro a ha
      rw [new.rows_actions, List.mem_append, Option.mem_toList] at ha
      rcases ha with old | made
      · exact .inl ⟨a, old, rfl⟩
      · refine .inr ?_
        unfold Action.Refers
        rw [opened.created a made, here]
        rfl

end Process

/-- A completed record refers to what `process` returned. -/
theorem Processed.Stored.refers {o : Processed} {s : Store} (h : o.Stored s)
    (r : IdempotencyRecord) (now : Instant) : (r.complete o.columns now).Refers s := by
  refine ⟨fun unset => absurd unset (Option.some_ne_none _), ?_⟩
  intro k hk
  obtain rfl : o.event.id = k := Option.some.inj hk
  refine ⟨by rw [h.event]; rfl, ?_, ?_⟩
  · intro j hj
    obtain ⟨i, hi, rfl⟩ := Option.map_eq_some_iff.mp hj
    exact ⟨i, h.incident i hi⟩
  · intro l hl
    obtain ⟨a, ha, rfl⟩ := Option.map_eq_some_iff.mp hl
    obtain ⟨found, i, hi, owner⟩ := h.action a ha
    refine ⟨a, found, ?_⟩
    change o.incident.map Incident.id = _
    rw [hi, owner]
    rfl

/-- Every change keeps the references. -/
theorem Referential.change {c : Command} {s t : Store} {as : List Action} (h : Referential s)
    (change : Change c s as t) : Referential t := by
  have kept : ∀ {u : Store}, u.records = s.records →
      ∀ r ∈ u.records.rows, r ∈ s.records.rows ∨ r.Refers u := by
    intro u same r hr
    rw [same] at hr
    exact .inl hr
  cases change with
  | asset a fresh =>
    exact h.same (s.assets.rows_subset_insert a) (List.Subset.refl _) rfl rfl rfl (kept rfl)
  | rule r fresh =>
    exact h.same (List.Subset.refl _) (s.rules.rows_subset_insert r) rfl rfl rfl (kept rfl)
  | new process new => exact h.new new
  | claimed key now vacant =>
    refine h.same (List.Subset.refl _) (List.Subset.refl _) rfl rfl rfl fun r hr => ?_
    rcases s.records.mem_of_mem_insert hr with old | rfl
    · exact .inl old
    · exact .inr ⟨fun _ => ⟨rfl, rfl⟩, fun k hk => by cases hk⟩
  | completed id o now stored =>
    refine h.same (List.Subset.refl _) (List.Subset.refl _) rfl rfl rfl fun r hr => ?_
    change r ∈ (s.records.modify id _
      (IdempotencyRecord.key_complete o.columns now)).rows at hr
    obtain ⟨q, hq, rfl⟩ := s.records.mem_modify.mp hr
    split
    · exact .inr (stored.refers q now)
    · exact .inl hq
  | replayed record now mem =>
    refine h.same (List.Subset.refl _) (List.Subset.refl _) rfl rfl rfl fun r hr => ?_
    change r ∈ (s.records.modify record.id _ (IdempotencyRecord.key_hit now)).rows at hr
    obtain ⟨q, hq, rfl⟩ := s.records.mem_modify.mp hr
    split
    · exact .inr (h.record q hq)
    · exact .inl hq
  | @attempted args a succeeded detail s t limit attempt =>
    refine h.extend ⟨?_, ?_, ?_, ?_, ?_⟩ ?_ ?_ ?_ ?_
    · rw [attempt.assets_eq]
      exact fun _ found => found
    · rw [attempt.rules_eq]
      exact fun _ found => found
    · rw [attempt.events_eq]
      exact fun _ _ found => found
    · rw [attempt.incidents_eq]
      exact fun _ _ found => found
    · intro k b found
      refine ⟨_, attempt.find? found, ?_⟩
      split
      · next same => rw [Action.outcome_incidentId, attempt.row_eq found same]
      · rfl
    · rw [attempt.events_eq]
      exact fun e he => .inl he
    · rw [attempt.incidents_eq]
      exact fun i hi => .inl hi
    · intro b hb
      rw [attempt.rows, List.mem_map] at hb
      obtain ⟨q, hq, rfl⟩ := hb
      refine .inl ⟨q, hq, ?_⟩
      split
      · next same =>
        rw [Action.outcome_incidentId, attempt.row_eq (s.actions.find?_of_mem hq) same]
      · rfl
    · rw [attempt.records_eq]
      exact fun r hr => .inl hr
  | followedUp i staleMinutes now process mem =>
    refine h.extend (.of_subset (fun _ found => found) (List.Subset.refl _) (List.Subset.refl _)
      (List.Subset.refl _) (s.actions.rows_subset_insert _)) (fun e he => .inl he)
      (fun i hi => .inl hi) (fun a ha => ?_) (kept rfl)
    rcases s.actions.mem_of_mem_insert ha with old | rfl
    · exact .inl ⟨a, old, rfl⟩
    · refine .inr ?_
      have found := s.incidents.find?_of_mem mem
      rw [key_incident] at found
      exact Option.isSome_iff_exists.mpr ⟨i, found⟩
  | job row =>
    exact h.same (List.Subset.refl _) (List.Subset.refl _) rfl rfl rfl (kept rfl)
  | check checks row kind =>
    exact h.same (List.Subset.refl _) (List.Subset.refl _) rfl rfl rfl (kept rfl)

/-! ## The reset -/

/-- No row of another table refers to a row of the class. -/
def Model.Unreferenced (s : Store) : Model → Prop
  | .action => s.records.rows = []
  | .incident => s.records.rows = [] ∧ s.actions.rows = []
  | .operationalEvent => s.records.rows = [] ∧ s.incidents.rows = []
  | _ => True

/-- Rows to which nothing refers can be deleted. -/
theorem Referential.delete {s : Store} (h : Referential s) (m : Model) (free : m.Unreferenced s) :
    Referential (m.delete s) := by
  have noRecord : ∀ {t : Store}, s.records.rows = [] → ∀ r ∈ s.records.rows, r.Refers t := by
    intro t none r hr
    rw [none] at hr
    cases hr
  cases m with
  | auditLog => exact ⟨h.event, h.incident, h.action, h.record⟩
  | idempotencyRecord => exact ⟨h.event, h.incident, h.action, fun r hr => by cases hr⟩
  | checkRun => exact ⟨h.event, h.incident, h.action, h.record⟩
  | action => exact ⟨h.event, h.incident, fun a ha => (by cases ha), noRecord free⟩
  | incident =>
    refine ⟨h.event, fun i hi => (by cases hi), ?_, noRecord free.1⟩
    intro a ha
    change a ∈ s.actions.rows at ha
    rw [free.2] at ha
    cases ha
  | operationalEvent =>
    refine ⟨fun e he => (by cases he), ?_, h.action, noRecord free.1⟩
    intro i hi
    change i ∈ s.incidents.rows at hi
    rw [free.2] at hi
    cases hi
  | jobRun => exact ⟨h.event, h.incident, h.action, h.record⟩

/-- Each delete of the sequence finds its table unreferenced. -/
theorem Referential.deleteAll {s : Store} (h : Referential s) (n : Nat) :
    Referential (s.deleteAll (resetOrder.take n)) := by
  have audits := h.delete .auditLog trivial
  have records := audits.delete .idempotencyRecord trivial
  have checks := records.delete .checkRun trivial
  have actions := checks.delete .action rfl
  have incidents := actions.delete .incident ⟨rfl, rfl⟩
  have events := incidents.delete .operationalEvent ⟨rfl, rfl⟩
  have jobs := events.delete .jobRun trivial
  match n with
  | 0 => exact h
  | 1 => exact audits
  | 2 => exact records
  | 3 => exact checks
  | 4 => exact actions
  | 5 => exact incidents
  | 6 => exact events
  | n + 7 =>
    rw [List.take_of_length_le (by simp [resetOrder])]
    exact jobs

/-! ## Every run -/

theorem Referential.command {b : Begin} {c : Command} {s t : Store} (h : Referential s)
    (step : c.apply b s = some t) : Referential t := by
  cases reset : c.isReset with
  | true =>
    obtain rfl : c = .reset := by
      cases c with
      | reset => rfl
      | _ => cases reset
    have reset := h.deleteAll resetOrder.length
    rw [List.take_length, deleteAll_resetOrder] at reset
    cases step
    exact reset
  | false =>
    exact Changes.invariant (I := fun s _ => Referential s)
      (fun h change => Referential.change h change) [] h (changes_of_apply step reset)

theorem processNew_error {settings : Settings} {env : Surroundings} {p : EventBody} {s : Store}
    {e : ProcessError} (h : processNew settings env p s = .error e) :
    e = .unknownAsset p.assetExternalId := by
  cases known : s.assetByExternalId p.assetExternalId with
  | none =>
    rw [processNew_unknown known] at h
    exact (Except.error.inj h).symm
  | some asset =>
    obtain ⟨o, t, ok⟩ := processNew_isOk settings env known
    rw [ok] at h
    cases h

/-- The event of a completed record is found. -/
theorem Referential.answered {s : Store} (h : Referential s) {key : String}
    {record : IdempotencyRecord} {eventId : Nat}
    (completed : completedRecord s key = some (record, eventId)) :
    ∃ event, s.events.find? eventId = some event := by
  obtain ⟨mem, set⟩ := mem_of_completedRecord completed
  exact Option.isSome_iff_exists.mp ((h.record record mem).2 eventId set).1

theorem Referential.process_ne {s : Store} (h : Referential s) (settings : Settings)
    (env : Surroundings) (p : EventBody) :
    process settings env p s ≠ .error .missingEvent := by
  intro raised
  cases keyed : p.key? with
  | none =>
    simp only [process, keyed] at raised
    cases new : processNew settings env p s with
    | error e => rw [new, processNew_error new] at raised; cases raised
    | ok ot => rw [new] at raised; cases raised
  | some key =>
    cases completed : completedRecord s key with
    | some found =>
      obtain ⟨event, stored⟩ := h.answered completed
      rw [process_replayed keyed completed stored] at raised
      cases raised
    | none =>
      simp only [process, processWithIdempotency, keyed, completed] at raised
      split at raised
      · rw [waitForIdempotentResult_eq completed] at raised
        cases raised
      · cases new : processNew settings env p
            (s.write [.insertRecord (newRecord s.records.nextId key env.now)]) with
        | error e => rw [new, processNew_error new] at raised; cases raised
        | ok ot => rw [new] at raised; cases raised

theorem Referential.serve_ne {s : Store} (h : Referential s) (b : Begin) (call : Call) :
    (serve b call s).1 ≠ .error .missingEvent := by
  by_cases clean : b = .eager ∨ ∀ key, ¬ Poisons call.payload.toEventBody s key
  · rw [serve_eq clean]
    intro raised
    have never := h.process_ne call.settings call.env call.payload.toEventBody
    cases result : process call.settings call.env call.payload.toEventBody s with
    | ok rt => rw [result] at raised; cases raised
    | error e =>
      rw [result] at raised never
      exact never (congrArg _ (Except.error.inj raised))
  · obtain ⟨rfl, key, poisons⟩ := poisons_of_unclean clean
    rw [serve_poisons poisons]
    intro raised
    cases raised

/-- After every sequence of commands the references hold, they hold after every delete of a
reset, and no request meets a record that points to a missing event. -/
theorem referential_of_run (b : Begin) (assets : Table Asset) (rules : Table AutomationRule)
    (cs : List Command) (s : Store)
    (run : (commands b).run (Store.seeded assets rules) cs = some s) :
    Referential s ∧ (∀ n, Referential (s.deleteAll (resetOrder.take n))) ∧
      ∀ call, (serve b call s).1 ≠ .error .missingEvent := by
  have start : Referential (Store.seeded assets rules) := by
    refine ⟨?_, ?_, ?_, ?_⟩ <;> intro r hr <;> cases hr
  have reached : Referential s :=
    (commands b).run_invariant (fun _ _ _ h step => h.command step) start run
  exact ⟨reached, reached.deleteAll, fun call => reached.serve_ne b call⟩

/-- A key is answered, the workload reset, and the row ids and the key are used again. -/
def valveTwice : List Command :=
  [.createAsset "VALVE-9", .process ⟨⟨1000⟩, ⟨0, "0"⟩, valveOffline⟩, .reset,
    .process ⟨⟨1000⟩, ⟨1, "1"⟩, valveOffline⟩]

theorem referential_valveTwice : ∃ s : Store,
    (commands .beforeChange).run demo valveTwice = some s ∧
    s.records.rows.map (fun r => (r.eventId, r.incidentId, r.actionId)) =
      [(some 1, some 1, some 1)] ∧
    Referential s ∧ (∀ n, Referential (s.deleteAll (resetOrder.take n))) ∧
      ∀ call, (serve .beforeChange call s).1 ≠ .error .missingEvent :=
  ⟨_, rfl, by decide, referential_of_run .beforeChange demoAssets demoRules valveTwice _ rfl⟩

end SupportOps.Python
