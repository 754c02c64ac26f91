import SupportOps.Python.Service

/-!
# Every event is accounted for

Each recorded event leaves one trace: an audit row that says why nothing was done, or an
incident. Each incident leaves one as well, and an action unless its rule wants none or the
queue was full. These sums hold between any two commands of a run without a reset.
-/
namespace SupportOps.Python

open Library

/-! ## The books -/

/-- Audit rows of one kind. -/
def Store.auditsOf (s : Store) (kind : String) : Nat :=
  s.audits.countP fun r => r.eventType = kind

/-- The queue was full when the incident was opened. -/
def Store.rejected (s : Store) (i : Incident) : Bool :=
  s.audits.any fun r =>
    r.eventType = "queue_backpressure" ∧ r.entityType = "incident" ∧ r.entityId = i.id

/-- The replays answered from all records together. -/
def Store.hits (s : Store) : Nat := (s.records.rows.map IdempotencyRecord.hits).sum

/-- `process` created the action with this id. -/
def madeByProcess (created : List Creation) (id : Nat) : Bool :=
  created.any fun c => c.byProcess && decide (c.row.id = id)

/-- How many actions of the incident were created by `process`. -/
def Store.processActions (s : Store) (created : List Creation) (i : Incident) : Nat :=
  s.actions.rows.countP fun a => decide (a.incidentId = i.id) && madeByProcess created a.id

structure EventsAccounted (s : Store) (created : List Creation) : Prop where
  events : s.events.rows.length =
    s.auditsOf "event_recorded" + s.auditsOf "event_suppressed" + s.incidents.rows.length
  incidents : s.incidents.rows.length =
    s.auditsOf "incident_created" + s.auditsOf "queue_backpressure"
  distinct : (s.incidents.rows.map Incident.eventId).Nodup
  asset : ∀ i ∈ s.incidents.rows, ∃ e, s.events.find? i.eventId = some e ∧ e.assetId = i.assetId
  actions : ∀ i ∈ s.incidents.rows, ∃ rule, s.rules.find? i.ruleId = some rule ∧
    s.processActions created i =
      if rule.actionType ≠ "none" ∧ s.rejected i = false then 1 else 0
  hits : s.hits = s.auditsOf "idempotency_hit"

/-- The sums, and what the rows that they count refer to. -/
structure Balanced (s : Store) (created : List Creation) : Prop
    extends EventsAccounted s created where
  rejections : ∀ r ∈ s.audits, r.eventType = "queue_backpressure" → r.entityType = "incident" →
    ∃ i ∈ s.incidents.rows, i.id = r.entityId
  owned : ∀ a ∈ s.actions.rows, ∃ i ∈ s.incidents.rows, i.id = a.incidentId
  logged : ∀ c ∈ created, ∃ a ∈ s.actions.rows, a.id = c.row.id

/-! ## Counting after a change -/

theorem auditsOf_append {s t : Store} {rows : List AuditLog} (audits : t.audits = s.audits ++ rows)
    (kind : String) :
    t.auditsOf kind = s.auditsOf kind + rows.countP fun r => r.eventType = kind := by
  unfold Store.auditsOf
  rw [audits, List.countP_append]

theorem rejected_append {s t : Store} {rows : List AuditLog}
    (audits : t.audits = s.audits ++ rows) (i : Incident)
    (others : ∀ r ∈ rows, r.eventType = "queue_backpressure" → r.entityId ≠ i.id) :
    t.rejected i = s.rejected i := by
  unfold Store.rejected
  rw [audits, List.any_append]
  have none : (rows.any fun r => decide (r.eventType = "queue_backpressure" ∧
      r.entityType = "incident" ∧ r.entityId = i.id)) = false := by
    refine List.any_eq_false.mpr fun r hr => ?_
    simp only [decide_eq_true_eq]
    rintro ⟨kind, -, same⟩
    exact others r hr kind same
  rw [none, Bool.or_false]

/-- The new actions count for their incident if `process` made them. -/
theorem processActions_append {s t : Store} {created : List Creation} {as : List Action}
    (rows : t.actions.rows = s.actions.rows ++ as)
    (logged : ∀ c ∈ created, ∃ a ∈ s.actions.rows, a.id = c.row.id) (b : Bool) (i : Incident) :
    t.processActions (created ++ as.map (Creation.mk b)) i =
      s.processActions created i + as.countP fun a => decide (a.incidentId = i.id) && b := by
  have nodup := t.actions.nodup
  rw [rows, List.map_append] at nodup
  have apart : ∀ a ∈ s.actions.rows, ∀ n ∈ as, n.id ≠ a.id := by
    intro a ha n hn same
    exact List.disjoint_of_nodup_append nodup (List.mem_map_of_mem ha)
      (List.mem_map.mpr ⟨n, hn, same⟩)
  unfold Store.processActions
  rw [rows, List.countP_append]
  congr 1
  · refine List.countP_congr fun a ha => ?_
    have old : madeByProcess (created ++ as.map (Creation.mk b)) a.id =
        madeByProcess created a.id := by
      unfold madeByProcess
      rw [List.any_append, List.any_map]
      have none : (as.any ((fun c => c.byProcess && decide (c.row.id = a.id)) ∘ Creation.mk b))
          = false := by
        refine List.any_eq_false.mpr fun n hn => ?_
        simp [apart a ha n hn]
      rw [none, Bool.or_false]
    rw [old]
  · refine List.countP_congr fun n hn => ?_
    have new : madeByProcess (created ++ as.map (Creation.mk b)) n.id = b := by
      unfold madeByProcess
      rw [List.any_append, List.any_map]
      have none : (created.any fun c => c.byProcess && decide (c.row.id = n.id)) = false := by
        refine List.any_eq_false.mpr fun c hc => ?_
        obtain ⟨a, ha, same⟩ := logged c hc
        have : c.row.id ≠ n.id := fun e => apart a ha n hn (e ▸ same.symm)
        simp [this]
      rw [none, Bool.false_or]
      cases b with
      | false => simp
      | true =>
        refine List.any_eq_true.mpr ⟨n, hn, ?_⟩
        simp
    rw [new]

/-- Rows that keep their id and incident keep the counts. -/
theorem processActions_congr {s t : Store}
    (rows : t.actions.rows.map (fun a => (a.id, a.incidentId)) =
      s.actions.rows.map fun a => (a.id, a.incidentId)) (created : List Creation) (i : Incident) :
    t.processActions created i = s.processActions created i := by
  have pairs : ∀ u : Store, u.processActions created i =
      (u.actions.rows.map fun a => (a.id, a.incidentId)).countP fun q =>
        decide (q.2 = i.id) && madeByProcess created q.1 := by
    intro u
    rw [List.countP_map]
    rfl
  rw [pairs, pairs, rows]

/-! ## What each change does to the books -/

/-- The kinds of audit rows that events and incidents are counted by. -/
def bookedKinds : List String :=
  ["event_recorded", "event_suppressed", "incident_created", "queue_backpressure"]

namespace Balanced

variable {s t : Store} {created : List Creation}

/-- A change that neither records an event nor creates an action. -/
theorem frame (h : Balanced s created) (rows : List AuditLog) (events : t.events = s.events)
    (incidents : t.incidents = s.incidents)
    (rules : ∀ k r, s.rules.find? k = some r → t.rules.find? k = some r)
    (actions : t.actions.rows.map (fun a => (a.id, a.incidentId)) =
      s.actions.rows.map fun a => (a.id, a.incidentId))
    (audits : t.audits = s.audits ++ rows) (foreign : ∀ r ∈ rows, r.eventType ∉ bookedKinds)
    (hits : t.hits = s.hits + rows.countP fun r => r.eventType = "idempotency_hit") :
    Balanced t created := by
  have kind : ∀ k ∈ bookedKinds, t.auditsOf k = s.auditsOf k := by
    intro k hk
    have none : rows.countP (fun r => r.eventType = k) = 0 := by
      refine List.countP_eq_zero.mpr fun r hr => ?_
      rw [decide_eq_true_eq]
      rintro rfl
      exact foreign r hr hk
    rw [auditsOf_append audits, none, Nat.add_zero]
  have unrejected : ∀ r ∈ rows, r.eventType ≠ "queue_backpressure" := by
    intro r hr same
    exact foreign r hr (by simp [same, bookedKinds])
  refine ⟨⟨?_, ?_, ?_, ?_, ?_, ?_⟩, ?_, ?_, ?_⟩
  · rw [events, incidents, kind _ (by decide), kind _ (by decide)]
    exact h.events
  · rw [incidents, kind _ (by decide), kind _ (by decide)]
    exact h.incidents
  · rw [incidents]
    exact h.distinct
  · rw [incidents, events]
    exact h.asset
  · intro i hi
    rw [incidents] at hi
    obtain ⟨rule, known, count⟩ := h.actions i hi
    refine ⟨rule, rules _ _ known, ?_⟩
    rw [processActions_congr actions, rejected_append audits i fun r hr same =>
      absurd same (unrejected r hr)]
    exact count
  · rw [hits, auditsOf_append audits, h.hits]
  · intro r hr same entity
    rw [incidents]
    rw [audits, List.mem_append] at hr
    rcases hr with old | new
    · exact h.rejections r old same entity
    · exact absurd same (unrejected r new)
  · intro a ha
    rw [incidents]
    have mem : (a.id, a.incidentId) ∈ s.actions.rows.map fun a => (a.id, a.incidentId) :=
      actions ▸ List.mem_map_of_mem ha
    obtain ⟨b, hb, same⟩ := List.mem_map.mp mem
    obtain ⟨i, hi, owner⟩ := h.owned b hb
    exact ⟨i, hi, owner.trans (congrArg Prod.snd same)⟩
  · intro c hc
    obtain ⟨a, ha, same⟩ := h.logged c hc
    have mem : (a.id, a.incidentId) ∈ t.actions.rows.map fun a => (a.id, a.incidentId) :=
      actions ▸ List.mem_map_of_mem ha
    obtain ⟨b, hb, keeps⟩ := List.mem_map.mp mem
    exact ⟨b, hb, (congrArg Prod.fst keeps).trans same⟩

/-- A change that keeps all tables the books are about. -/
theorem same (h : Balanced s created) (events : t.events = s.events)
    (incidents : t.incidents = s.incidents)
    (rules : ∀ k r, s.rules.find? k = some r → t.rules.find? k = some r)
    (actions : t.actions = s.actions) (audits : t.audits = s.audits) (hits : t.hits = s.hits) :
    Balanced t created :=
  h.frame [] events incidents rules (by rw [actions]) (by rw [audits, List.append_nil])
    (fun r hr => by cases hr) hits

/-- A follow-up of the sweep is not counted. -/
theorem followedUp (h : Balanced s created) {i : Incident} (mem : i ∈ s.incidents.rows)
    (staleMinutes : Int) (now : Instant) :
    Balanced (s.write [.insertAction (followUp s.actions.nextId i staleMinutes now)])
      (created ++ [followUp s.actions.nextId i staleMinutes now].map (Creation.mk false)) := by
  have rows := rows_insert_action_nextId s (followUp s.actions.nextId i staleMinutes now) rfl
  refine ⟨⟨h.events, h.incidents, h.distinct, h.asset, ?_, h.hits⟩, h.rejections, ?_, ?_⟩
  · intro j hj
    obtain ⟨rule, known, count⟩ := h.actions j hj
    refine ⟨rule, known, ?_⟩
    rw [processActions_append rows h.logged]
    simp only [Bool.and_false, List.countP_false]
    exact count
  · intro a ha
    rw [rows, List.mem_append, List.mem_singleton] at ha
    rcases ha with old | rfl
    · exact h.owned a old
    · exact ⟨i, mem, rfl⟩
  · intro c hc
    rw [rows]
    rcases List.mem_append.mp hc with old | new
    · obtain ⟨a, ha, same⟩ := h.logged c old
      exact ⟨a, List.mem_append_left _ ha, same⟩
    · obtain rfl := List.mem_singleton.mp new
      exact ⟨_, List.mem_append_right _ (List.mem_singleton_self _), rfl⟩

/-- No stored action belongs to an incident with a new id, and no stored audit row rejects it. -/
theorem unseen (h : Balanced s created) {i : Incident}
    (apart : ∀ j ∈ s.incidents.rows, j.id ≠ i.id) :
    s.processActions created i = 0 ∧ s.rejected i = false := by
  constructor
  · refine List.countP_eq_zero.mpr fun a ha => ?_
    obtain ⟨j, hj, owner⟩ := h.owned a ha
    have other : a.incidentId ≠ i.id := owner ▸ apart j hj
    simp [other]
  · refine List.any_eq_false.mpr fun r hr => ?_
    rw [decide_eq_true_eq]
    rintro ⟨kind, entity, same⟩
    obtain ⟨j, hj, owner⟩ := h.rejections r hr kind entity
    exact apart j hj (owner.trans same)

section New

variable {settings : Settings} {env : Surroundings} {p : EventBody} {o : Processed}

theorem hits_of_new (new : NewCase settings env p s o t) : t.hits = s.hits := by
  unfold Store.hits
  rw [new.records_eq]

/-- Old incidents keep their events. -/
theorem asset_kept (h : Balanced s created) (new : NewCase settings env p s o t) :
    ∀ i ∈ s.incidents.rows, ∃ e, t.events.find? i.eventId = some e ∧ e.assetId = i.assetId := by
  intro i hi
  obtain ⟨e, found, same⟩ := h.asset i hi
  refine ⟨e, ?_, same⟩
  rw [new.events_eq, Table.find?_insert, found]
  rfl

/-- An event for which nothing is opened is counted by its audit row. -/
theorem recorded (h : Balanced s created) (new : NewCase settings env p s o t)
    (incidents : t.incidents = s.incidents) (quiet : o.action = none) {entry : AuditLog}
    (audits : t.audits = s.audits ++ [entry])
    (kind : entry.eventType = "event_recorded" ∨ entry.eventType = "event_suppressed") :
    Balanced t created := by
  have counts := auditsOf_append audits
  have actions : t.actions.rows = s.actions.rows := by rw [new.rows_actions, quiet]; simp
  have unrejected : ∀ r ∈ [entry], r.eventType ≠ "queue_backpressure" := by
    intro r hr
    obtain rfl := List.mem_singleton.mp hr
    rcases kind with kind | kind <;> rw [kind] <;> decide
  refine ⟨⟨?_, ?_, ?_, ?_, ?_, ?_⟩, ?_, ?_, ?_⟩
  · rw [new.rows_events, incidents, counts, counts, List.length_append, h.events]
    rcases kind with kind | kind <;> simp [kind] <;> omega
  · rw [incidents, counts, counts, h.incidents]
    rcases kind with kind | kind <;> simp [kind]
  · rw [incidents]
    exact h.distinct
  · rw [incidents]
    exact h.asset_kept new
  · intro i hi
    rw [incidents] at hi
    obtain ⟨rule, known, count⟩ := h.actions i hi
    have kept : t.processActions created i = s.processActions created i :=
      processActions_congr (by rw [actions]) created i
    refine ⟨rule, by rw [new.rules_eq]; exact known, ?_⟩
    rw [kept, rejected_append audits i fun r hr same => absurd same (unrejected r hr)]
    exact count
  · rw [hits_of_new new, counts]
    rcases kind with kind | kind <;> simpa [kind] using h.hits
  · intro r hr same entity
    rw [incidents]
    rw [audits, List.mem_append] at hr
    rcases hr with old | new
    · exact h.rejections r old same entity
    · exact absurd same (unrejected r new)
  · rw [actions, incidents]
    exact h.owned
  · rw [actions]
    exact h.logged

/-- An event that opens an incident is counted by it, and the incident by its audit row. -/
theorem opened (h : Balanced s created) (new : NewCase settings env p s o t) {i : Incident}
    {rule : AutomationRule} {entry : AuditLog} (opened : Opened s t o i rule entry) :
    Balanced t (created ++ o.action.toList.map (Creation.mk true)) := by
  have counts := auditsOf_append opened.audits
  have apart : ∀ j ∈ s.incidents.rows, j.id ≠ i.id :=
    s.incidents.find?_eq_none_iff.mp opened.fresh
  have kinds : entry.eventType = "incident_created" ∨ entry.eventType = "queue_backpressure" :=
    opened.outcome.imp And.left And.left
  refine ⟨⟨?_, ?_, ?_, ?_, ?_, ?_⟩, ?_, ?_, ?_⟩
  · rw [new.rows_events, opened.incidents, counts, counts, List.length_append,
      List.length_append, h.events]
    rcases kinds with kind | kind <;> simp [kind] <;> omega
  · rw [opened.incidents, counts, counts, List.length_append, h.incidents]
    rcases kinds with kind | kind <;> simp [kind] <;> omega
  · rw [opened.incidents, List.map_append, List.map_singleton]
    refine List.Nodup.append h.distinct (List.nodup_singleton _) ?_
    rw [List.disjoint_singleton, List.mem_map]
    rintro ⟨j, hj, same⟩
    obtain ⟨e, found, -⟩ := h.asset j hj
    rw [same, opened.event, new.event_id, s.events.find?_nextId] at found
    cases found
  · intro j hj
    rw [opened.incidents, List.mem_append, List.mem_singleton] at hj
    rcases hj with old | rfl
    · exact h.asset_kept new j old
    · refine ⟨o.event, ?_, opened.asset.symm⟩
      rw [opened.event]
      exact new.find?_event
  · intro j hj
    rw [processActions_append new.rows_actions h.logged, new.rules_eq]
    rw [opened.incidents, List.mem_append, List.mem_singleton] at hj
    rcases hj with old | rfl
    · obtain ⟨rule', known, count⟩ := h.actions j old
      refine ⟨rule', known, ?_⟩
      have none : o.action.toList.countP (fun a => decide (a.incidentId = j.id) && true) = 0 := by
        refine List.countP_eq_zero.mpr fun a ha => ?_
        rw [opened.created a (by simpa using ha)]
        simp [(apart j old).symm]
      rw [none, Nat.add_zero, rejected_append opened.audits j fun r hr _ => ?_]
      · exact count
      · obtain rfl := List.mem_singleton.mp hr
        rw [opened.entity.2]
        exact (apart j old).symm
    · refine ⟨rule, opened.known, ?_⟩
      obtain ⟨noAction, unrejected⟩ := h.unseen apart
      have rejected : t.rejected j = decide (entry.eventType = "queue_backpressure") := by
        unfold Store.rejected at unrejected ⊢
        rw [opened.audits, List.any_append, unrejected]
        simp [opened.entity]
      rw [noAction, rejected, Nat.zero_add]
      rcases opened.outcome with ⟨kind, wanted⟩ | ⟨kind, none⟩
      · cases action : o.action with
        | none => simp [wanted.mp action]
        | some a =>
          have wants : rule.actionType ≠ "none" := fun none => by
            rw [wanted.mpr none] at action; cases action
          simp [kind, wants, opened.created a action]
      · simp [kind, none]
  · rw [hits_of_new new, counts]
    rcases kinds with kind | kind <;> simpa [kind] using h.hits
  · intro r hr kind entity
    rw [opened.incidents]
    rw [opened.audits, List.mem_append, List.mem_singleton] at hr
    rcases hr with old | rfl
    · obtain ⟨j, hj, same⟩ := h.rejections r old kind entity
      exact ⟨j, List.mem_append_left _ hj, same⟩
    · exact ⟨i, List.mem_append_right _ (List.mem_singleton_self i), opened.entity.2.symm⟩
  · intro a ha
    rw [opened.incidents]
    rw [new.rows_actions, List.mem_append, Option.mem_toList] at ha
    rcases ha with old | new
    · obtain ⟨j, hj, same⟩ := h.owned a old
      exact ⟨j, List.mem_append_left _ hj, same⟩
    · exact ⟨i, List.mem_append_right _ (List.mem_singleton_self i),
        (opened.created a new).symm⟩
  · intro c hc
    rw [new.rows_actions]
    rcases List.mem_append.mp hc with old | made
    · obtain ⟨a, ha, same⟩ := h.logged c old
      exact ⟨a, List.mem_append_left _ ha, same⟩
    · obtain ⟨a, ha, rfl⟩ := List.mem_map.mp made
      exact ⟨a, List.mem_append_right _ ha, rfl⟩

end New

/-- Every change keeps the books balanced. -/
theorem change (h : Balanced s created) {c : Command} {as : List Action}
    (change : Change c s as t) :
    Balanced t (created ++ as.map (Creation.mk c.isProcess)) := by
  have unchanged : Balanced t created → as = [] →
      Balanced t (created ++ as.map (Creation.mk c.isProcess)) := by
    rintro balanced rfl
    simpa using balanced
  cases change with
  | asset a fresh =>
    exact unchanged (h.same rfl rfl (fun _ _ known => known) rfl rfl rfl) rfl
  | rule r fresh =>
    refine unchanged (h.same rfl rfl (fun k r' known => ?_) rfl rfl rfl) rfl
    change (s.rules.insert r).find? k = some r'
    rw [Table.find?_insert, known]
    rfl
  | @new settings env p s t o process new =>
    rw [process]
    rcases new.added with ⟨-, quiet, incidents, entry, audits, kind⟩ | ⟨i, rule, entry, opened⟩
    · rw [quiet]
      simpa using h.recorded new incidents quiet audits kind
    · exact h.opened new opened
  | claimed key now vacant =>
    refine unchanged (h.same rfl rfl (fun _ _ known => known) rfl rfl ?_) rfl
    have rows : (s.records.insert (newRecord s.records.nextId key now)).rows =
        s.records.rows ++ [newRecord s.records.nextId key now] :=
      s.records.rows_insert_of_fresh s.records.find?_nextId
    change ((s.records.insert _).rows.map _).sum = _
    rw [rows]
    simp [Store.hits, newRecord]
  | completed id o now stored =>
    refine unchanged (h.same rfl rfl (fun _ _ known => known) rfl rfl ?_) rfl
    change ((s.records.modify id _
      (IdempotencyRecord.key_complete o.columns now)).rows.map _).sum = _
    rw [Table.rows_modify, List.map_map]
    refine congrArg List.sum (List.map_congr_left fun r _ => ?_)
    simp only [Function.comp_apply]
    split <;> rfl
  | replayed record now mem =>
    refine unchanged (h.frame [idempotencyHit record now] rfl rfl
      (fun _ _ known => known) rfl rfl ?_ ?_) rfl
    · intro r hr
      obtain rfl := List.mem_singleton.mp hr
      simp [idempotencyHit, bookedKinds]
    · exact s.records.sum_modify (IdempotencyRecord.key_hit now) (fun _ => rfl) mem
  | @attempted args a succeeded detail s t limit attempt =>
    refine unchanged (h.frame _ attempt.events_eq attempt.incidents_eq ?_ ?_ attempt.audits_eq
      ?_ ?_) rfl
    · intro k r known
      rw [attempt.rules_eq]
      exact known
    · rw [attempt.rows, List.map_map]
      refine List.map_congr_left fun r hr => ?_
      by_cases same : r.id = a.id
      · obtain rfl : r = a :=
          s.actions.eq_of_key_eq hr (s.actions.mem_of_find? attempt.current) same
        simp [Action.outcome_eq, Action.attempt]
      · simp [same]
    · intro r hr
      obtain rfl := List.mem_singleton.mp hr
      simp [Action.executed, bookedKinds]
    · simp [Store.hits, attempt.records_eq, Action.executed]
  | followedUp i staleMinutes now process mem =>
    rw [process]
    exact h.followedUp mem staleMinutes now
  | job row => exact unchanged (h.same rfl rfl (fun _ _ known => known) rfl rfl rfl) rfl
  | check checks row kind =>
    refine unchanged (h.frame [row] rfl rfl (fun _ _ known => known) rfl rfl ?_ ?_) rfl
    · intro r hr
      obtain rfl := List.mem_singleton.mp hr
      rcases kind with kind | kind <;> rw [kind] <;> decide
    · rcases kind with kind | kind <;> simp [kind, Store.hits]

end Balanced

/-- In every run without a reset, each event and each incident is accounted for. -/
theorem accounted_of_run (b : Begin) (assets : Table Asset) (rules : Table AutomationRule)
    (cs : List Command) (going : ∀ c ∈ cs, c.isReset = false) (j : Journal)
    (run : (journal b).run ⟨Store.seeded assets rules, []⟩ cs = some j) :
    EventsAccounted j.store j.created := by
  have start : Balanced (Store.seeded assets rules) [] := by
    refine ⟨⟨rfl, rfl, List.nodup_nil, ?_, ?_, rfl⟩, ?_, ?_, ?_⟩ <;> intro r hr <;> cases hr
  have balanced : Balanced j.store j.created :=
    journal_invariant (A := fun _ => True) (I := Balanced) (fun _ h change => h.change change)
      (fun c hc => ⟨going c hc, trivial⟩) start run
  exact balanced.toEventsAccounted

/-- An event, its follow-up and a suppressed event of the demo data. -/
def demoDay : List Command :=
  [.process ⟨⟨1000⟩, ⟨0, "0"⟩, pumpOffline⟩, .healthSweep (minutes 30) 30,
    .process ⟨⟨1000⟩, ⟨minutes 1, "1"⟩, pumpBatteryLow⟩]

theorem accounted_demoDay : ∃ j : Journal,
    (journal .beforeChange).run ⟨demo, []⟩ demoDay = some j ∧
    j.store.events.rows.length = 2 ∧ j.store.actions.rows.length = 2 ∧
    j.created.map Creation.byProcess = [true, false] ∧ EventsAccounted j.store j.created :=
  ⟨_, rfl, by decide, by decide, by decide,
    accounted_of_run .beforeChange demoAssets demoRules demoDay (by decide) _ rfl⟩

end SupportOps.Python
