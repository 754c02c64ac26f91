import SupportOps.DotNet.ConcurrentBatches

/-!
# The reset among ingestions

`ResetAsync` deletes the four tables one after another, each delete committed by itself. An
ingestion that opens an incident between the first and the last of them leaves rows whose
incident or event the later deletes take away. While none does, every reference holds in every
state, whatever the batches and the other ingestions do.
-/
namespace SupportOps.DotNet

open Library

/-! ## Resets -/

/-- The statements of `ResetAsync`, in their order. -/
inductive ResetDelete where
  | auditLogs | actions | incidents | events
  deriving DecidableEq, Repr

def ResetDelete.apply : ResetDelete → Store → Store
  | .auditLogs, s => { s with audits := [] }
  | .actions, s => { s with actions := .empty }
  | .incidents, s => { s with incidents := .empty }
  | .events, s => { s with events := .empty }

/-- The statement that follows. -/
def ResetDelete.next : ResetDelete → Option ResetDelete
  | .auditLogs => some .actions
  | .actions => some .incidents
  | .incidents => some .events
  | .events => none

/-- Batches and ingestions, with the next statement of every reset that has begun. -/
structure Resetting (ι κ : Type) where
  processing : Processing ι
  resets : κ → Option ResetDelete

inductive ResetStep (ι κ : Type) where
  | process (l : ProcessStep ι)
  /-- the next delete of a reset, its first one included -/
  | reset (k : κ)

section Machine

variable {ι κ : Type} [DecidableEq ι] [DecidableEq κ] (culture : Culture)
  (options : OpsProcessingOptions)

def Resetting.step (w : Resetting ι κ) : ResetStep ι κ → Option (Resetting ι κ)
  | .process l => (w.processing.step culture options l).map fun p => { w with processing := p }
  | .reset k =>
    let delete := (w.resets k).getD .auditLogs
    some {
      processing := { w.processing with stored := delete.apply w.processing.stored }
      resets := Function.update w.resets k delete.next }

/-- Every interleaving of ingestions, batches and resets. -/
def resetting : Machine (Resetting ι κ) (ResetStep ι κ) := ⟨Resetting.step culture options⟩

def Resetting.initial : Resetting ι κ := ⟨.initial, fun _ => none⟩

end Machine

/-! ## References -/

/-- Every action has its incident, every incident its event, and the audit rows about a new
incident or action refer to one that is stored. -/
structure References (s : Store) : Prop where
  action : ∀ a ∈ s.actions.rows, ∃ i ∈ s.incidents.rows, i.id = a.incidentId
  incident : ∀ i ∈ s.incidents.rows, ∃ e ∈ s.events.rows, e.id = i.eventId
  queued : ∀ r ∈ s.audits, r.eventType = .actionQueued →
    ∃ a ∈ s.actions.rows, a.id = r.entityId
  opened : ∀ r ∈ s.audits, r.eventType = .incidentCreated →
    ∃ i ∈ s.incidents.rows, i.id = r.entityId

/-- The audit row is about a new incident or action. -/
def AuditLogEntry.announces (r : AuditLogEntry) : Bool :=
  r.eventType = .actionQueued ∨ r.eventType = .incidentCreated

/-- The call will open an incident. -/
def DecisionCall.opens (c : DecisionCall) (s : Store) : Bool :=
  c.createIncident && (c.recentOpenIncident s).isNone

/-- No ingestion opens an incident while a reset is between its first and its last delete. -/
def OpensOutsideResets {ι κ : Type} (w : Resetting ι κ) : ResetStep ι κ → Prop
  | .process (.ingest call) => call.opens w.processing.stored = true → ∀ k, w.resets k = none
  | _ => True

/-- What the deletes that come before one have left empty. -/
structure Cleared (d : ResetDelete) (s : Store) : Prop where
  audits : d ≠ .auditLogs → ∀ r ∈ s.audits, r.announces = false
  actions : d = .incidents ∨ d = .events → s.actions.rows = []
  incidents : d = .events → s.incidents.rows = []

/-! ## Ingestion -/

section Ingestion

variable {culture : Culture} {c : DecisionCall} {s t : Store} {r : EventIngestionResult}

/-- Rows stay when others are added to the four tables. -/
theorem References.grow (h : References s) (events : s.events.rows ⊆ t.events.rows)
    (incidents : s.incidents.rows ⊆ t.incidents.rows) (actions : s.actions.rows ⊆ t.actions.rows)
    (action : ∀ a ∈ t.actions.rows, a ∈ s.actions.rows ∨
      ∃ i ∈ t.incidents.rows, i.id = a.incidentId)
    (incident : ∀ i ∈ t.incidents.rows, i ∈ s.incidents.rows ∨
      ∃ e ∈ t.events.rows, e.id = i.eventId)
    (audit : ∀ r ∈ t.audits, r ∈ s.audits ∨ r.announces = false ∨
      (r.eventType = .actionQueued ∧ ∃ a ∈ t.actions.rows, a.id = r.entityId) ∨
      (r.eventType = .incidentCreated ∧ ∃ i ∈ t.incidents.rows, i.id = r.entityId)) :
    References t := by
  refine ⟨?_, ?_, ?_, ?_⟩
  · intro a ha
    rcases action a ha with old | new
    · obtain ⟨i, hi, owner⟩ := h.action a old
      exact ⟨i, incidents hi, owner⟩
    · exact new
  · intro i hi
    rcases incident i hi with old | new
    · obtain ⟨e, he, owner⟩ := h.incident i old
      exact ⟨e, events he, owner⟩
    · exact new
  · intro r hr kind
    rcases audit r hr with old | silent | ⟨-, new⟩ | ⟨other, -⟩
    · obtain ⟨a, ha, same⟩ := h.queued r old kind
      exact ⟨a, actions ha, same⟩
    · simp [AuditLogEntry.announces, kind] at silent
    · exact new
    · rw [kind] at other
      cases other
  · intro r hr kind
    rcases audit r hr with old | silent | ⟨other, -⟩ | ⟨-, new⟩
    · obtain ⟨i, hi, same⟩ := h.opened r old kind
      exact ⟨i, incidents hi, same⟩
    · simp [AuditLogEntry.announces, kind] at silent
    · rw [kind] at other
      cases other
    · exact new

/-- Two audit rows are added, and neither is about a new incident or action. -/
theorem References.silent (h : References s) (events : s.events.rows ⊆ t.events.rows)
    (incidents : t.incidents = s.incidents) (actions : t.actions = s.actions)
    (rows : List AuditLogEntry) (audits : t.audits = s.audits ++ rows)
    (silent : ∀ r ∈ rows, r.announces = false) : References t := by
  refine h.grow events (by rw [incidents]; exact List.Subset.refl _)
    (by rw [actions]; exact List.Subset.refl _) ?_ ?_ ?_
  · rw [actions]
    exact fun a ha => .inl ha
  · rw [incidents]
    exact fun i hi => .inl hi
  · intro r hr
    rw [audits, List.mem_append] at hr
    exact hr.imp_right fun new => .inl (silent r new)

theorem References.recorded (h : References s)
    (fresh : s.events.find? c.operationEvent.id = none) (recorded : Recorded culture c s r t) :
    References t := by
  have events : s.events.rows ⊆ (s.events.insert c.operationEvent).rows :=
    s.events.rows_subset_insert _
  have event : ∃ e ∈ (s.events.insert c.operationEvent).rows, e.id = c.incident.eventId :=
    ⟨c.operationEvent, s.events.mem_insert_self fresh, rfl⟩
  cases recorded with
  | ignored worthless =>
    refine h.silent (t := s.write _) events rfl rfl [c.eventReceived, c.normalEventRecorded]
      (List.append_assoc ..) fun r hr => ?_
    simp only [List.mem_cons, List.not_mem_nil, or_false] at hr
    rcases hr with rfl | rfl <;> rfl
  | suppressed recent worthy found =>
    refine h.silent (t := s.write _) events rfl rfl
      [c.eventReceived, c.cooldownSuppressed culture recent] (List.append_assoc ..)
      fun r hr => ?_
    simp only [List.mem_cons, List.not_mem_nil, or_false] at hr
    rcases hr with rfl | rfl <;> rfl
  | incidentCreated worthy clear new noAction =>
    have stored : c.incident ∈ (s.incidents.insert c.incident).rows :=
      s.incidents.mem_insert_self new
    refine h.grow (t := s.write _) events (s.incidents.rows_subset_insert _)
      (List.Subset.refl _) (fun a ha => .inl ha) ?_ ?_
    · intro i hi
      rcases s.incidents.mem_of_mem_insert hi with old | rfl
      · exact .inl old
      · exact .inr event
    · intro r hr
      simp only [Store.write, List.foldl, Write.apply, List.mem_append, List.mem_singleton] at hr
      rcases hr with (old | rfl) | rfl
      · exact .inl old
      · exact .inr (.inl rfl)
      · exact .inr (.inr (.inr ⟨rfl, c.incident, stored, rfl⟩))
  | actionQueued worthy clear new queues newAction =>
    have stored : c.incident ∈ (s.incidents.insert c.incident).rows :=
      s.incidents.mem_insert_self new
    have queued : c.action ∈ (s.actions.insert c.action).rows :=
      s.actions.mem_insert_self newAction
    refine h.grow (t := s.write _) events (s.incidents.rows_subset_insert _)
      (s.actions.rows_subset_insert _) ?_ ?_ ?_
    · intro a ha
      rcases s.actions.mem_of_mem_insert ha with old | rfl
      · exact .inl old
      · exact .inr ⟨c.incident, stored, rfl⟩
    · intro i hi
      rcases s.incidents.mem_of_mem_insert hi with old | rfl
      · exact .inl old
      · exact .inr event
    · intro r hr
      simp only [Store.write, List.foldl, Write.apply, List.mem_append, List.mem_singleton] at hr
      rcases hr with ((old | rfl) | rfl) | rfl
      · exact .inl old
      · exact .inr (.inl rfl)
      · exact .inr (.inr (.inr ⟨rfl, c.incident, stored, rfl⟩))
      · exact .inr (.inr (.inl ⟨rfl, c.action, queued, rfl⟩))

/-- An ingestion that opens no incident adds nothing a reset has deleted before. -/
theorem Cleared.recorded {d : ResetDelete} (h : Cleared d s) (recorded : Recorded culture c s r t)
    (closed : c.opens s = false) : Cleared d t := by
  have opens : ∀ {P : Prop}, c.createIncident = true → c.recentOpenIncident s = none → P := by
    intro P worthy clear
    simp [DecisionCall.opens, worthy, clear] at closed
  cases recorded with
  | ignored worthless =>
    refine ⟨fun ne r hr => ?_, h.actions, h.incidents⟩
    simp only [Store.write, List.foldl, Write.apply, List.mem_append, List.mem_singleton] at hr
    rcases hr with (old | rfl) | rfl
    · exact h.audits ne r old
    · rfl
    · rfl
  | suppressed recent worthy found =>
    refine ⟨fun ne r hr => ?_, h.actions, h.incidents⟩
    simp only [Store.write, List.foldl, Write.apply, List.mem_append, List.mem_singleton] at hr
    rcases hr with (old | rfl) | rfl
    · exact h.audits ne r old
    · rfl
    · rfl
  | incidentCreated worthy clear new noAction => exact opens worthy clear
  | actionQueued worthy clear new queues newAction => exact opens worthy clear

end Ingestion

/-! ## Batches and deletes -/

/-- A row written back keeps its id and its incident. -/
theorem References.updateAction {s : Store} (h : References s) (a : QueuedAction) :
    References ((Write.updateAction a).apply s) := by
  have rows : ∀ x ∈ ((Write.updateAction a).apply s).actions.rows,
      ∃ y ∈ s.actions.rows, x.incidentId = y.incidentId := by
    intro x hx
    change x ∈ (s.actions.modify a.id a.updated a.key_updated).rows at hx
    obtain ⟨y, hy, rfl⟩ := s.actions.mem_modify.mp hx
    refine ⟨y, hy, ?_⟩
    split <;> rfl
  refine ⟨?_, h.incident, ?_, h.opened⟩
  · intro x hx
    obtain ⟨y, hy, same⟩ := rows x hx
    rw [same]
    exact h.action y hy
  · intro r hr kind
    obtain ⟨y, hy, same⟩ := h.queued r hr kind
    refine ⟨if Keyed.key y = a.id then a.updated y else y, ?_, ?_⟩
    · change _ ∈ (s.actions.modify a.id a.updated a.key_updated).rows
      exact s.actions.mem_modify.mpr ⟨y, hy, rfl⟩
    · split <;> exact same

theorem Cleared.updateAction {d : ResetDelete} {s : Store} (h : Cleared d s) (a : QueuedAction) :
    Cleared d ((Write.updateAction a).apply s) := by
  refine ⟨h.audits, fun gone => ?_, h.incidents⟩
  change (s.actions.modify a.id a.updated a.key_updated).rows = []
  rw [Table.rows_modify, h.actions gone]
  rfl

theorem Cleared.addAudit {d : ResetDelete} {s : Store} (h : Cleared d s) {r : AuditLogEntry}
    (silent : r.announces = false) : Cleared d ((Write.addAudit r).apply s) := by
  refine ⟨fun ne x hx => ?_, h.actions, h.incidents⟩
  rcases List.mem_append.mp hx with old | new
  · exact h.audits ne x old
  · obtain rfl := List.mem_singleton.mp new
    exact silent

/-- What a delete takes away is not referred to any more. -/
theorem References.delete {s : Store} (h : References s) {d : ResetDelete} (cleared : Cleared d s) :
    References (d.apply s) := by
  have none : ∀ {r : AuditLogEntry} {P : Prop}, d ≠ .auditLogs → r ∈ s.audits →
      r.eventType = .actionQueued ∨ r.eventType = .incidentCreated → P := by
    intro r P ne hr kind
    have silent := cleared.audits ne r hr
    simp [AuditLogEntry.announces, kind] at silent
  cases d with
  | auditLogs =>
    exact ⟨h.action, h.incident, fun r hr => (by cases hr), fun r hr => (by cases hr)⟩
  | actions =>
    exact ⟨fun a ha => (by cases ha), h.incident,
      fun r hr kind => none (by decide) hr (.inl kind), h.opened⟩
  | incidents =>
    refine ⟨?_, fun i hi => (by cases hi), h.queued,
      fun r hr kind => none (by decide) hr (.inr kind)⟩
    intro a ha
    change a ∈ s.actions.rows at ha
    rw [cleared.actions (.inl rfl)] at ha
    cases ha
  | events =>
    refine ⟨h.action, ?_, h.queued, h.opened⟩
    intro i hi
    change i ∈ s.incidents.rows at hi
    rw [cleared.incidents rfl] at hi
    cases hi

/-- A delete empties nothing less than what was empty. -/
theorem Cleared.delete {s : Store} {e : ResetDelete} (h : Cleared e s) (d : ResetDelete) :
    Cleared e (d.apply s) := by
  cases d with
  | auditLogs => exact ⟨fun _ r hr => (by cases hr), h.actions, h.incidents⟩
  | actions => exact ⟨h.audits, fun _ => rfl, h.incidents⟩
  | incidents => exact ⟨h.audits, h.actions, fun _ => rfl⟩
  | events => exact ⟨h.audits, h.actions, h.incidents⟩

/-- Each delete hands the next one what it relies on. -/
theorem Cleared.next {s : Store} {d e : ResetDelete} (h : Cleared d s) (next : d.next = some e) :
    Cleared e (d.apply s) := by
  cases d with
  | auditLogs =>
    cases next
    exact ⟨fun _ r hr => (by cases hr), fun gone => (by simp at gone), fun gone => (by cases gone)⟩
  | actions =>
    cases next
    exact ⟨fun _ => h.audits (by decide), fun _ => rfl, fun gone => (by cases gone)⟩
  | incidents =>
    cases next
    exact ⟨fun _ => h.audits (by decide), fun _ => h.actions (.inl rfl), fun _ => rfl⟩
  | events => cases next

/-! ## Runs -/

/-- The audit row of an attempt is about neither a new incident nor a new action. -/
theorem attempt_announces (options : OpsProcessingOptions) (a : QueuedAction) (now : Instant) :
    (attempt options a now).audit.announces = false := by
  simp only [attempt]
  split
  · rfl
  · split
    · rfl
    · simp only [AuditLogEntry.announces]
      split <;> rfl

section Invariant

variable {ι κ : Type} {culture : Culture} {options : OpsProcessingOptions}

/-- Next to the references, what resets have cleared and what batches are about to write. -/
structure Intact (w : Resetting ι κ) : Prop where
  references : References w.processing.stored
  cleared : ∀ k d, w.resets k = some d → Cleared d w.processing.stored
  silent : ∀ i b x, w.processing.batches i = some b →
    b.phase = .update x ∨ b.phase = .audit x → x.audit.announces = false

theorem Intact.initial : Intact (Resetting.initial : Resetting ι κ) := by
  refine ⟨⟨?_, ?_, ?_, ?_⟩, fun k d hd => (by cases hd), fun i b x hb => (by cases hb)⟩ <;>
    intro x hx <;> cases hx

/-- A batch that goes on holds the rows of its step. -/
theorem Intact.batch [DecidableEq ι] {w : Resetting ι κ} (h : Intact w) {i : ι}
    {new : Option Batch} (silent : ∀ b x, new = some b → b.phase = .update x ∨ b.phase = .audit x →
      x.audit.announces = false) {p : Processing ι}
    (batches : p.batches = (w.processing.setBatch i new).batches)
    (references : References p.stored)
    (cleared : ∀ k d, w.resets k = some d → Cleared d p.stored) :
    Intact { w with processing := p } := by
  refine ⟨references, cleared, fun j b x hb phase => ?_⟩
  change p.batches j = some b at hb
  rw [batches] at hb
  rcases batches_setBatch hb with ⟨-, own⟩ | ⟨-, old⟩
  · exact silent b x own phase
  · exact h.silent j b x old phase

theorem Intact.process [DecidableEq ι] {w : Resetting ι κ} (h : Intact w) {l : ProcessStep ι}
    {p : Processing ι} (outside : OpensOutsideResets w (.process l))
    (step : Processed culture options w.processing l p) : Intact { w with processing := p } := by
  cases step with
  | ingested call r t ok =>
    obtain ⟨fresh, recorded⟩ := recorded_of_recordIngestionDecision ok
    refine ⟨h.references.recorded fresh recorded, fun k d hd => ?_, h.silent⟩
    refine (h.cleared k d hd).recorded recorded ?_
    cases opens : call.opens w.processing.stored with
    | false => rfl
    | true =>
      have idle := outside opens k
      rw [hd] at idle
      cases idle
  | refused call => exact h
  | read i limit now result idle =>
    refine h.batch ?_ rfl h.references h.cleared
    rintro b x ⟨⟩ (phase | phase) <;> cases phase
  | returned i now result here =>
    refine h.batch ?_ rfl h.references h.cleared
    rintro b x new
    cases new
  | executed i now action todo result here =>
    refine h.batch ?_ rfl h.references h.cleared
    rintro b x ⟨⟩ (phase | phase) <;> cases phase
    exact attempt_announces options action now
  | updated i now attempted todo result here =>
    have silent := h.silent i _ attempted here (.inl rfl)
    refine h.batch ?_ rfl (h.references.updateAction _)
      fun k d hd => (h.cleared k d hd).updateAction _
    rintro b x ⟨⟩ (phase | phase) <;> cases phase
    exact silent
  | audited i now attempted todo result after here =>
    have silent := h.silent i _ attempted here (.inr rfl)
    refine h.batch ?_ rfl ?_ fun k d hd => (h.cleared k d hd).addAudit silent
    · rintro b x ⟨⟩ (phase | phase) <;> cases phase
    · refine h.references.silent (List.Subset.refl _) rfl rfl [attempted.audit] rfl
        fun r hr => ?_
      obtain rfl := List.mem_singleton.mp hr
      exact silent

theorem Intact.reset [DecidableEq κ] {w : Resetting ι κ} (h : Intact w) (k : κ) :
    Intact {
      processing := { w.processing with
        stored := ((w.resets k).getD .auditLogs).apply w.processing.stored }
      resets := Function.update w.resets k ((w.resets k).getD .auditLogs).next } := by
  have here : Cleared ((w.resets k).getD .auditLogs) w.processing.stored := by
    cases resets : w.resets k with
    | none =>
      exact ⟨fun ne => absurd rfl ne, fun gone => (by simp at gone), fun gone => (by cases gone)⟩
    | some d => exact h.cleared k d resets
  refine ⟨h.references.delete here, fun j d hd => ?_, h.silent⟩
  change Function.update w.resets k _ j = some d at hd
  by_cases same : j = k
  · subst same
    rw [Function.update_self] at hd
    exact here.next hd
  · rw [Function.update_of_ne same] at hd
    exact (h.cleared j d hd).delete _

/-- While ingestions open incidents only outside of resets, every reference holds in every state
of every interleaving, whether a reset is in progress or not. -/
theorem references_of_opensOutsideResets [DecidableEq ι] [DecidableEq κ] (culture : Culture)
    (options : OpsProcessingOptions) (ls : List (ResetStep ι κ))
    (outside : (resetting culture options).Along OpensOutsideResets Resetting.initial ls)
    (w : Resetting ι κ) (run : (resetting culture options).run Resetting.initial ls = some w) :
    References w.processing.stored := by
  refine ((resetting culture options).run_invariant_of_along (I := Intact) ?_ outside
    Intact.initial run).references
  intro w l u admitted h step
  cases l with
  | process l =>
    obtain ⟨p, processed, rfl⟩ := Option.map_eq_some_iff.mp step
    exact h.process admitted (processed_of_step culture options processed)
  | reset k =>
    cases step
    exact h.reset k

end Invariant

/-! ## An outage during a reset -/

/-- The same outage is reported again. -/
def outageRepeated (id : String) : ProcessStep Bool :=
  .ingest (decisionCall {} { transientOutage with id := "evt_" ++ id } 0 ⟨id, id, id, []⟩)

/-- An outage is ingested and a batch works on its action while the store is reset; a repeated
report between two of the deletes is suppressed. Another one after the reset opens an incident
again, and a batch works on its action. -/
def quietReset : List (ResetStep Bool Unit) :=
  [.process outageIngested, .process (.processPending false 100 0 []),
    .process (.advance false 0), .reset (), .process (.advance false 0),
    .process (outageRepeated "2"), .reset (), .process (.advance false 0),
    .process (.advance false 0), .reset (), .reset (), .process (outageRepeated "3")] ++
    (wholeBatch true 1 0).map .process

instance {ι κ : Type} [Fintype κ] (w : Resetting ι κ) (l : ResetStep ι κ) :
    Decidable (OpensOutsideResets w l) := by
  unfold OpensOutsideResets
  split <;> infer_instance

theorem references_quietReset : ∃ w : Resetting Bool Unit,
    (resetting asciiCulture {}).run Resetting.initial quietReset = some w ∧
    (∀ k, w.resets k = none) ∧
    w.processing.executions = [(false, "act_1"), (true, "act_3")] ∧
    w.processing.stored.incidents.rows.map Incident.eventId = ["evt_3"] ∧
    w.processing.stored.actions.rows.map QueuedAction.incidentId = ["inc_3"] ∧
    References w.processing.stored :=
  ⟨_, rfl, by decide, by decide, by decide, by decide,
    references_of_opensOutsideResets asciiCulture {} quietReset (by decide) _ rfl⟩

/-- The outage is ingested after the reset has deleted the actions: the action and the audit rows
stay, and the incident and the event go. -/
theorem orphans_after_reset : ∃ w : Resetting Bool Unit,
    (resetting asciiCulture {}).run Resetting.initial
      [.reset (), .reset (), .process outageIngested, .reset (), .reset ()] = some w ∧
    (∀ k, w.resets k = none) ∧
    w.processing.stored.actions.rows.map QueuedAction.incidentId = ["inc_1"] ∧
    w.processing.stored.incidents.rows = [] ∧
    ¬ References w.processing.stored := by
  refine ⟨_, rfl, by decide, by decide, rfl, ?_⟩
  intro references
  obtain ⟨i, hi, -⟩ := references.action _ (List.mem_singleton_self _)
  cases hi

end SupportOps.DotNet
