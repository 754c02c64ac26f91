import SupportOps.Python.Service

/-!
# Column lengths

The lengths that `models.py` declares for the `String` columns, beside the bounds that the
request schemas declare for what is written there. SQLite stores a value of any length, so the
lengths are a predicate on stores here; a database that enforces them refuses the statement
after which the predicate would fail. Two values are bounded by less than what is copied into
them: an asset's status takes the category of an event, and the summary of an incident joins
a rule's name, an asset's external id and that category.
-/
namespace SupportOps.Python

open Library

/-! ## Rows within their columns -/

def Asset.Fits (a : Asset) : Prop := a.externalId.length ≤ 80 ∧ a.status.length ≤ 40

def AutomationRule.Fits (r : AutomationRule) : Prop :=
  r.name.length ≤ 120 ∧ r.category.length ≤ 80 ∧ r.actionType.length ≤ 80

def OperationalEvent.Fits (e : OperationalEvent) : Prop :=
  e.source.length ≤ 120 ∧ e.category.length ≤ 80 ∧ e.correlationId.length ≤ 80

def Incident.Fits (i : Incident) : Prop := i.state.value.length ≤ 40 ∧ i.summary.length ≤ 200

def Action.Fits (a : Action) : Prop :=
  a.actionType.length ≤ 80 ∧ a.state.value.length ≤ 40 ∧ ∀ lease ∈ a.leaseId, lease.length ≤ 80

def AuditLog.Fits (l : AuditLog) : Prop := l.eventType.length ≤ 80 ∧ l.entityType.length ≤ 80

def IdempotencyRecord.Fits (r : IdempotencyRecord) : Prop :=
  r.key.length ≤ 120 ∧ ∀ reason ∈ r.skippedReason, reason.value.length ≤ 80

def JobRun.Fits (j : JobRun) : Prop := j.name.length ≤ 120 ∧ j.status.length ≤ 40

def CheckRun.Fits (c : CheckRun) : Prop :=
  c.name.length ≤ 120 ∧ c.assetExternalId.length ≤ 80 ∧ c.state.value.length ≤ 40

/-- No stored value is longer than its column. -/
structure Store.Fits (s : Store) : Prop where
  assets : ∀ a ∈ s.assets.rows, a.Fits
  rules : ∀ r ∈ s.rules.rows, r.Fits
  events : ∀ e ∈ s.events.rows, e.Fits
  incidents : ∀ i ∈ s.incidents.rows, i.Fits
  actions : ∀ a ∈ s.actions.rows, a.Fits
  audits : ∀ l ∈ s.audits, l.Fits
  records : ∀ r ∈ s.records.rows, r.Fits
  jobs : ∀ j ∈ s.jobs, j.Fits
  checks : ∀ c ∈ s.checks.rows, c.Fits

/-- The values that a statement writes fit their columns. -/
def Write.Fits : Write → Prop
  | .setAssetStatus _ status => status.length ≤ 40
  | .insertEvent row => row.Fits
  | .insertIncident row => row.Fits
  | .insertAction row => row.Fits
  | .updateAction u => (∀ state ∈ u.state, state.value.length ≤ 40) ∧
      ∀ column ∈ u.leaseId, ∀ lease ∈ column, lease.length ≤ 80
  | .insertAudit row => row.Fits
  | .insertRecord row => row.Fits
  | .completeRecord _ columns _ => ∀ reason ∈ columns.skippedReason, reason.value.length ≤ 80
  | .hitRecord _ _ => True
  | .insertJob row => row.Fits
  | .insertCheck row => row.Fits
  | .updateCheck u => ∀ state ∈ u.state, state.value.length ≤ 40

/-! ## Statements that keep the lengths -/

/-- The values of an enumeration fit the column they are stored in. -/
theorem IncidentState.length_value (state : IncidentState) : state.value.length ≤ 40 := by
  cases state <;> decide

theorem ActionState.length_value (state : ActionState) : state.value.length ≤ 40 := by
  cases state <;> decide

theorem SkippedReason.length_value (reason : SkippedReason) : reason.value.length ≤ 80 := by
  cases reason <;> decide

namespace Store.Fits

variable {s : Store}

theorem apply (h : s.Fits) (w : Write) (fits : w.Fits) : (w.apply s).Fits := by
  cases w with
  | setAssetStatus id status =>
    exact { h with
      assets := s.assets.forall_modify h.assets (Asset.key_withStatus status)
        fun a ha => ⟨ha.1, fits⟩ }
  | insertEvent row => exact { h with events := s.events.forall_insert h.events fits }
  | insertIncident row => exact { h with incidents := s.incidents.forall_insert h.incidents fits }
  | insertAction row => exact { h with actions := s.actions.forall_insert h.actions fits }
  | updateAction u =>
    refine { h with
      actions := s.actions.forall_modify h.actions u.key_apply fun a ha => ⟨ha.1, ?_, ?_⟩ }
    · exact ActionState.length_value _
    · intro lease written
      cases column : u.leaseId with
      | none => exact ha.2.2 lease (by simpa [ActionUpdate.apply, column] using written)
      | some new =>
        exact fits.2 new column lease (by simpa [ActionUpdate.apply, column] using written)
  | insertAudit row =>
    refine { h with audits := fun l hl => ?_ }
    rcases List.mem_append.mp hl with old | new
    · exact h.audits l old
    · rw [List.mem_singleton.mp new]
      exact fits
  | insertRecord row => exact { h with records := s.records.forall_insert h.records fits }
  | completeRecord id columns now =>
    exact { h with
      records := s.records.forall_modify h.records (IdempotencyRecord.key_complete columns now)
        fun r hr => ⟨hr.1, fits⟩ }
  | hitRecord id now =>
    exact { h with
      records := s.records.forall_modify h.records (IdempotencyRecord.key_hit now)
        fun r hr => hr }
  | insertJob row =>
    refine { h with jobs := fun j hj => ?_ }
    rcases List.mem_append.mp hj with old | new
    · exact h.jobs j old
    · rw [List.mem_singleton.mp new]
      exact fits
  | insertCheck row => exact { h with checks := s.checks.forall_insert h.checks fits }
  | updateCheck u =>
    refine { h with
      checks := s.checks.forall_modify h.checks u.key_apply fun c hc => ⟨hc.1, hc.2.1, ?_⟩ }
    cases column : u.state with
    | none => simpa [CheckUpdate.apply, column] using hc.2.2
    | some state => simpa [CheckUpdate.apply, column] using fits state column

theorem write (h : s.Fits) {ws : List Write} (fits : ∀ w ∈ ws, w.Fits) : (s.write ws).Fits := by
  induction ws generalizing s with
  | nil => exact h
  | cons w ws ih =>
    exact ih (h.apply w (fits w (List.mem_cons_self ..))) fun v hv =>
      fits v (List.mem_cons_of_mem _ hv)

end Store.Fits

/-! ## Intake -/

/-- A body of `POST /assets` that passed validation. -/
structure AssetCreate where
  externalId : String
  accepted : 3 ≤ externalId.length ∧ externalId.length ≤ 80

/-- The accepted requests from which `process` gets its data; `uuid4().hex` has 32 digits. -/
inductive Intake where
  | asset (payload : AssetCreate)
  | rule (payload : RuleCreate)
  | event (call : Call) (digits : call.env.uuid.length = 32)

def intake (b : Begin) : Machine Store Intake where
  step s
    | .asset payload => some (createAsset payload.externalId s)
    | .rule payload => some (createRule payload.toRuleBody s)
    | .event call _ => some (serve b call s).2

/-- The category fits the status of the asset, and the three texts a summary joins fit its
column, if an incident is opened. -/
def JoinsShort (env : Surroundings) (p : EventBody) (s : Store) : Prop :=
  ∀ asset, s.assetByExternalId p.assetExternalId = some asset →
    p.category.length ≤ 40 ∧ ∀ rule, Opens env p s asset rule →
      rule.name.length + asset.externalId.length + p.category.length ≤ 188

/-- An event that is processed anew brings a category, and meets a rule, with short texts. -/
def ShortEnough (s : Store) : Intake → Prop
  | .asset _ | .rule _ => True
  | .event call _ => (∀ key ∈ call.payload.key?, s.recordByKey key = none) →
      JoinsShort call.env call.payload.toEventBody s

/-! ## One event -/

section Event

variable {settings : Settings} {env : Surroundings} {p : EventCreate} {s t : Store} {o : Processed}

theorem fits_newRecord (h : s.Fits) (now : Instant) {key : String} (keyed : p.key? = some key) :
    (s.write [.insertRecord (newRecord s.records.nextId key now)]).Fits := by
  rw [p.key?_eq] at keyed
  have fits : (newRecord s.records.nextId key now).Fits :=
    ⟨(p.accepted.2.2.2.2.2.2.1 key keyed).2, fun reason given => by cases given⟩
  exact h.apply (.insertRecord _) fits

/-- The row of an accepted event fits, with the correlation id of the request or a fresh one. -/
theorem fits_eventFor (digits : env.uuid.length = 32) (asset : Asset) :
    (p.eventFor env s asset).Fits := by
  refine ⟨p.accepted.2.1.2, p.accepted.2.2.1.2, ?_⟩
  change (p.correlationId.getD ("corr-" ++ env.uuid)).length ≤ 80
  cases given : p.correlationId with
  | none =>
    have fresh : ("corr-" ++ env.uuid).length = 5 + env.uuid.length := String.length_append ..
    simp only [Option.getD_none, fresh, digits]
    decide
  | some c => exact (p.accepted.2.2.2.2.2.2.2 c given).2

theorem fits_recorded (h : s.Fits) (digits : env.uuid.length = 32) (asset : Asset)
    (status : p.category.length ≤ 40) : (s.recorded env p.toEventBody asset).Fits := by
  refine h.write fun w hw => ?_
  rcases List.mem_append.mp hw with update | insertion
  · split at update
    · cases update
    · rw [List.mem_singleton.mp update]
      exact status
  · rw [List.mem_singleton.mp insertion]
    exact fits_eventFor digits asset

/-- The fixed part of a summary has twelve characters. -/
theorem length_summary (asset : Asset) (rule : AutomationRule) :
    (p.incidentFor env s asset rule).summary.length =
      rule.name.length + asset.externalId.length + p.category.length + 12 := by
  change (rule.name ++ ": " ++ asset.externalId ++ " reported " ++ p.category).length = _
  have colon : ": ".length = 2 := rfl
  have reported : " reported ".length = 10 := rfl
  simp only [String.length_append, colon, reported]
  omega

theorem fits_incidentFor (asset : Asset) (rule : AutomationRule) :
    (p.incidentFor env s asset rule).Fits ↔
      rule.name.length + asset.externalId.length + p.category.length ≤ 188 := by
  have state : (p.incidentFor env s asset rule).state.value.length ≤ 40 :=
    IncidentState.length_value _
  unfold Incident.Fits
  rw [length_summary, and_iff_right state]
  omega

/-- The status of a known asset is the category of the event recorded for it. -/
theorem exists_status (env : Surroundings) (p : EventCreate) {asset : Asset}
    (mem : asset ∈ s.assets.rows) :
    ∃ a ∈ (s.recorded env p.toEventBody asset).assets.rows, a.status = p.category := by
  by_cases same : asset.status = p.category
  · refine ⟨asset, ?_, same⟩
    have quiet : eventWrites asset (p.eventFor env s asset) =
        [.insertEvent (p.eventFor env s asset)] :=
      congrArg (· ++ _) (if_pos same)
    simpa only [Store.recorded, quiet, Store.write_cons, Store.write_nil, Write.apply_assets]
      using mem
  · refine ⟨asset.withStatus p.category, ?_, rfl⟩
    have update : eventWrites asset (p.eventFor env s asset) =
        [.setAssetStatus asset.id p.category, .insertEvent (p.eventFor env s asset)] :=
      congrArg (· ++ _) (if_neg same)
    have row : asset.withStatus p.category ∈
        (s.assets.modify asset.id _ (Asset.key_withStatus p.category)).rows :=
      s.assets.mem_modify.mpr ⟨asset, mem, by simp⟩
    simpa only [Store.recorded, update, Store.write_cons, Store.write_nil, Write.apply_assets]
      using row

theorem exists_known (new : NewCase settings env p.toEventBody s o t) :
    ∃ asset, s.assetByExternalId p.assetExternalId = some asset ∧
      t.assets = (s.recorded env p.toEventBody asset).assets := by
  cases new <;> simp only [Store.write_cons, Store.write_nil, Write.apply_assets]
  case unmatched asset known none => exact ⟨asset, known, rfl⟩
  case suppressed asset rule known matched recent => exact ⟨asset, known, rfl⟩
  case incidentOnly asset rule opens noAction => exact ⟨asset, opens.known, rfl⟩
  case rejected asset rule opens action full => exact ⟨asset, opens.known, rfl⟩
  case queued asset rule opens action room => exact ⟨asset, opens.known, rfl⟩

/-- A rule that matches outside its cooldown opens its incident. -/
theorem incident_of_opens (new : NewCase settings env p.toEventBody s o t) {asset : Asset}
    {rule : AutomationRule} (opens : Opens env p.toEventBody s asset rule) :
    o.incident = some (p.incidentFor env s asset rule) := by
  cases new with
  | unmatched a known none =>
    cases opens.known.symm.trans known
    rw [opens.matched] at none
    cases none
  | suppressed a r known matched recent =>
    cases opens.known.symm.trans known
    cases opens.matched.symm.trans matched
    rw [opens.clear] at recent
    cases recent
  | incidentOnly a r opens' noAction =>
    cases opens.known.symm.trans opens'.known
    cases opens.matched.symm.trans opens'.matched
    rfl
  | rejected a r opens' action full =>
    cases opens.known.symm.trans opens'.known
    cases opens.matched.symm.trans opens'.matched
    rfl
  | queued a r opens' action room =>
    cases opens.known.symm.trans opens'.known
    cases opens.matched.symm.trans opens'.matched
    rfl

/-- The types of the audit rows that `process` adds. -/
theorem fits_audits (now : Instant) :
    (∀ event, (eventRecorded event now).Fits ∧ (eventSuppressed event now).Fits) ∧
      (∀ incident, (queueBackpressure incident now).Fits ∧ (incidentCreated incident now).Fits) ∧
      ∀ record, (idempotencyHit record now).Fits := by
  simp only [AuditLog.Fits, eventRecorded, eventSuppressed, queueBackpressure, incidentCreated,
    idempotencyHit]
  exact ⟨fun _ => by decide, fun _ => by decide, fun _ => by decide⟩

theorem fits_new (h : s.Fits) (digits : env.uuid.length = 32)
    (short : JoinsShort env p.toEventBody s) (new : NewCase settings env p.toEventBody s o t) :
    t.Fits := by
  have begun : ∀ asset, s.assetByExternalId p.assetExternalId = some asset →
      (s.recorded env p.toEventBody asset).Fits :=
    fun asset known => fits_recorded h digits asset (short asset known).1
  have opened : ∀ asset rule, Opens env p.toEventBody s asset rule →
      ((s.recorded env p.toEventBody asset).write
        [.insertIncident (p.incidentFor env s asset rule)]).Fits :=
    fun asset rule opens => (begun asset opens.known).apply (.insertIncident _)
      ((fits_incidentFor asset rule).mpr ((short asset opens.known).2 rule opens))
  obtain ⟨ofEvent, ofIncident, -⟩ := fits_audits env.now
  cases new with
  | unmatched asset known none =>
    exact (begun asset known).apply (.insertAudit _) (ofEvent _).1
  | suppressed asset rule known matched recent =>
    exact (begun asset known).apply (.insertAudit _) (ofEvent _).2
  | incidentOnly asset rule opens noAction =>
    exact (opened asset rule opens).apply (.insertAudit _) (ofIncident _).2
  | rejected asset rule opens action full =>
    exact (opened asset rule opens).apply (.insertAudit _) (ofIncident _).1
  | queued asset rule opens action room =>
    have fits : (p.actionFor env s asset rule).Fits :=
      ⟨(h.rules rule (RuleEngine.matchRule_mem opens.matched).1).2.2,
        ActionState.length_value .queued, fun lease held => by cases held⟩
    exact ((opened asset rule opens).apply (.insertAction _) fits).apply (.insertAudit _)
      (ofIncident _).2

theorem short_of_new (new : NewCase settings env p.toEventBody s o t)
    (assets : ∀ a ∈ t.assets.rows, a.Fits) (incidents : ∀ i ∈ t.incidents.rows, i.Fits) :
    JoinsShort env p.toEventBody s := by
  refine fun asset known => ⟨?_, fun rule opens => ?_⟩
  · obtain ⟨same, known', stored⟩ := exists_known new
    cases known.symm.trans known'
    obtain ⟨a, mem, status⟩ := exists_status env p (List.mem_of_find?_eq_some known)
    rw [← status]
    exact (assets a (stored ▸ mem)).2
  · have stored := (new.stored.incident _ (incident_of_opens new opens)).1
    exact (fits_incidentFor asset rule).mp (incidents _ (t.incidents.mem_of_find? stored))

theorem joinsShort_newRecord {key : String} {now : Instant} :
    JoinsShort env p.toEventBody (s.write [.insertRecord (newRecord s.records.nextId key now)]) ↔
      JoinsShort env p.toEventBody s := by
  refine forall₂_congr fun asset known => and_congr_right fun status => forall_congr' fun rule => ?_
  exact ⟨fun h opens => h ⟨opens.known, opens.matched, opens.clear⟩,
    fun h opens => h ⟨opens.known, opens.matched, opens.clear⟩⟩

end Event

/-- An event leaves a store that fits exactly when it is short enough or not processed anew. -/
theorem fits_serve_iff (b : Begin) {s : Store} (h : s.Fits) (call : Call)
    (digits : call.env.uuid.length = 32) :
    (serve b call s).2.Fits ↔ ShortEnough s (.event call digits) := by
  by_cases clean : b = .eager ∨ ∀ key, ¬ Poisons call.payload.toEventBody s key
  · rw [serve_eq clean]
    change (processed call.settings call.env call.payload.toEventBody s).Fits ↔ _
    unfold processed
    split
    · next r t ok =>
      cases processCase_of_process ok with
      | unkeyed unkeyed new =>
        refine ⟨fun fits _ => short_of_new new fits.assets fits.incidents, fun short => ?_⟩
        exact fits_new h digits (short fun key keyed => by rw [unkeyed] at keyed; cases keyed) new
      | @owned key o u keyed vacant new =>
        constructor
        · intro fits _
          exact joinsShort_newRecord.mp (short_of_new new fits.assets fits.incidents)
        · intro short
          have anew : ∀ k ∈ call.payload.key?, s.recordByKey k = none := by
            intro k hk
            rw [keyed] at hk
            cases hk
            exact vacant
          have fits : u.Fits := fits_new (fits_newRecord h call.env.now keyed) digits
            (joinsShort_newRecord.mpr (short anew)) new
          exact fits.apply (.completeRecord _ _ _) fun reason _ => reason.length_value
      | @replayed key record k event keyed completed found =>
        refine iff_of_true ?_ fun anew => ?_
        · exact (h.apply (.hitRecord _ _) trivial).apply (.insertAudit _)
            ((fits_audits call.env.now).2.2 record)
        · have vacant := anew key keyed
          simp [completedRecord, vacant] at completed
    · next e raised =>
      refine iff_of_true h fun anew asset known => ?_
      obtain ⟨r, t, ok⟩ := process_isOk_of_vacant call.settings call.env anew known
      rw [raised] at ok
      cases ok
  · obtain ⟨rfl, key, poisons⟩ := poisons_of_unclean clean
    rw [serve_poisons poisons]
    refine iff_of_true (fits_newRecord h call.env.now poisons.1) fun _ asset known => ?_
    rw [poisons.2.2] at known
    cases known

/-! ## Texts at the bounds -/

theorem fits_empty : Store.empty.Fits := by
  constructor <;> intro row stored <;> cases stored

/-- A power supply with 65 characters in its external id. -/
def powerSupply : AssetCreate :=
  ⟨"NORTHERN-WATER-TREATMENT-PLANT-UNINTERRUPTIBLE-POWER-SUPPLY-00101", by decide⟩

/-- A rule with 108 characters in its name. -/
def plantTriage : RuleCreate where
  name := "Offline device triage for the uninterruptible power supplies and pumps of the " ++
    "northern water treatment plant"
  category := "heartbeat_missing"
  minimumSeverity := 70
  cooldownMinutes := 20
  accepted := by decide

/-- An event of the power supply, with a category of 17 characters. -/
def supplySilent : EventCreate :=
  { pumpOffline.toEventBody with
    assetExternalId := "NORTHERN-WATER-TREATMENT-PLANT-UNINTERRUPTIBLE-POWER-SUPPLY-00101"
    category := "heartbeat_missing"
    accepted := by decide }

/-- An event of the power supply, with a category of 41 characters. -/
def supplyFails : EventCreate :=
  { supplySilent.toEventBody with
    category := "uninterruptible_power_supply_battery_fail"
    accepted := by decide }

/-- An event of the power supply, with a category of 40 characters. -/
def supplyLow : EventCreate :=
  { supplySilent.toEventBody with
    category := "uninterruptible_power_supply_battery_low"
    accepted := by decide }

/-- An event at time zero. -/
def reported (payload : EventCreate) : Intake :=
  .event ⟨⟨1000⟩, ⟨0, "0123456789abcdef0123456789abcdef"⟩, payload⟩
    (show "0123456789abcdef0123456789abcdef".length = 32 by decide)

/-! ## Runs -/

theorem fits_intake_iff (b : Begin) {s t : Store} (h : s.Fits) (l : Intake)
    (step : (intake b).step s l = some t) : t.Fits ↔ ShortEnough s l := by
  cases l with
  | asset payload =>
    cases step
    refine iff_of_true ?_ trivial
    unfold createAsset
    split
    · exact h
    · have row : Asset.Fits ⟨s.assets.nextId, payload.externalId, "registered"⟩ :=
        ⟨payload.accepted.2, show "registered".length ≤ 40 by decide⟩
      exact { h with assets := s.assets.forall_insert h.assets row }
  | rule payload =>
    cases step
    refine iff_of_true ?_ trivial
    unfold createRule
    split
    · exact h
    · have row : (payload.row s.rules.nextId).Fits :=
        ⟨payload.accepted.1.2, payload.accepted.2.1.2, payload.accepted.2.2.2.2.2⟩
      exact { h with rules := s.rules.forall_insert h.rules row }
  | event call digits =>
    cases step
    exact fits_serve_iff b h call digits

/-- Accepted requests leave every value within its column throughout a run exactly when each
event that is processed anew is short enough. -/
theorem fits_throughout_iff (b : Begin) {s : Store} (h : s.Fits) (ls : List Intake) :
    (intake b).Throughout Store.Fits s ls ↔ (intake b).Along ShortEnough s ls := by
  refine (intake b).throughout_iff_along (fun _ l _ h step => fits_intake_iff b h l step) ?_ h ls
  intro s l
  cases l <;> rfl

/-- A category of 40 characters that no rule matches still fits. -/
theorem fits_throughout_supplyLow : (intake .eager).Throughout Store.Fits Store.empty
    [.asset powerSupply, reported supplyLow] := by
  refine (fits_throughout_iff .eager fits_empty _).mpr ⟨trivial, fun s registered => ?_⟩
  cases registered
  refine ⟨fun _ asset known => ?_, fun _ _ => trivial⟩
  cases known
  refine ⟨by decide, fun rule opens => ?_⟩
  cases opens.matched

/-- Accepted requests store a status of 41 characters, and a summary of 202. -/
theorem not_fits_throughout :
    ¬ (intake .eager).Throughout Store.Fits Store.empty
      [.asset powerSupply, reported supplyFails] ∧
    ¬ (intake .eager).Throughout Store.Fits Store.empty
      [.asset powerSupply, .rule plantTriage, reported supplySilent] := by
  constructor
  · intro fits
    have short := ((fits _ List.prefix_rfl _ rfl).assets _ (List.mem_singleton_self _)).2
    exact absurd short (by decide)
  · intro fits
    have short : (plantTriage.name ++ ": " ++ powerSupply.externalId ++ " reported " ++
        supplySilent.category).length ≤ 200 :=
      ((fits _ List.prefix_rfl _ rfl).incidents _ (List.mem_singleton_self _)).2
    simp only [String.length_append] at short
    exact absurd short (by decide)

end SupportOps.Python
