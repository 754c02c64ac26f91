import SupportOps.Python.Cooldown
import SupportOps.Python.IngestSessions
import SupportOps.Python.Passes
import SupportOps.Python.Service

/-!
# An event that met backpressure, sent again

A rejected event leaves its incident behind, and under a key the record of its answer. Both are
still there when the queue has room again: the record repeats the answer, and the incident holds
the asset in the rule's cooldown. The event is queued at last where neither stands in its way.
-/
namespace SupportOps.Python

open Library

/-! ## Commands without an event -/

/-- Events, incidents and records stay, and every known asset keeps its id. -/
structure NoEvent (s t : Store) : Prop where
  events : t.events = s.events
  incidents : t.incidents = s.incidents
  records : t.records = s.records
  assets : ∀ externalId n, assetIds s externalId = some n → assetIds t externalId = some n

namespace NoEvent

variable {s t u : Store}

theorem refl (s : Store) : NoEvent s s := ⟨rfl, rfl, rfl, fun _ _ h => h⟩

theorem trans (h : NoEvent s t) (g : NoEvent t u) : NoEvent s u :=
  ⟨g.events.trans h.events, g.incidents.trans h.incidents, g.records.trans h.records,
    fun externalId n known => g.assets externalId n (h.assets externalId n known)⟩

theorem of_attempt {args : PassArgs} {a : Action} {succeeded : Bool} {detail : String}
    (attempt : Attempt args a succeeded detail s t) : NoEvent s t := by
  refine ⟨attempt.events_eq, attempt.incidents_eq, attempt.records_eq, fun externalId n known => ?_⟩
  unfold assetIds Store.assetByExternalId at known ⊢
  rwa [attempt.assets_eq]

theorem createAsset (externalId : String) (s : Store) : NoEvent s (createAsset externalId s) := by
  unfold Python.createAsset
  split
  · exact refl s
  · refine ⟨rfl, rfl, rfl, fun other n known => ?_⟩
    obtain ⟨asset, found, same⟩ := Option.map_eq_some_iff.mp known
    have rows := s.assets.rows_insert_of_fresh
      (r := ⟨s.assets.nextId, externalId, "registered"⟩) s.assets.find?_nextId
    unfold Store.assetByExternalId at found
    simp [assetIds, Store.assetByExternalId, rows, List.find?_append, found, same]

theorem addFollowUps (now : Instant) (staleMinutes : Int) (stale : List Incident) (s : Store) :
    NoEvent s (addFollowUps now staleMinutes stale s) := by
  induction stale generalizing s with
  | nil => exact refl s
  | cons i rest ih =>
    have one : NoEvent s
        (s.write [.insertAction (followUp s.actions.nextId i staleMinutes now)]) :=
      ⟨rfl, rfl, rfl, fun _ _ h => h⟩
    exact one.trans (ih _)

theorem transitionCheck {args : TransitionArgs} {c d : CheckRun}
    (moved : transitionCheck args c s = .ok (d, t)) : NoEvent s t := by
  obtain ⟨d, -, same⟩ := map_eq_ok.mp moved
  cases same
  exact ⟨rfl, rfl, rfl, fun _ _ h => h⟩

theorem expireEach {now : Instant} (cs : List CheckRun) :
    ∀ {s : Store}, expireEach now cs s = .ok t → NoEvent s t := by
  induction cs with
  | nil =>
    intro s ok
    cases ok
    exact refl _
  | cons c rest ih =>
    intro s ok
    cases moved : Python.transitionCheck (timeoutArgs now) c s with
    | error e => rw [Python.expireEach, moved] at ok; cases ok
    | ok next =>
      rw [Python.expireEach, moved] at ok
      exact (transitionCheck moved).trans (ih ok)

end NoEvent

/-- A command that neither processes an event nor resets. -/
theorem noEvent_of_apply {b : Begin} {c : Command} {s t : Store} (step : c.apply b s = some t)
    (quiet : c.isProcess = false) (going : c.isReset = false) : NoEvent s t := by
  cases c with
  | createAsset externalId =>
    cases step
    exact .createAsset externalId s
  | createRule payload =>
    simp only [Command.apply, createRule, Option.some.injEq] at step
    split at step <;> cases step
    · exact .refl s
    · exact ⟨rfl, rfl, rfl, fun _ _ h => h⟩
  | process call => cases quiet
  | processDueActions args transport =>
    cases step
    exact runOnce_invariant (I := NoEvent s)
      (fun _ _ succeeded detail h current unfinished _ =>
        h.trans (.of_attempt (attempt_attempted current unfinished succeeded detail))) (.refl s)
  | executeActionWithRetry id args transport fuel =>
    obtain ⟨a, found, step⟩ := Option.bind_eq_some_iff.mp step
    obtain ⟨outcome, ended, rfl⟩ := Option.map_eq_some_iff.mp step
    cases outcome with
    | error e => exact .refl s
    | ok run =>
      have current : s.actions.find? a.id = some a := by
        rw [← key_action, s.actions.key_of_find? found]
        exact found
      exact (executeActionWithRetry_invariant (I := NoEvent s)
        (fun _ _ _ succeeded detail h current unfinished _ =>
          h.trans (.of_attempt (attempt_retried current unfinished succeeded detail)))
        (.refl s) current ended).1
  | healthSweep now staleMinutes =>
    cases step
    exact (NoEvent.addFollowUps now staleMinutes _ s).trans ⟨rfl, rfl, rfl, fun _ _ h => h⟩
  | createCheck now name assetExternalId detail =>
    cases step
    exact ⟨rfl, rfl, rfl, fun _ _ h => h⟩
  | transitionCheck id args =>
    simp only [Command.apply] at step
    split at step
    · cases step
      exact .refl s
    · split at step <;> cases step
      · next moved => exact .transitionCheck moved
      · exact .refl s
  | expireWaitingChecks now =>
    simp only [Command.apply] at step
    split at step <;> cases step
    · next expired =>
      obtain ⟨u, each, same⟩ := map_eq_ok.mp expired
      cases same
      exact .expireEach _ each
    · exact .refl s
  | reset => cases going

/-! ## Commands with an event -/

/-- A record that is found by its key stays so while rows are changed in place and added. -/
theorem recordByKey_of_rows {s t : Store} {key : String} {r : IdempotencyRecord}
    {g : IdempotencyRecord → IdempotencyRecord} {l : List IdempotencyRecord}
    (keys : ∀ r, (g r).key = r.key) (grown : t.records.rows = s.records.rows.map g ++ l)
    (found : s.recordByKey key = some r) : t.recordByKey key = some (g r) := by
  unfold Store.recordByKey at found ⊢
  have same : ((fun r : IdempotencyRecord => decide (r.key = key)) ∘ g) =
      fun r => decide (r.key = key) := by
    funext r
    simp [keys]
  rw [grown, List.find?_append, List.find?_map, same, found]
  rfl

/-- The incident of the rejected event, its event and the record of its answer are stored. -/
structure LeftBehind (first : Processed) (i : Incident) (key? : Option String) (s : Store) :
    Prop where
  incident : i ∈ s.incidents.rows
  event : (s.events.find? first.event.id).isSome
  record : ∀ key, key? = some key → ∃ r, s.recordByKey key = some r ∧ r.Holds first.columns

/-- The asset is known, and has no incident but those it had in `s₁`. -/
structure NoneAdded (s₁ : Store) (externalId : String) (assetId : Nat) (s : Store) : Prop where
  known : assetIds s externalId = some assetId
  incidents : ∀ i ∈ s.incidents.rows, i.assetId = assetId → i ∈ s₁.incidents.rows

section Process

variable {settings : Settings} {env : Surroundings} {p : EventBody} {s t : Store} {o : Processed}

/-- The incident of a new event belongs to the event's asset. -/
theorem NewCase.asset_of_incident (h : NewCase settings env p s o t) {i : Incident}
    (opened : o.incident = some i) : assetIds s p.assetExternalId = some i.assetId := by
  cases h with
  | unmatched asset known none => cases opened
  | suppressed asset rule known matched recent => cases opened
  | incidentOnly asset rule opens noAction =>
    cases opened
    exact congrArg (Option.map Asset.id) opens.known
  | rejected asset rule opens action full =>
    cases opened
    exact congrArg (Option.map Asset.id) opens.known
  | queued asset rule opens action room =>
    cases opened
    exact congrArg (Option.map Asset.id) opens.known

theorem NoneAdded.new {s₁ : Store} {externalId : String} {assetId : Nat}
    (h : NoneAdded s₁ externalId assetId s) (new : NewCase settings env p s o t)
    (other : p.assetExternalId ≠ externalId) : NoneAdded s₁ externalId assetId t := by
  refine ⟨by rw [new.assetIds_eq, h.known], fun i hi same => ?_⟩
  rw [new.rows_incidents, List.mem_append, Option.mem_toList] at hi
  rcases hi with old | added
  · exact h.incidents i old same
  · have asset := new.asset_of_incident added
    rw [same] at asset
    exact absurd (assetIds_injective s asset h.known) other

theorem NewCase.recordByKey_eq (h : NewCase settings env p s o t) (key : String) :
    t.recordByKey key = s.recordByKey key := by
  unfold Store.recordByKey
  rw [h.records_eq]

theorem LeftBehind.new {first : Processed} {i : Incident} {key? : Option String}
    (h : LeftBehind first i key? s) (new : NewCase settings env p s o t) :
    LeftBehind first i key? t := by
  refine ⟨?_, ?_, fun key keyed => ?_⟩
  · rw [new.rows_incidents]
    exact List.mem_append_left _ h.incident
  · rw [new.events_eq, Table.find?_insert]
    obtain ⟨e, found⟩ := Option.isSome_iff_exists.mp h.event
    simp [found]
  · obtain ⟨r, found, holds⟩ := h.record key keyed
    exact ⟨r, by rw [new.recordByKey_eq, found], holds⟩

theorem recordByKey_claim {k : String} {r : IdempotencyRecord} (found : s.recordByKey k = some r)
    (key : String) (now : Instant) :
    (s.write [.insertRecord (newRecord s.records.nextId key now)]).recordByKey k = some r := by
  have rows := s.records.rows_insert_of_fresh (r := newRecord s.records.nextId key now)
    s.records.find?_nextId
  exact recordByKey_of_rows (g := id) (fun _ => rfl) (by rw [List.map_id]; exact rows) found

/-- A record for another key. -/
theorem LeftBehind.claim {first : Processed} {i : Incident} {key? : Option String}
    (h : LeftBehind first i key? s) (key : String) (now : Instant) :
    LeftBehind first i key? (s.write [.insertRecord (newRecord s.records.nextId key now)]) := by
  refine ⟨h.incident, h.event, fun other keyed => ?_⟩
  obtain ⟨r, found, holds⟩ := h.record other keyed
  exact ⟨r, recordByKey_claim found key now, holds⟩

/-- A record is completed; the one of the rejected event is so already. -/
theorem LeftBehind.complete {first : Processed} {i : Incident} {key? : Option String}
    (h : LeftBehind first i key? s) {id : Nat} (c : ResultColumns) (now : Instant)
    (other : ∀ key r, key? = some key → s.recordByKey key = some r → r.id ≠ id) :
    LeftBehind first i key? (s.write [.completeRecord id c now]) := by
  refine ⟨h.incident, h.event, fun key keyed => ?_⟩
  obtain ⟨r, found, holds⟩ := h.record key keyed
  have kept := recordByKey_of_rows (t := s.write [.completeRecord id c now])
    (g := fun r => if Keyed.key r = id then r.complete c now else r) (l := [])
    (fun r => by split <;> rfl) (List.append_nil _).symm found
  rw [key_record, if_neg (other key r keyed found)] at kept
  exact ⟨r, kept, holds⟩

theorem LeftBehind.hit {first : Processed} {i : Incident} {key? : Option String}
    (h : LeftBehind first i key? s) (record : IdempotencyRecord) (now : Instant) :
    LeftBehind first i key? (s.write (record.replayed now)) := by
  refine ⟨h.incident, h.event, fun key keyed => ?_⟩
  obtain ⟨r, found, holds⟩ := h.record key keyed
  have kept := recordByKey_of_rows (t := s.write (record.replayed now))
    (g := fun r => if Keyed.key r = record.id then r.hit now else r) (l := [])
    (fun r => by split <;> rfl) (List.append_nil _).symm found
  refine ⟨_, kept, ?_⟩
  split
  · exact ⟨holds.event, holds.incident, holds.action, holds.reason⟩
  · exact holds

/-- Whatever event is processed, the rejected one stays as it was left. -/
theorem LeftBehind.processed {first : Processed} {i : Incident} {key? : Option String}
    (h : LeftBehind first i key? s) : LeftBehind first i key? (processed settings env p s) := by
  unfold Python.processed
  split
  · next r t ok =>
    cases processCase_of_process ok with
    | unkeyed unkeyed new => exact h.new new
    | @owned key o u keyed vacant new =>
      refine ((h.claim key env.now).new new).complete o.columns env.now fun k r mine found => ?_
      obtain ⟨q, earlier, -⟩ := h.record k mine
      rw [new.recordByKey_eq, recordByKey_claim earlier] at found
      cases found
      exact (s.records.key_lt_nextId (List.mem_of_find?_eq_some earlier)).ne
    | replayed keyed completed found => exact h.hit _ _
  · exact h

theorem NoneAdded.processed {s₁ : Store} {externalId : String} {assetId : Nat}
    (h : NoneAdded s₁ externalId assetId s) (other : p.assetExternalId ≠ externalId) :
    NoneAdded s₁ externalId assetId (processed settings env p s) := by
  unfold Python.processed
  split
  · next r t ok =>
    cases processCase_of_process ok with
    | unkeyed unkeyed new => exact h.new new other
    | @owned key o u keyed vacant new =>
      have claimed : NoneAdded s₁ externalId assetId
          (s.write [.insertRecord (newRecord s.records.nextId key env.now)]) :=
        ⟨h.known, h.incidents⟩
      exact ⟨(claimed.new new other).known, (claimed.new new other).incidents⟩
    | replayed keyed completed found => exact ⟨h.known, h.incidents⟩
  · exact h

end Process

/-! ## Whole runs -/

/-- No event of the asset. -/
def Command.Spares (externalId : String) : Command → Prop
  | .process call => call.payload.assetExternalId ≠ externalId
  | _ => True

theorem LeftBehind.apply {b : Begin} {c : Command} {s t : Store} {first : Processed} {i : Incident}
    {key? : Option String} (h : LeftBehind first i key? s) (going : c.isReset = false)
    (step : c.apply b s = some t) : LeftBehind first i key? t := by
  cases quiet : c.isProcess with
  | true =>
    cases c with
    | process call =>
      cases step
      rcases serve_stored b call s with same | ⟨key, -, same⟩
      · rw [same]
        exact h.processed
      · rw [same]
        exact h.claim key call.env.now
    | _ => cases quiet
  | false =>
    have kept := noEvent_of_apply step quiet going
    refine ⟨kept.incidents ▸ h.incident, kept.events ▸ h.event, fun key keyed => ?_⟩
    unfold Store.recordByKey
    rw [kept.records]
    exact h.record key keyed

theorem NoneAdded.apply {b : Begin} {c : Command} {s t s₁ : Store} {externalId : String}
    {assetId : Nat} (h : NoneAdded s₁ externalId assetId s) (spares : c.Spares externalId)
    (step : c.apply b s = some t) : NoneAdded s₁ externalId assetId t := by
  cases going : c.isReset with
  | true =>
    cases c with
    | reset =>
      cases step
      exact ⟨h.known, fun i hi => (by cases hi)⟩
    | _ => cases going
  | false =>
    cases quiet : c.isProcess with
    | true =>
      cases c with
      | process call =>
        cases step
        rcases serve_stored b call s with same | ⟨key, -, same⟩
        · rw [same]
          exact h.processed spares
        · rw [same]
          exact ⟨h.known, h.incidents⟩
      | _ => cases quiet
    | false =>
      have kept := noEvent_of_apply step quiet going
      exact ⟨kept.assets _ _ h.known, kept.incidents ▸ h.incidents⟩

/-! ## The rejection and the second submission -/

/-- What an answer `queue_backpressure` says about the store before it, and what it adds. -/
structure Rejection (env : Surroundings) (p : EventBody) (s : Store) (asset : Asset)
    (rule : AutomationRule) (first : Processed) (i : Incident) (t : Store) : Prop where
  opens : Opens env p s asset rule
  action : rule.actionType ≠ "none"
  incident : first.incident = some i
  positive : i.id ≠ 0
  none : first.action = none
  reason : first.skippedReason = some .queueBackpressure
  owner : i.assetId = asset.id
  opened : i.state = .opened
  since : i.createdAt = env.now
  rows : t.incidents.rows = s.incidents.rows ++ [i]
  event : (t.events.find? first.event.id).isSome

/-- The rule's cooldown, counted from the rejection, is over. -/
def CooledDown (rule : AutomationRule) (rejectedAt now : Instant) : Prop :=
  rule.cooldownMinutes ≤ 0 ∨ rejectedAt + minutes rule.cooldownMinutes < now

/-- The call queues an action of the rule's type, for an incident of the asset. -/
def Requeues (settings : Settings) (env : Surroundings) (p : EventBody) (assetId : Nat)
    (rule : AutomationRule) (s : Store) : Prop :=
  ∃ r t i a, process settings env p s = .ok (r, t) ∧ r.processed.incident = some i ∧
    i.assetId = assetId ∧ r.processed.action = some a ∧ a ∈ t.actions.rows ∧
    a.state = .queued ∧ a.actionType = rule.actionType ∧ a.incidentId = i.id

/-- The call replays the first answer: the same event and incident, no action, and the reason
`queue_backpressure`. It opens no incident and queues nothing. -/
def RepeatsRejection (settings : Settings) (env : Surroundings) (p : EventBody)
    (first : Processed) (s : Store) : Prop :=
  ∃ o t, process settings env p s = .ok (⟨o, true⟩, t) ∧ o.columns = first.columns ∧
    o.action = none ∧ o.skippedReason = some .queueBackpressure ∧
    t.incidents = s.incidents ∧ t.actions = s.actions

/-- The call records the event, and answers `cooldown` without incident and action. -/
def StaysSuppressed (settings : Settings) (env : Surroundings) (p : EventBody) (s : Store) :
    Prop :=
  ∃ o t, process settings env p s = .ok (⟨o, false⟩, t) ∧ o.incident = none ∧ o.action = none ∧
    Suppresses s ⟨o, false⟩ t

section Second

variable {settings : Settings} {env : Surroundings} {p : EventBody} {s t : Store}
  {first : Processed} {asset : Asset} {rule : AutomationRule} {i : Incident}

theorem NewCase.rejection (h : NewCase settings env p s first t)
    (reason : first.skippedReason = some .queueBackpressure) :
    ∃ asset rule i, Rejection env p s asset rule first i t := by
  have event : (t.events.find? first.event.id).isSome := by rw [h.find?_event]; rfl
  have rows := h.rows_incidents
  cases h with
  | unmatched asset known none => cases reason
  | suppressed asset rule known matched recent => cases reason
  | incidentOnly asset rule opens noAction => cases reason
  | rejected asset rule opens action full =>
    exact ⟨asset, rule, _, opens, action, rfl, Nat.succ_ne_zero _, rfl, rfl, rfl, rfl, rfl, rows,
      event⟩
  | queued asset rule opens action room => cases reason

/-- A fresh answer `queue_backpressure` leaves the incident and, under a key, the record. -/
theorem rejection_of_process
    (rejected : process settings env p s = .ok (⟨first, false⟩, t))
    (reason : first.skippedReason = some .queueBackpressure) :
    ∃ asset rule i, Rejection env p s asset rule first i t ∧ LeftBehind first i p.key? t ∧
      NoneAdded t p.assetExternalId asset.id t := by
  cases processCase_of_process rejected with
  | unkeyed unkeyed new =>
    obtain ⟨asset, rule, i, rejection⟩ := new.rejection reason
    refine ⟨asset, rule, i, rejection, ⟨?_, rejection.event, ?_⟩, ?_, fun j hj _ => hj⟩
    · simp [rejection.rows]
    · intro key keyed
      rw [unkeyed] at keyed
      cases keyed
    · rw [new.assetIds_eq]
      exact congrArg (Option.map Asset.id) rejection.opens.known
  | @owned key o u keyed vacant new =>
    obtain ⟨asset, rule, i, rejection⟩ := new.rejection reason
    refine ⟨asset, rule, i,
      ⟨⟨rejection.opens.known, rejection.opens.matched, rejection.opens.clear⟩, rejection.action,
        rejection.incident, rejection.positive, rejection.none, rejection.reason, rejection.owner,
        rejection.opened, rejection.since, rejection.rows, rejection.event⟩,
      ⟨?_, rejection.event, ?_⟩, ?_, fun j hj _ => hj⟩
    · change i ∈ u.incidents.rows
      simp [rejection.rows]
    · intro k mine
      rw [keyed] at mine
      cases mine
      have inserted : u.recordByKey key = some (newRecord s.records.nextId key env.now) := by
        rw [new.recordByKey_eq]
        have rows := s.records.rows_insert_of_fresh (r := newRecord s.records.nextId key env.now)
          s.records.find?_nextId
        unfold Store.recordByKey at vacant ⊢
        change (s.records.insert _).rows.find? _ = _
        rw [rows, List.find?_append, vacant]
        simp [newRecord]
      have completed := recordByKey_of_rows
        (t := u.write [.completeRecord s.records.nextId first.columns env.now])
        (g := fun r => if Keyed.key r = s.records.nextId then r.complete first.columns env.now
          else r) (l := []) (fun r => by split <;> rfl) (List.append_nil _).symm inserted
      have mine : Keyed.key (newRecord s.records.nextId key env.now) = s.records.nextId := rfl
      rw [if_pos mine] at completed
      exact ⟨_, completed, IdempotencyRecord.holds_complete _ _ _⟩
    · exact (new.assetIds_eq _).trans (congrArg (Option.map Asset.id) rejection.opens.known)

/-- Of the asset's incidents the rejected event's own is the last to leave the cooldown. -/
theorem Rejection.cooldown {s₁ : Store} (h : Rejection env p s asset rule first i s₁)
    (added : NoneAdded s₁ p.assetExternalId asset.id t) {now : Instant} (later : env.now ≤ now)
    (cooled : CooledDown rule env.now now) :
    inCooldown t asset.id rule.cooldownMinutes now = false := by
  by_contra cooling
  obtain ⟨window, j, hj, owner, unresolved, since⟩ :=
    (inCooldown_iff _ _ _ _).mp (by simpa using cooling)
  have late : env.now + minutes rule.cooldownMinutes < now :=
    cooled.resolve_left (Int.not_le.mpr window)
  have known := added.incidents j hj owner
  rw [h.rows, List.mem_append, List.mem_singleton] at known
  rcases known with old | rfl
  · refine absurd h.opens.clear ?_
    have recent : Recent s asset.id (env.now - minutes rule.cooldownMinutes) :=
      ⟨j, old, owner, unresolved, (Int.sub_le_sub_right later _).trans since⟩
    simp [(inCooldown_iff _ _ _ _).mpr ⟨window, recent⟩]
  · rw [h.since] at since
    exact absurd late (Int.not_lt.mpr (Int.le_add_of_sub_right_le since))

/-- The event is matched through the asset's id, so for the stored row of that id as well. -/
theorem matched_of_known (known : assetIds s p.assetExternalId = some asset.id)
    (matched : RuleEngine.matchRule s.rules (p.eventFor env s asset) = some rule) :
    ∃ a, s.assetByExternalId p.assetExternalId = some a ∧ a.id = asset.id ∧
      RuleEngine.matchRule s.rules (p.eventFor env s a) = some rule := by
  obtain ⟨a, found, same⟩ := Option.map_eq_some_iff.mp known
  have event : p.eventFor env s a = p.eventFor env s asset := by
    simp [EventBody.eventFor, EventBody.newEvent, same]
  exact ⟨a, found, same, event ▸ matched⟩

/-- A second submission without a key, once the cooldown is over and the queue has room. -/
theorem requeues_of_cooled (unkeyed : p.key? = none)
    (known : assetIds s p.assetExternalId = some asset.id)
    (matched : RuleEngine.matchRule s.rules (p.eventFor env s asset) = some rule)
    (action : rule.actionType ≠ "none")
    (clear : inCooldown s asset.id rule.cooldownMinutes env.now = false)
    (room : s.queueBacklog < settings.maxQueueBacklog) :
    Requeues settings env p asset.id rule s := by
  obtain ⟨a, found, same, matched⟩ := matched_of_known known matched
  obtain ⟨o, t, new⟩ := processNew_isOk settings env found
  have queued := (newCase_of_processNew new).rows_actions
  cases newCase_of_processNew new with
  | unmatched b known' none =>
    cases found.symm.trans known'
    rw [matched] at none
    cases none
  | suppressed b rule' known' matched' recent =>
    cases found.symm.trans known'
    cases matched.symm.trans matched'
    rw [same, clear] at recent
    cases recent
  | incidentOnly b rule' opens noAction =>
    cases found.symm.trans opens.known
    cases matched.symm.trans opens.matched
    exact absurd noAction action
  | rejected b rule' opens wanted full => omega
  | queued b rule' opens wanted room =>
    cases found.symm.trans opens.known
    cases matched.symm.trans opens.matched
    refine ⟨_, _, _, _, process_unkeyed unkeyed new, rfl, same, rfl, ?_, rfl, rfl, rfl⟩
    rw [queued]
    simp

/-- While the record of the first answer is stored, the second submission repeats it. -/
theorem LeftBehind.repeatsRejection {s₁ : Store} (h : LeftBehind first i p.key? t)
    (rejection : Rejection env p s asset rule first i s₁) {key : String}
    (keyed : p.key? = some key) {env' : Surroundings} :
    RepeatsRejection settings env' p first t := by
  obtain ⟨r, found, holds⟩ := h.record key keyed
  obtain ⟨event, stored⟩ := Option.isSome_iff_exists.mp h.event
  have completed : completedRecord t key = some (r, first.event.id) := by
    simp [completedRecord, found, holds.event, Processed.columns]
  have backed : Backed t first.columns := by
    refine ⟨h.event, ?_, ?_⟩
    · intro k mine
      simp only [Processed.columns, rejection.incident, Option.map_some, Option.mem_some] at mine
      have known := t.incidents.find?_of_mem h.incident
      rw [key_incident, mine] at known
      exact ⟨mine ▸ rejection.positive, by simp [known]⟩
    · intro k mine
      simp [Processed.columns, rejection.none] at mine
  have noAction : r.actionId = .none := by
    rw [holds.action]
    simp [Processed.columns, rejection.none]
  refine ⟨_, _, process_replayed keyed completed stored, columns_of_result holds backed stored,
    ?_, ?_, rfl, rfl⟩
  · simp [IdempotencyRecord.result, noAction, truthy]
  · exact holds.reason.trans rejection.reason

theorem RepeatsRejection.not_requeues (h : RepeatsRejection settings env p first s) :
    ¬ Requeues settings env p asset.id rule s := by
  obtain ⟨o, t, answer, -, none, -⟩ := h
  rintro ⟨r, u, i, a, ok, -, -, action, -⟩
  cases answer.symm.trans ok
  rw [none] at action
  cases action

/-- Within the cooldown the incident left behind suppresses the second submission. -/
theorem staysSuppressed_of_cooling (unkeyed : p.key? = none)
    (known : assetIds s p.assetExternalId = some asset.id)
    (matched : RuleEngine.matchRule s.rules (p.eventFor env s asset) = some rule)
    (cooling : inCooldown s asset.id rule.cooldownMinutes env.now = true) :
    StaysSuppressed settings env p s := by
  obtain ⟨a, found, same, matched⟩ := matched_of_known known matched
  obtain ⟨o, t, new⟩ := processNew_isOk settings env found
  have decides := (newCase_of_processNew new).decides found matched
  rw [same, if_pos cooling] at decides
  have incidents := decides.2.1
  have actions := decides.2.2
  rw [(newCase_of_processNew new).rows_incidents] at incidents
  rw [(newCase_of_processNew new).rows_actions] at actions
  exact ⟨o, t, process_unkeyed unkeyed new, by simpa using incidents, by simpa using actions,
    decides⟩

theorem StaysSuppressed.not_requeues (h : StaysSuppressed settings env p s) :
    ¬ Requeues settings env p asset.id rule s := by
  obtain ⟨o, t, answer, none, -⟩ := h
  rintro ⟨r, u, i, a, ok, incident, -⟩
  cases answer.symm.trans ok
  rw [none] at incident
  cases incident

end Second

/-- After an answer `queue_backpressure`, and while the asset has no other event and the same rule
matches, a second submission that finds room queues the action if it has no key and the cooldown
is over. Unless the tables are reset meanwhile only then: a key has the first answer replayed, and
within the cooldown the event is suppressed. -/
theorem requeues_iff_unkeyed_and_cooled (b : Begin) (call : Call) (s s₁ t : Store)
    (first : Processed)
    (rejected : process call.settings call.env call.payload.toEventBody s =
      .ok (⟨first, false⟩, s₁))
    (reason : first.skippedReason = some .queueBackpressure) (cs : List Command)
    (spares : ∀ c ∈ cs, c.Spares call.payload.assetExternalId)
    (run : (commands b).run s₁ cs = some t) (env : Surroundings) (later : call.env.now ≤ env.now)
    (room : t.queueBacklog < call.settings.maxQueueBacklog) :
    ∃ asset rule, s.assetByExternalId call.payload.assetExternalId = some asset ∧
      RuleEngine.matchRule s.rules (call.payload.eventFor call.env s asset) = some rule ∧
      (RuleEngine.matchRule t.rules (call.payload.eventFor env t asset) = some rule →
        (call.payload.key? = none → CooledDown rule call.env.now env.now →
          Requeues call.settings env call.payload.toEventBody asset.id rule t) ∧
        ((∀ c ∈ cs, c.isReset = false) →
          Requeues call.settings env call.payload.toEventBody asset.id rule t →
          call.payload.key? = none ∧ CooledDown rule call.env.now env.now) ∧
        ((∀ c ∈ cs, c.isReset = false) →
          (∀ key, call.payload.key? = some key →
            RepeatsRejection call.settings env call.payload.toEventBody first t) ∧
          (call.payload.key? = none → ¬ CooledDown rule call.env.now env.now →
            StaysSuppressed call.settings env call.payload.toEventBody t))) := by
  obtain ⟨asset, rule, i, rejection, left, added⟩ := rejection_of_process rejected reason
  have added := (commands b).run_invariant_of_along
    (fun s c t spares h step => h.apply spares.1 step)
    (((commands b).along_true s₁ cs).and_label _ spares) added run
  refine ⟨asset, rule, rejection.opens.known, rejection.opens.matched, fun matched => ?_⟩
  have answers : (∀ c ∈ cs, c.isReset = false) →
      (∀ key, call.payload.key? = some key →
        RepeatsRejection call.settings env call.payload.toEventBody first t) ∧
      (call.payload.key? = none → ¬ CooledDown rule call.env.now env.now →
        StaysSuppressed call.settings env call.payload.toEventBody t) := by
    intro going
    have left := (commands b).run_invariant_of_along
      (I := LeftBehind first i call.payload.key?) (fun s c t going h step => h.apply going.1 step)
      (((commands b).along_true s₁ cs).and_label _ going) left run
    refine ⟨fun key keyed => left.repeatsRejection rejection keyed, fun unkeyed cooling => ?_⟩
    obtain ⟨window, recent⟩ := not_or.mp cooling
    refine staysSuppressed_of_cooling unkeyed added.known matched ?_
    refine (inCooldown_iff _ _ _ _).mpr
      ⟨Int.not_le.mp window, i, left.incident, rejection.owner, ?_, ?_⟩
    · simp [rejection.opened]
    · rw [rejection.since]
      exact Int.sub_right_le_of_le_add (Int.not_lt.mp recent)
  refine ⟨?_, ?_, answers⟩
  · intro unkeyed cooled
    exact requeues_of_cooled unkeyed added.known matched rejection.action
      (rejection.cooldown added later cooled) room
  · intro going requeues
    obtain ⟨replayed, suppressed⟩ := answers going
    have unkeyed : call.payload.key? = none := by
      cases keyed : call.payload.key? with
      | none => rfl
      | some key => exact absurd requeues (replayed key keyed).not_requeues
    refine ⟨unkeyed, ?_⟩
    by_contra cooling
    exact (suppressed unkeyed cooling).not_requeues requeues

/-! ## A full queue of one -/

/-- The demo data after the gateway's event has filled the queue. -/
def fullQueue : Store := processed ⟨1⟩ ⟨0, "0"⟩ gatewayOffline.toEventBody demo

def drainQueue : List Command := [.processDueActions (passArgs 3) (defaultTransport 1)]

/-- The rejected pump's event, and the store once the queue is empty. -/
def rejectedPump : Store := processed ⟨1⟩ ⟨0, "0"⟩ pumpOffline.toEventBody fullQueue

theorem requeues_rejectedPump : ∃ first t asset rule,
    process ⟨1⟩ ⟨0, "0"⟩ pumpOffline.toEventBody fullQueue = .ok (⟨first, false⟩, rejectedPump) ∧
    (commands .eager).run rejectedPump drainQueue = some t ∧
    fullQueue.assetByExternalId "PUMP-101" = some asset ∧
    RuleEngine.matchRule fullQueue.rules (pumpOffline.eventFor ⟨0, "0"⟩ fullQueue asset) =
      some rule ∧
    (RuleEngine.matchRule t.rules (pumpOffline.eventFor ⟨minutes 21, "1"⟩ t asset) = some rule →
      (pumpOffline.key? = none → CooledDown rule 0 (minutes 21) →
        Requeues ⟨1⟩ ⟨minutes 21, "1"⟩ pumpOffline.toEventBody asset.id rule t) ∧
      ((∀ c ∈ drainQueue, c.isReset = false) →
        Requeues ⟨1⟩ ⟨minutes 21, "1"⟩ pumpOffline.toEventBody asset.id rule t →
        pumpOffline.key? = none ∧ CooledDown rule 0 (minutes 21)) ∧
      ((∀ c ∈ drainQueue, c.isReset = false) →
        (∀ key, pumpOffline.key? = some key → RepeatsRejection ⟨1⟩ ⟨minutes 21, "1"⟩
          pumpOffline.toEventBody first t) ∧
        (pumpOffline.key? = none → ¬ CooledDown rule 0 (minutes 21) →
          StaysSuppressed ⟨1⟩ ⟨minutes 21, "1"⟩ pumpOffline.toEventBody t))) := by
  obtain ⟨asset, rule, known, matched, requeues⟩ :=
    requeues_iff_unkeyed_and_cooled .eager ⟨⟨1⟩, ⟨0, "0"⟩, pumpOffline⟩ fullQueue rejectedPump _ _
      rfl rfl drainQueue (by simp [drainQueue, Command.Spares]) rfl ⟨minutes 21, "1"⟩ (by decide)
      (by decide)
  exact ⟨_, _, asset, rule, rfl, rfl, known, matched, requeues⟩

/-- A rule that opens incidents without an action. -/
def silence : RuleCreate where
  name := "Planned maintenance"
  category := "offline"
  minimumSeverity := 80
  cooldownMinutes := 0
  actionType := "none"
  accepted := by decide

/-- A rejected call, commands, and the same call again: the first reason, the backlog that the
second call finds, and its action and reason. -/
def resubmitted (payload : EventCreate) (cs : List Command) (now : Instant) :
    Option (Option SkippedReason × Nat × Option Action × Option SkippedReason) :=
  match process ⟨1⟩ ⟨0, "0"⟩ payload.toEventBody fullQueue with
  | .error _ => none
  | .ok (first, s₁) =>
    ((commands .eager).run s₁ cs).bind fun t =>
      match process ⟨1⟩ ⟨now, "1"⟩ payload.toEventBody t with
      | .error _ => none
      | .ok (second, _) => some (first.processed.skippedReason, t.queueBacklog,
          second.processed.action, second.processed.skippedReason)

/-- With room in the queue again, a record repeats the rejection, the incident left behind
suppresses the event, and a rule created meanwhile opens an incident without an action. -/
theorem rejected_action_lost :
    resubmitted keyedOffline drainQueue (minutes 21) =
      some (some .queueBackpressure, 0, none, some .queueBackpressure) ∧
    resubmitted pumpOffline drainQueue (minutes 20) =
      some (some .queueBackpressure, 0, none, some .cooldown) ∧
    resubmitted pumpOffline (drainQueue ++ [.createRule silence]) (minutes 21) =
      some (some .queueBackpressure, 0, none, none) :=
  ⟨by decide, by decide, by decide⟩

end SupportOps.Python
