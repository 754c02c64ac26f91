import SupportOps.Python.Records
import SupportOps.Python.Seed

/-!
# The cooldown

The documents put the cooldown on one asset and one category. `_in_cooldown` looks at every
unresolved incident of the asset, so an incident of another category suppresses an event too.
This module says for which stores and requests the two agree.
-/
namespace SupportOps.Python

open Library

/-! ## Duplicates -/

/-- An unresolved incident of the asset since the threshold whose event has the category. -/
def Duplicate (s : Store) (assetId : Nat) (category : String) (threshold : Instant) : Prop :=
  ∃ i ∈ s.incidents.rows, i.assetId = assetId ∧
    (∃ e ∈ s.events.find? i.eventId, e.category = category) ∧
    i.state ≠ .resolved ∧ threshold ≤ i.createdAt

instance (s : Store) (assetId : Nat) (category : String) (threshold : Instant) :
    Decidable (Duplicate s assetId category threshold) := by
  unfold Duplicate; exact inferInstance

/-- An unresolved incident of the asset since the threshold, whatever its category. -/
def Recent (s : Store) (assetId : Nat) (threshold : Instant) : Prop :=
  ∃ i ∈ s.incidents.rows, i.assetId = assetId ∧ i.state ≠ .resolved ∧ threshold ≤ i.createdAt

theorem Duplicate.recent {s : Store} {assetId : Nat} {category : String} {threshold : Instant}
    (h : Duplicate s assetId category threshold) : Recent s assetId threshold := by
  obtain ⟨i, hi, asset, -, unresolved, since⟩ := h
  exact ⟨i, hi, asset, unresolved, since⟩

theorem inCooldown_iff (s : Store) (assetId : Nat) (c : Int) (now : Instant) :
    inCooldown s assetId c now = true ↔ 0 < c ∧ Recent s assetId (now - minutes c) := by
  unfold inCooldown
  split
  · next none => exact iff_of_false (by simp) fun ⟨window, _⟩ => by omega
  · next window =>
    simp only [recentIncident, List.any_eq_true, Bool.and_eq_true, decide_eq_true_eq]
    constructor
    · rintro ⟨i, hi, ⟨asset, since⟩, unresolved⟩
      exact ⟨by omega, i, hi, asset, unresolved, since⟩
    · rintro ⟨-, i, hi, asset, unresolved, since⟩
      exact ⟨i, hi, ⟨asset, since⟩, unresolved⟩

section Decision

variable (settings : Settings) (env : Surroundings) (p : EventBody) (s : Store) (asset : Asset)
  (rule : AutomationRule)

/-- The rule's cooldown is on and the event is a duplicate within it. -/
def InWindow : Prop :=
  0 < rule.cooldownMinutes ∧
    Duplicate s asset.id p.category (env.now - minutes rule.cooldownMinutes)

instance : Decidable (InWindow env p s asset rule) := by unfold InWindow; exact inferInstance

/-- The answer is `cooldown`, and neither incident nor action is created. -/
def Suppresses (r : Response) (t : Store) : Prop :=
  r.processed.skippedReason = some .cooldown ∧
    t.incidents.rows = s.incidents.rows ∧ t.actions.rows = s.actions.rows

/-- The answer is not `cooldown`, and one incident is created for the returned event. -/
def OpensIncident (r : Response) (t : Store) : Prop :=
  r.processed.skippedReason ≠ some .cooldown ∧
    ∃ i : Incident, r.processed.incident = some i ∧ i.eventId = r.processed.event.id ∧
      t.incidents.rows = s.incidents.rows ++ [i]

/-- `process` returns; it suppresses the duplicates and opens an incident for all others. -/
def SuppressesExactly : Prop :=
  ∃ r t, process settings env p s = .ok (r, t) ∧
    (InWindow env p s asset rule → Suppresses s r t) ∧
    (¬ InWindow env p s asset rule → OpensIncident s r t)

/-- The record of the call's key, if it holds a result. -/
def EventBody.earlier : Option IdempotencyRecord :=
  p.key?.bind fun key => (completedRecord s key).map Prod.fst

/-- Recent incidents of the asset, if there are any, include one of the event's category. A
request with a key that is already answered must repeat the answer for a duplicate. -/
def SameCategoryIfRecent : Prop :=
  match p.earlier s with
  | some record => InWindow env p s asset rule ∧ record.skippedReason = some .cooldown
  | none =>
    0 < rule.cooldownMinutes → Recent s asset.id (env.now - minutes rule.cooldownMinutes) →
      Duplicate s asset.id p.category (env.now - minutes rule.cooldownMinutes)

variable {settings env p s asset rule}

/-- The cooldown decision of `_process_new`. -/
theorem NewCase.decides {o : Processed} {t : Store} (h : NewCase settings env p s o t)
    (known : s.assetByExternalId p.assetExternalId = some asset)
    (matched : RuleEngine.matchRule s.rules (p.eventFor env s asset) = some rule) :
    if inCooldown s asset.id rule.cooldownMinutes env.now then Suppresses s ⟨o, false⟩ t
    else OpensIncident s ⟨o, false⟩ t := by
  have opened : ∀ (i : Incident) (ws : List Write) (reason : Option SkippedReason)
      (action : Option Action), i = p.incidentFor env s asset rule → reason ≠ some .cooldown →
      ((s.recorded env p asset).write (.insertIncident i :: ws)).incidents =
        (s.recorded env p asset).incidents.insert i →
      OpensIncident s ⟨⟨p.eventFor env s asset, some i, action, reason⟩, false⟩
        ((s.recorded env p asset).write (.insertIncident i :: ws)) := by
    rintro i ws reason action rfl other incidents
    refine ⟨other, _, rfl, rfl, ?_⟩
    rw [incidents, recorded_incidents, rows_insert_incidentFor]
  cases h with
  | unmatched asset' known' none =>
    cases known.symm.trans known'
    rw [matched] at none; cases none
  | suppressed asset' rule' known' matched' recent =>
    cases known.symm.trans known'
    cases matched.symm.trans matched'
    rw [if_pos recent]
    exact ⟨rfl, congrArg Table.rows (recorded_incidents asset),
      congrArg Table.rows (recorded_actions asset)⟩
  | incidentOnly asset' rule' opens noAction =>
    cases known.symm.trans opens.known
    cases matched.symm.trans opens.matched
    rw [if_neg (by simp [opens.clear])]
    exact opened _ _ _ _ rfl (by simp) rfl
  | rejected asset' rule' opens action full =>
    cases known.symm.trans opens.known
    cases matched.symm.trans opens.matched
    rw [if_neg (by simp [opens.clear])]
    exact opened _ _ _ _ rfl (by simp) rfl
  | queued asset' rule' opens action room =>
    cases known.symm.trans opens.known
    cases matched.symm.trans opens.matched
    rw [if_neg (by simp [opens.clear])]
    exact opened _ _ _ _ rfl (by simp) rfl

/-- A call that processes its event decides by `_in_cooldown`, which agrees with the documents
where every recent incident comes with one of the event's category. -/
theorem suppressesExactly_iff_of_new {r : Response} {t : Store}
    (ok : process settings env p s = .ok (r, t)) (unanswered : p.earlier s = none)
    (decides : if inCooldown s asset.id rule.cooldownMinutes env.now then Suppresses s r t
      else OpensIncident s r t) :
    SuppressesExactly settings env p s asset rule ↔ SameCategoryIfRecent env p s asset rule := by
  have apart : ¬ (Suppresses s r t ∧ OpensIncident s r t) := fun ⟨no, yes⟩ => yes.1 no.1
  have sole : SuppressesExactly settings env p s asset rule ↔
      (InWindow env p s asset rule → Suppresses s r t) ∧
      (¬ InWindow env p s asset rule → OpensIncident s r t) := by
    constructor
    · rintro ⟨r', t', ok', exact_⟩
      rw [ok] at ok'
      obtain ⟨rfl, rfl⟩ := Prod.mk.inj (Except.ok.inj ok')
      exact exact_
    · exact fun exact_ => ⟨r, t, ok, exact_⟩
  rw [sole]
  simp only [SameCategoryIfRecent, unanswered]
  by_cases cooling : inCooldown s asset.id rule.cooldownMinutes env.now = true
  · rw [if_pos cooling] at decides
    obtain ⟨window, recent⟩ := (inCooldown_iff _ _ _ _).mp cooling
    constructor
    · rintro ⟨-, new⟩ - -
      by_contra other
      exact apart ⟨decides, new fun inside => other inside.2⟩
    · exact fun same => ⟨fun _ => decides, fun outside =>
        absurd ⟨window, same window recent⟩ outside⟩
  · rw [if_neg cooling] at decides
    have clear : ¬ (0 < rule.cooldownMinutes ∧
        Recent s asset.id (env.now - minutes rule.cooldownMinutes)) :=
      fun recent => cooling ((inCooldown_iff _ _ _ _).mpr recent)
    exact iff_of_true
      ⟨fun inside => absurd ⟨inside.1, inside.2.recent⟩ clear, fun _ => decides⟩
      (fun window recent => absurd ⟨window, recent⟩ clear)

/-- A replay repeats the recorded answer and creates nothing. -/
theorem suppressesExactly_iff_of_replay {record : IdempotencyRecord} {event : OperationalEvent}
    (ok : process settings env p s =
      .ok (⟨record.result event s, true⟩, s.write (record.replayed env.now)))
    (answered : p.earlier s = some record) :
    SuppressesExactly settings env p s asset rule ↔ SameCategoryIfRecent env p s asset rule := by
  simp only [SameCategoryIfRecent, answered]
  constructor
  · rintro ⟨r, t, ok', suppresses, opens⟩
    rw [ok] at ok'
    obtain ⟨rfl, rfl⟩ := Prod.mk.inj (Except.ok.inj ok')
    by_cases inside : InWindow env p s asset rule
    · exact ⟨inside, (suppresses inside).1⟩
    · obtain ⟨-, i, -, -, rows⟩ := opens inside
      change s.incidents.rows = s.incidents.rows ++ [i] at rows
      simp at rows
  · rintro ⟨inside, reason⟩
    exact ⟨_, _, ok, fun _ => ⟨reason, rfl, rfl⟩, fun outside => absurd inside outside⟩

end Decision

def calledAt (now : Instant) (payload : EventCreate) : Call := ⟨⟨1000⟩, ⟨now, "0"⟩, payload⟩

/-- The demo data after the pump has reported to be offline. -/
def pumpIsOffline : Store := processed ⟨1000⟩ ⟨0, "0"⟩ pumpOffline.toEventBody demo

end SupportOps.Python
