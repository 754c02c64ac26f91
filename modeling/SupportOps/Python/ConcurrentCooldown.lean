import Mathlib.Data.Fintype.Basic
import SupportOps.Python.Cooldown
import SupportOps.Python.IngestSessions

/-!
# Cooldown under concurrent ingestion

The cooldown query and the insertion of the incident are two statements. What can keep a second
session out between them is the `UPDATE` of the asset's status, whose row stays locked until the
commit, and which is sent only if the status changes. As long as every two sessions that would
meet there have both sent it, the incidents of an asset and a rule are further apart than the
cooldown; a repeated event sends none, and two sessions open their incidents at the same time.
-/
namespace SupportOps.Python

open Library

/-! ## The property at stake -/

/-- More than the cooldown lies between the two incidents. -/
def Apart (rule : AutomationRule) (x y : Incident) : Prop :=
  x.createdAt + minutes rule.cooldownMinutes < y.createdAt ∨
    y.createdAt + minutes rule.cooldownMinutes < x.createdAt

/-- No two incidents of one asset and one rule lie within the cooldown of the rule. -/
def CooldownKept (s : Store) : Prop :=
  ∀ rule ∈ s.rules.rows, 0 < rule.cooldownMinutes →
    ∀ x ∈ s.incidents.rows, ∀ y ∈ s.incidents.rows, x ≠ y → x.assetId = y.assetId →
      x.ruleId = rule.id → y.ruleId = rule.id → Apart rule x y

instance (s : Store) : Decidable (CooldownKept s) := by
  unfold CooldownKept Apart
  infer_instance

/-! ## Sessions past their cooldown query -/

/-- The status of the asset has been sent, and its row is locked. -/
def updatesAsset (ws : List Write) (assetId : Nat) : Bool :=
  ws.any fun
    | .setAssetStatus id _ => decide (id = assetId)
    | _ => false

/-- The next statement inserts an incident of the asset and the rule. -/
def aboutToOpen (p : IngestProgram) (assetId ruleId : Nat) : Bool :=
  match p.phase with
  | .openIncident asset _ rule => decide (asset.id = assetId) && decide (rule.id = ruleId)
  | _ => false

/-- An incident of the asset and the rule since the threshold waits for its commit. -/
def hasOpened (ws : List Write) (assetId ruleId : Nat) (threshold : Instant) : Bool :=
  ws.any fun
    | .insertIncident x => decide (x.assetId = assetId) && decide (x.ruleId = ruleId) &&
        decide (threshold ≤ x.createdAt)
    | _ => false

section Sessions

variable {ι : Type}

/-- Whoever else is past its query for the asset and the rule has updated the asset, and so has
session `i`. -/
def BothUpdate (w : Ingest ι) (i : ι) (ses : Session IngestProgram Write) (asset : Asset)
    (rule : AutomationRule) (now : Instant) : Prop :=
  ∀ j, j ≠ i → ∀ sj ∈ w.sessions j,
    (aboutToOpen sj.program asset.id rule.id ||
      hasOpened sj.writes asset.id rule.id (now - minutes rule.cooldownMinutes)) = true →
    updatesAsset ses.writes asset.id = true ∧ updatesAsset sj.writes asset.id = true

/-- The clock of a call does not run backwards, and a query that finds no recent incident meets
`BothUpdate`. -/
def Serialised (w : Ingest ι) (il : ι × IngestStep) : Prop :=
  match w.sessions il.1, il.2 with
  | some ses, .statement tick =>
    (∀ t ∈ ses.program.clock, t ≤ tick.now) ∧
    match ses.program.phase with
    | .checkCooldown asset _ rule =>
      0 < rule.cooldownMinutes →
      inCooldown (w.stored.write ses.writes) asset.id rule.cooldownMinutes tick.now = false →
      BothUpdate w il.1 ses asset rule tick.now
    | _ => True
  | _, _ => True

instance [DecidableEq ι] [Fintype ι] (w : Ingest ι) (il : ι × IngestStep) :
    Decidable (Serialised w il) := by
  unfold Serialised BothUpdate
  split
  · refine @instDecidableAnd _ _ _ ?_
    split <;> infer_instance
  · infer_instance

/-- A committed incident, or one that waits for its commit. -/
def Known (w : Ingest ι) (x : Incident) : Prop :=
  x ∈ w.stored.incidents.rows ∨
    ∃ i ses, w.sessions i = some ses ∧ .insertIncident x ∈ ses.writes

end Sessions

/-! ## What a statement does about incidents -/

/-- No incident has been inserted at this statement. -/
def IngestPhase.early : IngestPhase → Bool
  | .checkBacklog _ _ _ | .queueAction _ _ _ | .complete _ _ | .answer _ => false
  | _ => true

/-- A statement passes the cooldown query, inserts the incident, or does neither. -/
inductive IncidentStep (tick : Tick) (p : IngestProgram) (s : Store) :
    IngestProgram → List Write → Prop
  | passes (asset : Asset) (event : OperationalEvent) (rule : AutomationRule)
      (phase : p.phase = .checkCooldown asset event rule)
      (clear : inCooldown s asset.id rule.cooldownMinutes tick.now = false) :
      IncidentStep tick p s (p.goto tick (.openIncident asset event rule)) []
  | opens (asset : Asset) (event : OperationalEvent) (rule : AutomationRule)
      (phase : p.phase = .openIncident asset event rule) :
      IncidentStep tick p s
        (p.goto tick (.checkBacklog event rule (newIncident tick.id asset rule event tick.now)))
        [.insertIncident (newIncident tick.id asset rule event tick.now)]
  | neither (q : IngestProgram) (vs : List Write) (quiet : vs.filter Write.onIncidents = [])
      (early : q.phase.early = true → p.phase.early = true)
      (waits : ∀ asset event rule, q.phase ≠ .openIncident asset event rule)
      (matched : ∀ asset event rule, q.phase = .checkCooldown asset event rule →
        rule ∈ s.rules.rows) : IncidentStep tick p s q vs

/-- The statement is neither the query nor the insertion. -/
def IngestPhase.calm : IngestPhase → Bool
  | .checkCooldown _ _ _ | .openIncident _ _ _ => false
  | _ => true

theorem IngestPhase.ne_of_calm {phase : IngestPhase} (calm : phase.calm = true) (asset : Asset)
    (event : OperationalEvent) (rule : AutomationRule) :
    phase ≠ .openIncident asset event rule ∧ phase ≠ .checkCooldown asset event rule := by
  constructor <;> intro e <;> rw [e] at calm <;> cases calm

section Statements

variable {tick : Tick} {p q : IngestProgram} {s : Store} {vs : List Write}

theorem incidentStep_quiet (quiet : vs.filter Write.onIncidents = [])
    (early : q.phase.early = true → p.phase.early = true) (calm : q.phase.calm = true) :
    IncidentStep tick p s q vs :=
  .neither q vs quiet early (fun a e r => (IngestPhase.ne_of_calm calm a e r).1)
    fun a e r same => absurd same (IngestPhase.ne_of_calm calm a e r).2

theorem incidentStep_finish (o : Processed) (quiet : vs.filter Write.onIncidents = []) :
    IncidentStep tick p s (p.finish tick o) vs := by
  obtain ⟨settings, payload, claimed, clock, phase⟩ := p
  refine incidentStep_quiet quiet ?_ ?_
  · intro early
    cases claimed <;> cases early
  · cases claimed <;> rfl

theorem incidentStep_of_statement {es : List Answer}
    (h : ingestStatement tick p s = some (.next q vs es)) :
    IncidentStep tick p s q vs ∧ es = [] := by
  obtain ⟨settings, payload, claimed, clock, phase⟩ := p
  cases phase with
  | poll key attempts =>
    cases attempts with
    | zero => cases h
    | succ attempts =>
      simp only [ingestStatement] at h
      split at h <;> cases h <;> exact ⟨incidentStep_quiet rfl id rfl, rfl⟩
  | recordEvent asset =>
    simp only [ingestStatement] at h
    split at h <;> cases h
    exact ⟨incidentStep_quiet (made_eventWrites _ _).incidents id rfl, rfl⟩
  | matchRule asset event =>
    simp only [ingestStatement] at h
    split at h
    · cases h
      exact ⟨incidentStep_finish _ rfl, rfl⟩
    · next rule matched =>
      cases h
      refine ⟨.neither _ _ rfl id (fun _ _ _ e => by cases e) (fun _ _ _ e => ?_), rfl⟩
      cases e
      exact (RuleEngine.matchRule_mem matched).1
  | checkCooldown asset event rule =>
    simp only [ingestStatement] at h
    split at h
    · cases h
      exact ⟨incidentStep_finish _ rfl, rfl⟩
    · next clear =>
      cases h
      exact ⟨.passes asset event rule rfl (by simpa using clear), rfl⟩
  | openIncident asset event rule =>
    simp only [ingestStatement] at h
    split at h <;> cases h
    exact ⟨.opens asset event rule rfl, rfl⟩
  | checkBacklog event rule incident =>
    simp only [ingestStatement] at h
    (repeat' split at h) <;> cases h
    · exact ⟨incidentStep_finish _ rfl, rfl⟩
    · exact ⟨incidentStep_finish _ rfl, rfl⟩
    · exact ⟨incidentStep_quiet rfl id rfl, rfl⟩
  | queueAction event rule incident =>
    simp only [ingestStatement] at h
    split at h <;> cases h
    exact ⟨incidentStep_finish _ rfl, rfl⟩
  | complete id o =>
    cases h
    exact ⟨incidentStep_quiet rfl (fun e => e) rfl, rfl⟩
  | _ =>
    simp only [ingestStatement] at h
    (repeat' split at h) <;> cases h <;>
      exact ⟨incidentStep_quiet rfl (fun _ => rfl) rfl, rfl⟩

end Statements

/-- The incidents after a transaction are the old ones and those it inserted. -/
theorem incident_of_write {s : Store} {ws : List Write} {x : Incident}
    (h : x ∈ (s.write ws).incidents.rows) : x ∈ s.incidents.rows ∨ .insertIncident x ∈ ws := by
  induction ws generalizing s with
  | nil => exact .inl h
  | cons w ws ih =>
    rcases ih h with first | later
    · rw [Write.apply_incidents] at first
      cases w with
      | insertIncident row =>
        rcases s.incidents.mem_of_mem_insert first with old | rfl
        · exact .inl old
        · exact .inr (List.mem_cons_self ..)
      | _ => exact .inl first
    · exact .inr (List.mem_cons_of_mem _ later)

theorem rules_write (s : Store) (ws : List Write) : (s.write ws).rules = s.rules := by
  induction ws generalizing s with
  | nil => rfl
  | cons w ws ih => rw [Store.write_cons, ih, Write.apply_rules]

theorem not_insertIncident {ws : List Write} (quiet : ws.filter Write.onIncidents = [])
    (x : Incident) : .insertIncident x ∉ ws := by
  intro h
  have : Write.insertIncident x ∈ ws.filter Write.onIncidents := List.mem_filter.mpr ⟨h, rfl⟩
  rw [quiet] at this
  cases this

/-- A query that finds nothing recent: everything unresolved of the asset is too old. -/
theorem old_of_clear {s : Store} {assetId : Nat} {c : Int} {now : Instant}
    (clear : inCooldown s assetId c now = false) (window : 0 < c) {x : Incident}
    (mem : x ∈ s.incidents.rows) (asset : x.assetId = assetId) (opened : x.state ≠ .resolved) :
    x.createdAt + minutes c < now := by
  by_contra recent
  have : inCooldown s assetId c now = true := by
    refine (inCooldown_iff _ _ _ _).mpr ⟨window, x, mem, asset, opened, ?_⟩
    exact Int.sub_right_le_of_le_add (Int.not_lt.mp recent)
  rw [clear] at this
  cases this

/-! ## The invariant -/

section Invariant

variable {ι : Type} [DecidableEq ι]

/-- What every session past its query relies on. -/
structure Spaced (rules : Table AutomationRule) (w : Ingest ι) : Prop where
  locks : ingestion.LocksHeld w
  rules_eq : w.stored.rules = rules
  opened : ∀ x, Known w x → x.state ≠ .resolved
  early : ∀ i ses, w.sessions i = some ses → ses.program.phase.early = true →
    ses.writes.filter Write.onIncidents = []
  matched : ∀ i ses asset event rule, w.sessions i = some ses →
    ses.program.phase = .checkCooldown asset event rule → rule ∈ rules.rows
  /-- Everything known is older than the query by more than the cooldown. -/
  clear : ∀ i ses asset event rule, w.sessions i = some ses →
    ses.program.phase = .openIncident asset event rule → rule ∈ rules.rows ∧
    (0 < rule.cooldownMinutes → ∃ t ∈ ses.program.clock, ∀ x, Known w x →
      x.assetId = asset.id → x.ruleId = rule.id → x.createdAt + minutes rule.cooldownMinutes < t)
  sole : ∀ i j si sj asset event rule, w.sessions i = some si → w.sessions j = some sj →
    si.program.phase = .openIncident asset event rule → 0 < rule.cooldownMinutes →
    aboutToOpen sj.program asset.id rule.id = true → i = j
  apart : ∀ rule ∈ rules.rows, 0 < rule.cooldownMinutes → ∀ x y, Known w x → Known w y →
    x.id ≠ y.id → x.assetId = y.assetId → x.ruleId = rule.id → y.ruleId = rule.id → Apart rule x y

omit [DecidableEq ι] in
theorem Spaced.cooldownKept {rules : Table AutomationRule} {w : Ingest ι} (h : Spaced rules w) :
    CooldownKept w.stored := by
  intro rule hrule window x hx y hy ne asset ruleX ruleY
  rw [h.rules_eq] at hrule
  refine h.apart rule hrule window x y (.inl hx) (.inl hy) (fun id => ne ?_) asset ruleX ruleY
  exact w.stored.incidents.eq_of_key_eq hx hy id

omit [DecidableEq ι] in
/-- Whoever shares the asset and the rule with a session that has updated the asset is gone. -/
theorem alone_of_bothUpdate {w : Ingest ι} (locks : ingestion.LocksHeld w) {i j : ι}
    {ses sj : Session IngestProgram Write} {asset : Asset} {rule : AutomationRule} {now : Instant}
    (both : BothUpdate w i ses asset rule now) (here : w.sessions i = some ses)
    (other : w.sessions j = some sj) (ne : j ≠ i) :
    aboutToOpen sj.program asset.id rule.id = false ∧
      hasOpened sj.writes asset.id rule.id (now - minutes rule.cooldownMinutes) = false := by
  rw [← Bool.or_eq_false_iff]
  by_contra past
  obtain ⟨mine, theirs⟩ := both j ne sj other (by rwa [Bool.not_eq_false] at past)
  have lock : ∀ {ws : List Write}, updatesAsset ws asset.id = true →
      ∃ x ∈ ws, .asset asset.id ∈ x.locks := by
    intro ws h
    obtain ⟨x, hx, id⟩ := List.any_eq_true.mp h
    refine ⟨x, hx, ?_⟩
    cases x <;> simp_all [Write.locks]
  obtain ⟨x, hx, kx⟩ := lock mine
  obtain ⟨y, hy, ky⟩ := lock theirs
  exact ne (ingestion.eq_of_common_lock locks here other hx hy kx ky).symm

/-- A session with no part in the argument: before its query, or past its insertion. -/
structure Calm (rules : Table AutomationRule) (ses : Session IngestProgram Write) : Prop where
  early : ses.program.phase.early = true → ses.writes.filter Write.onIncidents = []
  matched : ∀ asset event rule, ses.program.phase = .checkCooldown asset event rule →
    rule ∈ rules.rows
  waits : ∀ asset event rule, ses.program.phase ≠ .openIncident asset event rule

theorem Calm.of_calm {rules : Table AutomationRule} {ses : Session IngestProgram Write}
    (quiet : ses.writes.filter Write.onIncidents = []) (calm : ses.program.phase.calm = true) :
    Calm rules ses :=
  ⟨fun _ => quiet, fun a e r same => absurd same (IngestPhase.ne_of_calm calm a e r).2,
    fun a e r => (IngestPhase.ne_of_calm calm a e r).1⟩

theorem aboutToOpen_iff {p : IngestProgram} {assetId ruleId : Nat} :
    aboutToOpen p assetId ruleId = true ↔ ∃ asset event rule,
      p.phase = .openIncident asset event rule ∧ asset.id = assetId ∧ rule.id = ruleId := by
  unfold aboutToOpen
  split
  · next asset event rule phase =>
    simp only [Bool.and_eq_true, decide_eq_true_eq]
    constructor
    · exact fun h => ⟨asset, event, rule, phase, h⟩
    · rintro ⟨_, _, _, same, ids⟩
      rw [phase] at same
      cases same
      exact ids
  · next other =>
    refine iff_of_false Bool.false_ne_true ?_
    rintro ⟨asset, event, rule, phase, -⟩
    exact other asset event rule phase

omit [DecidableEq ι] in
/-- A step after which nothing more is known, and which makes no session pass its query. -/
theorem Spaced.quiet {rules : Table AutomationRule} {w u : Ingest ι} (h : Spaced rules w)
    (locks : ingestion.LocksHeld u) (rules_eq : u.stored.rules = rules)
    (known : ∀ x, Known u x → Known w x)
    (sessions : ∀ j sj, u.sessions j = some sj → w.sessions j = some sj ∨ Calm rules sj) :
    Spaced rules u where
  locks := locks
  rules_eq := rules_eq
  opened x hx := h.opened x (known x hx)
  early j sj hj phase := by
    rcases sessions j sj hj with old | calm
    · exact h.early j sj old phase
    · exact calm.early phase
  matched j sj asset event rule hj phase := by
    rcases sessions j sj hj with old | calm
    · exact h.matched j sj asset event rule old phase
    · exact calm.matched asset event rule phase
  clear j sj asset event rule hj phase := by
    rcases sessions j sj hj with old | calm
    · obtain ⟨mem, clear⟩ := h.clear j sj asset event rule old phase
      refine ⟨mem, fun window => ?_⟩
      obtain ⟨t, ht, all⟩ := clear window
      exact ⟨t, ht, fun x hx => all x (known x hx)⟩
    · exact absurd phase (calm.waits _ _ _)
  sole j k sj sk asset event rule hj hk phase window opens := by
    rcases sessions j sj hj with oldJ | calm
    · rcases sessions k sk hk with oldK | calm
      · exact h.sole j k sj sk asset event rule oldJ oldK phase window opens
      · obtain ⟨asset', event', rule', phase', -⟩ := aboutToOpen_iff.mp opens
        exact absurd phase' (calm.waits _ _ _)
    · exact absurd phase (calm.waits _ _ _)
  apart rule mem window x y hx hy := h.apart rule mem window x y (known x hx) (known y hy)

theorem known_advance {w : Ingest ι} {i : ι} {ses : Session IngestProgram Write}
    {p : IngestProgram} {vs : List Write} {es : List Answer} (here : w.sessions i = some ses)
    {x : Incident} (h : Known (ingestion.advance w i ses p vs es) x) :
    Known w x ∨ .insertIncident x ∈ vs := by
  rcases h with stored | ⟨j, sj, hj, mem⟩
  · exact .inl (.inl stored)
  · rcases Client.sessions_advance ingestion hj with ⟨-, rfl⟩ | ⟨-, old⟩
    · rcases List.mem_append.mp mem with before | new
      · exact .inl (.inr ⟨i, ses, here, before⟩)
      · exact .inr new
    · exact .inl (.inr ⟨j, sj, old, mem⟩)

/-- The incident of a session that has passed its query is apart from everything known. -/
theorem Spaced.opens {rules : Table AutomationRule} {w : Ingest ι} {i : ι}
    {ses : Session IngestProgram Write} {asset : Asset} {event : OperationalEvent}
    {rule : AutomationRule} {incident : Incident} {q : IngestProgram} (h : Spaced rules w)
    (here : w.sessions i = some ses)
    (phase : ses.program.phase = .openIncident asset event rule)
    (clock : ∀ t ∈ ses.program.clock, t ≤ incident.createdAt) (state : incident.state = .opened)
    (assetId : incident.assetId = asset.id) (ruleId : incident.ruleId = rule.id)
    (past : q.phase = .checkBacklog event rule incident)
    (locks : ingestion.LocksHeld (ingestion.advance w i ses q [.insertIncident incident] [])) :
    Spaced rules (ingestion.advance w i ses q [.insertIncident incident] []) := by
  obtain ⟨ruleMem, clear⟩ := h.clear i ses asset event rule here phase
  have known : ∀ {x}, Known (ingestion.advance w i ses q [.insertIncident incident] []) x →
      Known w x ∨ x = incident := fun hx => (known_advance here hx).imp_right fun new => by
    simpa using new
  have old : ∀ {j sj}, (ingestion.advance w i ses q [.insertIncident incident] []).sessions j =
      some sj → (j = i ∧ sj.program = q) ∨ (j ≠ i ∧ w.sessions j = some sj) := fun hj =>
    (Client.sessions_advance ingestion hj).imp_left fun ⟨same, new⟩ => ⟨same, by rw [new]⟩
  -- the only session that may open one of this asset and rule is `i`
  have others : ∀ {j sj asset' event' rule'}, j ≠ i → w.sessions j = some sj →
      sj.program.phase = .openIncident asset' event' rule' → 0 < rule'.cooldownMinutes →
      incident.assetId = asset'.id → incident.ruleId ≠ rule'.id := by
    intro j sj asset' event' rule' ne hj phase' window sameAsset sameRule
    refine ne (h.sole j i sj ses asset' event' rule' hj here phase' window ?_)
    exact aboutToOpen_iff.mpr
      ⟨asset, event, rule, phase, assetId.symm.trans sameAsset, ruleId.symm.trans sameRule⟩
  have apart : ∀ {r x}, r ∈ rules.rows → 0 < r.cooldownMinutes → Known w x →
      x.assetId = incident.assetId → x.ruleId = r.id → incident.ruleId = r.id →
      x.createdAt + minutes r.cooldownMinutes < incident.createdAt := by
    intro r x mem window hx sameAsset ruleX ruleNew
    obtain rfl : rule = r := rules.eq_of_key_eq ruleMem mem (ruleId.symm.trans ruleNew)
    obtain ⟨t, ht, all⟩ := clear window
    exact Int.lt_of_lt_of_le (all x hx (sameAsset.trans assetId) ruleX) (clock t ht)
  refine ⟨locks, h.rules_eq, ?_, ?_, ?_, ?_, ?_, ?_⟩
  · intro x hx
    rcases known hx with before | rfl
    · exact h.opened x before
    · rw [state]; exact IncidentState.noConfusion
  · intro j sj hj phase'
    rcases old hj with ⟨-, new⟩ | ⟨-, before⟩
    · rw [new, past] at phase'; cases phase'
    · exact h.early j sj before phase'
  · intro j sj asset' event' rule' hj phase'
    rcases old hj with ⟨-, new⟩ | ⟨-, before⟩
    · rw [new, past] at phase'; cases phase'
    · exact h.matched j sj asset' event' rule' before phase'
  · intro j sj asset' event' rule' hj phase'
    rcases old hj with ⟨-, new⟩ | ⟨ne, before⟩
    · rw [new, past] at phase'; cases phase'
    · obtain ⟨mem', clear'⟩ := h.clear j sj asset' event' rule' before phase'
      refine ⟨mem', fun window => ?_⟩
      obtain ⟨t, ht, all⟩ := clear' window
      refine ⟨t, ht, fun x hx sameAsset sameRule => ?_⟩
      rcases known hx with before' | rfl
      · exact all x before' sameAsset sameRule
      · exact absurd sameRule (others ne before phase' window sameAsset)
  · intro j k sj sk asset' event' rule' hj hk phase' window about
    rcases old hj with ⟨-, new⟩ | ⟨-, beforeJ⟩
    · rw [new, past] at phase'; cases phase'
    · rcases old hk with ⟨-, new⟩ | ⟨-, beforeK⟩
      · obtain ⟨_, _, _, phaseK, -⟩ := aboutToOpen_iff.mp about
        rw [new, past] at phaseK; cases phaseK
      · exact h.sole j k sj sk asset' event' rule' beforeJ beforeK phase' window about
  · intro r mem window x y hx hy ne sameAsset ruleX ruleY
    rcases known hx with beforeX | rfl
    · rcases known hy with beforeY | rfl
      · exact h.apart r mem window x y beforeX beforeY ne sameAsset ruleX ruleY
      · exact .inl (apart mem window beforeX sameAsset ruleX ruleY)
    · rcases known hy with beforeY | rfl
      · exact .inr (apart mem window beforeY sameAsset.symm ruleY ruleX)
      · exact absurd rfl ne

/-- Past its query a session knows that everything of its asset and rule is old. -/
theorem Spaced.passes {rules : Table AutomationRule} {w : Ingest ι} {i : ι}
    {ses : Session IngestProgram Write} {asset : Asset} {event : OperationalEvent}
    {rule : AutomationRule} {q : IngestProgram} {now : Instant} (h : Spaced rules w)
    (here : w.sessions i = some ses)
    (phase : ses.program.phase = .checkCooldown asset event rule)
    (clear : inCooldown (w.stored.write ses.writes) asset.id rule.cooldownMinutes now = false)
    (both : 0 < rule.cooldownMinutes → BothUpdate w i ses asset rule now)
    (past : q.phase = .openIncident asset event rule) (clock : q.clock = some now)
    (locks : ingestion.LocksHeld (ingestion.advance w i ses q [] [])) :
    Spaced rules (ingestion.advance w i ses q [] []) := by
  have quiet : ses.writes.filter Write.onIncidents = [] :=
    h.early i ses here (by rw [phase]; rfl)
  have known : ∀ {x}, Known (ingestion.advance w i ses q [] []) x → Known w x := fun hx =>
    (known_advance here hx).resolve_right List.not_mem_nil
  have new : ∀ {j sj}, (ingestion.advance w i ses q [] []).sessions j = some sj →
      (j = i ∧ sj = ⟨q, ses.writes, ses.since⟩) ∨ (j ≠ i ∧ w.sessions j = some sj) := fun hj =>
    (Client.sessions_advance ingestion hj).imp_left fun ⟨same, new⟩ => ⟨same, by simpa using new⟩
  have alone := fun window {j sj} (other : w.sessions j = some sj) (ne : j ≠ i) =>
    alone_of_bothUpdate h.locks (both window) here other ne
  have old : 0 < rule.cooldownMinutes → ∀ x, Known w x → x.assetId = asset.id →
      x.ruleId = rule.id → x.createdAt + minutes rule.cooldownMinutes < now := by
    intro window x hx sameAsset sameRule
    rcases hx with stored | ⟨j, sj, other, inserted⟩
    · refine old_of_clear clear window ?_ sameAsset (h.opened x (.inl stored))
      rwa [incidents_write, quiet]
    · by_cases ne : j = i
      · obtain rfl := ne
        rw [here] at other
        cases other
        exact absurd inserted (not_insertIncident quiet x)
      · have none := (alone window other ne).2
        by_contra recent
        have since : now - minutes rule.cooldownMinutes ≤ x.createdAt :=
          Int.sub_right_le_of_le_add (Int.not_lt.mp recent)
        have found := List.any_eq_false.mp none _ inserted
        simp [sameAsset, sameRule, since] at found
  refine ⟨locks, h.rules_eq, fun x hx => h.opened x (known hx), ?_, ?_, ?_, ?_,
    fun r mem window x y hx hy => h.apart r mem window x y (known hx) (known hy)⟩
  · intro j sj hj phase'
    rcases new hj with ⟨-, rfl⟩ | ⟨-, before⟩
    · exact quiet
    · exact h.early j sj before phase'
  · intro j sj asset' event' rule' hj phase'
    rcases new hj with ⟨-, rfl⟩ | ⟨-, before⟩
    · rw [past] at phase'; cases phase'
    · exact h.matched j sj asset' event' rule' before phase'
  · intro j sj asset' event' rule' hj phase'
    rcases new hj with ⟨-, rfl⟩ | ⟨-, before⟩
    · rw [past] at phase'
      cases phase'
      exact ⟨h.matched i ses asset event rule here phase, fun window =>
        ⟨now, clock, fun x hx => old window x (known hx)⟩⟩
    · obtain ⟨mem', clear'⟩ := h.clear j sj asset' event' rule' before phase'
      refine ⟨mem', fun window => ?_⟩
      obtain ⟨t, ht, all⟩ := clear' window
      exact ⟨t, ht, fun x hx => all x (known hx)⟩
  · intro j k sj sk asset' event' rule' hj hk phase' window about
    rcases new hj with ⟨rfl, rfl⟩ | ⟨neJ, beforeJ⟩
    · rw [past] at phase'
      cases phase'
      rcases new hk with ⟨rfl, -⟩ | ⟨neK, beforeK⟩
      · rfl
      · rw [(alone window beforeK neK).1] at about
        cases about
    · rcases new hk with ⟨rfl, rfl⟩ | ⟨-, beforeK⟩
      · obtain ⟨_, _, _, phaseK, sameAsset, sameRule⟩ := aboutToOpen_iff.mp about
        rw [past] at phaseK
        cases phaseK
        have mine := h.matched k ses asset event rule here phase
        have theirs := (h.clear j sj asset' event' rule' beforeJ phase').1
        obtain rfl := rules.eq_of_key_eq mine theirs sameRule
        have none := (alone window beforeJ neJ).1
        have : aboutToOpen sj.program asset.id rule.id = true :=
          aboutToOpen_iff.mpr ⟨asset', event', rule, phase', sameAsset.symm, rfl⟩
        rw [this] at none
        cases none
      · exact h.sole j k sj sk asset' event' rule' beforeJ beforeK phase' window about

theorem calm_openCall {rules : Table AutomationRule} {l : IngestStep} {s : Store}
    {p : IngestProgram} {n : Nat} (h : openCall l s = some p) : Calm rules ⟨p, [], n⟩ := by
  cases l with
  | statement tick => cases h
  | call settings payload =>
    cases h
    cases key : payload.key? with
    | none => exact .of_calm rfl rfl
    | some k => exact .of_calm rfl rfl

omit [DecidableEq ι] in
/-- A step that stores nothing and opens or closes a session makes no incident known. -/
theorem Known.of_sessions {w u : Ingest ι} {x : Incident} (h : Known u x)
    (stored : u.stored = w.stored)
    (sessions : ∀ j sj, u.sessions j = some sj → sj.writes = [] ∨ w.sessions j = some sj) :
    Known w x := by
  rcases h with mem | ⟨j, sj, hj, mem⟩
  · rw [stored] at mem
    exact .inl mem
  · rcases sessions j sj hj with none | old
    · rw [none] at mem
      cases mem
    · exact .inr ⟨j, sj, old, mem⟩

/-- Each admitted step keeps the invariant. -/
theorem Spaced.step {rules : Table AutomationRule} {w u : Ingest ι} {i : ι} {l : IngestStep}
    (h : Spaced rules w) (serialised : Serialised w (i, l)) (step : ingestion.Stepped w i l u) :
    Spaced rules u := by
  have locks := ingestion.locksHeld_step h.locks step
  cases step with
  | begin p closed start =>
    refine h.quiet locks h.rules_eq (fun x hx => hx.of_sessions rfl ?_) ?_
    · intro j sj hj
      rcases Client.sessions_begin hj with ⟨-, rfl⟩ | ⟨-, old⟩
      · exact .inl rfl
      · exact .inr old
    · intro j sj hj
      rcases Client.sessions_begin hj with ⟨-, rfl⟩ | ⟨-, old⟩
      · exact .inr (calm_openCall start)
      · exact .inl old
  | next ses p vs es here exec free =>
    obtain ⟨tick, rfl, statement⟩ := exec_statement exec
    obtain ⟨incidents, rfl⟩ := incidentStep_of_statement statement
    unfold Serialised at serialised
    rw [here] at serialised
    obtain ⟨clock, guarded⟩ := serialised
    cases incidents with
    | passes asset event rule phase clear =>
      rw [phase] at guarded
      exact h.passes here phase clear (fun window => guarded window clear) rfl rfl locks
    | opens asset event rule phase =>
      exact h.opens here phase clock rfl rfl rfl rfl locks
    | neither _ _ quiet early waits matched =>
      refine h.quiet locks h.rules_eq ?_ ?_
      · intro x hx
        exact (known_advance here hx).resolve_right (not_insertIncident quiet x)
      · intro j sj hj
        rcases Client.sessions_advance ingestion hj with ⟨-, rfl⟩ | ⟨-, old⟩
        · refine .inr ⟨?_, ?_, waits⟩
          · intro e
            rw [List.filter_append, quiet, h.early i ses here (early e), List.nil_append]
          · intro asset event rule e
            have := matched asset event rule e
            change rule ∈ (w.stored.write ses.writes).rules.rows at this
            rwa [rules_write, h.rules_eq] at this
        · exact .inl old
  | restart ses p here exec =>
    obtain ⟨tick, rfl, statement⟩ := exec_statement exec
    obtain ⟨key, phase, rfl⟩ := restart_cases statement
    refine h.quiet locks h.rules_eq (fun x hx => hx.of_sessions rfl ?_) ?_
    · intro j sj hj
      rcases Client.sessions_restart hj with ⟨-, rfl⟩ | ⟨-, old⟩
      · exact .inl rfl
      · exact .inr old
    · intro j sj hj
      rcases Client.sessions_restart hj with ⟨-, rfl⟩ | ⟨-, old⟩
      · exact .inr (Calm.of_calm rfl rfl)
      · exact .inl old
  | commit ses es here exec =>
    refine h.quiet locks ((rules_write _ _).trans h.rules_eq) ?_ ?_
    · intro x hx
      rcases hx with stored | ⟨j, sj, hj, mem⟩
      · exact (incident_of_write stored).imp_right fun own => ⟨i, ses, here, own⟩
      · exact .inr ⟨j, sj, (Client.sessions_commit ingestion hj).2, mem⟩
    · intro j sj hj
      exact .inl (Client.sessions_commit ingestion hj).2
  | rollback ses es here exec =>
    refine h.quiet locks h.rules_eq (fun x hx => hx.of_sessions rfl ?_) ?_
    · intro j sj hj
      exact .inr (Client.sessions_rollback hj).2
    · intro j sj hj
      exact .inl (Client.sessions_rollback hj).2

omit [DecidableEq ι] in
theorem known_initial {s : Store} {x : Incident} (h : Known (Client.initial s : Ingest ι) x) :
    x ∈ s.incidents.rows := by
  rcases h with mem | ⟨j, sj, hj, -⟩
  · exact mem
  · cases hj

omit [DecidableEq ι] in
theorem Spaced.initial {s : Store} (kept : CooldownKept s)
    (opened : ∀ x ∈ s.incidents.rows, x.state ≠ .resolved) :
    Spaced s.rules (Client.initial s : Ingest ι) where
  locks := ingestion.locksHeld_initial s
  rules_eq := rfl
  opened x hx := opened x (known_initial hx)
  early i ses h := by cases h
  matched i ses asset event rule h := by cases h
  clear i ses asset event rule h := by cases h
  sole i j si sj asset event rule h := by cases h
  apart rule mem window x y hx hy ne :=
    kept rule mem window x (known_initial hx) y (known_initial hy) fun same => ne (by rw [same])

/-- While every two sessions that meet past the cooldown query have updated the asset, in every
interleaving the incidents of an asset and a rule are further apart than the cooldown. -/
theorem cooldownKept_of_serialised (s : Store) (kept : CooldownKept s)
    (opened : ∀ x ∈ s.incidents.rows, x.state ≠ .resolved) (ls : List (ι × IngestStep))
    (serialised : ingestion.machine.Along Serialised (Client.initial s) ls) (w : Ingest ι)
    (run : ingestion.machine.run (Client.initial s) ls = some w) : CooldownKept w.stored := by
  have spaced : Spaced s.rules w :=
    ingestion.invariant_of_along (fun _ _ _ _ admitted h step => h.step admitted step) serialised
      (Spaced.initial kept opened) run
  exact spaced.cooldownKept

end Invariant

/-! ## Two reports of one pump -/

/-- Two calls load the asset; the second waits for the first to commit its status. -/
def twoReports : List (Bool × IngestStep) :=
  [(false, .call ⟨1000⟩ pumpOffline), (true, .call ⟨1000⟩ pumpOffline)] ++
    statements false 1 0 1 ++ statements true 1 0 2 ++ statements false 7 0 1 ++
    statements true 4 (minutes 1) 2

theorem cooldownKept_twoReports : ∃ w : Ingest Bool,
    ingestion.machine.run (Client.initial demo) twoReports = some w ∧
    w.log.map (fun e => e.2.response.processed.skippedReason) = [none, some .cooldown] ∧
    CooldownKept w.stored :=
  ⟨_, rfl, by decide, cooldownKept_of_serialised demo (by decide) (by decide) twoReports
    (by decide) _ rfl⟩

/-- The pump is offline already, so neither call sends an `UPDATE`: both pass the query before
either commits. -/
def repeatedReports : List (Bool × IngestStep) :=
  [(false, .call ⟨1000⟩ pumpOffline), (true, .call ⟨1000⟩ pumpOffline)] ++
    statements false 4 (minutes 21) 2 ++ statements true 4 (minutes 21) 3 ++
    statements false 4 (minutes 21) 2 ++ statements true 4 (minutes 21) 3

theorem cooldown_broken_repeatedReports : CooldownKept pumpIsOffline ∧ ∃ w : Ingest Bool,
    ingestion.machine.run (Client.initial pumpIsOffline) repeatedReports = some w ∧
    (w.stored.incidents.rows.map fun x => (x.id, x.assetId, x.ruleId, x.createdAt)) =
      [(1, 1, 1, 0), (2, 1, 1, minutes 21), (3, 1, 1, minutes 21)] ∧
    ¬ CooldownKept w.stored :=
  ⟨by decide, _, rfl, by decide, by decide⟩

end SupportOps.Python
