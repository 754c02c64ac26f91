import SupportOps.Python.Seed
import SupportOps.Python.Service

/-!
# Rules and their order

`RuleEngine.match` orders the rules by their threshold and by nothing else. Rules with one
threshold come as they are stored, so the choice between them, and with it everything `process`
makes of the event, depends on the order of storage.
-/
namespace SupportOps.Python

open Library

/-- What a rule says, without the id it is stored under. -/
def AutomationRule.body (r : AutomationRule) : RuleBody :=
  ⟨r.name, r.category, r.minimumSeverity, r.cooldownMinutes, r.actionType, r.enabled⟩

/-- The same rules, stored in any order and under any ids. -/
def SameRules (rules rules' : Table AutomationRule) : Prop :=
  (rules.rows.map AutomationRule.body).Perm (rules'.rows.map AutomationRule.body)

/-- `uq_rule_name_category` -/
def UniqueRules (rules : Table AutomationRule) : Prop :=
  (rules.rows.map fun r => (r.name, r.category)).Nodup

instance (rules : Table AutomationRule) : Decidable (UniqueRules rules) := by
  unfold UniqueRules; exact inferInstance

theorem SameRules.symm {rules rules' : Table AutomationRule} (h : SameRules rules rules') :
    SameRules rules' rules := List.Perm.symm h

theorem SameRules.exists_mem {rules rules' : Table AutomationRule} (h : SameRules rules rules')
    {r : AutomationRule} (mem : r ∈ rules.rows) : ∃ r' ∈ rules'.rows, r'.body = r.body :=
  List.mem_map.mp (h.mem_iff.mp (List.mem_map_of_mem mem))

/-! ## The greatest threshold -/

namespace RuleEngine

variable {rules rules' : Table AutomationRule} {event : OperationalEvent}
  {r r' : AutomationRule}

/-- An enabled rule of the event's category with the greatest threshold that its severity
reaches. -/
structure Greatest (rules : Table AutomationRule) (event : OperationalEvent)
    (rule : AutomationRule) : Prop where
  mem : rule ∈ rules.rows
  enabled : rule.enabled = true
  category : rule.category = event.category
  reached : rule.minimumSeverity ≤ event.severity
  greatest : ∀ r ∈ rules.rows, r.enabled = true → r.category = event.category →
    r.minimumSeverity ≤ event.severity → r.minimumSeverity ≤ rule.minimumSeverity

/-- No two rules share the greatest threshold. -/
def Sole (rules : Table AutomationRule) (event : OperationalEvent) : Prop :=
  ∀ r₁ r₂, Greatest rules event r₁ → Greatest rules event r₂ → r₁ = r₂

theorem applies_iff : applies event r = true ↔
    r.enabled = true ∧ r.category = event.category ∧ r.minimumSeverity ≤ event.severity := by
  simp [applies, and_assoc]

instance : Std.Total before where
  total r₁ r₂ := Int.le_total r₂.minimumSeverity r₁.minimumSeverity

instance : IsTrans AutomationRule before where
  trans _ _ _ h g := Int.le_trans g h

theorem greatest_of_matchRule (h : matchRule rules event = some r) : Greatest rules event r := by
  obtain ⟨mem, applied⟩ := matchRule_mem h
  obtain ⟨enabled, category, reached⟩ := applies_iff.mp applied
  exact ⟨mem, enabled, category, reached, fun q hq enabled category reached =>
    rules.le_of_select_one h hq (applies_iff.mpr ⟨enabled, category, reached⟩)⟩

/-- A rule is found wherever one applies. -/
theorem Greatest.isSome_matchRule (h : Greatest rules event r) :
    (matchRule rules event).isSome := by
  rw [matchRule, rules.isSome_select_one]
  exact List.any_eq_true.mpr
    ⟨r, h.mem, applies_iff.mpr ⟨h.enabled, h.category, h.reached⟩⟩

/-- Being the greatest is a matter of what the rules say. -/
theorem Greatest.of_sameRules (same : SameRules rules rules') (h : Greatest rules event r) :
    ∃ r', r'.body = r.body ∧ Greatest rules' event r' := by
  obtain ⟨r', mem, alike⟩ := same.exists_mem h.mem
  have fields := alike
  simp only [AutomationRule.body, RuleBody.mk.injEq] at fields
  obtain ⟨-, category, threshold, -, -, enabled⟩ := fields
  refine ⟨r', alike, mem, enabled.trans h.enabled, category.trans h.category,
    threshold.trans_le h.reached, fun q' hq' enabled category reached => ?_⟩
  obtain ⟨q, hq, alike⟩ := same.symm.exists_mem hq'
  simp only [AutomationRule.body, RuleBody.mk.injEq] at alike
  obtain ⟨-, category', threshold', -, -, enabled'⟩ := alike
  have below := h.greatest q hq (enabled'.trans enabled) (category'.trans category)
    (threshold'.trans_le reached)
  omega

/-- Where one rule alone is the greatest, every order of storage selects what it says. -/
theorem matchRule_body_eq (same : SameRules rules rules') (sole : Sole rules event) :
    (matchRule rules' event).map AutomationRule.body =
      (matchRule rules event).map AutomationRule.body := by
  cases found' : matchRule rules' event with
  | none =>
    cases found : matchRule rules event with
    | none => rfl
    | some r =>
      obtain ⟨r', -, greatest⟩ := (greatest_of_matchRule found).of_sameRules same
      have some := greatest.isSome_matchRule
      rw [found'] at some
      cases some
  | some r' =>
    obtain ⟨r, alike, greatest⟩ := (greatest_of_matchRule found').of_sameRules same.symm
    obtain ⟨q, found⟩ := Option.isSome_iff_exists.mp greatest.isSome_matchRule
    obtain rfl := sole q r (greatest_of_matchRule found) greatest
    rw [found, Option.map_some, Option.map_some, alike]

/-- A rule that is stored first is selected if it is a greatest one. -/
theorem matchRule_of_head (rows : rules.rows = r :: rest) (h : Greatest rules event r) :
    matchRule rules event = some r := by
  have applied : applies event r = true := applies_iff.mpr ⟨h.enabled, h.category, h.reached⟩
  have first : ∀ q ∈ rest.filter (applies event), before r q := by
    intro q hq
    obtain ⟨mem, applied⟩ := List.mem_filter.mp hq
    obtain ⟨enabled, category, reached⟩ := applies_iff.mp applied
    exact h.greatest q (rows ▸ List.mem_cons_of_mem _ mem) enabled category reached
  rw [matchRule, Table.select, rows, List.filter_cons_of_pos applied,
    List.insertionSort_cons_of_forall_rel _ first]
  rfl

/-- The same rows with one of them first. -/
def storedFirst (rules : Table AutomationRule) (r : AutomationRule) (mem : r ∈ rules.rows) :
    Table AutomationRule where
  rows := r :: rules.rows.erase r
  nodup := (((List.perm_cons_erase mem).map Keyed.key).nodup_iff).mp rules.nodup

theorem sameRules_storedFirst (mem : r ∈ rules.rows) : SameRules rules (storedFirst rules r mem) :=
  (List.perm_cons_erase mem).map _

/-- Every greatest rule is selected in some order of storage. -/
theorem Greatest.matchRule_storedFirst (h : Greatest rules event r) :
    matchRule (storedFirst rules r h.mem) event = some r := by
  refine matchRule_of_head rfl
    ⟨List.mem_cons_self .., h.enabled, h.category, h.reached, fun q hq => h.greatest q ?_⟩
  exact (List.perm_cons_erase h.mem).mem_iff.mpr hq

/-- Two greatest rules have different names. -/
theorem Greatest.name_ne (unique : UniqueRules rules) (h : Greatest rules event r)
    (h' : Greatest rules event r') (other : r ≠ r') : r.name ≠ r'.name := fun same =>
  other (List.inj_on_of_nodup_map unique h.mem h'.mem
    (Prod.ext same (h.category.trans h'.category.symm)))

end RuleEngine

/-! ## What `process` makes of an event -/

/-- The decision in a response: the reason for no action, the incident's summary and the type of
the action. -/
structure Decision where
  skippedReason : Option SkippedReason
  summary : Option String
  actionType : Option String
  deriving DecidableEq, Repr

def Processed.decision (o : Processed) : Decision :=
  ⟨o.skippedReason, o.incident.map Incident.summary, o.action.map Action.actionType⟩

/-- What `process` decides, or raises. -/
def processDecision (settings : Settings) (env : Surroundings) (p : EventBody) (s : Store) :
    Except ProcessError Decision :=
  (process settings env p s).map fun rt => rt.1.processed.decision

/-- The decision on a new event of the asset, from what the matched rule says. -/
def decisionUnder (settings : Settings) (p : EventBody) (now : Instant) (s : Store)
    (asset : Asset) : Option RuleBody → Decision
  | none => ⟨some .noMatchingRule, none, none⟩
  | some rule =>
    let summary := rule.name ++ ": " ++ asset.externalId ++ " reported " ++ p.category
    if inCooldown s asset.id rule.cooldownMinutes now then ⟨some .cooldown, none, none⟩
    else if rule.actionType = "none" then ⟨none, some summary, none⟩
    else if settings.maxQueueBacklog ≤ s.queueBacklog then
      ⟨some .queueBackpressure, some summary, none⟩
    else ⟨none, some summary, some rule.actionType⟩

/-- The same store with other rules. -/
def Store.withRules (s : Store) (rules : Table AutomationRule) : Store := { s with rules := rules }

section Process

variable {settings : Settings} {env : Surroundings} {p : EventBody} {s t : Store} {o : Processed}
  {rules : Table AutomationRule} {asset : Asset}

theorem NewCase.decision_eq (h : NewCase settings env p s o t)
    (known : s.assetByExternalId p.assetExternalId = some asset) :
    o.decision = decisionUnder settings p env.now s asset
      ((RuleEngine.matchRule s.rules (p.eventFor env s asset)).map AutomationRule.body) := by
  have opened : ∀ rule, Opens env p s asset rule →
      (RuleEngine.matchRule s.rules (p.eventFor env s asset)).map AutomationRule.body =
        some rule.body ∧
      inCooldown s asset.id rule.body.cooldownMinutes env.now = false ∧
      (p.incidentFor env s asset rule).summary =
        rule.body.name ++ ": " ++ asset.externalId ++ " reported " ++ p.category :=
    fun rule opens => ⟨congrArg (Option.map _) opens.matched, opens.clear, rfl⟩
  cases h with
  | unmatched a known' none =>
    cases known.symm.trans known'
    rw [none]
    rfl
  | suppressed a rule known' matched recent =>
    cases known.symm.trans known'
    have recent : inCooldown s asset.id rule.body.cooldownMinutes env.now = true := recent
    simp [decisionUnder, Processed.decision, matched, recent]
  | incidentOnly a rule opens noAction =>
    cases known.symm.trans opens.known
    obtain ⟨matched, clear, summary⟩ := opened rule opens
    have noAction : rule.body.actionType = "none" := noAction
    simp [decisionUnder, Processed.decision, matched, clear, summary, noAction]
  | rejected a rule opens action full =>
    cases known.symm.trans opens.known
    obtain ⟨matched, clear, summary⟩ := opened rule opens
    have action : rule.body.actionType ≠ "none" := action
    simp [decisionUnder, Processed.decision, matched, clear, summary, action, full]
  | queued a rule opens action room =>
    cases known.symm.trans opens.known
    obtain ⟨matched, clear, summary⟩ := opened rule opens
    have action : rule.body.actionType ≠ "none" := action
    have type : (p.actionFor env s asset rule).actionType = rule.body.actionType := rfl
    simp [decisionUnder, Processed.decision, matched, clear, summary, action, room, type]

/-- Whatever says the same under the event's category and severity decides the same. -/
theorem decision_processNew
    (alike : ∀ asset, (RuleEngine.matchRule rules (p.eventFor env s asset)).map
      AutomationRule.body = (RuleEngine.matchRule s.rules (p.eventFor env s asset)).map
        AutomationRule.body) :
    (processNew settings env p (s.withRules rules)).map (fun ot => ot.1.decision) =
      (processNew settings env p s).map fun ot => ot.1.decision := by
  cases known : s.assetByExternalId p.assetExternalId with
  | none =>
    have known' : (s.withRules rules).assetByExternalId p.assetExternalId = none := known
    rw [processNew_unknown known, processNew_unknown known']
  | some asset =>
    have known' : (s.withRules rules).assetByExternalId p.assetExternalId = some asset := known
    obtain ⟨o, t, new⟩ := processNew_isOk settings env known
    obtain ⟨o', t', new'⟩ := processNew_isOk settings env known'
    have decided := (newCase_of_processNew new).decision_eq known
    have decided' := (newCase_of_processNew new').decision_eq known'
    rw [new, new']
    refine congrArg Except.ok (decided'.trans (Eq.trans ?_ decided.symm))
    exact congrArg (decisionUnder settings p env.now s asset) (alike asset)

theorem processDecision_congr
    (alike : ∀ asset, (RuleEngine.matchRule rules (p.eventFor env s asset)).map
      AutomationRule.body = (RuleEngine.matchRule s.rules (p.eventFor env s asset)).map
        AutomationRule.body) :
    processDecision settings env p (s.withRules rules) = processDecision settings env p s := by
  have mapped : ∀ {α β γ : Type} (x : Except ProcessError α) (f : α → β) (g : β → γ),
      (x.map f).map g = x.map (g ∘ f) := by
    intro α β γ x f g
    cases x <;> rfl
  unfold processDecision process
  cases keyed : p.key? with
  | none =>
    simp only [mapped]
    exact decision_processNew alike
  | some key =>
    have completed : completedRecord (s.withRules rules) key = completedRecord s key := rfl
    have taken : (s.withRules rules).recordByKey key = s.recordByKey key := rfl
    simp only [processWithIdempotency, completed, taken]
    cases earlier : completedRecord s key with
    | some answered =>
      obtain ⟨record, eventId⟩ := answered
      simp only [mapped]
      cases found : s.events.find? eventId with
      | none => rw [replay_missing found, replay_missing (s := s.withRules rules) found]
      | some event =>
        rw [replay_eq_ok.mpr ⟨event, found, rfl, rfl⟩,
          replay_eq_ok (s := s.withRules rules).mpr ⟨event, found, rfl, rfl⟩]
        rfl
    | none =>
      simp only
      split
      · rw [waitForIdempotentResult_eq earlier,
          waitForIdempotentResult_eq (s := s.withRules rules) (completed.trans earlier)]
      · simp only [mapped]
        exact decision_processNew (s := s.write
          [.insertRecord (newRecord s.records.nextId key env.now)]) alike

end Process

/-! ## Repeatable decisions -/

/-- Every order in which the rules may be stored selects the same rule by name, and `process`
makes the same of every event of the category and severity. -/
def Repeatable (s : Store) (event : OperationalEvent) : Prop :=
  ∀ rules, SameRules s.rules rules →
    (RuleEngine.matchRule rules event).map AutomationRule.name =
      (RuleEngine.matchRule s.rules event).map AutomationRule.name ∧
    ∀ settings env p, p.category = event.category → p.severity = event.severity →
      processDecision settings env p (s.withRules rules) = processDecision settings env p s

/-- The selected rule is always a greatest one, and there is none only where no rule applies. The
decision is repeatable exactly if the greatest one is the only one. -/
theorem repeatable_iff_sole (s : Store) (unique : UniqueRules s.rules) (event : OperationalEvent) :
    (∀ rules, SameRules s.rules rules →
      (∀ r, RuleEngine.matchRule rules event = some r → RuleEngine.Greatest rules event r) ∧
      (RuleEngine.matchRule rules event = none →
        ∀ r ∈ rules.rows, RuleEngine.applies event r = false)) ∧
    (Repeatable s event ↔ RuleEngine.Sole s.rules event) := by
  refine ⟨fun rules _ => ⟨fun r => RuleEngine.greatest_of_matchRule,
    rules.select_one_eq_none.mp⟩, ?_⟩
  constructor
  · intro repeatable r₁ r₂ h₁ h₂
    by_contra other
    have first := (repeatable _ (RuleEngine.sameRules_storedFirst h₁.mem)).1
    have second := (repeatable _ (RuleEngine.sameRules_storedFirst h₂.mem)).1
    rw [h₁.matchRule_storedFirst] at first
    rw [h₂.matchRule_storedFirst] at second
    have name := first.trans second.symm
    exact h₁.name_ne unique h₂ other (Option.some.inj name)
  · intro sole rules same
    have alike := RuleEngine.matchRule_body_eq same sole
    refine ⟨?_, fun settings env p category severity => processDecision_congr fun asset => ?_⟩
    · have names := congrArg (Option.map RuleBody.name) alike
      rwa [Option.map_map, Option.map_map] at names
    · have event_eq : ∀ rules, RuleEngine.matchRule rules (p.eventFor env s asset) =
          RuleEngine.matchRule rules event := by
        intro rules
        have applied : RuleEngine.applies (p.eventFor env s asset) = RuleEngine.applies event := by
          funext r
          simp [RuleEngine.applies, EventBody.eventFor, EventBody.newEvent, category, severity]
        rw [RuleEngine.matchRule, RuleEngine.matchRule, applied]
      rw [event_eq, event_eq, alike]

def offlineEvent : OperationalEvent := pumpOffline.newEvent 1 ⟨1, "PUMP-101", "unknown"⟩ ⟨0, "0"⟩

theorem repeatable_demo :
    (∀ rules, SameRules demo.rules rules →
      (∀ r, RuleEngine.matchRule rules offlineEvent = some r →
        RuleEngine.Greatest rules offlineEvent r) ∧
      (RuleEngine.matchRule rules offlineEvent = none →
        ∀ r ∈ rules.rows, RuleEngine.applies offlineEvent r = false)) ∧
    (Repeatable demo offlineEvent ↔ RuleEngine.Sole demo.rules offlineEvent) :=
  repeatable_iff_sole demo (by decide) offlineEvent

/-! ## Two rules with one threshold -/

def ticketRule : RuleCreate where
  name := "Open a ticket"
  category := "offline"
  minimumSeverity := 70
  cooldownMinutes := 20
  accepted := by decide

def ownerRule : RuleCreate where
  name := "Call the owner"
  category := "offline"
  minimumSeverity := 70
  cooldownMinutes := 20
  actionType := "notify_owner"
  accepted := by decide

/-- The demo assets with two rules, created in this order. -/
def withTwoRules (first second : RuleCreate) : Store :=
  createRule second.toRuleBody (createRule first.toRuleBody (Store.seeded demoAssets .empty))

/-- The order in which the two rules were created decides which of them an event meets. -/
theorem decision_depends_on_order :
    UniqueRules (withTwoRules ticketRule ownerRule).rules ∧
    SameRules (withTwoRules ticketRule ownerRule).rules (withTwoRules ownerRule ticketRule).rules ∧
    withTwoRules ownerRule ticketRule = (withTwoRules ticketRule ownerRule).withRules
      (withTwoRules ownerRule ticketRule).rules ∧
    processDecision ⟨1000⟩ ⟨0, "0"⟩ pumpOffline.toEventBody (withTwoRules ticketRule ownerRule) =
      .ok ⟨none, some "Open a ticket: PUMP-101 reported offline", some "create_ticket"⟩ ∧
    processDecision ⟨1000⟩ ⟨0, "0"⟩ pumpOffline.toEventBody (withTwoRules ownerRule ticketRule) =
      .ok ⟨none, some "Call the owner: PUMP-101 reported offline", some "notify_owner"⟩ :=
  ⟨by decide, List.Perm.swap _ _ _, rfl, rfl, rfl⟩

end SupportOps.Python
