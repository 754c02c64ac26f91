import SupportOps.Python.Processor
import SupportOps.Python.Retry
import SupportOps.Python.Seed

/-!
# The contract runner

`contract.py`: rows of a workload are decoded into requests, processed, and summarised. The
behaviour contract gives the rows and the summary they should have. A row names its asset
`asset_id` and a request `asset_external_id`, so that no row is decoded; and where a row has both
names, the five values that `process` returns do not fit the four names they are assigned to.
-/
namespace SupportOps.Python

open Library

/-! ## Rows and requests -/

/-- A value of a JSON line. -/
inductive RowValue where
  | text (s : String)
  | number (n : Int)
  | null
  deriving DecidableEq, Repr

/-- `str(value)`. -/
def RowValue.str : RowValue → String
  | .text s => s
  | .number n => toString n
  | .null => "None"

/-- The keys and values of a `dict`. -/
abbrev Row := List (String × RowValue)

/-- The problem of a field, by pydantic's error types. -/
inductive Problem where
  | missing
  | stringType
  | stringTooShort (minLength : Nat)
  | stringTooLong (maxLength : Nat)
  | intType
  | intParsing
  | greaterThanEqual (ge : Int)
  | lessThanEqual (le : Int)
  deriving DecidableEq, Repr

/-- One entry of a `ValidationError`. -/
structure FieldError where
  field : String
  problem : Problem
  deriving DecidableEq, Repr

/-- A text within the bounds of its field. -/
abbrev Bounded (minLength maxLength : Nat) : Type :=
  { s : String // minLength ≤ s.length ∧ s.length ≤ maxLength }

section Fields

def boundedText (minLength maxLength : Nat) (s : String) :
    Except Problem (Bounded minLength maxLength) :=
  if short : s.length < minLength then .error (.stringTooShort minLength)
  else if long : maxLength < s.length then .error (.stringTooLong maxLength)
  else .ok ⟨s, Nat.not_lt.mp short, Nat.not_lt.mp long⟩

/-- `str = Field(min_length=…, max_length=…)`, with its default if it has one. -/
def textField (minLength maxLength : Nat) (default? : Option (Bounded minLength maxLength)) :
    Option RowValue → Except Problem (Bounded minLength maxLength)
  | some (.text s) => boundedText minLength maxLength s
  | some _ => .error .stringType
  | none => match default? with
    | some s => .ok s
    | none => .error .missing

/-- `str = Field(min_length=…)`. -/
def longTextField (minLength : Nat) :
    Option RowValue → Except Problem { s : String // minLength ≤ s.length }
  | some (.text s) =>
    if short : s.length < minLength then .error (.stringTooShort minLength)
    else .ok ⟨s, Nat.not_lt.mp short⟩
  | some _ => .error .stringType
  | none => .error .missing

/-- `str | None = Field(default=None, min_length=…, max_length=…)`. -/
def optionalTextField (minLength maxLength : Nat) :
    Option RowValue → Except Problem { s : Option String //
      ∀ t ∈ s, minLength ≤ t.length ∧ t.length ≤ maxLength }
  | some (.text s) => (boundedText minLength maxLength s).map fun t =>
    ⟨some t.1, fun u hu => (Option.mem_some_iff.mp hu) ▸ t.2⟩
  | some (.number _) => .error .stringType
  | some .null | none => .ok ⟨none, fun t ht => (by cases ht)⟩

def boundedInt (ge le n : Int) : Except Problem { n : Int // ge ≤ n ∧ n ≤ le } :=
  if low : n < ge then .error (.greaterThanEqual ge)
  else if high : le < n then .error (.lessThanEqual le)
  else .ok ⟨n, Int.not_lt.mp low, Int.not_lt.mp high⟩

/-- `int = Field(ge=…, le=…)`; `parse` reads the texts that are taken for integers. -/
def intField (parse : String → Option Int) (ge le : Int) :
    Option RowValue → Except Problem { n : Int // ge ≤ n ∧ n ≤ le }
  | some (.number n) => boundedInt ge le n
  | some (.text s) => match parse s with
    | some n => boundedInt ge le n
    | none => .error .intParsing
  | some .null => .error .intType
  | none => .error .missing

/-- The entry of a field that is not accepted. -/
def fieldError {α : Type} (field : String) : Except Problem α → Option FieldError
  | .ok _ => none
  | .error problem => some ⟨field, problem⟩

/-- `EventCreate(**row)`: keys that name no field are ignored. -/
def eventCreate (parse : String → Option Int) (row : Row) :
    Except (List FieldError) EventCreate :=
  match textField 3 80 none (row.lookup "asset_external_id"),
    textField 3 120 none (row.lookup "source"), textField 2 80 none (row.lookup "category"),
    intField parse 1 100 (row.lookup "severity"), longTextField 5 (row.lookup "message"),
    textField 3 40 (some ⟨"success", by decide⟩) (row.lookup "executor_mode"),
    optionalTextField 8 120 (row.lookup "idempotency_key"),
    optionalTextField 3 80 (row.lookup "correlation_id") with
  | .ok asset, .ok source, .ok category, .ok severity, .ok message, .ok mode, .ok key,
      .ok correlation =>
    .ok {
      assetExternalId := asset.1
      source := source.1
      category := category.1
      severity := severity.1
      message := message.1
      executorMode := mode.1
      idempotencyKey := key.1
      correlationId := correlation.1
      accepted := ⟨asset.2, source.2, category.2, severity.2, message.2, mode.2, key.2,
        correlation.2⟩ }
  | asset, source, category, severity, message, mode, key, correlation =>
    .error ([fieldError "asset_external_id" asset, fieldError "source" source,
      fieldError "category" category, fieldError "severity" severity,
      fieldError "message" message, fieldError "executor_mode" mode,
      fieldError "idempotency_key" key, fieldError "correlation_id" correlation].filterMap id)

end Fields

/-! ## The runner -/

inductive ContractError where
  /-- `KeyError("asset_id")` -/
  | keyError (key : String)
  /-- `ValidationError` -/
  | validation (errors : List FieldError)
  | process (error : ProcessError)
  /-- `ValueError("too many values to unpack")` -/
  | tooManyValues
  | execute (error : ExecuteError)
  deriving DecidableEq, Repr

/-- A value of the tuple that `process` returns. -/
inductive ProcessValue where
  | event (e : OperationalEvent)
  | incident (i : Option Incident)
  | action (a : Option Action)
  | skippedReason (reason : Option SkippedReason)
  | replay (b : Bool)

/-- The tuple that `process` returns. -/
def Response.tuple (r : Response) : List ProcessValue :=
  [.event r.processed.event, .incident r.processed.incident, .action r.processed.action,
    .skippedReason r.processed.skippedReason, .replay r.replay]

def seedAssetsFromEvents (rows : List Row) (s : Store) : Except ContractError Store :=
  match rows.mapM fun row => (row.lookup "asset_id").map RowValue.str with
  | none => .error (.keyError "asset_id")
  | some ids =>
    let existing := s.assets.rows.map Asset.externalId
    .ok (s.addAssets ((sortedSet ids).filter fun id => id ∉ existing))

/-- `skipped_counts`. -/
structure SkippedCounts where
  normal : Nat := 0
  warningNoAction : Nat := 0
  cooldown : Nat := 0
  deriving DecidableEq, Repr

/-- `if skipped in skipped_counts: skipped_counts[skipped] += 1`. -/
def SkippedCounts.count (c : SkippedCounts) (skipped : Option SkippedReason) : SkippedCounts :=
  let key := skipped.map SkippedReason.value
  if key = some "normal" then { c with normal := c.normal + 1 }
  else if key = some "warning_no_action" then { c with warningNoAction := c.warningNoAction + 1 }
  else if key = some "cooldown" then { c with cooldown := c.cooldown + 1 }
  else c

structure Summary where
  events : Nat
  incidents : Nat
  actions : Nat
  auditLogs : Nat
  normalEvents : Nat
  warningIncidents : Nat
  suppressions : Nat
  actionSucceeded : Nat
  actionFailed : Nat
  retries : Nat
  deriving DecidableEq, Repr

def canonicalSummary (s : Store) (skipped : SkippedCounts) : Summary where
  events := s.events.rows.length
  incidents := s.incidents.rows.length
  actions := s.actions.rows.length
  auditLogs := s.audits.length
  normalEvents := skipped.normal
  warningIncidents := skipped.warningNoAction
  suppressions := skipped.cooldown
  actionSucceeded := s.actions.rows.countP fun a => a.state = .succeeded
  actionFailed := s.actions.rows.countP fun a => a.state = .failed
  retries := (s.actions.rows.map fun a => a.attempts - 1).sum

/-- What a run of the contract takes from its surroundings: the settings, what each row's call
reads, and the clock of each action's retries. -/
structure ContractRun where
  settings : Settings
  parse : String → Option Int
  surroundings : Nat → Surroundings
  retry : Nat → RetryArgs
  transport : Transport
  fuel : Nat

/-- The loop over the rows, from its `i`-th row on. -/
def processRows (run : ContractRun) :
    Nat → List Row → SkippedCounts → Store → Except ContractError (SkippedCounts × Store)
  | _, [], skipped, s => .ok (skipped, s)
  | i, row :: rows, skipped, s =>
    match eventCreate run.parse row with
    | .error errors => .error (.validation errors)
    | .ok payload =>
      match process run.settings (run.surroundings i) payload.toEventBody s with
      | .error e => .error (.process e)
      | .ok (response, t) =>
        match response.tuple with
        | [_event, _incident, _action, .skippedReason reason] =>
          processRows run (i + 1) rows (skipped.count reason) t
        | _ => .error .tooManyValues

/-- The queued actions, `ORDER BY id`. -/
def queuedActions (s : Store) : List Action :=
  (s.actions.rows.filter fun a => a.state = .queued).mergeSort fun a b => decide (a.id ≤ b.id)

/-- `process_contract_events`. -/
def processContractEvents (run : ContractRun) (rows : List Row) (s : Store) :
    Option (Except ContractError (Summary × Store)) :=
  match seedAssetsFromEvents rows s with
  | .error e => some (.error e)
  | .ok s =>
    match processRows run 0 rows {} s with
    | .error e => some (.error e)
    | .ok (skipped, s) =>
      match executeEach run.retry run.transport run.fuel 0 (queuedActions s) s with
      | none => none
      | some (.error e) => some (.error (.execute e))
      | some (.ok s) => some (.ok (canonicalSummary s skipped, s))

/-! ## The contract -/

/-- `executor_mode` of the contract. -/
inductive ContractMode where
  | success | transientFailure | permanentFailure
  deriving DecidableEq, Repr

def ContractMode.value : ContractMode → String
  | .success => "success"
  | .transientFailure => "transient_failure"
  | .permanentFailure => "permanent_failure"

/-- A row of the event schema, within the bounds `EventCreate` declares. -/
structure ContractRow where
  assetId : String
  source : String
  category : String
  severity : Int
  occurredAt : String
  message : String
  executorMode : ContractMode
  assetId_bounds : 3 ≤ assetId.length ∧ assetId.length ≤ 80
  source_bounds : 3 ≤ source.length ∧ source.length ≤ 120
  category_bounds : 2 ≤ category.length ∧ category.length ≤ 80
  severity_bounds : 1 ≤ severity ∧ severity ≤ 100
  message_bounds : 5 ≤ message.length

/-- The row as a `dict`. -/
def ContractRow.dict (row : ContractRow) : Row :=
  [("asset_id", .text row.assetId), ("source", .text row.source),
    ("category", .text row.category), ("severity", .number row.severity),
    ("occurred_at", .text row.occurredAt), ("message", .text row.message),
    ("executor_mode", .text row.executorMode.value)]

/-- The counters of the contract. -/
structure Reference where
  events : Nat := 0
  normalEvents : Nat := 0
  suppressions : Nat := 0
  warningIncidents : Nat := 0
  incidents : Nat := 0
  actions : Nat := 0
  actionSucceeded : Nat := 0
  actionFailed : Nat := 0
  retries : Nat := 0
  deriving DecidableEq, Repr

/-- One more unsuppressed row with an action of the mode. -/
def Reference.addAction (r : Reference) : ContractMode → Reference
  | .success => { r with actions := r.actions + 1, actionSucceeded := r.actionSucceeded + 1 }
  | .transientFailure =>
    { r with
      actions := r.actions + 1
      actionSucceeded := r.actionSucceeded + 1
      retries := r.retries + 1 }
  | .permanentFailure =>
    { r with
      actions := r.actions + 1
      actionFailed := r.actionFailed + 1
      retries := r.retries + 2 }

/-- The counters after the rows, given the pairs of asset and category that have opened an
incident before. -/
def Reference.addRows (r : Reference) : List (String × String) → List ContractRow → Reference
  | _, [] => r
  | opened, row :: rows =>
    let r := { r with events := r.events + 1 }
    if row.severity < 50 then
      { r with normalEvents := r.normalEvents + 1 }.addRows opened rows
    else if (row.assetId, row.category) ∈ opened then
      { r with suppressions := r.suppressions + 1 }.addRows opened rows
    else
      let r := { r with incidents := r.incidents + 1 }
      let opened := (row.assetId, row.category) :: opened
      if row.severity < 80 then
        { r with warningIncidents := r.warningIncidents + 1 }.addRows opened rows
      else (r.addAction row.executorMode).addRows opened rows

def Reference.ofRows (rows : List ContractRow) : Reference := Reference.addRows {} [] rows

/-- The counters of a summary that the contract defines. -/
def Summary.reference (summary : Summary) : Reference where
  events := summary.events
  normalEvents := summary.normalEvents
  suppressions := summary.suppressions
  warningIncidents := summary.warningIncidents
  incidents := summary.incidents
  actions := summary.actions
  actionSucceeded := summary.actionSucceeded
  actionFailed := summary.actionFailed
  retries := summary.retries

/-- The run on a fresh store returns, with the summary of the contract. -/
def MeetsContract (run : ContractRun) (rows : List ContractRow) : Prop :=
  ∃ summary s, processContractEvents run (rows.map ContractRow.dict) .empty =
      some (.ok (summary, s)) ∧ summary.reference = Reference.ofRows rows

/-! ## Decoding a contract row -/

theorem boundedText_of_bounds {minLength maxLength : Nat} {s : String}
    (bounds : minLength ≤ s.length ∧ s.length ≤ maxLength) :
    boundedText minLength maxLength s = .ok ⟨s, bounds⟩ := by
  rw [boundedText, dif_neg (Nat.not_lt.mpr bounds.1), dif_neg (Nat.not_lt.mpr bounds.2)]

theorem boundedInt_of_bounds {ge le n : Int} (bounds : ge ≤ n ∧ n ≤ le) :
    boundedInt ge le n = .ok ⟨n, bounds⟩ := by
  rw [boundedInt, dif_neg (Int.not_lt.mpr bounds.1), dif_neg (Int.not_lt.mpr bounds.2)]

theorem ContractMode.bounds (mode : ContractMode) :
    3 ≤ mode.value.length ∧ mode.value.length ≤ 40 := by
  cases mode <;> decide

/-- A contract row is refused for the asset it does not name. -/
theorem eventCreate_dict (parse : String → Option Int) (row : ContractRow) :
    eventCreate parse row.dict = .error [⟨"asset_external_id", .missing⟩] := by
  have asset : row.dict.lookup "asset_external_id" = none := rfl
  have source : row.dict.lookup "source" = some (.text row.source) := rfl
  have category : row.dict.lookup "category" = some (.text row.category) := rfl
  have severity : row.dict.lookup "severity" = some (.number row.severity) := rfl
  have message : row.dict.lookup "message" = some (.text row.message) := rfl
  have mode : row.dict.lookup "executor_mode" = some (.text row.executorMode.value) := rfl
  have key : row.dict.lookup "idempotency_key" = none := rfl
  have correlation : row.dict.lookup "correlation_id" = none := rfl
  have long : ¬ row.message.length < 5 := Nat.not_lt.mpr row.message_bounds
  simp only [eventCreate, asset, source, category, severity, message, mode, key, correlation,
    textField, intField, longTextField, optionalTextField, dif_neg long,
    boundedText_of_bounds row.source_bounds, boundedText_of_bounds row.category_bounds,
    boundedInt_of_bounds row.severity_bounds, boundedText_of_bounds row.executorMode.bounds]
  rfl

theorem seedAssetsFromEvents_dict (rows : List ContractRow) (s : Store) :
    ∃ t, seedAssetsFromEvents (rows.map ContractRow.dict) s = .ok t := by
  have ids : (rows.map ContractRow.dict).mapM
      (fun row => (row.lookup "asset_id").map RowValue.str) =
        some (rows.map ContractRow.assetId) := by
    induction rows with
    | nil => rfl
    | cons row rows ih =>
      rw [List.map_cons, List.mapM_cons, ih]
      rfl
  exact ⟨_, by rw [seedAssetsFromEvents, ids]⟩

section Loop

variable {run : ContractRun} {i : Nat} {row : Row} (rows : List Row) (skipped : SkippedCounts)
  {s t : Store}

/-- A row that is processed is the last one: what `process` returned is not unpacked. -/
theorem processRows_of_processed {payload : EventCreate} {response : Response}
    (decoded : eventCreate run.parse row = .ok payload)
    (processed : process run.settings (run.surroundings i) payload.toEventBody s =
      .ok (response, t)) :
    processRows run i (row :: rows) skipped s = .error .tooManyValues := by
  simp only [processRows, decoded, processed]
  rfl

/-- The loop does not get past its first row. -/
theorem processRows_cons : ∃ e, processRows run i (row :: rows) skipped s = .error e := by
  cases decoded : eventCreate run.parse row with
  | error errors => exact ⟨.validation errors, by simp only [processRows, decoded]⟩
  | ok payload =>
    cases processed : process run.settings (run.surroundings i) payload.toEventBody s with
    | error e => exact ⟨.process e, by simp only [processRows, decoded, processed]⟩
    | ok answer => exact ⟨.tooManyValues, processRows_of_processed rows skipped decoded processed⟩

end Loop

/-- Whatever a row is, the runner returns only where there is none. -/
theorem rows_of_returned {run : ContractRun} {rows : List Row} {s t : Store} {summary : Summary}
    (h : processContractEvents run rows s = some (.ok (summary, t))) : rows = [] := by
  cases rows with
  | nil => rfl
  | cons row rows =>
    unfold processContractEvents at h
    split at h
    · cases h
    · obtain ⟨e, raised⟩ := processRows_cons rows {}
      rw [raised] at h
      cases h

/-- The runner raises on the first row of every list that has one. -/
theorem processContractEvents_cons (run : ContractRun) (row : ContractRow)
    (rows : List ContractRow) (s : Store) :
    processContractEvents run ((row :: rows).map ContractRow.dict) s =
      some (.error (.validation [⟨"asset_external_id", .missing⟩])) := by
  obtain ⟨t, seeded⟩ := seedAssetsFromEvents_dict (row :: rows) s
  rw [List.map_cons] at seeded ⊢
  simp only [processContractEvents, seeded, processRows, eventCreate_dict]

/-- Without rows there is nothing to seed, to process or to execute. -/
theorem processContractEvents_nil (run : ContractRun) :
    processContractEvents run [] .empty = some (.ok (canonicalSummary .empty {}, .empty)) := by
  have seeded : seedAssetsFromEvents [] .empty = .ok .empty := by
    simp [seedAssetsFromEvents, sortedSet, Store.addAssets]
  have queued : queuedActions .empty = [] := by
    simp [queuedActions, Store.empty, Table.empty]
  simp only [processContractEvents, seeded, processRows, queued, executeEach]

/-- The runner meets the contract on the empty list alone. -/
theorem meetsContract_iff (run : ContractRun) (rows : List ContractRow) :
    MeetsContract run rows ↔ rows = [] := by
  constructor
  · rintro ⟨summary, s, returned, -⟩
    exact List.map_eq_nil_iff.mp (rows_of_returned returned)
  · rintro rfl
    exact ⟨_, _, processContractEvents_nil run, rfl⟩

/-- The outage of the contract's example line. -/
def contractOutage : ContractRow where
  assetId := "ASSET-0001"
  source := "edge-agent"
  category := "offline"
  severity := 91
  occurredAt := "2026-01-01T00:00:00Z"
  message := "Synthetic offline event"
  executorMode := .success
  assetId_bounds := by decide
  source_bounds := by decide
  category_bounds := by decide
  severity_bounds := by decide
  message_bounds := by decide

/-- The run of the runner as it is called, with the defaults of its callees. -/
def defaultContractRun : ContractRun where
  settings := ⟨10000⟩
  parse _ := none
  surroundings i := ⟨seconds i, ""⟩
  retry _ := ⟨3, fun _ => minutes 19⟩
  transport := defaultTransport 200000
  fuel := 4

/-- The same outage with its asset under both names. -/
example : processRows defaultContractRun 0
    [("asset_external_id", .text "ASSET-0001") :: contractOutage.dict] {}
    (Store.empty.addAssets ["ASSET-0001"]) = .error .tooManyValues := by
  rfl

theorem outage_row_raises :
    processContractEvents defaultContractRun [contractOutage.dict] .empty =
        some (.error (.validation [⟨"asset_external_id", .missing⟩])) ∧
      (Reference.ofRows [contractOutage]).actionSucceeded = 1 ∧
      ¬ MeetsContract defaultContractRun [contractOutage] := by
  have raises : processContractEvents defaultContractRun [contractOutage.dict] .empty =
      some (.error (.validation [⟨"asset_external_id", .missing⟩])) :=
    processContractEvents_cons _ contractOutage [] .empty
  refine ⟨raises, by decide, ?_⟩
  rintro ⟨summary, s, returned, -⟩
  have both := raises.symm.trans returned
  cases both

end SupportOps.Python
