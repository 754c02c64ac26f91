import SupportOps.Benchmark.HttpPosts

/-!
# The benchmark endpoint

`POST /benchmarks/run/{count}` lets the service ingest a fixture of its own and drain the queue
with at most twenty calls, a pause after each call that has retried something. Every twentieth
asset reports twice, and the second report is suppressed. The largest run that the endpoint accepts
takes fewer attempts than nineteen of its calls have places for, so the report is right and nothing
is left in the queue.
-/
namespace SupportOps.DotNet

open Library Benchmark

/-! ## The fixture -/

namespace SyntheticFixtureFactory

def severity (index : Nat) : Int :=
  match index % 10 with
  | 0 | 1 => 92
  | 2 | 3 => 67
  | _ => 18

def category (index : Nat) : String :=
  if 80 ≤ severity index then "offline"
  else if 50 ≤ severity index then "degraded"
  else "heartbeat"

/-- The asset of an index: one that follows a multiple of twenty repeats the index before. -/
def assetId (runId : String) (index : Nat) : String :=
  let duplicatePreviousCritical := decide (0 < index) && decide (index % 20 = 1)
  let assetIndex := if duplicatePreviousCritical then index - 1 else index
  "SYN-" ++ runId ++ "-" ++ zeroPadded 6 assetIndex

def create (index : Nat) (runId : String) : SyntheticEventRequest where
  source := some "synthetic-benchmark"
  assetId := some (assetId runId index)
  category := some (category index)
  severity := severity index
  message := some ("Synthetic " ++ category index ++ " event #" ++ zeroPadded 6 index)
  executorMode := some (if index % 41 = 0 then ExecutorModes.transientThenSuccess
    else ExecutorModes.success)

/-- What the fixture posts, as an event of the workload. -/
def event (index : Nat) (runId : String) : SharedEvent where
  assetId := assetId runId index
  source := "synthetic-benchmark"
  category := category index
  severity := severity index
  occurredAt := 0
  message := "Synthetic " ++ category index ++ " event #" ++ zeroPadded 6 index
  executorMode := if index % 41 = 0 then .transientThenSuccess else .success

theorem create_eq (index : Nat) (runId : String) :
    create index runId = postBody (event index runId) := by
  unfold create postBody event
  split <;> rfl

theorem severity_eq (index : Nat) :
    severity index = if index % 10 < 2 then 92 else if index % 10 < 4 then 67 else 18 := by
  unfold severity
  split
  · next zero => rw [zero]; rfl
  · next one => rw [one]; rfl
  · next two => rw [two]; rfl
  · next three => rw [three]; rfl
  · next zero one two three =>
    have most : 4 ≤ index % 10 := by
      by_contra less
      have small : index % 10 = 0 ∨ index % 10 = 1 ∨ index % 10 = 2 ∨ index % 10 = 3 := by omega
      exact small.elim zero fun small => small.elim one fun small => small.elim two three
    rw [if_neg (by omega), if_neg (by omega)]

theorem category_eq (index : Nat) : category index =
    if index % 10 < 2 then "offline" else if index % 10 < 4 then "degraded" else "heartbeat" := by
  rw [category, severity_eq]
  split_ifs <;> first | rfl | omega

theorem assetId_eq (runId : String) (index : Nat) : assetId runId index =
    "SYN-" ++ runId ++ "-" ++ zeroPadded 6 (if index % 20 = 1 then index - 1 else index) := by
  have repeats : (decide (0 < index) && decide (index % 20 = 1)) = decide (index % 20 = 1) := by
    rw [Bool.eq_iff_iff, Bool.and_eq_true, decide_eq_true_eq, decide_eq_true_eq]
    omega
  simp only [assetId, repeats, decide_eq_true_eq]

/-- An index that repeats no other has its asset in common with its repetition only. -/
theorem assetId_inj {runId : String} {j k : Nat} (first : j % 20 ≠ 1) :
    assetId runId j = assetId runId k ↔ j = if k % 20 = 1 then k - 1 else k := by
  rw [assetId_eq, assetId_eq, if_neg first]
  constructor
  · intro same
    have chars := congrArg String.toList same
    simp only [String.toList_append, List.append_cancel_left_eq] at chars
    exact zeroPadded_injective 6 (String.toList_inj.mp chars)
  · exact fun same => by rw [← same]

theorem isWhiteSpace_of_isDigit {c : Char} (digit : c.isDigit = true) : isWhiteSpace c = false := by
  have bounds : 48 ≤ c.toNat ∧ c.toNat ≤ 57 := by
    simp only [Char.isDigit, Bool.and_eq_true, decide_eq_true_eq] at digit
    exact ⟨digit.1, digit.2⟩
  simp only [isWhiteSpace, Bool.or_eq_false_iff, decide_eq_false_iff_not]
  omega

theorem isDigit_of_mem_zeroPadded {width n : Nat} {c : Char}
    (mem : c ∈ (zeroPadded width n).toList) : c.isDigit = true := by
  rw [zeroPadded, String.toList_ofList, List.mem_append] at mem
  rcases mem with zero | digit
  · rw [List.eq_of_mem_replicate zero]
    decide
  · exact Nat.isDigit_of_mem_toDigits (by decide) (by decide) digit

theorem trim_assetId (runId : String) (index : Nat) :
    trim (assetId runId index) = assetId runId index := by
  rw [assetId_eq]
  generalize (if index % 20 = 1 then index - 1 else index) = assetIndex
  refine trim_of_ends (fun c first => ?_) fun c last => ?_
  · have front : ("SYN-" ++ runId ++ "-" ++ zeroPadded 6 assetIndex).toList.head? = some 'S' := by
      simp only [String.toList_append]
      rfl
    rw [front] at first
    cases first
    decide
  · have back : ("SYN-" ++ runId ++ "-" ++ zeroPadded 6 assetIndex).toList.getLast? =
        (zeroPadded 6 assetIndex).toList.getLast?.or (some '-') := by
      have dash : "-".toList = ['-'] := rfl
      rw [String.toList_append, List.getLast?_append, String.toList_append, dash,
        List.getLast?_concat]
    rw [back] at last
    cases digits : (zeroPadded 6 assetIndex).toList.getLast? with
    | none =>
      rw [digits] at last
      cases last
      decide
    | some d =>
      rw [digits] at last
      cases last
      exact isWhiteSpace_of_isDigit (isDigit_of_mem_zeroPadded (List.mem_of_getLast? digits))

theorem plain_event {culture : Culture} (keeps : KeepsCategories culture) (index : Nat)
    (runId : String) : Plain culture (event index runId) := by
  have word : category index ∈ ["offline", "degraded", "heartbeat"] := by
    rw [category_eq]
    split_ifs <;> simp
  have bounds : 0 ≤ severity index ∧ severity index ≤ 100 := by
    rw [severity_eq]
    split_ifs <;> simp
  obtain ⟨trimmed, named⟩ := trim_category _ word
  refine ⟨trim_assetId runId index, fun empty => ?_, trimmed, named, keeps _ word, bounds⟩
  have chars := congrArg String.toList empty
  change (assetId runId index).toList = _ at chars
  rw [assetId_eq] at chars
  simp only [String.toList_append, String.toList_empty, List.append_eq_nil_iff] at chars
  exact absurd chars.1.1.1 (by decide)

end SyntheticFixtureFactory

/-! ## The runner -/

/-- `BenchmarkResult`, its counters. -/
structure BenchmarkResult where
  requestedEvents : Nat
  acceptedEvents : Nat := 0
  processingErrors : Nat := 0
  incidentsCreated : Nat := 0
  actionsCreated : Nat := 0
  cooldownSuppressions : Nat := 0
  deriving DecidableEq, Repr

/-- One more answer of `IngestAsync`. -/
def BenchmarkResult.accept (b : BenchmarkResult) (result : EventIngestionResult) :
    BenchmarkResult :=
  { b with
    acceptedEvents := b.acceptedEvents + 1
    incidentsCreated :=
      b.incidentsCreated + if result.incidentId.isSome && !result.suppressed then 1 else 0
    actionsCreated := b.actionsCreated + if result.actionId.isSome then 1 else 0
    cooldownSuppressions := b.cooldownSuppressions + if result.suppressed then 1 else 0 }

namespace SyntheticBenchmarkRunner

variable (options : OpsProcessingOptions) (run : EngineRun) (runId : String)

/-- The loop over the fixture, after the indices below `n`. -/
def ingested (requested : Nat) (s : Store) : Nat → BenchmarkResult × Store
  | 0 => (⟨requested, 0, 0, 0, 0, 0⟩, s)
  | n + 1 =>
    let (b, t) := ingested requested s n
    match ingest run.culture options (SyntheticFixtureFactory.create n runId) (run.now n)
      (run.guids n) t with
    | .error _ => ({ b with processingErrors := b.processingErrors + 1 }, t)
    | .ok (result, u) => (b.accept result, u)

/-- The calls of `ProcessPendingAsync` after the loop. -/
def calls : Calls options where
  limit _ := 1000
  clock := run.clock
  ties := run.ties

/-- `RunAsync`. -/
def runAsync (count : Nat) (s : Store) : BenchmarkResult × Store :=
  let (b, t) := ingested options run runId count s count
  (b, (calls options run).drainActions 20 0 t)

/-- `POST /benchmarks/run/{count}` -/
def benchmarksRun (count : Int) (s : Store) : Except String (BenchmarkResult × Store) :=
  if count < 1 ∨ 100000 < count then .error "count must be between 1 and 100000"
  else .ok (runAsync options run runId count.toNat s)

end SyntheticBenchmarkRunner

/-! ## What a run comes to -/

/-- The decision on the event of an index. -/
def decisionAt (index : Nat) : Benchmark.Decision :=
  if index % 20 = 1 then .suppressed
  else if index % 10 < 2 then .action (if index % 41 = 0 then .transientThenSuccess else .success)
  else if index % 10 < 4 then .incident
  else .ignored

/-- The report after the indices below `n`. -/
def expectedResult (requested n : Nat) : BenchmarkResult where
  requestedEvents := requested
  acceptedEvents := n
  processingErrors := 0
  incidentsCreated := (List.range n).countP fun k => k % 10 < 4 ∧ k % 20 ≠ 1
  actionsCreated := (List.range n).countP fun k => k % 10 < 2 ∧ k % 20 ≠ 1
  cooldownSuppressions := (List.range n).countP fun k => k % 20 = 1

/-- The metrics of a finished run over `n` indices. -/
def expectedMetrics (n : Nat) : Metrics where
  events := n
  incidents := (expectedResult n n).incidentsCreated
  actions := (expectedResult n n).actionsCreated
  cooldownSuppressions := (expectedResult n n).cooldownSuppressions
  succeededActions := (expectedResult n n).actionsCreated
  failedActions := 0
  retryAttempts := (List.range n).countP fun k => (k % 10 < 2 ∧ k % 20 ≠ 1) ∧ k % 41 = 0
  permanentFailures := 0

theorem opens_decisionAt (index : Nat) :
    (decisionAt index).opens = decide (index % 10 < 4 ∧ index % 20 ≠ 1) := by
  unfold decisionAt
  split_ifs <;> simp only [Decision.opens] <;> grind

theorem isSome_mode?_decisionAt (index : Nat) :
    (decisionAt index).mode?.isSome = decide (index % 10 < 2 ∧ index % 20 ≠ 1) := by
  unfold decisionAt
  split_ifs <;> simp only [Decision.mode?] <;> grind

theorem decisionAt_eq_suppressed {index : Nat} :
    decisionAt index = .suppressed ↔ index % 20 = 1 := by
  unfold decisionAt
  split_ifs <;> grind

/-- The rules decide so on the event, if the query finds the incident of the index before. -/
theorem decisionOn_event (index : Nat) (runId : String) :
    decisionOn (SyntheticFixtureFactory.event index runId) (decide (index % 20 = 1)) =
      decisionAt index := by
  have band : dotnetPolicy.band (SyntheticFixtureFactory.category index)
      (SyntheticFixtureFactory.severity index) = if index % 10 < 2 then some .critical
        else if index % 10 < 4 then some .warning else none := by
    rw [SyntheticFixtureFactory.category_eq, SyntheticFixtureFactory.severity_eq]
    split_ifs <;> rfl
  have mode : (SyntheticFixtureFactory.event index runId).executorMode =
      if index % 41 = 0 then .transientThenSuccess else .success := rfl
  by_cases critical : index % 10 < 2
  · rw [if_pos critical] at band
    rw [decisionOn_of_some _ band, mode, decisionAt, if_pos critical]
    simp only [decide_eq_true_eq]
    rfl
  · have single : index % 20 ≠ 1 := by omega
    rw [if_neg critical] at band
    rw [decisionAt, if_neg single, if_neg critical]
    split at band
    · next warning =>
      rw [decisionOn_of_some _ band, if_pos warning, decide_eq_false single]
      rfl
    · next normal => rw [decisionOn_of_none _ band, if_neg normal]

theorem decisionAt_eq_action {index : Nat} {mode : ExecutorMode} :
    decisionAt index = .action mode ↔ (index % 10 < 2 ∧ index % 20 ≠ 1) ∧
      mode = if index % 41 = 0 then .transientThenSuccess else .success := by
  unfold decisionAt
  split_ifs <;> grind

theorem expectedMetrics_succ (n : Nat) :
    expectedMetrics (n + 1) = (expectedMetrics n).after (decisionAt n) := by
  have retries : decisionAt n = .action .transientThenSuccess ↔
      (n % 10 < 2 ∧ n % 20 ≠ 1) ∧ n % 41 = 0 := by
    rw [decisionAt_eq_action]
    split_ifs <;> simp [*]
  have succeeds : decisionAt n = .action .success ∨ (n % 10 < 2 ∧ n % 20 ≠ 1) ∧ n % 41 = 0 ↔
      n % 10 < 2 ∧ n % 20 ≠ 1 := by
    rw [← retries, decisionAt_eq_action, decisionAt_eq_action]
    split_ifs <;> simp
  have fails : decisionAt n ≠ .action .permanentFailure := by
    rw [Ne, decisionAt_eq_action]
    split_ifs <;> simp
  simp only [expectedMetrics, expectedResult, Metrics.after, List.range_succ, List.countP_append,
    List.countP_singleton, opens_decisionAt, isSome_mode?_decisionAt, decisionAt_eq_suppressed,
    succeeds, retries, fails, if_false, decide_eq_true_eq, add_ite_one]

/-- One more answer that agrees with the decision on its index. -/
theorem accept_expectedResult {requested n : Nat} {r : EventIngestionResult}
    (incidentId : (r.incidentId.isSome && !r.suppressed) = (decisionAt n).opens)
    (actionId : r.actionId.isSome = (decisionAt n).mode?.isSome)
    (suppressed : r.suppressed = decide (decisionAt n = .suppressed)) :
    (expectedResult requested n).accept r = expectedResult requested (n + 1) := by
  rw [opens_decisionAt] at incidentId
  rw [isSome_mode?_decisionAt] at actionId
  simp only [decisionAt_eq_suppressed] at suppressed
  simp only [BenchmarkResult.accept, expectedResult, incidentId, actionId, List.range_succ,
    List.countP_append, List.countP_singleton]
  rw [suppressed]

/-- One action for every first report of an offline asset. -/
theorem actionsCreated_expectedResult (requested n : Nat) :
    (expectedResult requested n).actionsCreated = 3 * (n / 20) +
      if n % 20 = 0 then 0 else if n % 20 < 11 then 1 else if n % 20 = 11 then 2 else 3 := by
  induction n with
  | zero => rfl
  | succ n ih =>
    simp only [expectedResult, List.range_succ, List.countP_append, List.countP_singleton] at ih ⊢
    rw [ih]
    simp only [decide_eq_true_eq]
    grind

theorem retryAttempts_expectedMetrics (n : Nat) :
    (expectedMetrics n).retryAttempts ≤ (n + 40) / 41 := by
  induction n with
  | zero => decide
  | succ n ih =>
    simp only [expectedMetrics, List.range_succ, List.countP_append, List.countP_singleton] at ih ⊢
    simp only [decide_eq_true_eq]
    split <;> omega

/-- The largest run takes fewer attempts than nineteen calls have places for. -/
theorem work_lt {n : Nat} (most : n ≤ 100000) :
    (expectedMetrics n).actions + (expectedMetrics n).retryAttempts < 19 * 1000 := by
  have actions := actionsCreated_expectedResult n n
  have retries := retryAttempts_expectedMetrics n
  change (expectedResult n n).actionsCreated + _ < _
  split_ifs at actions <;> omega

/-! ## The loop -/

section Loop

variable {options : OpsProcessingOptions} {run : EngineRun} {runId : String} {requested : Nat}

open SyntheticFixtureFactory SyntheticBenchmarkRunner

/-- Report and store after the indices below `n`. -/
structure Fed (options : OpsProcessingOptions) (run : EngineRun) (runId : String)
    (requested n : Nat) (b : BenchmarkResult) (s : Store) : Prop where
  report : b = expectedResult requested n
  counters : s.eventually = expectedMetrics n
  incidents : s.incidents.rows.map (fun i => (i.assetId, i.category, i.createdAt)) =
    ((List.range n).filter fun k => (decisionAt k).opens).map fun k =>
      (assetId runId k, category k, run.now k)
  queued : ∀ a ∈ s.actions.rows, a.status = .queued ∧ a.attempts = 0 ∧
    ∃ k < n, a.nextAttemptAt = run.now k
  drawn : Drawn run n s

/-- The query finds an incident exactly for the repetition of the index before. -/
theorem Fed.recent {n : Nat} {b : BenchmarkResult} {s : Store}
    (h : Fed options run runId requested n b s) {e : OperationEvent}
    (reads : Reads e (event n runId)) (guids : Guids)
    (repeated : n % 20 = 1 → run.now n - options.cooldown ≤ run.now (n - 1)) :
    ((decisionCall options e (run.now n) guids).recentOpenIncident s).isSome =
      decide (n % 20 = 1) := by
  rw [Bool.eq_iff_iff, isSome_recentOpenIncident_iff, decide_eq_true_eq]
  constructor
  · rintro ⟨i, hi, asset, -⟩
    have trace := List.mem_map_of_mem (f := fun i : Incident =>
      (i.assetId, i.category, i.createdAt)) hi
    rw [h.incidents] at trace
    obtain ⟨k, hk, same⟩ := List.mem_map.mp trace
    obtain ⟨inside, opens⟩ := List.mem_filter.mp hk
    rw [opens_decisionAt, decide_eq_true_eq] at opens
    have assets : assetId runId k = assetId runId n :=
      (congrArg Prod.fst same).trans (asset.trans reads.assetId)
    have index := (assetId_inj opens.2).mp assets
    have earlier := List.mem_range.mp inside
    by_contra single
    rw [if_neg single] at index
    omega
  · intro repeats
    have opens : (decisionAt (n - 1)).opens = true := by
      rw [opens_decisionAt, decide_eq_true_eq]
      omega
    have mem : (assetId runId (n - 1), category (n - 1), run.now (n - 1)) ∈
        s.incidents.rows.map fun i => (i.assetId, i.category, i.createdAt) := by
      rw [h.incidents]
      exact List.mem_map_of_mem
        (List.mem_filter.mpr ⟨List.mem_range.mpr (by omega), opens⟩)
    obtain ⟨i, hi, trace⟩ := List.mem_map.mp mem
    obtain ⟨asset, trace⟩ := Prod.mk.inj trace
    obtain ⟨kind, created⟩ := Prod.mk.inj trace
    have assets : assetId runId (n - 1) = assetId runId n :=
      (assetId_inj (by omega)).mpr (by rw [if_pos repeats])
    have kinds : category (n - 1) = category n := by
      rw [category_eq, category_eq, if_pos (by omega), if_pos (by omega)]
    refine ⟨i, hi, (asset.trans assets).trans reads.assetId.symm,
      (kind.trans kinds).trans reads.category.symm, ?_, (repeated repeats).trans_eq created.symm⟩
    cases i.status
    rfl

/-- One more index is ingested. -/
theorem Fed.next {n : Nat} {b : BenchmarkResult} {s : Store}
    (h : Fed options run runId requested n b s) (attempts : 2 ≤ options.maxActionAttempts)
    (distinct : run.Distinct) (modes : run.culture.KeepsModes)
    (categories : KeepsCategories run.culture)
    (repeated : n % 20 = 1 → run.now n - options.cooldown ≤ run.now (n - 1)) :
    ∃ r t, ingest run.culture options (create n runId) (run.now n) (run.guids n) s = .ok (r, t) ∧
      Fed options run runId requested (n + 1) (b.accept r) t := by
  obtain ⟨e, normalized, reads, id⟩ :=
    (plain_event categories n runId).normalize_postBody modes (run.now n) (run.guids n).event
  have newEvent : s.events.find? e.id = none := by
    rw [id]
    exact h.drawn.newEvent distinct
  obtain ⟨r, t, ok⟩ := recordIngestionDecision_isOk run.culture
    (c := decisionCall options e (run.now n) (run.guids n)) newEvent
    (h.drawn.newIncident distinct) (h.drawn.newAction distinct)
  obtain ⟨-, recorded⟩ := recorded_of_recordIngestionDecision ok
  obtain ⟨incidents, actions, added⟩ := recorded.added attempts reads newEvent
  rw [h.recent reads (run.guids n) repeated, decisionOn_event] at added
  refine ⟨r, t, ?_, ?_, ?_, ?_, ?_, recorded.drawn h.drawn id⟩
  · rw [create_eq]
    simp only [ingest, normalized, ok]
    rfl
  · rw [h.report]
    exact accept_expectedResult added.incidentId added.actionId added.suppressed
  · rw [added.eventually, h.counters, expectedMetrics_succ]
  · rw [added.addedIncidents, List.map_append, h.incidents, added.opened, List.range_succ,
      List.filter_append, List.map_append]
    cases opens : (decisionAt n).opens <;> simp [opens, event]
  · intro a ha
    rw [added.addedActions] at ha
    rcases List.mem_append.mp ha with old | new
    · obtain ⟨status, attempts, k, earlier, due⟩ := h.queued a old
      exact ⟨status, attempts, k, Nat.lt_succ_of_lt earlier, due⟩
    · obtain ⟨status, attempts, due⟩ := added.queued a new
      exact ⟨status, attempts, n, Nat.lt_succ_self n, due⟩

/-- The loop ingests every index. -/
theorem fed_ingested (attempts : 2 ≤ options.maxActionAttempts) (distinct : run.Distinct)
    (modes : run.culture.KeepsModes) (categories : KeepsCategories run.culture) {count : Nat}
    (repeated : ∀ k < count, k % 20 = 1 → run.now k - options.cooldown ≤ run.now (k - 1)) {n : Nat}
    (le : n ≤ count) : Fed options run runId requested n
      (ingested options run runId requested .empty n).1
      (ingested options run runId requested .empty n).2 := by
  induction n with
  | zero =>
    refine ⟨rfl, rfl, rfl, fun a ha => (by cases ha), ?_⟩
    exact ⟨fun x hx => (by cases hx), fun x hx => (by cases hx), fun x hx => (by cases hx)⟩
  | succ n ih =>
    obtain ⟨r, t, ok, fed⟩ := (ih (Nat.le_of_succ_le le)).next attempts distinct modes categories
      (repeated n le)
    simp only [ingested, ok]
    exact fed

end Loop

/-! ## The endpoint -/

open SyntheticBenchmarkRunner

/-- A report and its repetition lie within the cooldown; the calls come after the loop and in
order, a call that has retried something 125 ms before the next. -/
structure Paced (options : OpsProcessingOptions) (run : EngineRun) (runId : String)
    (count : Nat) : Prop where
  repeated : ∀ k < count, k % 20 = 1 → run.now k - options.cooldown ≤ run.now (k - 1)
  after : ∀ k < count, run.now k ≤ run.clock 0 0
  forward : (calls options run).Forward
  delay : ∀ j, ((calls options run).batch
      (ingested options run runId count .empty count).2 j).retried ≠ 0 →
    ∀ k, run.clock j k + fromMilliseconds 125 ≤ run.clock (j + 1) 0

/-- With a retry delay of at most 125 ms and two attempts for an action, every run that the endpoint
accepts ingests its fixture without an error, reports what it has created, and leaves no action
unfinished. -/
theorem benchmarksRun_reports {options : OpsProcessingOptions}
    (attempts : 2 ≤ options.maxActionAttempts) (short : options.retryDelayMilliseconds ≤ 125)
    (run : EngineRun) (distinct : run.Distinct) (modes : run.culture.KeepsModes)
    (categories : KeepsCategories run.culture) (runId : String) (count : Nat)
    (positive : 1 ≤ count) (most : count ≤ 100000) (paced : Paced options run runId count) :
    ∃ t, benchmarksRun options run runId count .empty = .ok (expectedResult count count, t) ∧
      dotnetMetrics t = expectedMetrics count := by
  have fed : Fed options run runId count count (ingested options run runId count .empty count).1
      (ingested options run runId count .empty count).2 :=
    fed_ingested attempts distinct modes categories paced.repeated (Nat.le_refl count)
  have pause : options.retryDelay ≤ fromMilliseconds 125 := by
    unfold OpsProcessingOptions.retryDelay fromMilliseconds
    omega
  have onTime : (calls options run).OnTime (ingested options run runId count .empty count).2 := by
    refine ⟨fun _ => Nat.succ_pos 999, paced.forward, fun j retried k => ?_, fun a ha => ?_⟩
    · exact (Int.add_le_add_left pause _).trans (paced.delay j retried k)
    · obtain ⟨status, attempts, k, inside, due⟩ := fed.queued a ha
      exact ⟨status, attempts, due.trans_le (paced.after k inside)⟩
  have slack := work_lt most
  rw [← fed.counters] at slack
  have drained := onTime.drainActions_of_slack (fun _ => rfl) slack
  refine ⟨_, ?_, drained.trans fed.counters⟩
  have accepted : ¬ ((count : Int) < 1 ∨ 100000 < (count : Int)) := by omega
  rw [benchmarksRun, if_neg accepted, ← fed.report]
  rfl

/-- An event every millisecond, and the calls every second, a minute later. -/
def everyMillisecond : EngineRun where
  culture := asciiCulture
  now i := fromMilliseconds i
  guids i := ⟨zeroPadded 32 i, zeroPadded 32 i, zeroPadded 32 i, []⟩
  limit := 1000
  clock j _ := fromSeconds (60 + j)

theorem benchmarksRun_reports_twentyFive : ∃ t,
    benchmarksRun {} everyMillisecond "0a1b2c3d" 25 .empty = .ok (⟨25, 25, 0, 10, 4, 2⟩, t) ∧
      dotnetMetrics t = ⟨25, 10, 4, 2, 4, 0, 1, 0⟩ := by
  have distinct : everyMillisecond.Distinct :=
    ⟨zeroPadded_injective 32, zeroPadded_injective 32, zeroPadded_injective 32⟩
  have paced : Paced {} everyMillisecond "0a1b2c3d" 25 := by
    refine ⟨fun k inside _ => ?_, fun k inside => ?_, fun j k => ?_, fun j _ k => ?_⟩
    · change (k : Int) * 10000 - 3000000000 ≤ ((k - 1 : Nat) : Int) * 10000
      omega
    · change (k : Int) * 10000 ≤ (60 + ((0 : Nat) : Int)) * 10000000
      omega
    · change (60 + (j : Int)) * 10000000 ≤ (60 + (j : Int)) * 10000000 ∧
        (60 + (j : Int)) * 10000000 ≤ (60 + ((j + 1 : Nat) : Int)) * 10000000
      omega
    · change (60 + (j : Int)) * 10000000 + 1250000 ≤ (60 + ((j + 1 : Nat) : Int)) * 10000000
      omega
  exact benchmarksRun_reports (by decide) (by decide) everyMillisecond distinct
    keepsModes_asciiCulture keepsCategories_asciiCulture "0a1b2c3d" 25 (by decide) (by decide) paced

end SupportOps.DotNet
