import SupportOps.Python.Engine

/-!
# The shared workload

`event_at` repeats a cycle of twenty positions, each group of twenty with assets of its own, and
`expected_counters` counts what each position should lead to. The log of the Python engine over
the workload is computed position by position: the second event of a group is the only one its
cooldown reaches, and the backlog limit is the only thing that sets log and counters apart.
-/
namespace SupportOps.Benchmark

open Python

/-! ## `event_at` -/

/-- `datetime(2026, 1, 1, tzinfo=UTC)` -/
def workloadStart : Instant := 1767225600000000

/-- A number in decimal, padded with zeros. -/
def zeroPadded (width n : Nat) : String :=
  let digits := Nat.toDigits 10 n
  String.ofList (List.replicate (width - digits.length) '0' ++ digits)

/-- The asset of a group with the given last part. -/
def groupAsset (seed : Int) (group : Nat) (part : String) : String :=
  "SYN-" ++ toString seed ++ "-" ++ zeroPadded 6 group ++ "-" ++ part

def eventAt (index : Nat) (seed : Int) : SharedEvent :=
  let group := index / 20
  let position := index % 20
  let timestamp := workloadStart + 1000000 * index
  let source := "synthetic-source-" ++ toString (seed % 997)
  if position = 0 then
    { assetId := groupAsset seed group "critical"
      source, category := "offline", severity := 92, occurredAt := timestamp
      message := "critical synthetic event " ++ toString index
      executorMode := .success }
  else if position = 1 then
    { assetId := groupAsset seed group "critical"
      source, category := "offline", severity := 91, occurredAt := timestamp
      message := "cooldown duplicate synthetic event " ++ toString index
      executorMode := .success }
  else if position = 2 then
    { assetId := groupAsset seed group "warning"
      source, category := "degraded", severity := 64, occurredAt := timestamp
      message := "warning synthetic event " ++ toString index
      executorMode := .success }
  else if position = 3 then
    { assetId := groupAsset seed group "transient"
      source, category := "offline", severity := 93, occurredAt := timestamp
      message := "transient synthetic event " ++ toString index
      executorMode := .transientThenSuccess }
  else if position = 4 then
    { assetId := groupAsset seed group "permanent"
      source, category := "offline", severity := 94, occurredAt := timestamp
      message := "permanent synthetic event " ++ toString index
      executorMode := .permanentFailure }
  else
    { assetId := groupAsset seed group ("normal-" ++ zeroPadded 2 position)
      source, category := "heartbeat", severity := 15, occurredAt := timestamp
      message := "normal synthetic event " ++ toString index
      executorMode := .success }

def generateEvents (count : Nat) (seed : Int) : List SharedEvent :=
  (List.range count).map fun index => eventAt index seed

/-! ## `expected_counters` -/

structure ExpectedCounters extends Metrics where
  errors : Nat := 0
  deriving DecidableEq, Repr

/-- One turn of the loop. -/
def ExpectedCounters.turn (c : ExpectedCounters) (index : Nat) : ExpectedCounters :=
  let position := index % 20
  { c with
    incidents := if position ∈ [0, 2, 3, 4] then c.incidents + 1 else c.incidents
    actions := if position ∈ [0, 3, 4] then c.actions + 1 else c.actions
    cooldownSuppressions :=
      if position = 1 then c.cooldownSuppressions + 1 else c.cooldownSuppressions
    succeededActions :=
      if position ∈ [0, 3] then c.succeededActions + 1 else c.succeededActions
    failedActions := if position = 4 then c.failedActions + 1 else c.failedActions
    permanentFailures := if position = 4 then c.permanentFailures + 1 else c.permanentFailures
    retryAttempts := if position = 3 then c.retryAttempts + 1 else c.retryAttempts }

def expectedCounters (count : Nat) : ExpectedCounters :=
  let counted := (List.range count).foldl ExpectedCounters.turn ⟨⟨0, 0, 0, 0, 0, 0, 0, 0⟩, 0⟩
  { counted with events := count }

theorem expectedCounters_succ (n : Nat) : expectedCounters (n + 1) =
    { (expectedCounters n).turn n with events := n + 1 } := by
  simp only [expectedCounters, List.range_succ, List.foldl_append, List.foldl_cons,
    List.foldl_nil, ExpectedCounters.turn]

/-- Three actions in each whole group, and those of the positions already passed in the next. -/
theorem actions_expectedCounters (n : Nat) : (expectedCounters n).actions =
    3 * (n / 20) +
      if n % 20 = 0 then 0 else if n % 20 < 4 then 1 else if n % 20 = 4 then 2 else 3 := by
  induction n with
  | zero => rfl
  | succ n ih =>
    rw [expectedCounters_succ]
    simp only [ExpectedCounters.turn, ih, List.mem_cons, List.not_mem_nil, or_false]
    grind

/-- One action in each group is retried. -/
theorem retryAttempts_expectedCounters (n : Nat) : (expectedCounters n).retryAttempts =
    n / 20 + if n % 20 < 4 then 0 else 1 := by
  induction n with
  | zero => rfl
  | succ n ih =>
    rw [expectedCounters_succ]
    simp only [ExpectedCounters.turn, ih]
    grind

theorem errors_expectedCounters (n : Nat) : (expectedCounters n).errors = 0 := by
  induction n with
  | zero => rfl
  | succ n ih =>
    rw [expectedCounters_succ]
    exact ih

/-! ## The assets of the workload -/

theorem zeroPadded_injective (width : Nat) : Function.Injective (zeroPadded width) := by
  intro m n same
  have digits := congrArg (fun s => Nat.ofDigitChars 10 (String.toList s) 0) same
  simpa only [zeroPadded, String.toList_ofList, Nat.ofDigitChars_append,
    Nat.ofDigitChars_replicate_zero, Nat.mul_zero, Nat.ofDigitChars_ten_toDigits] using digits

theorem dash_not_mem_zeroPadded (width n : Nat) : '-' ∉ (zeroPadded width n).toList := by
  intro mem
  rw [zeroPadded, String.toList_ofList, List.mem_append] at mem
  rcases mem with zero | digit
  · exact absurd (List.eq_of_mem_replicate zero) (by decide)
  · exact absurd (Nat.isDigit_of_mem_toDigits (by decide) (by decide) digit) (by decide)

/-- A last part without a dash is told from every other one, as is its group. -/
theorem groupAsset_inj {seed : Int} {g h : Nat} {part other : String}
    (plain : '-' ∉ part.toList) (same : groupAsset seed g part = groupAsset seed h other) :
    g = h ∧ part = other := by
  have chars := congrArg String.toList same
  simp only [groupAsset, String.toList_append, List.append_assoc, List.append_cancel_left_eq]
    at chars
  obtain ⟨group, -, rest⟩ :=
    (List.append_cons_inj_of_notMem (dash_not_mem_zeroPadded 6 g) plain).mp chars
  exact ⟨zeroPadded_injective 6 (String.toList_inj.mp group), String.toList_inj.mp rest⟩

/-! ## The positions of the cycle -/

/-- The last part of the asset at a position. -/
def assetPart : Nat → String
  | 0 | 1 => "critical"
  | 2 => "warning"
  | 3 => "transient"
  | 4 => "permanent"
  | position => "normal-" ++ zeroPadded 2 position

def positionMode : Nat → ExecutorMode
  | 3 => .transientThenSuccess
  | 4 => .permanentFailure
  | _ => .success

/-- What the event at a position is worth. -/
def positionBand : Nat → Option Band
  | 0 | 1 | 3 | 4 => some .critical
  | 2 => some .warning
  | _ => none

/-- What a run makes of the event at an index. -/
theorem eventAt_spec (index : Nat) (seed : Int) (settings : Settings) :
    (eventAt index seed).assetId = groupAsset seed (index / 20) (assetPart (index % 20)) ∧
    (eventAt index seed).executorMode = positionMode (index % 20) ∧
    (pythonPolicy settings).band (eventAt index seed).category (eventAt index seed).severity =
      positionBand (index % 20) := by
  simp only [eventAt]
  split_ifs with h0 h1 h2 h3 h4 <;> simp only [*]
  · exact ⟨rfl, rfl, rfl⟩
  · exact ⟨rfl, rfl, rfl⟩
  · exact ⟨rfl, rfl, rfl⟩
  · exact ⟨rfl, rfl, rfl⟩
  · exact ⟨rfl, rfl, rfl⟩
  · simp only [assetPart, positionMode, positionBand]
    exact ⟨trivial, trivial, rfl⟩

/-- The positions that open an incident. -/
def opensAt (position : Nat) : Prop := position ∈ [0, 2, 3, 4]

/-- An asset is shared by the first two positions of a group alone. -/
theorem eq_of_assetId_eq {i j : Nat} {seed : Int} (hi : opensAt (i % 20)) (hj : opensAt (j % 20))
    (same : (eventAt i seed).assetId = (eventAt j seed).assetId) : i = j := by
  have plain : ∀ p ∈ [0, 2, 3, 4], '-' ∉ (assetPart p).toList := by decide
  have apart : ∀ p ∈ [0, 2, 3, 4], ∀ q ∈ [0, 2, 3, 4], assetPart p = assetPart q → p = q := by
    decide
  have spec := fun index => (eventAt_spec index seed ⟨0⟩).1
  rw [spec, spec] at same
  obtain ⟨group, part⟩ := groupAsset_inj (plain _ hi) same
  have position := apart _ hi _ hj part
  omega

/-- What the Python engine decides at a position. -/
def positionDecision (room : Bool) (position : Nat) : Decision :=
  match positionBand position with
  | none => .ignored
  | some band =>
    if position = 1 then .suppressed else band.outcome (positionMode position) room

theorem opens_positionDecision (room : Bool) (position : Nat) :
    (positionDecision room position).opens = true ↔ opensAt position := by
  unfold positionDecision opensAt
  rcases position with _ | _ | _ | _ | _ | position
  all_goals simp [positionBand]
  · rfl
  · rfl

/-- Only the positions that ask for an action depend on the room. -/
theorem mode?_positionDecision (room : Bool) (position : Nat) :
    (positionDecision room position).mode? =
      if position ∈ [0, 3, 4] ∧ room = true then some (positionMode position) else none := by
  unfold positionDecision
  rcases position with _ | _ | _ | _ | _ | position
  all_goals simp [positionBand]
  · rfl
  · rfl

theorem positionDecision_congr {room : Bool} {position : Nat}
    (free : position ∈ [0, 3, 4] → room = true) :
    positionDecision room position = positionDecision true position := by
  cases room with
  | true => rfl
  | false =>
    unfold positionDecision
    rcases position with _ | _ | _ | _ | _ | position <;> simp [positionBand] at free ⊢
    rfl

/-- A turn of the loop counts the decision of the position. -/
theorem toMetrics_turn (c : ExpectedCounters) (index : Nat) :
    { (c.turn index).toMetrics with events := c.events + 1 } =
      c.toMetrics.after (positionDecision true (index % 20)) := by
  simp only [ExpectedCounters.turn, Metrics.after]
  generalize index % 20 = position
  rcases position with _ | _ | _ | _ | _ | position
  · rfl
  · rfl
  · rfl
  · rfl
  · rfl
  · simp [positionDecision, positionBand, Decision.opens, Decision.mode?]

/-! ## The log of the workload -/

theorem actions_succ (n : Nat) : (expectedCounters (n + 1)).actions =
    if n % 20 ∈ [0, 3, 4] then (expectedCounters n).actions + 1
    else (expectedCounters n).actions := by
  rw [expectedCounters_succ]
  rfl

def plannedEntry (run : EngineRun) (seed : Int) (index : Nat) : Entry where
  assetId := (eventAt index seed).assetId
  category := (eventAt index seed).category
  decidedAt := (run.surroundings index).now
  decision := positionDecision ((expectedCounters index).actions < run.settings.maxQueueBacklog)
    (index % 20)

def plannedLog (run : EngineRun) (seed : Int) (n : Nat) : List Entry :=
  (List.range n).map (plannedEntry run seed)

section Planned

variable (run : EngineRun) (seed : Int) (n : Nat)

theorem plannedLog_succ :
    plannedLog run seed (n + 1) = plannedLog run seed n ++ [plannedEntry run seed n] := by
  rw [plannedLog, List.range_succ, List.map_append]
  rfl

/-- The actions of the log are the expected ones up to the limit. -/
theorem length_modes_plannedLog : (modes (plannedLog run seed n)).length =
    min run.settings.maxQueueBacklog (expectedCounters n).actions := by
  induction n with
  | zero => exact (Nat.min_zero _).symm
  | succ n ih =>
    rw [plannedLog_succ, modes_concat, List.length_append, ih, actions_succ]
    simp only [plannedEntry, mode?_positionDecision, decide_eq_true_eq]
    by_cases asks : n % 20 ∈ [0, 3, 4]
    · by_cases room : (expectedCounters n).actions < run.settings.maxQueueBacklog
      · rw [if_pos ⟨asks, room⟩, if_pos asks]
        change _ + 1 = _
        omega
      · rw [if_neg fun h => room h.2, if_pos asks]
        change _ + 0 = _
        omega
    · rw [if_neg fun h => asks h.1, if_neg asks]
      rfl

/-- The counters of the log are the expected ones while the queue has room. -/
theorem metrics_plannedLog (room : (expectedCounters n).actions ≤ run.settings.maxQueueBacklog) :
    Metrics.ofLog (plannedLog run seed n) = (expectedCounters n).toMetrics := by
  induction n with
  | zero => rfl
  | succ n ih =>
    rw [actions_succ] at room
    have before : (expectedCounters n).actions ≤ run.settings.maxQueueBacklog := by
      split at room <;> omega
    have free : n % 20 ∈ [0, 3, 4] →
        decide ((expectedCounters n).actions < run.settings.maxQueueBacklog) = true := by
      intro asks
      rw [if_pos asks] at room
      exact decide_eq_true room
    rw [plannedLog_succ, Metrics.ofLog_concat, ih before, expectedCounters_succ]
    simp only [plannedEntry]
    rw [positionDecision_congr free, ← toMetrics_turn]
    rfl

/-- Of the earlier events only the first of the group suppresses, and only the second one. -/
theorem suppresses_plannedLog (worth : positionBand (n % 20) ≠ none)
    (close : ∀ i, i + 1 = n → (run.surroundings n).now - (run.surroundings i).now < cooldown) :
    (plannedLog run seed n).any ((pythonPolicy run.settings).suppresses
      (run.surroundings n).now (eventAt n seed)) = decide (n % 20 = 1) := by
  rw [Bool.eq_iff_iff, List.any_eq_true, decide_eq_true_eq]
  simp only [plannedLog, List.mem_map, List.mem_range, exists_exists_and_eq_and,
    Policy.suppresses, pythonPolicy, plannedEntry, Bool.and_eq_true, decide_eq_true_eq,
    opens_positionDecision]
  constructor
  · rintro ⟨j, earlier, ⟨opens, same⟩, -⟩
    by_contra other
    have here : opensAt (n % 20) := by
      revert worth other
      generalize n % 20 = position
      unfold opensAt
      rcases position with _ | _ | _ | _ | _ | position <;> simp [positionBand]
    exact absurd (eq_of_assetId_eq opens here same) (Nat.ne_of_lt earlier)
  · intro second
    have group : (n - 1) / 20 = n / 20 ∧ (n - 1) % 20 = 0 := by omega
    have recent := close (n - 1) (by omega)
    refine ⟨n - 1, by omega, ⟨?_, ?_⟩, Int.sub_le_of_sub_le recent.le⟩
    · rw [group.2]
      exact .head _
    · rw [(eventAt_spec _ seed run.settings).1, (eventAt_spec _ seed run.settings).1, group.1,
        group.2, second]
      rfl

/-- The policy decides the event after the log as planned. -/
theorem entry_plannedLog
    (close : ∀ i, i + 1 = n → (run.surroundings n).now - (run.surroundings i).now < cooldown) :
    (pythonPolicy run.settings).entry (plannedLog run seed n) (eventAt n seed)
      (run.surroundings n).now = plannedEntry run seed n := by
  obtain ⟨-, mode, worth⟩ := eventAt_spec n seed run.settings
  refine congrArg (Entry.mk _ _ _) ?_
  unfold positionDecision
  cases band : positionBand (n % 20) with
  | none => exact Policy.decide_of_none (worth.trans band)
  | some b =>
    have reach := suppresses_plannedLog run seed n (by rw [band]; exact Option.some_ne_none b) close
    by_cases second : n % 20 = 1
    · rw [decide_eq_true second] at reach
      simpa only [second, if_true] using Policy.decide_of_recent (worth.trans band) reach
    · rw [decide_eq_false second] at reach
      have room : (pythonPolicy run.settings).room (modes (plannedLog run seed n)).length =
          decide ((expectedCounters n).actions < run.settings.maxQueueBacklog) := by
        rw [length_modes_plannedLog]
        exact decide_eq_decide.mpr (by omega)
      rw [Policy.decide_of_clear (worth.trans band) reach, mode, room]
      simp only [second, if_false]

end Planned

/-! ## The run over the workload -/

theorem timed_append (run : EngineRun) (events later : List SharedEvent) (i : Nat) :
    run.timed i (events ++ later) =
      run.timed i events ++ run.timed (i + events.length) later := by
  induction events generalizing i with
  | nil => rfl
  | cons e events ih =>
    rw [List.cons_append, EngineRun.timed, ih, List.length_cons, Nat.add_right_comm]
    rfl

theorem log_generateEvents (run : EngineRun) (seed : Int) (n : Nat)
    (close : ∀ i, i + 1 < n →
      (run.surroundings (i + 1)).now - (run.surroundings i).now < cooldown) :
    (pythonPolicy run.settings).log (run.timed 0 (generateEvents n seed)) =
      plannedLog run seed n := by
  induction n with
  | zero => rfl
  | succ n ih =>
    have timed : run.timed 0 (generateEvents (n + 1) seed) =
        run.timed 0 (generateEvents n seed) ++ [(eventAt n seed, (run.surroundings n).now)] := by
      rw [generateEvents, List.range_succ, List.map_append, timed_append, List.length_map,
        List.length_range, Nat.zero_add]
      rfl
    rw [timed, Policy.log_concat, ih fun i hi => close i (by omega), plannedLog_succ]
    rw [entry_plannedLog run seed n fun i hi => by subst hi; exact close i (by omega)]

/-! ## `EventCreate` accepts the workload -/

theorem length_source_le (seed : Int) :
    ("synthetic-source-" ++ toString (seed % 997)).length ≤ 20 := by
  obtain ⟨k, hk⟩ := Int.eq_ofNat_of_zero_le (Int.emod_nonneg seed (by decide : (997 : Int) ≠ 0))
  have small : k < 10 ^ 3 := by
    have := Int.emod_lt_of_pos seed (by decide : (0 : Int) < 997)
    omega
  have digits := (Nat.length_toDigits_le_iff (by decide) (by decide)).mpr small
  have text : (toString (seed % 997)).length ≤ 3 := by
    have : toString (seed % 997) = toString k := by rw [hk]; rfl
    rwa [this, Nat.toString_eq_ofList_toDigits, String.length_ofList]
  have prefixed : "synthetic-source-".length = 17 := rfl
  rw [String.length_append]
  omega

/-- An event whose asset id is short enough meets every bound of `EventCreate`. -/
theorem accepted_eventAt {index : Nat} {seed : Int}
    (fits : (eventAt index seed).assetId.length ≤ 80) :
    (eventBody (eventAt index seed)).Accepted := by
  have prefixed : 3 ≤ (eventAt index seed).assetId.length := by
    rw [(eventAt_spec index seed ⟨0⟩).1, groupAsset]
    simp only [String.length_append]
    have : "SYN-".length = 4 := rfl
    omega
  have source := length_source_le seed
  have named : 3 ≤ ("synthetic-source-" ++ toString (seed % 997)).length := by
    rw [String.length_append]
    exact Nat.le_add_right_of_le (by decide)
  have unkeyed : ∀ k ∈ (none : Option String), 8 ≤ k.length ∧ k.length ≤ 120 := by simp
  have uncorrelated : ∀ k ∈ (none : Option String), 3 ≤ k.length ∧ k.length ≤ 80 := by simp
  have spoken : ∀ {text : String}, 5 ≤ text.length → 5 ≤ (text ++ toString index).length := by
    intro text long
    rw [String.length_append]
    exact Nat.le_add_right_of_le long
  refine ⟨⟨prefixed, fits⟩, ?_⟩
  simp only [eventBody, eventAt]
  split_ifs
  all_goals
    dsimp only
    exact ⟨⟨named, source.trans (by decide)⟩, by decide, by decide, spoken (by decide),
      by decide, unkeyed, uncorrelated⟩

theorem length_assetPart_le {position : Nat} (h : position < 20) :
    (assetPart position).length ≤ 9 := by
  revert position
  decide

/-- The ids of the first twenty million events leave the seed fifty-nine characters. -/
theorem length_assetId_le (index : Nat) (seed : Int) (few : index < 20000000) :
    (eventAt index seed).assetId.length ≤ (toString seed).length + 21 := by
  have digits : (Nat.toDigits 10 (index / 20)).length ≤ 6 :=
    (Nat.length_toDigits_le_iff (by decide) (by decide)).mpr (by omega)
  have group : (zeroPadded 6 (index / 20)).length = 6 := by
    rw [zeroPadded, String.length_ofList, List.length_append, List.length_replicate]
    omega
  have part := length_assetPart_le (Nat.mod_lt index (by decide : 20 > 0))
  rw [(eventAt_spec index seed ⟨0⟩).1, groupAsset]
  simp only [String.length_append, group]
  have : "SYN-".length = 4 := rfl
  have : "-".length = 1 := rfl
  omega

/-! ## The counters of the run -/

/-- A run over the workload reports no error and the counters of the planned log. -/
theorem runPythonEngine_generateEvents (run : EngineRun) (positive : 0 < run.timeout)
    (enough : 2 < run.fuel) (n : Nat) (seed : Int)
    (fits : ∀ e ∈ generateEvents n seed, e.assetId.length ≤ 80)
    (close : ∀ i, i + 1 < n →
      (run.surroundings (i + 1)).now - (run.surroundings i).now < cooldown) :
    ∃ t, runPythonEngine run (generateEvents n seed) = some (.ok (0, t)) ∧
      pythonMetrics t = Metrics.ofLog (plannedLog run seed n) := by
  have accepted : ∀ e ∈ generateEvents n seed, (eventBody e).Accepted := by
    intro e he
    obtain ⟨index, -, rfl⟩ := List.mem_map.mp he
    exact accepted_eventAt (fits _ he)
  obtain ⟨t, ran, metrics⟩ := runPythonEngine_metrics run positive enough _ accepted
  rw [log_generateEvents run seed n close] at metrics
  exact ⟨t, ran, metrics⟩

/-- `Settings` with its defaults. -/
def defaultSettings : Settings := ⟨10000⟩

/-- Up to 66663 events, the engine meets the published counters. -/
theorem runPythonEngine_expectedCounters (run : EngineRun)
    (settings : run.settings = defaultSettings) (positive : 0 < run.timeout)
    (enough : 2 < run.fuel) (n : Nat) (few : n ≤ 66663) (seed : Int)
    (fits : ∀ e ∈ generateEvents n seed, e.assetId.length ≤ 80)
    (close : ∀ i, i + 1 < n →
      (run.surroundings (i + 1)).now - (run.surroundings i).now < cooldown) :
    ∃ t, runPythonEngine run (generateEvents n seed) =
        some (.ok ((expectedCounters n).errors, t)) ∧
      pythonMetrics t = (expectedCounters n).toMetrics := by
  obtain ⟨t, ran, metrics⟩ := runPythonEngine_generateEvents run positive enough n seed fits close
  have room : (expectedCounters n).actions ≤ run.settings.maxQueueBacklog := by
    rw [settings, actions_expectedCounters]
    change _ ≤ 10000
    split_ifs <;> omega
  rw [metrics_plannedLog run seed n room] at metrics
  rw [errors_expectedCounters]
  exact ⟨t, ran, metrics⟩

/-- An event that `EventCreate` refuses is an error and leaves no row. -/
theorem runPythonEngine_rejected (run : EngineRun) {e : SharedEvent}
    (rejected : toPythonPayload e = none) :
    ∃ t, runPythonEngine run [e] = some (.ok (1, t)) ∧ (pythonMetrics t).events = 0 := by
  obtain ⟨seeded, -⟩ := follows_seedPythonDatabase [e]
  have processed : processEvents run 0 [e] (0, seedPythonDatabase [e]) =
      (1, seedPythonDatabase [e]) := by
    simp only [processEvents, rejected]
  have idle : (seedPythonDatabase [e]).actions.rows = [] := List.map_eq_nil_iff.mp seeded.actions
  refine ⟨_, ?_, seeded.events⟩
  simp only [runPythonEngine, processed, idle]
  rfl

/-- A run that reads the clock once a second. -/
def secondsRun : EngineRun where
  settings := defaultSettings
  surroundings i := ⟨workloadStart + 1000000 * i, ""⟩
  clock i k := workloadStart + 1000000 * (i + k)
  timeout := 1000
  fuel := 3

theorem close_secondsRun (i : Nat) :
    (secondsRun.surroundings (i + 1)).now - (secondsRun.surroundings i).now < cooldown := by
  have second : ∀ start : Int,
      start + 1000000 * ((i + 1 : Nat) : Int) - (start + 1000000 * (i : Int)) < 300000000 := by
    intro start
    omega
  exact second workloadStart

theorem fits_generateEvents (n : Nat) (few : n ≤ 20000000) (seed : Int)
    (short : (toString seed).length ≤ 59) :
    ∀ e ∈ generateEvents n seed, e.assetId.length ≤ 80 := by
  intro e he
  obtain ⟨index, below, rfl⟩ := List.mem_map.mp he
  have := length_assetId_le index seed ((List.mem_range.mp below).trans_le few)
  omega

theorem runPythonEngine_expectedCounters_hundred :
    ∃ t, runPythonEngine secondsRun (generateEvents 100 424242) =
        some (.ok ((expectedCounters 100).errors, t)) ∧
      pythonMetrics t = (expectedCounters 100).toMetrics :=
  runPythonEngine_expectedCounters secondsRun rfl (by decide) (by decide) 100 (by decide) 424242
    (fits_generateEvents 100 (by decide) 424242 (by decide)) fun i _ => close_secondsRun i

/-- A seed of sixty-one digits. -/
def longSeed : Int := 1000000000000000000000000000000000000000000000000000000000000

/-- The 66664th event asks for one action more than the queue takes, and the asset ids of a long
seed are refused by `EventCreate`. -/
theorem counters_beyond_the_bounds :
    (∃ t, runPythonEngine secondsRun (generateEvents 66664 424242) = some (.ok (0, t)) ∧
      (pythonMetrics t).actions = 10000 ∧ (expectedCounters 66664).actions = 10001) ∧
    ∃ t, runPythonEngine secondsRun (generateEvents 1 longSeed) = some (.ok (1, t)) ∧
      (pythonMetrics t).events = 0 ∧ (expectedCounters 1).events = 1 := by
  constructor
  · obtain ⟨t, ran, metrics⟩ := runPythonEngine_generateEvents secondsRun (by decide) (by decide)
      66664 424242 (fits_generateEvents 66664 (by decide) 424242 (by decide))
      fun i _ => close_secondsRun i
    have expected : (expectedCounters 66664).actions = 10001 := by
      rw [actions_expectedCounters]
      simp
    refine ⟨t, ran, ?_, expected⟩
    rw [metrics, Metrics.ofLog, length_modes_plannedLog, expected]
    rfl
  · have rejected : toPythonPayload (eventAt 0 longSeed) = none := by decide
    obtain ⟨t, ran, none⟩ := runPythonEngine_rejected secondsRun rejected
    exact ⟨t, ran, none, rfl⟩

end SupportOps.Benchmark
