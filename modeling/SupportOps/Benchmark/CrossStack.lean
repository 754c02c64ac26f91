import SupportOps.DotNet.Drain
import SupportOps.Benchmark.Workload

/-!
# Two engines, one log

Both engines end with the counters of their policy's log, so they agree wherever their policies
decide alike: on events that both rule sets judge alike, as long as the incidents of an asset that
are in reach include one of the event's category, and the queue of the Python engine has room.
-/
namespace SupportOps.Benchmark

open Python

/-! ## Where the policies agree -/

namespace Policy

variable {P Q : Policy}

/-- Policies that decide alike along the log of one of them have one log. -/
theorem log_congr (events : List (SharedEvent × Instant))
    (alike : ∀ done e now rest, events = done ++ (e, now) :: rest →
      P.decide (P.log done) e now = Q.decide (P.log done) e now) :
    P.log events = Q.log events := by
  induction events using List.reverseRecOn with
  | nil => rfl
  | append_singleton events e ih =>
    have before : P.log events = Q.log events := by
      refine ih fun done x now rest split => alike done x now (rest ++ [e]) ?_
      rw [split, List.append_assoc]
      rfl
    have last := alike events e.1 e.2 [] rfl
    rw [log_concat, log_concat, entry, entry, last, before]

theorem prefix_extend (log : List Entry) (events : List (SharedEvent × Instant)) :
    log <+: P.extend log events := by
  induction events generalizing log with
  | nil => exact List.prefix_rfl
  | cons e events ih => exact (List.prefix_append ..).trans (ih _)

/-- What has been queued stays counted. -/
theorem length_modes_log_le (done rest : List (SharedEvent × Instant)) :
    (modes (P.log done)).length ≤ (modes (P.log (done ++ rest))).length := by
  have grown : P.log done <+: P.log (done ++ rest) := by
    have whole : P.log (done ++ rest) = P.extend (P.log done) rest := List.foldl_append ..
    rw [whole]
    exact prefix_extend ..
  exact (grown.sublist.filterMap _).length_le

end Policy

/-- The rules of both engines make the same of the event. -/
def RulesAgree (e : SharedEvent) : Prop :=
  (e.category = "offline" ∧ 80 ≤ e.severity) ∨
  (e.category = "degraded" ∧ 50 ≤ e.severity ∧ e.severity < 80) ∨
  (e.severity < 50 ∧ e.category ∉ ["offline", "critical", "degraded", "warning"])

instance (e : SharedEvent) : Decidable (RulesAgree e) := by
  unfold RulesAgree; exact inferInstance

/-- Outside these three cases the rules differ. -/
theorem rulesAgree_iff (settings : Settings) (e : SharedEvent) : RulesAgree e ↔
    (pythonPolicy settings).band e.category e.severity =
      DotNet.dotnetPolicy.band e.category e.severity := by
  simp only [RulesAgree, pythonPolicy, DotNet.dotnetPolicy, List.mem_cons, List.not_mem_nil,
    or_false]
  grind

/-- An event worth an incident that meets an incident of its asset from the last five minutes meets
one of its category as well. -/
def ScopesAgree (P : Policy) (events : List (SharedEvent × Instant)) : Prop :=
  ∀ done e now rest, events = done ++ (e, now) :: rest → P.band e.category e.severity ≠ none →
    ∀ x ∈ P.log done, x.decision.opens = true → x.assetId = e.assetId →
      now - cooldown ≤ x.decidedAt →
      ∃ y ∈ P.log done, y.decision.opens = true ∧ y.assetId = e.assetId ∧
        y.category = e.category ∧ now - cooldown ≤ y.decidedAt

/-- Assets that never mix categories have one scope in both engines. -/
theorem scopesAgree_of_unmixed {P : Policy} {events : List (SharedEvent × Instant)}
    (unmixed : ∀ e ∈ events.map Prod.fst, ∀ e' ∈ events.map Prod.fst,
      e.assetId = e'.assetId → e.category = e'.category) : ScopesAgree P events := by
  intro done e now rest split _ x mem opens same recent
  obtain ⟨e', he', asset, category⟩ := P.exists_of_mem_log mem
  refine ⟨x, mem, opens, same, category.trans (unmixed e'.1 ?_ e ?_ (asset.symm.trans same)),
    recent⟩
  · rw [split, List.map_append]
    exact List.mem_append_left _ (List.mem_map_of_mem he')
  · rw [split, List.map_append]
    exact List.mem_append_right _ (.head _)

/-- Where rules and scopes agree and the queue has room, so do the decisions. -/
theorem decide_eq_decide {settings : Settings} {events done rest : List (SharedEvent × Instant)}
    {e : SharedEvent} {now : Instant} (split : events = done ++ (e, now) :: rest)
    (rules : RulesAgree e) (scopes : ScopesAgree (pythonPolicy settings) events)
    (room : (modes ((pythonPolicy settings).log events)).length < settings.maxQueueBacklog) :
    (pythonPolicy settings).decide ((pythonPolicy settings).log done) e now =
      DotNet.dotnetPolicy.decide ((pythonPolicy settings).log done) e now := by
  have bands := (rulesAgree_iff settings e).mp rules
  cases worth : (pythonPolicy settings).band e.category e.severity with
  | none =>
    rw [Policy.decide_of_none worth, Policy.decide_of_none (bands.symm.trans worth)]
  | some band =>
    have reach : ((pythonPolicy settings).log done).any ((pythonPolicy settings).suppresses now e) =
        ((pythonPolicy settings).log done).any (DotNet.dotnetPolicy.suppresses now e) := by
      rw [Bool.eq_iff_iff, List.any_eq_true, List.any_eq_true]
      simp only [Policy.suppresses, Bool.and_eq_true]
      constructor
      · rintro ⟨x, mem, ⟨opens, same⟩, recent⟩
        obtain ⟨y, found, opened, asset, category, late⟩ := scopes done e now rest split
          (by rw [worth]; exact Option.some_ne_none _) x mem opens (of_decide_eq_true same)
          (of_decide_eq_true recent)
        exact ⟨y, found, ⟨opened, decide_eq_true ⟨asset, category⟩⟩, decide_eq_true late⟩
      · rintro ⟨x, mem, ⟨opens, same⟩, recent⟩
        exact ⟨x, mem, ⟨opens, decide_eq_true (of_decide_eq_true same).1⟩, recent⟩
    have free : (pythonPolicy settings).room (modes ((pythonPolicy settings).log done)).length =
        true := by
      have grown := Policy.length_modes_log_le (P := pythonPolicy settings) done ((e, now) :: rest)
      rw [← split] at grown
      exact decide_eq_true (grown.trans_lt room)
    cases recent : ((pythonPolicy settings).log done).any
        ((pythonPolicy settings).suppresses now e) with
    | true =>
      rw [Policy.decide_of_recent worth recent,
        Policy.decide_of_recent (bands.symm.trans worth) (reach.symm.trans recent)]
    | false =>
      rw [Policy.decide_of_clear worth recent,
        Policy.decide_of_clear (bands.symm.trans worth) (reach.symm.trans recent), free]
      rfl

/-! ## The two runs -/

theorem timed_eq (run : EngineRun) (i : Nat) (events : List SharedEvent) :
    run.timed i events = timed (fun j => (run.surroundings j).now) i events := by
  induction events generalizing i with
  | nil => rfl
  | cons e events ih => exact congrArg _ (ih (i + 1))

/-- The backlog after the last event is the number of actions of the log. -/
theorem queueBacklog_processEvents (run : EngineRun) (events : List SharedEvent)
    (accepted : ∀ e ∈ events, (eventBody e).Accepted) :
    (processEvents run 0 events (0, seedPythonDatabase events)).2.queueBacklog =
      (modes ((pythonPolicy run.settings).log (run.timed 0 events))).length := by
  obtain ⟨seeded, known⟩ := follows_seedPythonDatabase events
  obtain ⟨s, processed, follows⟩ := processEvents_follows run events
    (fun e he => ⟨accepted e he, known e he⟩) 0 0 seeded
  rw [processed]
  exact follows.queueBacklog

/-- An accepted event that is trimmed and lower-case is normalised to itself. -/
theorem plain_of_accepted {culture : DotNet.Culture} {e : SharedEvent}
    (accepted : (eventBody e).Accepted) (assetId : DotNet.trim e.assetId = e.assetId)
    (category : DotNet.trim e.category = e.category)
    (lower : culture.toLowerInvariant e.category = e.category) : DotNet.Plain culture e := by
  obtain ⟨⟨long, -⟩, -, ⟨wide, -⟩, ⟨low, high⟩, -⟩ := accepted
  refine ⟨assetId, ?_, category, ?_, lower, Int.le_of_lt low, high⟩
  · rintro empty
    have long : 3 ≤ e.assetId.length := long
    rw [empty] at long
    exact absurd long (by decide)
  · rintro empty
    have wide : 2 ≤ e.category.length := wide
    rw [empty] at wide
    exact absurd wide (by decide)

/-- Both engines are fed at the same times, and nothing goes wrong around them: the clock does not
run backwards, no `Guid` is drawn twice, and lower-case text stays as it is. -/
structure Alongside (run : EngineRun) (net : DotNet.EngineRun) (events : List SharedEvent) :
    Prop where
  times : ∀ i, net.now i = DotNet.ticks (run.surroundings i).now
  ingested : ∀ i, i < events.length → net.now i ≤ net.clock 0 0
  forward : net.Forward
  distinct : net.Distinct
  modes : net.culture.KeepsModes

/-- On events that the two stacks judge alike, both engines end with equal counters. -/
theorem engines_agree (run : EngineRun) (net : DotNet.EngineRun) (events : List SharedEvent)
    (alongside : Alongside run net events) (timeout : 0 < run.timeout) (fuel : 2 < run.fuel)
    (limit : 0 < net.limit) (rounds : Nat) (enough : 2 * events.length < rounds)
    (accepted : ∀ e ∈ events, (eventBody e).Accepted)
    (trimmed : ∀ e ∈ events, DotNet.trim e.assetId = e.assetId ∧
      DotNet.trim e.category = e.category ∧ net.culture.toLowerInvariant e.category = e.category)
    (rules : ∀ e ∈ events, RulesAgree e)
    (scopes : ScopesAgree (pythonPolicy run.settings) (run.timed 0 events))
    (backlog : (processEvents run 0 events (0, seedPythonDatabase events)).2.queueBacklog <
      run.settings.maxQueueBacklog) :
    ∃ s t, runPythonEngine run events = some (.ok (0, s)) ∧
      DotNet.runDotnetEngine net rounds events = some (0, t) ∧
      pythonMetrics s = DotNet.dotnetMetrics t := by
  have room := queueBacklog_processEvents run events accepted
  rw [room] at backlog
  have plain : ∀ e ∈ events, DotNet.Plain net.culture e := fun e he =>
    plain_of_accepted (accepted e he) (trimmed e he).1 (trimmed e he).2.1 (trimmed e he).2.2
  obtain ⟨s, ranPython, python⟩ := runPythonEngine_metrics run timeout fuel events accepted
  obtain ⟨t, ranDotnet, dotnet⟩ := DotNet.runDotnetEngine_metrics net alongside.distinct
    alongside.modes alongside.forward limit alongside.times events plain alongside.ingested rounds
    enough
  have sameLog : (pythonPolicy run.settings).log (run.timed 0 events) =
      DotNet.dotnetPolicy.log (run.timed 0 events) := by
    refine Policy.log_congr _ fun done e now rest split => ?_
    have mem : e ∈ events := by
      rw [← map_fst_timed (fun i => (run.surroundings i).now) 0 events, ← timed_eq, split]
      simp
    exact decide_eq_decide split (rules e mem) scopes backlog
  refine ⟨s, t, ranPython, ranDotnet, ?_⟩
  rw [python, dotnet, sameLog, timed_eq]

/-- A .NET run next to `secondsRun`, its actions processed a day later. -/
def secondsNet : DotNet.EngineRun where
  culture := DotNet.asciiCulture
  now i := DotNet.ticks (secondsRun.surroundings i).now
  guids i := ⟨zeroPadded 32 i, zeroPadded 32 i, zeroPadded 32 i, []⟩
  limit := 10000
  clock _ _ := DotNet.ticks (workloadStart + 86400000000)

theorem alongside_seconds (events : List SharedEvent) (few : events.length ≤ 86400) :
    Alongside secondsRun secondsNet events where
  times _ := rfl
  ingested i hi := by
    have early : ∀ start : Int,
        10 * (start + 1000000 * (i : Int)) ≤ 10 * (start + 86400000000) := by
      intro start
      omega
    exact early workloadStart
  forward := ⟨fun _ _ => Int.le_refl _, fun _ _ => Int.le_refl _⟩
  distinct := ⟨zeroPadded_injective 32, zeroPadded_injective 32, zeroPadded_injective 32⟩
  modes := DotNet.keepsModes_asciiCulture

theorem engines_agree_generateEvents_five :
    ∃ s t, runPythonEngine secondsRun (generateEvents 5 424242) = some (.ok (0, s)) ∧
      DotNet.runDotnetEngine secondsNet 11 (generateEvents 5 424242) = some (0, t) ∧
      pythonMetrics s = DotNet.dotnetMetrics t := by
  have fits := fits_generateEvents 5 (by decide) 424242 (by decide)
  have accepted : ∀ e ∈ generateEvents 5 424242, (eventBody e).Accepted := by
    intro e he
    obtain ⟨index, -, rfl⟩ := List.mem_map.mp he
    exact accepted_eventAt (fits _ he)
  refine engines_agree secondsRun secondsNet (generateEvents 5 424242)
    (alongside_seconds _ (by decide)) (by decide) (by decide) (by decide) 11 (by decide) accepted
    (by decide) (by decide) (scopesAgree_of_unmixed ?_) ?_
  · rw [timed_eq, map_fst_timed]
    decide
  · rw [queueBacklog_processEvents secondsRun _ accepted]
    have few := (pythonPolicy secondsRun.settings).length_modes_log
      (secondsRun.timed 0 (generateEvents 5 424242))
    rw [timed_eq, length_timed] at few
    exact few.trans_lt (by decide)

/-! ## Where the stacks differ -/

/-- An event of the start of the workload. -/
def eventOf (assetId category : String) (severity : Int) : SharedEvent :=
  ⟨assetId, "synthetic-source", category, severity, workloadStart, "synthetic event", .success⟩

/-- Both engines return with equal counters from a run with ten rounds. -/
def CountersAgree (events : List SharedEvent) : Prop :=
  ∃ i j s t, runPythonEngine secondsRun events = some (.ok (i, s)) ∧
    DotNet.runDotnetEngine secondsNet 10 events = some (j, t) ∧
    pythonMetrics s = DotNet.dotnetMetrics t

theorem not_countersAgree {events : List SharedEvent} (few : events.length < 5)
    (accepted : ∀ e ∈ events, (eventBody e).Accepted)
    (plain : ∀ e ∈ events, DotNet.Plain DotNet.asciiCulture e)
    (differ : Metrics.ofLog ((pythonPolicy defaultSettings).log (secondsRun.timed 0 events)) ≠
      Metrics.ofLog (DotNet.dotnetPolicy.log (secondsRun.timed 0 events))) :
    ¬ CountersAgree events := by
  have alongside := alongside_seconds events (by omega)
  obtain ⟨s, ranPython, python⟩ :=
    runPythonEngine_metrics secondsRun (by decide) (by decide) events accepted
  obtain ⟨t, ranDotnet, dotnet⟩ := DotNet.runDotnetEngine_metrics secondsNet alongside.distinct
    alongside.modes alongside.forward (by decide) alongside.times events plain alongside.ingested
    10 (by omega)
  rintro ⟨i, j, s', t', ranPython', ranDotnet', same⟩
  cases ranPython.symm.trans ranPython'
  cases ranDotnet.symm.trans ranDotnet'
  rw [python, dotnet, timed_eq] at same
  rw [timed_eq] at differ
  exact differ same

/-- A severe event of another category, a warning behind an outage of its asset, a blank asset id
and a category of one letter. -/
theorem counters_disagree :
    ¬ CountersAgree [eventOf "SYN-1" "heartbeat" 90] ∧
    ¬ CountersAgree [eventOf "SYN-1" "offline" 90, eventOf "SYN-1" "degraded" 60] ∧
    ¬ CountersAgree [eventOf "   " "heartbeat" 15] ∧
    ¬ CountersAgree [eventOf "SYN-1" "x" 15] := by
  refine ⟨not_countersAgree (by decide) (by decide) (by decide) (by decide),
    not_countersAgree (by decide) (by decide) (by decide) (by decide), ?_, ?_⟩
  · rintro ⟨i, j, s, t, ranPython, ranDotnet, same⟩
    obtain ⟨s', ran, python⟩ := runPythonEngine_metrics secondsRun (by decide) (by decide)
      [eventOf "   " "heartbeat" 15] (by decide)
    have refused : DotNet.runDotnetEngine secondsNet 10 [eventOf "   " "heartbeat" 15] =
        some (1, .empty) := rfl
    cases ran.symm.trans ranPython
    cases refused.symm.trans ranDotnet
    exact absurd (congrArg Metrics.events (python.symm.trans same)) (by decide)
  · rintro ⟨i, j, s, t, ranPython, ranDotnet, same⟩
    have alongside := alongside_seconds [eventOf "SYN-1" "x" 15] (by decide)
    obtain ⟨s', ran, none⟩ := runPythonEngine_rejected secondsRun
      (by decide : toPythonPayload (eventOf "SYN-1" "x" 15) = none)
    obtain ⟨t', ran', dotnet⟩ := DotNet.runDotnetEngine_metrics secondsNet alongside.distinct
      alongside.modes alongside.forward (by decide) alongside.times [eventOf "SYN-1" "x" 15]
      (by decide) alongside.ingested 10 (by decide)
    cases ran.symm.trans ranPython
    cases ran'.symm.trans ranDotnet
    rw [same, dotnet] at none
    exact absurd none (by decide)

end SupportOps.Benchmark
