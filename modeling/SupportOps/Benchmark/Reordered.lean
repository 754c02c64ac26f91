import SupportOps.Benchmark.AnyOrder
import SupportOps.Benchmark.CrossStack
import SupportOps.DotNet.RunOnce

/-!
# The workload in any order

The workload lies within one cooldown if it is fed fast enough, and the two events of a group that
share a scope ask for the same. So both engines meet the published counters whatever the order in
which the events reach them.
-/
namespace SupportOps.Benchmark

open Python

/-! ## The tally of the workload -/

/-- The grouping judges the positions of the cycle as they are meant, and keeps assets apart. -/
structure Grouping.Fits {κ : Type} (G : Grouping κ) : Prop where
  band : ∀ (index : Nat) (seed : Int),
    G.band (eventAt index seed).category (eventAt index seed).severity = positionBand (index % 20)
  apart : ∀ {a c a' c' : String}, G.scope a c = G.scope a' c' → a = a'

/-- The positions that are worth an incident. -/
theorem lt_of_positionBand {position : Nat} {band : Band}
    (worth : positionBand position = some band) : position < 5 := by
  rcases position with _ | _ | _ | _ | _ | position
  all_goals first | omega | cases worth

/-- Two events on one asset that are worth an incident are on one position, or the first two. -/
theorem position_of_assetId_eq {i j : Nat} {seed : Int} {b c : Band}
    (hi : positionBand (i % 20) = some b) (hj : positionBand (j % 20) = some c)
    (same : (eventAt i seed).assetId = (eventAt j seed).assetId) :
    i / 20 = j / 20 ∧ (i % 20 = j % 20 ∨ i % 20 < 2 ∧ j % 20 < 2) := by
  have plain : ∀ p < 5, '-' ∉ (assetPart p).toList := by decide
  have apart : ∀ p < 5, ∀ q < 5, assetPart p = assetPart q → p = q ∨ p < 2 ∧ q < 2 := by decide
  have spec := fun index => (eventAt_spec index seed ⟨0⟩).1
  rw [spec, spec] at same
  obtain ⟨group, part⟩ := groupAsset_inj (plain _ (lt_of_positionBand hi)) same
  exact ⟨group, apart _ (lt_of_positionBand hi) _ (lt_of_positionBand hj) part⟩

section Tally

variable {κ : Type} [DecidableEq κ] {G : Grouping κ} (fits : G.Fits) (seed : Int)

include fits

omit [DecidableEq κ] in
theorem alike_eventAt (i j : Nat) : G.Alike (eventAt i seed) (eventAt j seed) := by
  intro same b hb c hc
  rw [fits.band] at hb hc
  have spec := fun index => (eventAt_spec index seed ⟨0⟩).2.1
  rw [spec, spec]
  rcases (position_of_assetId_eq hb hc (fits.apart same)).2 with equal | ⟨one, two⟩
  · rw [equal] at hb ⊢
    exact ⟨Option.some.inj (hb.symm.trans hc), rfl⟩
  · generalize i % 20 = p, j % 20 = q at hb hc one two
    have first : ∀ p < 2, positionBand p = some .critical ∧ positionMode p = .success := by decide
    rw [(first p one).1] at hb
    rw [(first q two).1] at hc
    rw [(first p one).2, (first q two).2]
    exact ⟨Option.some.inj (hb.symm.trans hc), rfl⟩

omit [DecidableEq κ] fits in
/-- The second event of a group has the scope of the first. -/
theorem scopeOf_second {n : Nat} (second : n % 20 = 1) :
    G.scopeOf (eventAt (n - 1) seed) = G.scopeOf (eventAt n seed) := by
  have group : (n - 1) / 20 = n / 20 ∧ (n - 1) % 20 = 0 := by omega
  simp only [Grouping.scopeOf, eventAt, second, group.1, group.2]
  rfl

/-- In its own order the workload leads to the published counters. -/
theorem tally_generateEvents (n : Nat) :
    (∀ k, k ∈ (G.tally (generateEvents n seed)).opened ↔
      ∃ i, i < n ∧ opensAt (i % 20) ∧ G.scopeOf (eventAt i seed) = k) ∧
    (G.tally (generateEvents n seed)).counters = (expectedCounters n).toMetrics := by
  induction n with
  | zero => exact ⟨fun k => by simp [Grouping.tally, generateEvents], rfl⟩
  | succ n ih =>
    obtain ⟨opened, counters⟩ := ih
    have split : generateEvents (n + 1) seed = generateEvents n seed ++ [eventAt n seed] := by
      rw [generateEvents, List.range_succ, List.map_append]
      rfl
    set t := G.tally (generateEvents n seed)
    have decided : G.decide t (eventAt n seed) = positionDecision true (n % 20) := by
      unfold positionDecision
      cases band : positionBand (n % 20) with
      | none => exact Grouping.decide_of_none ((fits.band n seed).trans band)
      | some b =>
        have worth := (fits.band n seed).trans band
        by_cases second : n % 20 = 1
        · have known : G.scopeOf (eventAt n seed) ∈ t.opened := by
            refine (opened _).mpr ⟨n - 1, by omega, ?_, scopeOf_second seed second⟩
            have first : (n - 1) % 20 = 0 := by omega
            rw [first]
            exact .head _
          rw [Grouping.decide_of_mem worth known]
          exact (if_pos second).symm
        · have clear : G.scopeOf (eventAt n seed) ∉ t.opened := by
            rw [opened]
            rintro ⟨i, earlier, opens, same⟩
            have here : opensAt (n % 20) := by
              have := lt_of_positionBand band
              unfold opensAt
              simp only [List.mem_cons, List.not_mem_nil, or_false]
              omega
            exact absurd (eq_of_assetId_eq opens here (fits.apart same)) (Nat.ne_of_lt earlier)
          rw [Grouping.decide_of_notMem worth clear, (eventAt_spec n seed ⟨0⟩).2.1]
          exact (if_neg second).symm
    rw [split, Grouping.tally_concat]
    refine ⟨fun k => ?_, ?_⟩
    · rw [Grouping.mem_opened_next, opened, decided, opens_positionDecision]
      constructor
      · rintro (⟨i, earlier, found⟩ | ⟨opens, rfl⟩)
        · exact ⟨i, Nat.lt_succ_of_lt earlier, found⟩
        · exact ⟨n, Nat.lt_succ_self n, opens, rfl⟩
      · rintro ⟨i, earlier, opens, same⟩
        rcases Nat.lt_succ_iff_lt_or_eq.mp earlier with before | rfl
        · exact .inl ⟨i, before, opens, same⟩
        · exact .inr ⟨opens, same.symm⟩
    · change t.counters.after (G.decide t (eventAt n seed)) = _
      rw [decided, counters, ← toMetrics_turn, expectedCounters_succ]
      rfl

/-- Every order of the workload leads to the published counters. -/
theorem counters_of_perm {n : Nat} {events : List SharedEvent}
    (perm : events.Perm (generateEvents n seed)) :
    (G.tally events).counters = (expectedCounters n).toMetrics := by
  rw [G.tally_perm perm, (tally_generateEvents fits seed n).2]
  intro e he f hf
  obtain ⟨i, -, rfl⟩ := List.mem_map.mp (perm.mem_iff.mp he)
  obtain ⟨j, -, rfl⟩ := List.mem_map.mp (perm.mem_iff.mp hf)
  exact alike_eventAt fits seed i j

end Tally

/-! ## Both engines -/

/-- The Python engine suppresses by asset. -/
def pythonGrouping : Grouping String :=
  ⟨(pythonPolicy defaultSettings).band, fun assetId _ => assetId⟩

theorem pythonPolicy_groups : (pythonPolicy defaultSettings).Groups pythonGrouping :=
  ⟨rfl, fun x e => by simp [pythonPolicy, pythonGrouping, Grouping.scopeOf]⟩

theorem pythonGrouping_fits : pythonGrouping.Fits :=
  ⟨fun index seed => (eventAt_spec index seed defaultSettings).2.2, fun same => same⟩

/-- The .NET engine suppresses by asset and category. -/
def dotnetGrouping : Grouping (String × String) := ⟨DotNet.dotnetPolicy.band, Prod.mk⟩

theorem dotnetPolicy_groups : DotNet.dotnetPolicy.Groups dotnetGrouping :=
  ⟨rfl, fun x e => by simp [DotNet.dotnetPolicy, dotnetGrouping, Grouping.scopeOf]⟩

/-- Both rule sets make the same of the workload. -/
theorem rulesAgree_eventAt (index : Nat) (seed : Int) : RulesAgree (eventAt index seed) := by
  simp only [eventAt]
  split_ifs <;> simp [RulesAgree]

theorem dotnetGrouping_fits : dotnetGrouping.Fits where
  band index seed := by
    rw [← (eventAt_spec index seed ⟨0⟩).2.2]
    exact ((rulesAgree_iff ⟨0⟩ _).mp (rulesAgree_eventAt index seed)).symm
  apart same := (Prod.mk.inj same).1

/-- No reading of the clock is later than an earlier one by more than the cooldown. -/
def Near (now : Nat → Instant) (n : Nat) : Prop :=
  ∀ i j, i < j → j < n → now j - now i ≤ cooldown

theorem withinCooldown_timed {now : Nat → Instant} {n : Nat} (near : Near now n)
    (events : List SharedEvent) :
    ∀ i, i + events.length ≤ n → WithinCooldown (timed now i events) := by
  have later : ∀ (events : List SharedEvent) (i : Nat), ∀ y ∈ timed now i events,
      ∃ j, i ≤ j ∧ j < i + events.length ∧ y.2 = now j := by
    intro events
    induction events with
    | nil => intro i y hy; cases hy
    | cons e events ih =>
      intro i y hy
      rcases List.mem_cons.mp hy with rfl | rest
      · exact ⟨i, le_rfl, Nat.lt_add_of_pos_right (Nat.succ_pos _), rfl⟩
      · obtain ⟨j, low, high, time⟩ := ih (i + 1) y rest
        exact ⟨j, by omega, by rw [List.length_cons]; omega, time⟩
  induction events with
  | nil => intro i _; exact .nil
  | cons e events ih =>
    intro i few
    rw [List.length_cons] at few
    refine .cons (fun y hy => ?_) (ih (i + 1) (by omega))
    obtain ⟨j, low, high, time⟩ := later events (i + 1) y hy
    rw [time]
    exact Int.sub_le_of_sub_le (near i j low (by omega))

/-! ## The .NET engine leaves the workload as it is -/

/-- A text that neither starts nor ends in a blank is trimmed. -/
theorem trim_of_ends {s : String} (first : ∀ c ∈ s.toList.head?, DotNet.isWhiteSpace c = false)
    (last : ∀ c ∈ s.toList.getLast?, DotNet.isWhiteSpace c = false) : DotNet.trim s = s := by
  have front : s.toList.dropWhile DotNet.isWhiteSpace = s.toList := by
    cases chars : s.toList with
    | nil => rfl
    | cons c cs =>
      rw [chars] at first
      exact List.dropWhile_cons_of_neg (by simp [first c rfl])
  have back : s.toList.rdropWhile DotNet.isWhiteSpace = s.toList := by
    refine List.rdropWhile_eq_self_iff.mpr fun some => ?_
    rw [last _ (List.getLast?_eq_some_getLast some)]
    exact Bool.false_ne_true
  rw [DotNet.trim, front, back, String.ofList_toList]

theorem trim_assetId (index : Nat) (seed : Int) :
    DotNet.trim (eventAt index seed).assetId = (eventAt index seed).assetId := by
  have parts : ∀ p < 20, (assetPart p).toList ≠ [] ∧
      (assetPart p).toList.getLast?.any DotNet.isWhiteSpace = false := by decide
  obtain ⟨some, plain⟩ := parts _ (Nat.mod_lt index (by decide))
  have chars : (eventAt index seed).assetId.toList = 'S' :: ("YN-" ++ toString seed ++ "-" ++
      zeroPadded 6 (index / 20) ++ "-").toList ++ (assetPart (index % 20)).toList := by
    rw [(eventAt_spec index seed ⟨0⟩).1, groupAsset]
    simp only [String.toList_append]
    rfl
  refine trim_of_ends ?_ ?_
  · intro c first
    rw [chars] at first
    cases first
    decide
  · intro c last
    rw [chars, List.getLast?_append_of_ne_nil _ some] at last
    rwa [Option.mem_def.mp last, Option.any_some] at plain

/-- `ToLowerInvariant` on the categories of the workload. -/
def KeepsCategories (culture : DotNet.Culture) : Prop :=
  ∀ c ∈ ["offline", "degraded", "heartbeat"], culture.toLowerInvariant c = c

theorem keepsCategories_asciiCulture : KeepsCategories DotNet.asciiCulture := by
  unfold KeepsCategories
  decide

/-- The categories of the workload as `Normalize` leaves them. -/
theorem trim_category : ∀ c ∈ ["offline", "degraded", "heartbeat"], DotNet.trim c = c ∧ c ≠ "" := by
  decide

theorem category_eventAt (index : Nat) (seed : Int) :
    (eventAt index seed).category ∈ ["offline", "degraded", "heartbeat"] := by
  simp only [eventAt]
  split_ifs <;> simp

theorem severity_eventAt (index : Nat) (seed : Int) :
    0 ≤ (eventAt index seed).severity ∧ (eventAt index seed).severity ≤ 100 := by
  simp only [eventAt]
  split_ifs <;> simp

theorem plain_eventAt {culture : DotNet.Culture} (keeps : KeepsCategories culture) (index : Nat)
    (seed : Int) : DotNet.Plain culture (eventAt index seed) := by
  obtain ⟨trimmed, named⟩ := trim_category _ (category_eventAt index seed)
  refine ⟨trim_assetId index seed, fun empty => ?_, trimmed, named,
    keeps _ (category_eventAt index seed), severity_eventAt index seed⟩
  have chars := congrArg String.toList empty
  rw [(eventAt_spec index seed ⟨0⟩).1, groupAsset] at chars
  simp only [String.toList_append, String.toList_empty, List.append_eq_nil_iff] at chars
  exact absurd chars.1.1.1.1.1 (by decide)

/-! ## Every order -/

/-- Whatever the order in which a workload of up to 66663 events reaches the engines within one
cooldown, both process it without an error and report the published counters, the .NET engine after
at most ten calls for 10 000 actions each. -/
theorem engines_meet_counters_in_any_order (run : EngineRun) (net : DotNet.EngineRun) (n : Nat)
    (few : n ≤ 66663) (seed : Int) (events : List SharedEvent)
    (order : events.Perm (generateEvents n seed)) (settings : run.settings = defaultSettings)
    (timeout : 0 < run.timeout) (fuel : 2 < run.fuel)
    (fits : ∀ e ∈ generateEvents n seed, e.assetId.length ≤ 80)
    (near : Near (fun i => (run.surroundings i).now) n) (alongside : Alongside run net events)
    (keeps : KeepsCategories net.culture) :
    ∃ s t, runPythonEngine run events = some (.ok ((expectedCounters n).errors, s)) ∧
      DotNet.runOnceAsync net events = ((expectedCounters n).errors, t) ∧
      pythonMetrics s = (expectedCounters n).toMetrics ∧
      DotNet.dotnetMetrics t = (expectedCounters n).toMetrics := by
  have length : events.length = n := by
    rw [order.length_eq, generateEvents, List.length_map, List.length_range]
  have indexed : ∀ e ∈ events, ∃ i, e = eventAt i seed := fun e he => by
    obtain ⟨i, -, rfl⟩ := List.mem_map.mp (order.mem_iff.mp he)
    exact ⟨i, rfl⟩
  have accepted : ∀ e ∈ events, (eventBody e).Accepted := fun e he => by
    obtain ⟨i, rfl⟩ := indexed e he
    exact accepted_eventAt (fits _ (order.mem_iff.mp he))
  have plain : ∀ e ∈ events, DotNet.Plain net.culture e := fun e he => by
    obtain ⟨i, rfl⟩ := indexed e he
    exact plain_eventAt keeps i seed
  have window : WithinCooldown (timed (fun i => (run.surroundings i).now) 0 events) :=
    withinCooldown_timed near events 0 (by rw [length, Nat.zero_add])
  obtain ⟨s, python, ofPython⟩ := runPythonEngine_metrics run timeout fuel events accepted
  have counters : Metrics.ofLog (DotNet.dotnetPolicy.log
      (timed (fun i => (run.surroundings i).now) 0 events)) = (expectedCounters n).toMetrics := by
    rw [(dotnetPolicy_groups.ofLog window fun _ _ => rfl).2, map_fst_timed,
      counters_of_perm dotnetGrouping_fits seed order]
  obtain ⟨t, dotnet, ofDotnet⟩ := DotNet.runOnceAsync_metrics net alongside.distinct
    alongside.modes alongside.forward alongside.times events plain
    (fun i hi => alongside.ingested i hi) (by
      rw [counters, actions_expectedCounters, retryAttempts_expectedCounters]
      split_ifs <;> omega)
  rw [errors_expectedCounters]
  refine ⟨s, t, python, dotnet, ?_, ?_⟩
  · have counters := counters_of_perm pythonGrouping_fits seed order
    rw [ofPython, settings, timed_eq, (pythonPolicy_groups.ofLog window fun k hk => ?_).2,
      map_fst_timed, counters]
    rw [map_fst_timed, counters] at hk
    have bound := actions_expectedCounters n
    have room : k < 10000 := by
      change k < (expectedCounters n).actions at hk
      split_ifs at bound <;> omega
    exact decide_eq_true room
  · rw [ofDotnet, counters]

/-- Twenty events, the last one first: the suppressed event of the group is now the first one. -/
theorem engines_meet_counters_reversed : ∃ s t,
    runPythonEngine secondsRun (generateEvents 20 424242).reverse = some (.ok (0, s)) ∧
      DotNet.runOnceAsync secondsNet (generateEvents 20 424242).reverse = (0, t) ∧
      pythonMetrics s = ⟨20, 4, 3, 1, 2, 1, 1, 1⟩ ∧
      DotNet.dotnetMetrics t = ⟨20, 4, 3, 1, 2, 1, 1, 1⟩ := by
  have near : Near (fun i => (secondsRun.surroundings i).now) 20 := by
    intro i j _ hj
    have spread : ∀ start : Int,
        start + 1000000 * (j : Int) - (start + 1000000 * (i : Int)) ≤ 300000000 := by
      intro start
      omega
    exact spread workloadStart
  exact engines_meet_counters_in_any_order secondsRun secondsNet 20 (by decide) 424242 _
    (List.reverse_perm _) rfl (by decide) (by decide)
    (fits_generateEvents 20 (by decide) 424242 (by decide)) near
    (alongside_seconds _ (by decide)) keepsCategories_asciiCulture

end SupportOps.Benchmark
