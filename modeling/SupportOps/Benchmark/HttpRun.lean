import SupportOps.Benchmark.HttpPosts

/-!
# When the HTTP benchmark matches

Five calls of `/maintenance/process-actions` read at most 2500 rows, which is what the actions of
12500 events and their retries take. So the runtime reports the expected counters at every
concurrency up to that size of the workload, and at none beyond.
-/
namespace SupportOps.DotNet

open Library Benchmark

/-! ## The work of the workload -/

/-- Five calls for 500 actions are enough for 12500 events. -/
theorem work_le_iff (n : Nat) :
    (expectedCounters n).actions + (expectedCounters n).retryAttempts ≤ 5 * 500 ↔ n ≤ 12500 := by
  rw [actions_expectedCounters, retryAttempts_expectedCounters]
  split_ifs <;> omega

/-! ## The benchmark -/

/-- What `run_http_runtime` observes of the .NET runtime once the pool is done: the metrics after
`drain_actions`, and the futures without an answer. -/
def observed (calls : Calls benchmarkOptions) (count : Nat)
    (w : World Nat Store Write Unit IngestProgram Answer) : ExpectedCounters where
  toMetrics := dotnetMetrics (calls.drainActions 5 0 w.stored)
  errors := (List.range count).countP fun index => index ∉ w.log.map Prod.fst

theorem submitted_generateEvents {n index : Nat} (inside : index < n) (seed : Int) :
    submitted (generateEvents n seed) index = some (eventAt index seed) := by
  have length : (generateEvents n seed).length = n := by
    rw [generateEvents, List.length_map, List.length_range]
  rw [submitted, length, Nat.mod_eq_of_lt inside, generateEvents, List.getElem?_map,
    List.getElem?_range inside]
  rfl

/-- A pool that has answered every future has committed the workload in some order. -/
theorem perm_submitted {n : Nat} {seed : Int} {log : List (Nat × Answer)}
    (all : (log.map Prod.fst).Perm (List.range n)) :
    (log.filterMap fun x => submitted (generateEvents n seed) x.1).Perm
      (generateEvents n seed) := by
  have whole : (List.range n).filterMap (submitted (generateEvents n seed)) =
      generateEvents n seed := by
    calc (List.range n).filterMap (submitted (generateEvents n seed))
        = (List.range n).filterMap (some ∘ fun index => eventAt index seed) :=
          List.filterMap_congr fun index hi =>
            submitted_generateEvents (List.mem_range.mp hi) seed
      _ = generateEvents n seed := by rw [List.filterMap_eq_map, generateEvents]
  have mapped := all.filterMap (submitted (generateEvents n seed))
  rw [List.filterMap_map, whole] at mapped
  exact mapped

/-- Whatever the interleaving of the pool, the .NET runtime matches the expected counters exactly
when every future is answered and the workload has at most 12500 events. -/
theorem httpRun_matches_iff {culture : Culture} (modes : culture.KeepsModes)
    (categories : KeepsCategories culture) (n : Nat) (seed : Int) {since latest : Instant}
    (near : latest - benchmarkOptions.cooldown ≤ since) (ls : List (Nat × IngestStep))
    (posts : ∀ l ∈ ls, Posts (generateEvents n seed) n since latest l)
    (w : World Nat Store Write Unit IngestProgram Answer)
    (pool : (ingestion culture benchmarkOptions).machine.run (Client.initial .empty) ls = some w)
    (once : (w.log.map Prod.fst).Nodup) (calls : Calls benchmarkOptions)
    (forward : calls.Forward) (limit : ∀ j, calls.limit j = 500)
    (after : latest < calls.clock 0 0) : observed calls n w = expectedCounters n ↔
      (∀ index < n, index ∈ w.log.map Prod.fst) ∧ n ≤ 12500 := by
  have plain : ∀ e ∈ generateEvents n seed, Plain culture e := by
    intro e he
    obtain ⟨i, -, rfl⟩ := List.mem_map.mp he
    exact plain_eventAt categories i seed
  have answered : (observed calls n w).errors = 0 ↔ ∀ index < n, index ∈ w.log.map Prod.fst := by
    simp [observed, List.countP_eq_zero]
  by_cases all : ∀ index < n, index ∈ w.log.map Prod.fst
  · have inside : ∀ x ∈ w.log, x.1 < n := fun x hx =>
      ((allAsked_of_run modes plain posts pool).log x hx).1
    have perm : (w.log.map Prod.fst).Perm (List.range n) := by
      refine (List.perm_ext_iff_of_nodup once List.nodup_range).mpr fun i => ?_
      rw [List.mem_range]
      refine ⟨fun hi => ?_, all i⟩
      obtain ⟨x, hx, rfl⟩ := List.mem_map.mp hi
      exact inside x hx
    have posted := posted_of_run modes plain posts pool near
    have counters : w.stored.eventually = (expectedCounters n).toMetrics := by
      rw [posted.counters, counters_of_perm dotnetGrouping_fits seed (perm_submitted perm)]
    have start : AllQueued w.stored (calls.clock 0 0) := fun a ha =>
      ⟨(posted.queued a ha).1, (posted.queued a ha).2.1, (posted.queued a ha).2.2.trans after.le⟩
    have onTime : calls.OnTime w.stored :=
      ⟨fun j => by rw [limit]; decide, forward,
        fun j _ k => (Int.add_zero _).trans_le (forward j k).2, start⟩
    have before : ∀ a ∈ w.stored.actions.rows, a.nextAttemptAt < calls.clock 0 0 := fun a ha =>
      (posted.queued a ha).2.2.trans_lt after
    have work : w.stored.eventually.actions + w.stored.eventually.retryAttempts ≤ 5 * 500 ↔
        n ≤ 12500 := by
      rw [counters]
      exact work_le_iff n
    have drained := onTime.drainActions_iff limit before (k := 4) fun enough => by
      have few := work.mp enough
      have bound := actions_expectedCounters n
      rw [counters]
      split_ifs at bound <;> omega
    rw [counters] at drained work
    constructor
    · intro same
      exact ⟨all, work.mp (drained.mp (congrArg ExpectedCounters.toMetrics same))⟩
    · rintro ⟨-, few⟩
      exact congrArg₂ ExpectedCounters.mk (drained.mpr (work.mpr few))
        ((answered.mpr all).trans (errors_expectedCounters n).symm)
  · refine iff_of_false (fun same => all (answered.mp ?_)) fun both => all both.1
    rw [same, errors_expectedCounters]

/-- Two futures of one asset: the second one commits first, and suppresses the event of the
first. -/
def twoPosts : List (Nat × IngestStep) :=
  [(0, .ingest (postBody (eventAt 0 7)) 0 ⟨"1", "1", "1", []⟩),
    (1, .ingest (postBody (eventAt 1 7)) (fromSeconds 10) ⟨"2", "2", "2", []⟩)] ++
  List.replicate 9 (1, .statement) ++ List.replicate 6 (0, .statement)

/-- Calls every second, a minute later. -/
def minuteLater : Calls benchmarkOptions where
  limit _ := 500
  clock j _ := fromSeconds (60 + j)

theorem httpRun_matches_twoPosts : ∃ w : World Nat Store Write Unit IngestProgram Answer,
    (ingestion asciiCulture benchmarkOptions).machine.run (Client.initial .empty) twoPosts =
      some w ∧
    w.log.map (fun x => (x.1, x.2.result.decision)) =
      [(1, .actionQueued), (0, .cooldownSuppressed)] ∧
    observed minuteLater 2 w = expectedCounters 2 := by
  have near : fromSeconds 10 - benchmarkOptions.cooldown ≤ 0 := by decide
  have forward : minuteLater.Forward := fun j _ => by
    change (60 + (j : Int)) * 10000000 ≤ (60 + (j : Int)) * 10000000 ∧
      (60 + (j : Int)) * 10000000 ≤ (60 + ((j + 1 : Nat) : Int)) * 10000000
    omega
  refine ⟨_, rfl, by decide, ?_⟩
  exact (httpRun_matches_iff keepsModes_asciiCulture keepsCategories_asciiCulture 2 7 near twoPosts
    (by decide) _ rfl (by decide) minuteLater forward (fun _ => rfl) (by decide)).mpr
    ⟨by decide, by decide⟩

end SupportOps.DotNet
