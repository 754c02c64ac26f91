import Mathlib.Data.Finset.Insert
import SupportOps.Benchmark.Policy

/-!
# Events of one cooldown

Among events that all lie within one cooldown, an event is suppressed as soon as its scope has
opened an incident, whatever the times. Then the decisions of two events only depend on their order
if both have one scope, and not even then if they ask for the same: the counters are those of the
set of events.
-/
namespace SupportOps.Benchmark

/-- What events are worth, and which of them suppress each other. -/
structure Grouping (κ : Type) where
  band : String → Int → Option Band
  scope : String → String → κ

/-- The scopes that have opened an incident, and the counters once every action is finished. -/
structure Tally (κ : Type) where
  opened : Finset κ
  counters : Metrics

namespace Grouping

variable {κ : Type} [DecidableEq κ] (G : Grouping κ)

def scopeOf (e : SharedEvent) : κ := G.scope e.assetId e.category

def decide (t : Tally κ) (e : SharedEvent) : Decision :=
  match G.band e.category e.severity with
  | none => .ignored
  | some band => if G.scopeOf e ∈ t.opened then .suppressed else band.outcome e.executorMode true

def next (t : Tally κ) (e : SharedEvent) : Tally κ where
  opened := if (G.decide t e).opens then insert (G.scopeOf e) t.opened else t.opened
  counters := t.counters.after (G.decide t e)

def tally (events : List SharedEvent) : Tally κ :=
  events.foldl G.next ⟨∅, ⟨0, 0, 0, 0, 0, 0, 0, 0⟩⟩

theorem tally_concat (events : List SharedEvent) (e : SharedEvent) :
    G.tally (events ++ [e]) = G.next (G.tally events) e := by
  rw [tally, List.foldl_append]
  rfl

/-- Two events that would suppress each other ask for the same. -/
def Alike (e f : SharedEvent) : Prop :=
  G.scopeOf e = G.scopeOf f → ∀ b ∈ G.band e.category e.severity,
    ∀ c ∈ G.band f.category f.severity, b = c ∧ e.executorMode = f.executorMode

section Decide

variable {G} {t : Tally κ} {e : SharedEvent}

theorem decide_of_none (worth : G.band e.category e.severity = none) : G.decide t e = .ignored := by
  rw [decide, worth]

variable {band : Band} (worth : G.band e.category e.severity = some band)

include worth

theorem decide_of_mem (opened : G.scopeOf e ∈ t.opened) : G.decide t e = .suppressed := by
  rw [decide, worth]
  exact if_pos opened

theorem decide_of_notMem (clear : G.scopeOf e ∉ t.opened) :
    G.decide t e = band.outcome e.executorMode true := by
  rw [decide, worth]
  exact if_neg clear

end Decide

/-- A decision asks of the tally only whether the scope is open. -/
theorem decide_congr {t u : Tally κ} {e : SharedEvent}
    (same : G.scopeOf e ∈ t.opened ↔ G.scopeOf e ∈ u.opened) : G.decide t e = G.decide u e := by
  unfold decide
  split
  · rfl
  · simp only [same]

theorem next_congr {t : Tally κ} {e f : SharedEvent} (decided : G.decide t e = G.decide t f)
    (same : G.scopeOf e = G.scopeOf f) : G.next t e = G.next t f := by
  rw [next, next, decided, same]

/-- An event that opens an incident is worth one, and its scope is not open. -/
theorem opens_decide {t : Tally κ} {e : SharedEvent} (opens : (G.decide t e).opens = true) :
    ∃ band, G.band e.category e.severity = some band ∧ G.scopeOf e ∉ t.opened := by
  cases worth : G.band e.category e.severity with
  | none =>
    rw [decide_of_none worth] at opens
    cases opens
  | some band =>
    refine ⟨band, rfl, fun opened => ?_⟩
    rw [decide_of_mem worth opened] at opens
    cases opens

theorem mem_opened_next {t : Tally κ} {e : SharedEvent} {k : κ} :
    k ∈ (G.next t e).opened ↔ k ∈ t.opened ∨ (G.decide t e).opens = true ∧ k = G.scopeOf e := by
  unfold next
  cases (G.decide t e).opens <;> simp [or_comm]

/-! ### Two events -/

/-- Counters do not depend on the order of two decisions. -/
theorem after_comm (c : Metrics) (x y : Decision) : (c.after x).after y = (c.after y).after x := by
  simp only [Metrics.after, Metrics.mk.injEq]
  refine ⟨trivial, ?_, ?_, ?_, ?_, ?_, ?_, ?_⟩ <;> grind

/-- Two events that do not change each other's decision. -/
theorem next_comm_of_decide {t : Tally κ} {e f : SharedEvent}
    (second : G.decide (G.next t e) f = G.decide t f)
    (first : G.decide (G.next t f) e = G.decide t e) :
    G.next (G.next t e) f = G.next (G.next t f) e := by
  have opened : (G.next (G.next t e) f).opened = (G.next (G.next t f) e).opened := by
    ext k
    simp only [mem_opened_next, second, first]
    tauto
  have counters : (G.next (G.next t e) f).counters = (G.next (G.next t f) e).counters := by
    change (t.counters.after _).after _ = (t.counters.after _).after _
    rw [second, first, after_comm]
  calc G.next (G.next t e) f
      = ⟨(G.next (G.next t e) f).opened, (G.next (G.next t e) f).counters⟩ := rfl
    _ = G.next (G.next t f) e := by rw [opened, counters]

/-- An event that opens no incident can change places with any other. -/
theorem next_comm_of_not_opens {t : Tally κ} {e f : SharedEvent}
    (quiet : (G.decide t e).opens = false) :
    G.next (G.next t e) f = G.next (G.next t f) e := by
  refine G.next_comm_of_decide (G.decide_congr ?_) ?_
  · simp [mem_opened_next, quiet]
  · cases worth : G.band e.category e.severity with
    | none => rw [decide_of_none worth, decide_of_none worth]
    | some band =>
      have known : G.scopeOf e ∈ t.opened := by
        by_contra clear
        rw [decide_of_notMem worth clear, Band.opens_outcome] at quiet
        cases quiet
      refine G.decide_congr ?_
      simp [mem_opened_next, known]

/-- Events that ask for the same if they share a scope can be decided in either order. -/
theorem next_comm {e f : SharedEvent} (alike : G.Alike e f) (t : Tally κ) :
    G.next (G.next t e) f = G.next (G.next t f) e := by
  cases one : (G.decide t e).opens with
  | false => exact G.next_comm_of_not_opens one
  | true =>
    cases two : (G.decide t f).opens with
    | false => exact (G.next_comm_of_not_opens two).symm
    | true =>
      by_cases same : G.scopeOf e = G.scopeOf f
      · -- either of them opens the scope and suppresses the other
        obtain ⟨b, worth, clear⟩ := G.opens_decide one
        obtain ⟨c, worth', -⟩ := G.opens_decide two
        obtain ⟨rfl, mode⟩ := alike same b worth c worth'
        have equal : G.decide t e = G.decide t f := by
          rw [decide_of_notMem worth clear, decide_of_notMem worth' (same ▸ clear), mode]
        have after := G.next_congr equal same
        have opened : G.scopeOf f ∈ (G.next t f).opened := G.mem_opened_next.mpr (.inr ⟨two, rfl⟩)
        have later : G.decide (G.next t f) e = G.decide (G.next t f) f := by
          rw [decide_of_mem worth (same ▸ opened), decide_of_mem worth' opened]
        rw [after, G.next_congr later same]
      · refine G.next_comm_of_decide (G.decide_congr ?_) (G.decide_congr ?_)
        · simp [mem_opened_next, Ne.symm same]
        · simp [mem_opened_next, same]

theorem tally_perm {events others : List SharedEvent} (perm : events.Perm others)
    (alike : ∀ e ∈ events, ∀ f ∈ events, G.Alike e f) : G.tally events = G.tally others :=
  perm.foldl_eq' (fun e he f hf t => G.next_comm (alike e he f hf) t) _

end Grouping

/-! ## Policies that group events -/

/-- The policy decides within a cooldown as the grouping does. -/
structure Policy.Groups {κ : Type} [DecidableEq κ] (P : Policy) (G : Grouping κ) : Prop where
  band : P.band = G.band
  covers : ∀ (x : Entry) (e : SharedEvent),
    P.covers x e = true ↔ G.scope x.assetId x.category = G.scopeOf e

section Groups

variable {κ : Type} [DecidableEq κ] {P : Policy} {G : Grouping κ}

/-- Each event comes at most a cooldown after every earlier one. -/
def WithinCooldown (events : List (SharedEvent × Instant)) : Prop :=
  events.Pairwise fun x y => y.2 - cooldown ≤ x.2

/-- Every entry of the log is decided at the time of an event. -/
theorem Policy.exists_decidedAt {events : List (SharedEvent × Instant)} {x : Entry}
    (mem : x ∈ P.log events) : ∃ e ∈ events, x.decidedAt = e.2 := by
  induction events using List.reverseRecOn with
  | nil => cases mem
  | append_singleton events e ih =>
    rw [Policy.log_concat, List.mem_append, List.mem_singleton] at mem
    rcases mem with earlier | rfl
    · obtain ⟨e', he', same⟩ := ih earlier
      exact ⟨e', List.mem_append_left _ he', same⟩
    · exact ⟨e, List.mem_append_right _ (.head _), rfl⟩

theorem Metrics.actions_le_after (c : Metrics) (decision : Decision) :
    c.actions ≤ (c.after decision).actions := by
  simp only [Metrics.after]
  split <;> omega

/-- Within a cooldown the log of a policy has the tally of its grouping, as long as there is room
for the actions. -/
theorem Policy.Groups.ofLog (groups : P.Groups G) {events : List (SharedEvent × Instant)}
    (near : WithinCooldown events)
    (room : ∀ n, n < (G.tally (events.map Prod.fst)).counters.actions → P.room n = true) :
    (∀ k, k ∈ (G.tally (events.map Prod.fst)).opened ↔
      ∃ x ∈ P.log events, x.decision.opens = true ∧ G.scope x.assetId x.category = k) ∧
    Metrics.ofLog (P.log events) = (G.tally (events.map Prod.fst)).counters := by
  induction events using List.reverseRecOn with
  | nil => exact ⟨fun k => by simp [Grouping.tally, Policy.log, Policy.extend], rfl⟩
  | append_singleton events e ih =>
    obtain ⟨earlier, -, last⟩ := List.pairwise_append.mp near
    rw [List.map_append, List.map_singleton, Grouping.tally_concat] at room ⊢
    set t := G.tally (events.map Prod.fst)
    obtain ⟨opened, counters⟩ := ih earlier fun n hn =>
      room n (hn.trans_le (t.counters.actions_le_after _))
    have suppressed : (P.log events).any (P.suppresses e.2 e.1) = true ↔
        G.scopeOf e.1 ∈ t.opened := by
      rw [opened, List.any_eq_true]
      refine exists_congr fun x => and_congr_right fun mem => ?_
      obtain ⟨f, hf, time⟩ := Policy.exists_decidedAt mem
      have recent := last f hf e (.head _)
      simp [Policy.suppresses, groups.covers, time, recent]
    have same : P.decide (P.log events) e.1 e.2 = G.decide t e.1 := by
      cases worth : G.band e.1.category e.1.severity with
      | none =>
        rw [Policy.decide_of_none (by rw [groups.band, worth]), Grouping.decide_of_none worth]
      | some band =>
        have worth' : P.band e.1.category e.1.severity = some band := by rw [groups.band, worth]
        by_cases known : G.scopeOf e.1 ∈ t.opened
        · rw [Policy.decide_of_recent worth' (suppressed.mpr known),
            Grouping.decide_of_mem worth known]
        · have clear := Bool.eq_false_iff.mpr fun found => known (suppressed.mp found)
          rw [Policy.decide_of_clear worth' clear, Grouping.decide_of_notMem worth known]
          cases band with
          | warning => rfl
          | critical =>
            have actions : (modes (P.log events)).length = t.counters.actions :=
              congrArg Metrics.actions counters
            have one : (G.next t e.1).counters.actions = t.counters.actions + 1 := by
              simp [Grouping.next, Grouping.decide_of_notMem worth known, Metrics.after]
            rw [actions, room _ (one ▸ Nat.lt_succ_self _)]
    rw [Policy.log_concat]
    refine ⟨fun k => ?_, ?_⟩
    · simp only [List.mem_append, List.mem_singleton, or_and_right, exists_or, exists_eq_left,
        ← opened, Grouping.mem_opened_next, Policy.entry, same]
      rw [eq_comm (a := k)]
      rfl
    · rw [Metrics.ofLog_concat, counters]
      simp only [Grouping.next, Policy.entry, same]

end Groups

end SupportOps.Benchmark
