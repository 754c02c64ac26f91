import Mathlib.Algebra.BigOperators.Group.Finset.Piecewise
import Mathlib.Algebra.Order.BigOperators.Group.Finset

/-!
# Rounds of limited capacity

Jobs that need one turn or two, in rounds that take the open jobs up to a capacity. A round that is
not full is followed by at most one more. Rounds that take the jobs without a turn first waste no
place until the jobs are all but finished, so a number of them is enough as soon as its places are
as many as the turns that are needed.
-/
namespace SupportOps.Library

variable {α : Type*} [DecidableEq α]

/-- Rounds over `jobs`: the turns that each job has had before a round, and the jobs it takes. -/
structure Rounds (jobs : Finset α) (need : α → Nat) (capacity : Nat) where
  turns : Nat → α → Nat
  batch : Nat → Finset α
  start : ∀ a, turns 0 a = 0
  next : ∀ k a, turns (k + 1) a = turns k a + if a ∈ batch k then 1 else 0
  wanted : ∀ k, ∀ a ∈ batch k, a ∈ jobs ∧ turns k a < need a
  within : ∀ k, (batch k).card ≤ capacity
  /-- A place is left free only where no open job is left. -/
  busy : ∀ k, (batch k).card = capacity ∨ ∀ a ∈ jobs, turns k a < need a → a ∈ batch k

namespace Rounds

variable {jobs : Finset α} {need : α → Nat} {capacity : Nat} (R : Rounds jobs need capacity)

/-- Every job has had its turns. -/
def Finished (k : Nat) : Prop := ∀ a ∈ jobs, R.turns k a = need a

/-- A job waits for its first turn only behind others that wait for theirs. -/
def InOrder : Prop :=
  ∀ k, ∀ a ∈ jobs, R.turns k a = 0 → a ∉ R.batch k → ∀ b ∈ R.batch k, R.turns k b = 0

/-- The jobs without a turn. -/
def untouched (k : Nat) : Finset α := jobs.filter fun a => R.turns k a = 0

theorem turns_le (k : Nat) (a : α) : R.turns k a ≤ need a := by
  induction k with
  | zero => rw [R.start]; exact Nat.zero_le _
  | succ k ih =>
    rw [R.next]
    split
    · next taken => exact (R.wanted k a taken).2
    · exact ih

theorem turns_mono (k : Nat) (a : α) : R.turns k a ≤ R.turns (k + 1) a := by
  rw [R.next]
  exact Nat.le_add_right _ _

variable {R} in
theorem Finished.later {j k : Nat} (h : R.Finished j) (le : j ≤ k) : R.Finished k := by
  induction k, le using Nat.le_induction with
  | base => exact h
  | succ k _ ih =>
    intro a ha
    exact (R.turns_le _ a).antisymm ((ih a ha).ge.trans (R.turns_mono k a))

/-- A round hands out as many turns as it takes jobs. -/
theorem sum_turns_succ (k : Nat) :
    ∑ a ∈ jobs, R.turns (k + 1) a = ∑ a ∈ jobs, R.turns k a + (R.batch k).card := by
  have inside : jobs.filter (fun a => a ∈ R.batch k) = R.batch k := by
    ext a
    rw [Finset.mem_filter]
    exact ⟨fun h => h.2, fun h => ⟨(R.wanted k a h).1, h⟩⟩
  simp only [R.next, Finset.sum_add_distrib]
  rw [← Finset.card_filter, inside]

theorem sum_turns_le (k : Nat) : ∑ a ∈ jobs, R.turns k a ≤ k * capacity := by
  induction k with
  | zero => simp [R.start]
  | succ k ih =>
    have := R.within k
    rw [R.sum_turns_succ, Nat.succ_mul]
    omega

theorem sum_turns_of_full {k : Nat} (full : ∀ j, j < k → (R.batch j).card = capacity) :
    ∑ a ∈ jobs, R.turns k a = k * capacity := by
  induction k with
  | zero => simp [R.start]
  | succ k ih =>
    rw [R.sum_turns_succ, ih fun j hj => full j (Nat.lt_succ_of_lt hj),
      full k (Nat.lt_succ_self k), Nat.succ_mul]

/-- What is finished has taken no more turns than there were places. -/
theorem need_le_of_finished {k : Nat} (h : R.Finished k) : ∑ a ∈ jobs, need a ≤ k * capacity :=
  (Finset.sum_congr rfl fun a ha => (h a ha).symm).trans_le (R.sum_turns_le k)

/-- Turns that are as many as needed are the needed ones. -/
theorem finished_of_sum {k : Nat} (enough : ∑ a ∈ jobs, need a ≤ ∑ a ∈ jobs, R.turns k a) :
    R.Finished k := by
  intro a ha
  by_contra less
  have lt := Finset.sum_lt_sum (fun b _ => R.turns_le k b)
    ⟨a, ha, lt_of_le_of_ne (R.turns_le k a) less⟩
  exact absurd enough (Nat.not_le.mpr lt)

variable {R} in
/-- First turns come first, so no place is wasted on them. -/
theorem InOrder.card_untouched (inOrder : R.InOrder) (positive : ∀ a ∈ jobs, 0 < need a) (k : Nat) :
    R.untouched k = ∅ ∨ (R.untouched k).card + k * capacity ≤ jobs.card := by
  induction k with
  | zero =>
    rw [Nat.zero_mul]
    exact .inr (Finset.card_filter_le jobs _)
  | succ k ih =>
    have shrinks : R.untouched (k + 1) ⊆ R.untouched k := fun a ha => by
      obtain ⟨mem, none⟩ := Finset.mem_filter.mp ha
      exact Finset.mem_filter.mpr ⟨mem, Nat.le_zero.mp (none ▸ R.turns_mono k a)⟩
    rcases Finset.eq_empty_or_nonempty (R.untouched (k + 1)) with done | ⟨a, ha⟩
    · exact .inl done
    right
    obtain ⟨mem, none⟩ := Finset.mem_filter.mp ha
    have before := (Finset.mem_filter.mp (shrinks ha)).2
    have left : a ∉ R.batch k := fun taken => by
      rw [R.next, if_pos taken] at none
      cases none
    have first := inOrder k a mem before left
    have places : (R.batch k).card = capacity :=
      (R.busy k).resolve_right fun all => left (all a mem (before ▸ positive a mem))
    have apart : Disjoint (R.untouched (k + 1)) (R.batch k) :=
      Finset.disjoint_left.mpr fun b hb taken => by
        have none := (Finset.mem_filter.mp hb).2
        rw [R.next, if_pos taken] at none
        cases none
    have both : R.untouched (k + 1) ∪ R.batch k ⊆ R.untouched k :=
      Finset.union_subset shrinks fun b hb =>
        Finset.mem_filter.mpr ⟨(R.wanted k b hb).1, first b hb⟩
    have fewer := Finset.card_le_card both
    rw [Finset.card_union_of_disjoint apart, places] at fewer
    have nonempty : R.untouched k ≠ ∅ := Finset.ne_empty_of_mem (shrinks ha)
    have := ih.resolve_left nonempty
    rw [Nat.succ_mul]
    omega

/-- Two rounds after everything open fits into one, all is finished. -/
theorem finished_of_all (few : ∀ a ∈ jobs, need a ≤ 2) {k : Nat}
    (all : ∀ a ∈ jobs, R.turns k a < need a → a ∈ R.batch k) : R.Finished (k + 2) := by
  have again : ∀ a ∈ jobs, R.turns (k + 1) a < need a → a ∈ R.batch k := fun a ha unfinished =>
    all a ha ((R.turns_mono k a).trans_lt unfinished)
  have retried : ∀ a ∈ jobs, R.turns (k + 1) a < need a → a ∈ R.batch (k + 1) := by
    rcases R.busy (k + 1) with full | retried
    · have inside : R.batch (k + 1) ⊆ R.batch k := fun b hb =>
        again b (R.wanted (k + 1) b hb).1 (R.wanted (k + 1) b hb).2
      have same := Finset.eq_of_subset_of_card_le inside ((R.within k).trans full.ge)
      rw [same]
      exact again
    · exact retried
  intro a ha
  refine (R.turns_le _ a).antisymm ?_
  by_contra unfinished
  have more := (R.turns_mono (k + 1) a).trans_lt (Nat.not_le.mp unfinished)
  have once := R.next k a
  have twice := R.next (k + 1) a
  rw [if_pos (again a ha more)] at once
  rw [if_pos (retried a ha more)] at twice
  have := few a ha
  change ¬ need a ≤ R.turns (k + 1 + 1) a at unfinished
  omega

/-- One round and one more are enough after rounds that have more places than there are turns. -/
theorem finished_of_slack (few : ∀ a ∈ jobs, need a ≤ 2) {k : Nat}
    (slack : ∑ a ∈ jobs, need a < k * capacity) : R.Finished (k + 1) := by
  by_contra unfinished
  have full : ∀ j, j < k → (R.batch j).card = capacity := by
    intro j hj
    refine (R.busy j).resolve_right fun all => unfinished ?_
    exact (R.finished_of_all few all).later (Nat.succ_le_succ hj)
  have taken := Finset.sum_le_sum fun a (_ : a ∈ jobs) => R.turns_le k a
  rw [R.sum_turns_of_full full] at taken
  exact absurd slack (Nat.not_lt.mpr taken)

variable {R} in
/-- As many rounds as have places for all turns, and for the first turns before the last of them,
finish the jobs. -/
theorem InOrder.finished_of_places (inOrder : R.InOrder) (positive : ∀ a ∈ jobs, 0 < need a)
    (few : ∀ a ∈ jobs, need a ≤ 2) {k : Nat} (first : jobs.card ≤ k * capacity)
    (enough : ∑ a ∈ jobs, need a ≤ (k + 1) * capacity) : R.Finished (k + 1) := by
  by_contra unfinished
  have full : ∀ j, j < k + 1 → (R.batch j).card = capacity := by
    intro j hj
    refine (R.busy j).resolve_right fun all => unfinished ?_
    rcases Nat.lt_succ_iff_lt_or_eq.mp hj with earlier | rfl
    · exact (R.finished_of_all few all).later (by omega)
    -- in the last round all first turns are over, so one more turn finishes a job
    have touched : R.untouched j = ∅ := (inOrder.card_untouched positive j).elim id fun counted =>
      Finset.card_eq_zero.mp (by omega)
    intro a ha
    refine (R.turns_le _ a).antisymm ?_
    by_contra waiting
    have more := (R.turns_mono j a).trans_lt (Nat.not_le.mp waiting)
    have once := R.next j a
    rw [if_pos (all a ha more)] at once
    have some : R.turns j a ≠ 0 := fun none =>
      Finset.notMem_empty a (touched ▸ Finset.mem_filter.mpr ⟨ha, none⟩)
    have := few a ha
    omega
  exact unfinished (R.finished_of_sum (enough.trans (R.sum_turns_of_full full).ge))

end Rounds

end SupportOps.Library
