import Mathlib.Data.Finset.Card
import Mathlib.Data.Fintype.Card
import SupportOps.Library.Runs

/-!
# A limit that is checked before it counts

Parties look at a counter, are admitted below a limit, and add to the counter later; in between
the others may look as well. The counter, with what the admitted parties are about to add, then
passes the limit by at most one less than there are parties.
-/
namespace SupportOps.Library

structure Admission (ι : Type*) where
  count : Nat
  admitted : Finset ι

inductive AdmissionStep (ι : Type*) where
  /-- The check, below the limit. -/
  | enter (i : ι)
  /-- What an admitted party adds: at most one. -/
  | add (i : ι) (count : Nat)
  | withdraw (i : ι)
  | lower (count : Nat)

namespace Admission

variable {ι : Type*} [DecidableEq ι] (limit : Nat)

def step (a : Admission ι) : AdmissionStep ι → Option (Admission ι)
  | .enter i => if a.count < limit then some { a with admitted := insert i a.admitted } else none
  | .add i count =>
    if i ∈ a.admitted ∧ count ≤ a.count + 1 then some ⟨count, a.admitted.erase i⟩ else none
  | .withdraw i => some { a with admitted := a.admitted.erase i }
  | .lower count => if count ≤ a.count then some { a with count := count } else none

def machine : Machine (Admission ι) (AdmissionStep ι) := ⟨step limit⟩

variable [Fintype ι] {limit}

/-- The counter and what is about to be added to it, within a bound that is not below the one of a
full round of admissions. -/
theorem step_le {bound : Nat} (round : limit + Fintype.card ι ≤ bound + 1) {a b : Admission ι}
    {l : AdmissionStep ι} (within : a.count + a.admitted.card ≤ bound)
    (step : (machine limit).step a l = some b) : b.count + b.admitted.card ≤ bound := by
  cases l with
  | enter i =>
    simp only [machine, Admission.step] at step
    split at step
    · next below =>
      cases step
      have parties := Finset.card_le_univ (insert i a.admitted)
      change a.count + (insert i a.admitted).card ≤ bound
      omega
    · cases step
  | add i count =>
    simp only [machine, Admission.step] at step
    split at step
    · next here =>
      cases step
      have fewer := Finset.card_erase_add_one here.1
      change count + (a.admitted.erase i).card ≤ bound
      omega
    · cases step
  | withdraw i =>
    cases step
    have fewer := Finset.card_erase_le (s := a.admitted) (a := i)
    change a.count + (a.admitted.erase i).card ≤ bound
    omega
  | lower count =>
    simp only [machine, Admission.step] at step
    split at step
    · cases step
      change count + a.admitted.card ≤ bound
      omega
    · cases step

/-- Along every run the limit is passed by at most one less than there are parties, unless the
counter started above that. -/
theorem run_le {a b : Admission ι} {ls : List (AdmissionStep ι)}
    (run : (machine limit).run a ls = some b) :
    b.count + b.admitted.card ≤
      max (a.count + a.admitted.card) (limit + Fintype.card ι - 1) := by
  refine (machine limit).run_invariant
    (I := fun c => c.count + c.admitted.card ≤
      max (a.count + a.admitted.card) (limit + Fintype.card ι - 1))
    (fun c l d within step => step_le ?_ within step) (le_max_left _ _) run
  omega

end Admission

end SupportOps.Library
