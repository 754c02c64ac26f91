import Mathlib.Data.List.Basic

/-!
# Paths of a process that moves by itself

A process goes from a state to the one next state and reports something on the way, until it has
ended. Whoever follows it to its end, in however many pieces, arrives at the same state with the
same reports.
-/
namespace SupportOps.Library

/-- `Path next s es t`: from `s` the process can come to `t`, and reports `es` on the way. -/
inductive Path {σ ε : Type*} (next : σ → Option (σ × ε)) : σ → List ε → σ → Prop where
  | refl (s : σ) : Path next s [] s
  | head {s t u : σ} {e : ε} {es : List ε} (step : next s = some (t, e)) (rest : Path next t es u) :
      Path next s (e :: es) u

namespace Path

variable {σ ε : Type*} {next : σ → Option (σ × ε)} {s t u : σ} {es fs : List ε}

theorem single {e : ε} (step : next s = some (t, e)) : Path next s [e] t := .head step (.refl t)

theorem trans (h : Path next s es t) (g : Path next t fs u) : Path next s (es ++ fs) u := by
  induction h with
  | refl s => exact g
  | head step _ ih => exact .head step (ih g)

/-- Two paths that both go on until the process has ended are one path. -/
theorem unique (h : Path next s es t) (g : Path next s fs u) (ended : next t = none)
    (ended' : next u = none) : t = u ∧ es = fs := by
  induction h generalizing fs with
  | refl s =>
    cases g with
    | refl => exact ⟨rfl, rfl⟩
    | head step => rw [ended] at step; cases step
  | head step _ ih =>
    cases g with
    | refl => rw [ended'] at step; cases step
    | head step' rest =>
      rw [step] at step'
      cases step'
      obtain ⟨rfl, rfl⟩ := ih rest ended
      exact ⟨rfl, rfl⟩

end Path

end SupportOps.Library
