import Mathlib.Data.List.Basic
import SupportOps.Library.Runs

/-!
# Wake-ups by signal

Producers publish items and later send a signal for each, on a channel without a bound. One
consumer works in passes: it takes up what is published, waits until a signal is there or its
patience ends, and in the first case takes all signals away before the next pass. While it waits
and no signal is there, everything signalled had been published before its last pass began.
-/
namespace SupportOps.Library

inductive WakePhase where
  | ready | scanning | waiting | draining
  deriving DecidableEq, Repr

/-- The consumer's view: `scanned` is what was published when its last pass began. -/
structure Wakeups (α : Type*) where
  published : List α
  channel : List α
  sent : List α
  scanned : List α
  phase : WakePhase

inductive WakeStep (α : Type*) where
  | publish (x : α)
  | send (x : α)
  /-- A pass begins. -/
  | scan
  /-- The pass ends. -/
  | wait
  | wake
  /-- The next signal is taken, or the channel is found empty. -/
  | take
  | timeOut

namespace Wakeups

variable {α : Type*}

section Machine

variable [DecidableEq α]

def step (w : Wakeups α) : WakeStep α → Option (Wakeups α)
  | .publish x => some { w with published := w.published ++ [x] }
  | .send x =>
    if x ∈ w.published then
      some { w with channel := w.channel ++ [x], sent := w.sent ++ [x] }
    else none
  | .scan =>
    if w.phase = .ready then some { w with phase := .scanning, scanned := w.published } else none
  | .wait => if w.phase = .scanning then some { w with phase := .waiting } else none
  | .wake =>
    if w.phase = .waiting ∧ w.channel ≠ [] then some { w with phase := .draining } else none
  | .take =>
    if w.phase = .draining then
      match w.channel with
      | [] => some { w with phase := .ready }
      | _ :: rest => some { w with channel := rest }
    else none
  | .timeOut => if w.phase = .waiting then some { w with phase := .ready } else none

/-- Every order of the producers' and the consumer's steps. -/
def machine : Machine (Wakeups α) (WakeStep α) := ⟨step⟩

end Machine

/-- Nothing is signalled before it is published, and a signal that a pass did not take up is still
in the channel when the pass ends. -/
structure Heard (w : Wakeups α) : Prop where
  published : ∀ x ∈ w.sent, x ∈ w.published
  scanned : w.phase = .scanning ∨ w.phase = .waiting →
    ∀ x ∈ w.sent, x ∈ w.channel ∨ x ∈ w.scanned

theorem Heard.start {w : Wakeups α} (unsent : w.sent = []) : Heard w where
  published x h := by simp [unsent] at h
  scanned _ x h := by simp [unsent] at h

theorem Heard.step [DecidableEq α] {w u : Wakeups α} (h : Heard w) {l : WakeStep α}
    (step : machine.step w l = some u) : Heard u := by
  cases l with
  | publish x =>
    cases step
    exact ⟨fun y hy => List.mem_append_left _ (h.published y hy), h.scanned⟩
  | send x =>
    simp only [machine, Wakeups.step] at step
    split at step
    · next here =>
      cases step
      refine ⟨fun y hy => ?_, fun phase y hy => ?_⟩
      · rcases List.mem_append.mp hy with old | new
        · exact h.published y old
        · rw [List.mem_singleton.mp new]; exact here
      · rcases List.mem_append.mp hy with old | new
        · exact (h.scanned phase y old).imp_left (List.mem_append_left _)
        · exact .inl (List.mem_append_right _ new)
    · cases step
  | scan =>
    simp only [machine, Wakeups.step] at step
    split at step
    · cases step
      -- the pass takes up whatever has been signalled by now
      exact ⟨h.published, fun _ y hy => .inr (h.published y hy)⟩
    · cases step
  | wait =>
    simp only [machine, Wakeups.step] at step
    split at step
    · next scanning => cases step; exact ⟨h.published, fun _ => h.scanned (.inl scanning)⟩
    · cases step
  | wake =>
    simp only [machine, Wakeups.step] at step
    split at step
    · cases step; exact ⟨h.published, fun phase => by simp at phase⟩
    · cases step
  | take =>
    simp only [machine, Wakeups.step] at step
    split at step
    · next draining =>
      split at step
      · cases step; exact ⟨h.published, fun phase => by simp at phase⟩
      · cases step; exact ⟨h.published, fun phase => by simp [draining] at phase⟩
    · cases step
  | timeOut =>
    simp only [machine, Wakeups.step] at step
    split at step
    · cases step; exact ⟨h.published, fun phase => by simp at phase⟩
    · cases step

/-- No signal is lost: what has been signalled when the consumer waits before an empty channel was
taken up by its last pass. -/
theorem Heard.scanned_of_idle {w : Wakeups α} (h : Heard w) (waiting : w.phase = .waiting)
    (quiet : w.channel = []) : ∀ x ∈ w.sent, x ∈ w.scanned := by
  intro x hx
  rcases h.scanned (.inr waiting) x hx with pending | scanned
  · simp [quiet] at pending
  · exact scanned

end Wakeups

end SupportOps.Library
