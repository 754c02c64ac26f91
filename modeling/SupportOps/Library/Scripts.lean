import Mathlib.Data.List.Basic

/-!
# Scripts that may be cut off

A script reads a state and commits one change after another. It may be cut off after any of its
commits, and be run again from what it left. A specification says besides what a script leaves at
its end what it may leave on the way; where that is enough to start from, runs that are cut off
make no difference to the one that is not.
-/
namespace SupportOps.Library

/-- A procedure that returns, raises, reads the state, or commits a change of it. -/
inductive Script (σ ε α : Type) where
  | ret (a : α)
  | raise (e : ε)
  | read (next : σ → Script σ ε α)
  | commit (change : σ → Except ε σ) (next : Script σ ε α)

namespace Script

variable {σ ε α β : Type}

def andThen : Script σ ε α → (α → Script σ ε β) → Script σ ε β
  | ret a, f => f a
  | raise e, _ => raise e
  | read next, f => read fun s => (next s).andThen f
  | commit change next, f => commit change (next.andThen f)

instance : Monad (Script σ ε) where
  pure := ret
  bind := andThen

/-- A query: its answer, or its error. -/
def query (f : σ → Except ε α) : Script σ ε α :=
  read fun s => match f s with
    | .ok a => ret a
    | .error e => raise e

/-- A statement that is a transaction of its own. -/
def execute (change : σ → Except ε σ) : Script σ ε Unit := commit change (ret ())

/-- A run to the end; a change that fails is rolled back and ends it. -/
def run : Script σ ε α → σ → Except ε α × σ
  | ret a, s => (.ok a, s)
  | raise e, s => (.error e, s)
  | read next, s => (next s).run s
  | commit change next, s =>
    match change s with
    | .ok t => next.run t
    | .error e => (.error e, s)

/-- What a run leaves that is cut off after `k` commits. -/
def cut : Nat → Script σ ε α → σ → σ
  | _, ret _, s => s
  | _, raise _, s => s
  | k, read next, s => cut k (next s) s
  | 0, commit _ _, s => s
  | k + 1, commit change next, s =>
    match change s with
    | .ok t => cut k next t
    | .error _ => s

/-- Runs one after another, each cut off after some number of commits. -/
def interrupted (p : Script σ ε α) (ks : List Nat) (s : σ) : σ :=
  ks.foldl (fun s k => p.cut k s) s

/-! ## Where a run can be cut off -/

theorem andThen_ret (p : Script σ ε Unit) : (p.andThen fun _ => ret ()) = p := by
  induction p with
  | ret a => rfl
  | raise e => rfl
  | read next ih => exact congrArg read (funext ih)
  | commit change next ih => exact congrArg (commit change) ih

@[simp] theorem bind_eq (p : Script σ ε α) (f : α → Script σ ε β) : p >>= f = p.andThen f := rfl

@[simp] theorem pure_eq (a : α) : (pure a : Script σ ε α) = ret a := rfl

theorem run_andThen {p : Script σ ε α} {f : α → Script σ ε β} {s t : σ} {a : α}
    (h : p.run s = (.ok a, t)) : (p.andThen f).run s = (f a).run t := by
  induction p generalizing s with
  | ret b => cases h; rfl
  | raise e => cases h
  | read next ih => exact ih s h
  | commit change next ih =>
    cases changed : change s with
    | error e => simp [run, changed] at h
    | ok u =>
      simp only [run, changed] at h
      simp only [andThen, run, changed]
      exact ih h

/-- A sequence is cut off in its first part, or in its second. -/
theorem cut_andThen (p : Script σ ε α) (f : α → Script σ ε β) (k : Nat) (s : σ) :
    (∃ j, (p.andThen f).cut k s = p.cut j s) ∨
      ∃ a t j, p.run s = (.ok a, t) ∧ (p.andThen f).cut k s = (f a).cut j t := by
  induction p generalizing s k with
  | ret a => exact .inr ⟨a, s, k, rfl, rfl⟩
  | raise e => exact .inl ⟨0, by simp [andThen, cut]⟩
  | read next ih =>
    rcases ih s k s with ⟨j, first⟩ | ⟨a, t, j, ran, second⟩
    · exact .inl ⟨j, by simpa only [andThen, cut] using first⟩
    · exact .inr ⟨a, t, j, ran, by simpa only [andThen, cut] using second⟩
  | commit change next ih =>
    cases k with
    | zero => exact .inl ⟨0, by simp only [andThen, cut]⟩
    | succ k =>
      cases changed : change s with
      | error e => exact .inl ⟨0, by simp only [andThen, cut, changed]⟩
      | ok t =>
        rcases ih k t with ⟨j, first⟩ | ⟨a, u, j, ran, second⟩
        · exact .inl ⟨j + 1, by simpa only [andThen, cut, changed] using first⟩
        · exact .inr ⟨a, u, j, by simpa only [run, changed] using ran,
            by simpa only [andThen, cut, changed] using second⟩

/-! ## Specifications -/

/-- From every state in `P` the script returns with `Q`, and leaves a state in `C` wherever it is
cut off. -/
def Spec (P : σ → Prop) (p : Script σ ε α) (Q : α → σ → Prop) (C : σ → Prop) : Prop :=
  ∀ s, P s → (∀ k, C (p.cut k s)) ∧ ∃ a t, p.run s = (.ok a, t) ∧ Q a t

namespace Spec

variable {P : σ → Prop} {p : Script σ ε α} {Q : α → σ → Prop} {C : σ → Prop}

theorem ret {a : α} (here : ∀ s, P s → C s ∧ Q a s) : Spec P (ret a : Script σ ε α) Q C := by
  intro s start
  refine ⟨fun k => ?_, a, s, rfl, (here s start).2⟩
  simpa only [cut] using (here s start).1

theorem query {f : σ → Except ε α} (answers : ∀ s, P s → C s ∧ ∃ a, f s = .ok a ∧ Q a s) :
    Spec P (query f) Q C := by
  intro s start
  obtain ⟨here, a, answer, after⟩ := answers s start
  refine ⟨fun k => ?_, a, s, ?_, after⟩
  · simpa only [Script.query, cut, answer] using here
  · simp only [Script.query, run, answer]

theorem execute {change : σ → Except ε σ} {Q : Unit → σ → Prop}
    (changes : ∀ s, P s → C s ∧ ∃ t, change s = .ok t ∧ C t ∧ Q () t) :
    Spec P (execute change) Q C := by
  intro s start
  obtain ⟨here, t, changed, there, after⟩ := changes s start
  refine ⟨fun k => ?_, (), t, ?_, after⟩
  · cases k with
    | zero => simpa only [Script.execute, cut] using here
    | succ k => simpa only [Script.execute, cut, changed] using there
  · simp only [Script.execute, run, changed]

theorem andThen {R : β → σ → Prop} {f : α → Script σ ε β} (first : Spec P p Q C)
    (rest : ∀ a, Spec (Q a) (f a) R C) : Spec P (p.andThen f) R C := by
  intro s start
  obtain ⟨cuts, a, t, ran, between⟩ := first s start
  obtain ⟨cuts', b, u, ran', after⟩ := rest a t between
  refine ⟨fun k => ?_, b, u, (run_andThen ran).trans ran', after⟩
  rcases cut_andThen p f k s with ⟨j, early⟩ | ⟨a', t', j, again, late⟩
  · exact early ▸ cuts j
  · rw [ran] at again
    cases again
    exact late ▸ cuts' j

theorem mono {P' : σ → Prop} {Q' : α → σ → Prop} {C' : σ → Prop} (h : Spec P p Q C)
    (before : ∀ s, P' s → P s) (after : ∀ a s, Q a s → Q' a s) (between : ∀ s, C s → C' s) :
    Spec P' p Q' C' := by
  intro s start
  obtain ⟨cuts, a, t, ran, ended⟩ := h s (before s start)
  exact ⟨fun k => between _ (cuts k), a, t, ran, after a t ended⟩

/-- Where every state that is left on the way can be started from, a run after any number of runs
that are cut off returns as one from the start. -/
theorem interrupted (h : Spec P p Q P) (ks : List Nat) :
    ∀ s, P s → ∃ a t, p.run (p.interrupted ks s) = (.ok a, t) ∧ Q a t := by
  induction ks with
  | nil => exact fun s start => (h s start).2
  | cons k ks ih => exact fun s start => ih (p.cut k s) ((h s start).1 k)

end Spec

/-! ## Steps that stay done -/

section Steps

/-- Steps that change nothing once they are done, and stay done while later ones are. -/
structure Stable (fs : List (σ → σ)) : Prop where
  idem : ∀ f ∈ fs, ∀ s, f (f s) = f s
  stays : fs.Pairwise fun f g => ∀ s, f s = s → f (g s) = g s

/-- The steps in order. -/
def applyAll (fs : List (σ → σ)) (s : σ) : σ := fs.foldl (fun s f => f s) s

theorem applyAll_invariant {I : σ → Prop} {fs : List (σ → σ)}
    (keeps : ∀ f ∈ fs, ∀ s, I s → I (f s)) {s : σ} (start : I s) : I (applyAll fs s) := by
  induction fs generalizing s with
  | nil => exact start
  | cons f fs ih => exact ih (fun g hg => keeps g (.tail _ hg)) (keeps f (.head _) s start)

theorem applyAll_eq_self {fs : List (σ → σ)} {s : σ} (done : ∀ f ∈ fs, f s = s) :
    applyAll fs s = s := by
  induction fs with
  | nil => rfl
  | cons f fs ih =>
    have first : f s = s := done f (.head _)
    rw [applyAll, List.foldl_cons, first]
    exact ih fun g hg => done g (.tail _ hg)

/-- After the steps before it, doing a step does not change what all of them come to. -/
theorem applyAll_step {done rest : List (σ → σ)} {f : σ → σ} (stable : Stable (done ++ f :: rest))
    {s : σ} (fixed : ∀ g ∈ done, g s = s) :
    (∀ g ∈ done ++ [f], g (f s) = f s) ∧
      applyAll (done ++ f :: rest) (f s) = applyAll (done ++ f :: rest) s := by
  have again : f (f s) = f s := stable.idem f (by simp) s
  have still : ∀ g ∈ done, g (f s) = f s := fun g hg =>
    (List.pairwise_append.mp stable.stays).2.2 g hg f (.head _) s (fixed g hg)
  constructor
  · intro g hg
    rcases List.mem_append.mp hg with earlier | here
    · exact still g earlier
    · rw [List.mem_singleton.mp here]
      exact again
  · have before := applyAll_eq_self fixed
    have after := applyAll_eq_self still
    unfold applyAll at *
    rw [List.foldl_append, List.foldl_append, before, after, List.foldl_cons, List.foldl_cons,
      again]

/-- From `s` the script ends in `t`, and it gets there at once if at all. -/
structure Atomic (p : Script σ ε Unit) (s t : σ) : Prop where
  run : p.run s = (.ok (), t)
  cut : ∀ k, p.cut k s = s ∨ p.cut k s = t

namespace Atomic

variable {s t : σ}

theorem ret : Atomic (ret () : Script σ ε Unit) s s :=
  ⟨rfl, fun k => .inl (by simp only [Script.cut])⟩

theorem query {f : σ → Except ε α} {next : α → Script σ ε Unit} {a : α} (answer : f s = .ok a)
    (rest : Atomic (next a) s t) : Atomic ((query f).andThen next) s t where
  run := by
    simp only [Script.query, andThen, Script.run, answer]
    exact rest.run
  cut := fun k => by
    simp only [Script.query, andThen, Script.cut, answer]
    exact rest.cut k

theorem execute {change : σ → Except ε σ} (changed : change s = .ok t) :
    Atomic (execute change) s t where
  run := by simp only [Script.execute, Script.run, changed]
  cut := fun k => by
    cases k with
    | zero => exact .inl (by simp only [Script.execute, Script.cut])
    | succ k => exact .inr (by simp only [Script.execute, Script.cut, changed])

end Atomic

/-- One script after another. -/
def all : List (Script σ ε Unit) → Script σ ε Unit
  | [] => ret ()
  | p :: ps => p.andThen fun _ => all ps

variable {I : σ → Prop} {ι : Type} {p : ι → Script σ ε Unit} {f : ι → σ → σ}

/-- Stable steps come to the same wherever the scripts that do them are cut off. -/
theorem spec_all {is : List ι}
    (performs : ∀ i ∈ is, ∀ s, I s → I (f i s) ∧ Atomic (p i) s (f i s))
    (stable : Stable (is.map f)) (goal : σ) :
    Spec (fun s => I s ∧ applyAll (is.map f) s = goal) (all (is.map p))
      (fun _ s => (I s ∧ applyAll (is.map f) s = goal) ∧ s = goal)
      (fun s => I s ∧ applyAll (is.map f) s = goal) := by
  -- the steps that are done, and those that are left
  have split : ∀ rest done : List ι, done ++ rest = is →
      Spec (fun s => (I s ∧ applyAll (is.map f) s = goal) ∧ ∀ i ∈ done, f i s = s)
        (all (rest.map p)) (fun _ s => (I s ∧ applyAll (is.map f) s = goal) ∧ s = goal)
        (fun s => I s ∧ applyAll (is.map f) s = goal) := by
    intro rest
    induction rest with
    | nil =>
      intro done whole
      rw [List.append_nil] at whole
      refine .ret fun s start => ⟨start.1, ?_⟩
      have fixed : applyAll (is.map f) s = s := by
        refine applyAll_eq_self fun g hg => ?_
        obtain ⟨i, hi, rfl⟩ := List.mem_map.mp hg
        exact start.2 i (whole ▸ hi)
      exact ⟨start.1, fixed.symm.trans start.1.2⟩
    | cons i rest ih =>
      intro done whole
      have whole' : (done ++ [i]) ++ rest = is := by rw [List.append_assoc]; exact whole
      refine Spec.andThen (Q := fun _ s => (I s ∧ applyAll (is.map f) s = goal) ∧
        ∀ j ∈ done ++ [i], f j s = s) ?_ fun _ => ih _ whole'
      intro s start
      obtain ⟨⟨inside, comes⟩, fixed⟩ := start
      have member : i ∈ is := whole ▸ List.mem_append_right _ (.head _)
      obtain ⟨kept, atomic⟩ := performs i member s inside
      have steps : is.map f = done.map f ++ f i :: rest.map f := by
        rw [← whole, List.map_append, List.map_cons]
      obtain ⟨still, same⟩ := applyAll_step (steps ▸ stable) (s := s) fun g hg => by
        obtain ⟨j, hj, rfl⟩ := List.mem_map.mp hg
        exact fixed j hj
      rw [← steps] at same
      have after : I (f i s) ∧ applyAll (is.map f) (f i s) = goal :=
        ⟨kept, same.trans comes⟩
      refine ⟨fun k => ?_, (), f i s, atomic.run, after, fun j hj => ?_⟩
      · rcases atomic.cut k with early | late
        · exact early.symm ▸ ⟨inside, comes⟩
        · exact late.symm ▸ after
      · refine still (f j) ?_
        rw [← List.map_singleton, ← List.map_append]
        exact List.mem_map_of_mem hj
  exact (split is [] rfl).mono (fun s start => ⟨start, fun _ h => by cases h⟩)
    (fun _ _ h => h) fun _ h => h

end Steps

end Script

end SupportOps.Library
