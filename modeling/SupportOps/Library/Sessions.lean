import Mathlib.Data.List.Basic
import Mathlib.Logic.Function.Basic
import SupportOps.Library.Runs

/-!
# Read-committed sessions over a shared store

Any number of sessions run client programs against one store. A statement reads the
committed store with the session's own flushed writes on top; the writes of a session
reach the others when it commits, and a rollback forgets them. A write may lock rows, and
waits while another open session holds one of them. What a program does outside the
database is appended to a log, which no rollback takes back.

The program, the writes and the locks they take are parameters. A run of `machine` over a
list of labels is one interleaving of the statements of all sessions.
-/
namespace SupportOps.Library

/-- What one statement of a program asks of its session. -/
inductive Effect (P W E : Type*) where
  /-- Flush writes, report events and go on. -/
  | next (program : P) (writes : List W) (events : List E)
  /-- Roll the transaction back and go on in a new one. -/
  | restart (program : P)
  | commit (events : List E)
  | rollback (events : List E)

/-- A kind of program and the database it assumes. -/
structure Client (σ W κ P ℓ E : Type*) where
  apply : W → σ → σ
  locks : W → List κ
  start : ℓ → σ → Option P
  /-- One statement: label, program, what the session sees, rows locked by others. -/
  exec : ℓ → P → σ → (κ → Bool) → Option (Effect P W E)

/-- An open session; `since` is the length of the log when it began. -/
structure Session (P W : Type*) where
  program : P
  writes : List W
  since : Nat

structure World (ι σ W κ P E : Type*) where
  stored : σ
  sessions : ι → Option (Session P W)
  holder : κ → Option ι
  log : List (ι × E)

namespace Client

variable {ι σ W κ P ℓ E : Type*} (C : Client σ W κ P ℓ E)

/-- The store with the writes of a transaction applied in order. -/
def applyAll (ws : List W) (s : σ) : σ := ws.foldl (fun s w => C.apply w s) s

@[simp] theorem applyAll_nil (s : σ) : C.applyAll [] s = s := rfl

@[simp] theorem applyAll_cons (w : W) (ws : List W) (s : σ) :
    C.applyAll (w :: ws) s = C.applyAll ws (C.apply w s) := rfl

@[simp] theorem applyAll_append (ws vs : List W) (s : σ) :
    C.applyAll (ws ++ vs) s = C.applyAll vs (C.applyAll ws s) := List.foldl_append ..

/-- What the session reads: committed rows and its own writes. -/
def view (ses : Session P W) (s : σ) : σ := C.applyAll ses.writes s

/-- The world before any session. -/
def initial (s : σ) : World ι σ W κ P E := ⟨s, fun _ => none, fun _ => none, []⟩

/-- An open session holds every row its writes lock. -/
def LocksHeld (w : World ι σ W κ P E) : Prop :=
  ∀ i ses, w.sessions i = some ses → ∀ x ∈ ses.writes, ∀ k ∈ C.locks x, w.holder k = some i

theorem locksHeld_initial (s : σ) : C.LocksHeld (initial s : World ι σ W κ P E) := by
  intro i ses h; cases h

/-- Two open sessions never hold uncommitted writes to one locked row. -/
theorem eq_of_common_lock {w : World ι σ W κ P E} (held : C.LocksHeld w) {i j : ι}
    {si sj : Session P W} (hi : w.sessions i = some si) (hj : w.sessions j = some sj)
    {x y : W} (hx : x ∈ si.writes) (hy : y ∈ sj.writes) {k : κ} (hkx : k ∈ C.locks x)
    (hky : k ∈ C.locks y) : i = j := by
  have mine := held i si hi x hx k hkx
  have other := held j sj hj y hy k hky
  exact Option.some.inj (mine.symm.trans other)

/-! ## Steps -/

variable [DecidableEq ι]

/-- Some session other than `i` holds the row. -/
def foreign (w : World ι σ W κ P E) (i : ι) (k : κ) : Bool :=
  match w.holder k with
  | none => false
  | some j => decide (j ≠ i)

/-- No row the writes lock is held by a session other than `i`. -/
def free (w : World ι σ W κ P E) (i : ι) (ws : List W) : Bool :=
  ws.all fun x => (C.locks x).all fun k => !foreign w i k

/-- Give back every row the session holds. -/
def released (w : World ι σ W κ P E) (i : ι) (k : κ) : Option ι :=
  if w.holder k = some i then none else w.holder k

def begin (w : World ι σ W κ P E) (i : ι) (p : P) : World ι σ W κ P E :=
  { w with sessions := Function.update w.sessions i (some ⟨p, [], w.log.length⟩) }

def restart (w : World ι σ W κ P E) (i : ι) (ses : Session P W) (p : P) : World ι σ W κ P E :=
  { w with
    sessions := Function.update w.sessions i (some ⟨p, [], ses.since⟩)
    holder := released w i }

def commit (w : World ι σ W κ P E) (i : ι) (ses : Session P W) (es : List E) :
    World ι σ W κ P E :=
  { stored := C.view ses w.stored
    sessions := Function.update w.sessions i none
    holder := released w i
    log := w.log ++ es.map (Prod.mk i) }

def rollback (w : World ι σ W κ P E) (i : ι) (es : List E) : World ι σ W κ P E :=
  { w with
    sessions := Function.update w.sessions i none
    holder := released w i
    log := w.log ++ es.map (Prod.mk i) }

theorem not_foreign {w : World ι σ W κ P E} {i : ι} {k : κ} (h : foreign w i k = false) :
    w.holder k = none ∨ w.holder k = some i := by
  unfold foreign at h
  split at h
  · next hk => exact Or.inl hk
  · next j hk =>
    have : j = i := by simpa using h
    exact Or.inr (this ▸ hk)

theorem holder_of_free {w : World ι σ W κ P E} {i : ι} {ws : List W} (h : C.free w i ws = true)
    {x : W} (hx : x ∈ ws) {k : κ} (hk : k ∈ C.locks x) :
    w.holder k = none ∨ w.holder k = some i := by
  have := List.all_eq_true.mp (List.all_eq_true.mp h x hx) k hk
  exact not_foreign (by simpa using this)

theorem released_of_ne {w : World ι σ W κ P E} {i j : ι} {k : κ} (h : w.holder k = some j)
    (ne : j ≠ i) : released w i k = some j := by
  simp [released, h, ne]

variable [DecidableEq κ]

def advance (w : World ι σ W κ P E) (i : ι) (ses : Session P W) (p : P) (ws : List W)
    (es : List E) : World ι σ W κ P E :=
  { w with
    sessions := Function.update w.sessions i (some ⟨p, ses.writes ++ ws, ses.since⟩)
    holder := fun k => if ∃ x ∈ ws, k ∈ C.locks x then some i else w.holder k
    log := w.log ++ es.map (Prod.mk i) }

/-- One statement of session `i`, or its opening. -/
def step (w : World ι σ W κ P E) (il : ι × ℓ) : Option (World ι σ W κ P E) :=
  match w.sessions il.1 with
  | none => (C.start il.2 w.stored).map (begin w il.1)
  | some ses =>
    match C.exec il.2 ses.program (C.view ses w.stored) (foreign w il.1) with
    | none => none
    | some (.next p ws es) =>
      if C.free w il.1 ws then some (C.advance w il.1 ses p ws es) else none
    | some (.restart p) => some (restart w il.1 ses p)
    | some (.commit es) => some (C.commit w il.1 ses es)
    | some (.rollback es) => some (rollback w il.1 es)

/-- All interleavings of all sessions. -/
def machine : Machine (World ι σ W κ P E) (ι × ℓ) := ⟨C.step⟩

/-- Everything a step can be. -/
inductive Stepped (w : World ι σ W κ P E) (i : ι) (l : ℓ) : World ι σ W κ P E → Prop
  | begin (p : P) (closed : w.sessions i = none) (start : C.start l w.stored = some p) :
      Stepped w i l (begin w i p)
  | next (ses : Session P W) (p : P) (ws : List W) (es : List E)
      (here : w.sessions i = some ses)
      (exec : C.exec l ses.program (C.view ses w.stored) (foreign w i) = some (.next p ws es))
      (free : C.free w i ws = true) : Stepped w i l (C.advance w i ses p ws es)
  | restart (ses : Session P W) (p : P) (here : w.sessions i = some ses)
      (exec : C.exec l ses.program (C.view ses w.stored) (foreign w i) = some (.restart p)) :
      Stepped w i l (restart w i ses p)
  | commit (ses : Session P W) (es : List E) (here : w.sessions i = some ses)
      (exec : C.exec l ses.program (C.view ses w.stored) (foreign w i) = some (.commit es)) :
      Stepped w i l (C.commit w i ses es)
  | rollback (ses : Session P W) (es : List E) (here : w.sessions i = some ses)
      (exec : C.exec l ses.program (C.view ses w.stored) (foreign w i) = some (.rollback es)) :
      Stepped w i l (rollback w i es)

theorem stepped_of_step {w u : World ι σ W κ P E} {i : ι} {l : ℓ}
    (h : C.machine.step w (i, l) = some u) : C.Stepped w i l u := by
  simp only [machine, step] at h
  split at h
  · next closed =>
    obtain ⟨p, start, rfl⟩ := Option.map_eq_some_iff.mp h
    exact .begin p closed start
  · next ses here =>
    split at h
    · cases h
    · next p ws es exec =>
      split at h
      · next free => cases h; exact .next ses p ws es here exec free
      · cases h
    · next p exec => cases h; exact .restart ses p here exec
    · next es exec => cases h; exact .commit ses es here exec
    · next es exec => cases h; exact .rollback ses es here exec

/-- An invariant of the world: one obligation for each kind of step, of restricted runs. -/
theorem invariant_of_along {G : World ι σ W κ P E → ι × ℓ → Prop}
    {I : World ι σ W κ P E → Prop}
    (kept : ∀ w i l u, G w (i, l) → I w → C.Stepped w i l u → I u)
    {w u : World ι σ W κ P E} {ls : List (ι × ℓ)} (along : C.machine.Along G w ls)
    (start : I w) (h : C.machine.run w ls = some u) : I u :=
  C.machine.run_invariant_of_along
    (fun w il u admitted hw step => kept w il.1 il.2 u admitted hw (C.stepped_of_step step))
    along start h

theorem invariant {I : World ι σ W κ P E → Prop}
    (kept : ∀ w i l u, I w → C.Stepped w i l u → I u)
    {w u : World ι σ W κ P E} {ls : List (ι × ℓ)} (start : I w)
    (h : C.machine.run w ls = some u) : I u :=
  C.machine.run_invariant
    (fun w il u hw step => kept w il.1 il.2 u hw (C.stepped_of_step step)) start h

section Sessions

variable {w : World ι σ W κ P E} {i j : ι} {ses sj : Session P W}

omit [DecidableEq κ] in
theorem sessions_begin_of_ne {p : P} (ne : j ≠ i) :
    (begin w i p).sessions j = w.sessions j := Function.update_of_ne ne ..

theorem sessions_advance_of_ne {p : P} {ws : List W} {es : List E} (ne : j ≠ i) :
    (C.advance w i ses p ws es).sessions j = w.sessions j := Function.update_of_ne ne ..

omit [DecidableEq κ] in
theorem sessions_commit_of_ne {es : List E} (ne : j ≠ i) :
    (C.commit w i ses es).sessions j = w.sessions j := Function.update_of_ne ne ..

omit [DecidableEq κ] in
theorem sessions_rollback_of_ne {es : List E} (ne : j ≠ i) :
    (rollback w i es).sessions j = w.sessions j := Function.update_of_ne ne ..

omit [DecidableEq κ] in
theorem sessions_begin {p : P} (h : (begin w i p).sessions j = some sj) :
    (j = i ∧ sj = ⟨p, [], w.log.length⟩) ∨ (j ≠ i ∧ w.sessions j = some sj) := by
  by_cases same : j = i
  · subst same
    simp only [begin, Function.update_self, Option.some.injEq] at h
    exact Or.inl ⟨rfl, h.symm⟩
  · simp only [begin, Function.update_of_ne same] at h
    exact Or.inr ⟨same, h⟩

theorem sessions_advance {p : P} {ws : List W} {es : List E}
    (h : (C.advance w i ses p ws es).sessions j = some sj) :
    (j = i ∧ sj = ⟨p, ses.writes ++ ws, ses.since⟩) ∨ (j ≠ i ∧ w.sessions j = some sj) := by
  by_cases same : j = i
  · subst same
    simp only [advance, Function.update_self, Option.some.injEq] at h
    exact Or.inl ⟨rfl, h.symm⟩
  · simp only [advance, Function.update_of_ne same] at h
    exact Or.inr ⟨same, h⟩

omit [DecidableEq κ] in
theorem sessions_restart {p : P} (h : (restart w i ses p).sessions j = some sj) :
    (j = i ∧ sj = ⟨p, [], ses.since⟩) ∨ (j ≠ i ∧ w.sessions j = some sj) := by
  by_cases same : j = i
  · subst same
    simp only [restart, Function.update_self, Option.some.injEq] at h
    exact Or.inl ⟨rfl, h.symm⟩
  · simp only [restart, Function.update_of_ne same] at h
    exact Or.inr ⟨same, h⟩

omit [DecidableEq κ] in
theorem sessions_commit {es : List E} (h : (C.commit w i ses es).sessions j = some sj) :
    j ≠ i ∧ w.sessions j = some sj := by
  by_cases same : j = i
  · subst same; simp [commit] at h
  · exact ⟨same, by simpa [commit, Function.update_of_ne same] using h⟩

omit [DecidableEq κ] in
theorem sessions_rollback {es : List E} (h : (rollback w i es).sessions j = some sj) :
    j ≠ i ∧ w.sessions j = some sj := by
  by_cases same : j = i
  · subst same; simp [rollback] at h
  · exact ⟨same, by simpa [rollback, Function.update_of_ne same] using h⟩

end Sessions

/-! ## Logs -/

/-- An entry of a longer log is an old one, or one of the entries added. -/
theorem getElem?_append_cases {α : Type*} {log es : List α} {n : Nat} {e : α}
    (h : (log ++ es)[n]? = some e) : log[n]? = some e ∨ (log.length ≤ n ∧ e ∈ es) := by
  by_cases old : n < log.length
  · rw [List.getElem?_append_left old] at h
    exact Or.inl h
  · rw [List.getElem?_append_right (by omega)] at h
    exact Or.inr ⟨by omega, List.mem_of_getElem? h⟩

theorem getElem?_append_of_some {α : Type*} {log : List α} (es : List α) {n : Nat} {e : α}
    (h : log[n]? = some e) : (log ++ es)[n]? = some e := by
  rw [List.getElem?_append_left (List.getElem?_eq_some_iff.mp h).1]
  exact h

/-! ## Locks -/

theorem locksHeld_step {w u : World ι σ W κ P E} {i : ι} {l : ℓ} (held : C.LocksHeld w)
    (step : C.Stepped w i l u) : C.LocksHeld u := by
  intro j ses hj x hx k hk
  by_cases same : j = i
  · subst same
    cases step with
    | begin p closed start =>
      simp only [begin, Function.update_self, Option.some.injEq] at hj
      subst hj; cases hx
    | next s p ws es here exec free =>
      simp only [advance, Function.update_self, Option.some.injEq] at hj
      subst hj
      simp only [advance]
      rcases List.mem_append.mp hx with old | new
      · split
        · rfl
        · exact held j s here x old k hk
      · rw [if_pos ⟨x, new, hk⟩]
    | restart s p here exec =>
      simp only [restart, Function.update_self, Option.some.injEq] at hj
      subst hj; cases hx
    | commit s es here exec => simp [commit] at hj
    | rollback s es here exec => simp [rollback] at hj
  · cases step with
    | begin p closed start =>
      simp only [begin, Function.update_of_ne same] at hj
      exact held j ses hj x hx k hk
    | next s p ws es here exec free =>
      simp only [advance, Function.update_of_ne same] at hj
      have mine := held j ses hj x hx k hk
      simp only [advance]
      split
      · next taken =>
        -- the row would have been free for `i`, yet `j` holds it
        obtain ⟨y, hy, hky⟩ := taken
        rcases C.holder_of_free free hy hky with none | other
        · rw [mine] at none; cases none
        · rw [mine] at other; exact absurd (Option.some.inj other) same
      · exact mine
    | restart s p here exec =>
      simp only [restart, Function.update_of_ne same] at hj
      exact released_of_ne (held j ses hj x hx k hk) same
    | commit s es here exec =>
      simp only [commit, Function.update_of_ne same] at hj
      exact released_of_ne (held j ses hj x hx k hk) same
    | rollback s es here exec =>
      simp only [rollback, Function.update_of_ne same] at hj
      exact released_of_ne (held j ses hj x hx k hk) same

/-- Only a commit changes the committed store. -/
theorem stored_eq_or_commit {w u : World ι σ W κ P E} {i : ι} {l : ℓ}
    (step : C.Stepped w i l u) :
    u.stored = w.stored ∨ ∃ ses es, w.sessions i = some ses ∧
      C.exec l ses.program (C.view ses w.stored) (foreign w i) = some (.commit es) ∧
      u.stored = C.view ses w.stored := by
  cases step with
  | commit ses es here exec => exact Or.inr ⟨ses, es, here, exec, rfl⟩
  | _ => exact Or.inl rfl

end Client

end SupportOps.Library
