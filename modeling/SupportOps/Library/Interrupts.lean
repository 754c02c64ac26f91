import Mathlib.Data.Option.Basic

/-!
# Calls that are interrupted

A call awaits one operation after another: statements of a database connection, in a transaction
or outside of one, and effects that no rollback takes back. Its cancellation token may fire
between any two awaits, and any statement may fail. The rules below compare such a call with the
function it computes when nothing comes over it: up to its commit, it does all of it or nothing.
-/
namespace SupportOps.Library

/-- The first await that finds the token cancelled, and the awaits whose statement fails. -/
structure Disturbance where
  cancelledFrom : Option Nat
  failing : Nat → Bool

namespace Disturbance

def cancelled (d : Disturbance) (n : Nat) : Bool := d.cancelledFrom.any fun k => decide (k ≤ n)

/-- Nothing comes over the awaits from `n` to before `m`. -/
def QuietBetween (d : Disturbance) (n m : Nat) : Prop :=
  ∀ i, n ≤ i → i < m → d.cancelled i = false ∧ d.failing i = false

variable {d : Disturbance} {n m : Nat}

theorem quietBetween_iff (before : n < m) :
    d.QuietBetween n m ↔
      (d.cancelled n = false ∧ d.failing n = false) ∧ d.QuietBetween (n + 1) m := by
  constructor
  · intro quiet
    exact ⟨quiet n (Nat.le_refl n) before, fun i hi => quiet i (by omega)⟩
  · rintro ⟨here, later⟩ i hi stop
    rcases Nat.eq_or_lt_of_le hi with rfl | after
    · exact here
    · exact later i after stop

/-- The token fires right before await `n`. -/
theorem cancelledFrom_eq (now : d.cancelled n = true)
    (before : ∀ i, i < n → d.cancelled i = false) : d.cancelledFrom = some n := by
  unfold cancelled at now before
  cases h : d.cancelledFrom with
  | none => simp [h] at now
  | some k =>
    simp only [h, Option.any_some, decide_eq_true_eq, decide_eq_false_iff_not] at now before
    rcases Nat.eq_or_lt_of_le now with rfl | earlier
    · rfl
    · exact absurd (Nat.le_refl k) (before k earlier)

theorem cancelled_of_cancelledFrom (h : d.cancelledFrom = some n) (i : Nat) :
    d.cancelled i = decide (n ≤ i) := by
  rw [cancelled, h, Option.any_some]

end Disturbance

/-! ## Calls -/

section Call

variable {σ τ δ ε α β : Type}

/-- The stored tables, the view of the open transaction, and what is outside of the database. -/
structure CallState (σ τ : Type) where
  stored : σ
  working : Option σ
  outside : τ

/-- `OperationCanceledException`, a failed statement, or an error of the operation. -/
inductive Raised (ε : Type) where
  | canceled
  | failed
  | error (e : ε)
  deriving DecidableEq, Repr

/-- The end of a call, with the number of its awaits. -/
structure Outcome (σ τ ε α : Type) where
  result : Except (Raised ε) α
  world : CallState σ τ
  awaits : Nat

def Call (σ τ ε α : Type) := Disturbance → CallState σ τ → Nat → Outcome σ τ ε α

namespace Call

def ret (a : α) : Call σ τ ε α := fun _ w n => ⟨.ok a, w, n⟩

def andThen (p : Call σ τ ε α) (f : α → Call σ τ ε β) : Call σ τ ε β := fun d w n =>
  match p d w n with
  | ⟨.ok a, u, m⟩ => f a d u m
  | ⟨.error e, u, m⟩ => ⟨.error e, u, m⟩

end Call

instance : Monad (Call σ τ ε) where
  pure := Call.ret
  bind := Call.andThen

namespace Call

def raise (e : Raised ε) : Call σ τ ε α := fun _ w n => ⟨.error e, w, n⟩

/-- `try … catch`. -/
def orElse (p : Call σ τ ε α) (handler : Raised ε → Call σ τ ε α) : Call σ τ ε α := fun d w n =>
  match p d w n with
  | ⟨.ok a, u, m⟩ => ⟨.ok a, u, m⟩
  | ⟨.error e, u, m⟩ => handler e d u m

/-- A statement of the connection: cancelled before it starts, failed, or done. -/
def await (op : CallState σ τ → Except ε (α × CallState σ τ)) : Call σ τ ε α := fun d w n =>
  if d.cancelled n then ⟨.error .canceled, w, n + 1⟩
  else if d.failing n then ⟨.error .failed, w, n + 1⟩
  else match op w with
    | .ok (a, u) => ⟨.ok a, u, n + 1⟩
    | .error e => ⟨.error (.error e), w, n + 1⟩

/-- A statement that touches no row. -/
def touch : Call σ τ ε Unit := await fun w => .ok ((), w)

def beginTransaction : Call σ τ ε Unit :=
  await fun w => .ok ((), { w with working := some w.stored })

/-- A statement that writes, to the open transaction if there is one. -/
def write (raised : δ → ε) (f : σ → Except δ σ) : Call σ τ ε Unit := await fun w =>
  match w.working with
  | some s => match f s with
    | .ok t => .ok ((), { w with working := some t })
    | .error e => .error (raised e)
  | none => match f w.stored with
    | .ok t => .ok ((), { w with stored := t })
    | .error e => .error (raised e)

/-- A statement that reads. -/
def query (f : σ → β) : Call σ τ ε β := await fun w => .ok (f (w.working.getD w.stored), w)

def commit : Call σ τ ε Unit :=
  await fun w => .ok ((), { w with stored := w.working.getD w.stored, working := none })

/-- `ROLLBACK` with no token; a failure of its own is swallowed. -/
def rollbackQuietly : Call σ τ ε Unit := fun d w n =>
  ⟨.ok (), if d.failing n then w else { w with working := none }, n + 1⟩

/-- An effect outside of the database, which observes the token. -/
def perform (f : τ → τ) : Call σ τ ε Unit := fun d w n =>
  if d.cancelled n then ⟨.error .canceled, w, n + 1⟩
  else ⟨.ok (), { w with outside := f w.outside }, n + 1⟩

/-- A transaction whose body commits; what it raises is rolled back and raised again. -/
def transaction (body : Call σ τ ε α) : Call σ τ ε α := do
  beginTransaction
  body.orElse fun e => do
    rollbackQuietly
    raise e

/-! ## One await -/

theorem bind_apply (p : Call σ τ ε α) (f : α → Call σ τ ε β) (d : Disturbance) (w : CallState σ τ)
    (n : Nat) : (p >>= f) d w n = match p d w n with
      | ⟨.ok a, u, m⟩ => f a d u m
      | ⟨.error e, u, m⟩ => ⟨.error e, u, m⟩ := rfl

theorem bind_of_ok {p : Call σ τ ε α} {f : α → Call σ τ ε β} {d : Disturbance} {w u : CallState σ τ}
    {n m : Nat} {a : α} (h : p d w n = ⟨.ok a, u, m⟩) : (p >>= f) d w n = f a d u m := by
  rw [bind_apply, h]

theorem bind_of_error {p : Call σ τ ε α} {f : α → Call σ τ ε β} {d : Disturbance}
    {w u : CallState σ τ} {n m : Nat} {e : Raised ε} (h : p d w n = ⟨.error e, u, m⟩) :
    (p >>= f) d w n = ⟨.error e, u, m⟩ := by
  rw [bind_apply, h]

theorem bind_assoc {γ : Type} (p : Call σ τ ε α) (f : α → Call σ τ ε β) (g : β → Call σ τ ε γ) :
    (p >>= f) >>= g = p >>= fun a => f a >>= g := by
  funext d w n
  simp only [bind_apply]
  obtain ⟨result, u, m⟩ := p d w n
  cases result <;> rfl

theorem await_of_quiet {op : CallState σ τ → Except ε (α × CallState σ τ)} {d : Disturbance}
    {w u : CallState σ τ} {n : Nat} {a : α} (quiet : d.cancelled n = false ∧ d.failing n = false)
    (h : op w = .ok (a, u)) : await op d w n = ⟨.ok a, u, n + 1⟩ := by
  simp [await, quiet, h]

/-- An await that is disturbed, or whose operation raises, leaves the world as it was. -/
theorem await_of_not (op : CallState σ τ → Except ε (α × CallState σ τ)) {d : Disturbance}
    {w : CallState σ τ} {n : Nat}
    (h : ¬ (d.cancelled n = false ∧ d.failing n = false) ∨ ∃ e, op w = .error e) :
    ∃ e, await op d w n = ⟨.error e, w, n + 1⟩ := by
  unfold await
  cases cancelled : d.cancelled n with
  | true => exact ⟨_, rfl⟩
  | false =>
    cases failing : d.failing n with
    | true => exact ⟨_, rfl⟩
    | false =>
      rcases h with disturbed | ⟨e, raises⟩
      · exact absurd ⟨cancelled, failing⟩ disturbed
      · exact ⟨_, by rw [raises]; rfl⟩

end Call

/-! ## All or nothing -/

/-- From await `n` on, `p` does what `f` does to the viewed tables and has committed it by await
`stop`; where an await before is disturbed or `f` raises, `p` raises and nothing is stored. -/
structure AllOrNothing (view : CallState σ τ → Option σ) (n : Nat) (stop : α → Nat)
    (p : Call σ τ ε α) (f : σ → Except δ (α × σ)) : Prop where
  returns : ∀ {d w s a t}, view w = some s → f s = .ok (a, t) → d.QuietBetween n (stop a) →
    p d w n = ⟨.ok a, { w with stored := t, working := none }, stop a⟩
  raises : ∀ {d w s}, view w = some s →
    (∀ a t, f s = .ok (a, t) → ¬ d.QuietBetween n (stop a)) →
    ∃ e u m, p d w n = ⟨.error e, u, m⟩ ∧ u.stored = w.stored
  before : ∀ {s a t}, f s = .ok (a, t) → n < stop a

namespace AllOrNothing

variable {view : CallState σ τ → Option σ} {n : Nat} {stop : α → Nat} {p : Call σ τ ε α}
  {q : β → Call σ τ ε α} {f : σ → Except δ (α × σ)}

/-- An await comes first: it raises where `f` does, or takes the view to one on which the rest
does what is left of `f`. -/
theorem await (view' : CallState σ τ → Option σ) {op : CallState σ τ → Except ε (β × CallState σ τ)}
    (before : ∀ {s a t}, f s = .ok (a, t) → n < stop a)
    (rest : ∀ {w s}, view w = some s →
      (∃ e e', op w = .error e ∧ f s = .error e') ∨
      ∃ b u g s', op w = .ok (b, u) ∧ u.stored = w.stored ∧ u.outside = w.outside ∧
        view' u = some s' ∧ g s' = f s ∧ AllOrNothing view' (n + 1) stop (q b) g) :
    AllOrNothing view n stop (Call.await op >>= q) f := by
  refine ⟨?_, ?_, before⟩
  · intro d w s a t viewed ok quiet
    obtain ⟨here, later⟩ := (Disturbance.quietBetween_iff (before ok)).mp quiet
    rcases rest viewed with
      ⟨e, e', -, raised⟩ | ⟨b, u, g, s', done, stored, outside, viewed', same, after⟩
    · rw [ok] at raised
      cases raised
    · rw [Call.bind_of_ok (Call.await_of_quiet here done),
        after.returns viewed' (same.trans ok) later, outside]
  · intro d w s viewed disturbed
    by_cases here : d.cancelled n = false ∧ d.failing n = false
    · rcases rest viewed with
        ⟨e, -, raised, -⟩ | ⟨b, u, g, s', done, stored, outside, viewed', same, after⟩
      · obtain ⟨e', raised⟩ := Call.await_of_not op (d := d) (n := n) (.inr ⟨e, raised⟩)
        exact ⟨e', w, n + 1, Call.bind_of_error raised, rfl⟩
      · rw [Call.bind_of_ok (Call.await_of_quiet here done), ← stored]
        refine after.raises viewed' fun a t ok later => ?_
        rw [same] at ok
        exact disturbed a t ok ((Disturbance.quietBetween_iff (before ok)).mpr ⟨here, later⟩)
    · obtain ⟨e, raised⟩ := Call.await_of_not op (w := w) (.inl here)
      exact ⟨e, w, n + 1, Call.bind_of_error raised, rfl⟩

theorem touch {q : Unit → Call σ τ ε α} (h : AllOrNothing view (n + 1) stop (q ()) f) :
    AllOrNothing view n stop (Call.touch >>= q) f :=
  await view (fun ok => Nat.lt_of_succ_lt (h.before ok)) fun {w s} viewed =>
    .inr ⟨(), w, f, s, rfl, rfl, rfl, viewed, rfl, h⟩

/-- A read: the rest depends on what is read. -/
theorem query {r : σ → β} {g : β → σ → Except δ (α × σ)}
    (h : ∀ b, AllOrNothing CallState.working (n + 1) stop (q b) (g b)) :
    AllOrNothing CallState.working n stop (Call.query r >>= q) fun s => g (r s) s :=
  await CallState.working (fun ok => Nat.lt_of_succ_lt ((h _).before ok)) fun {w s} viewed =>
    .inr ⟨r s, w, g (r s), s, by rw [viewed, Option.getD_some], rfl, rfl, viewed, rfl, h (r s)⟩

/-- A write: the rest goes on from what is written. -/
theorem write {raised : δ → ε} {write : σ → Except δ σ} {q : Unit → Call σ τ ε α}
    (h : AllOrNothing CallState.working (n + 1) stop (q ()) f) :
    AllOrNothing CallState.working n stop (Call.write raised write >>= q)
      fun s => write s >>= f := by
  refine await CallState.working ?_ fun {w s} viewed => ?_
  · intro s a t ok
    cases written : write s with
    | error e =>
      rw [written] at ok
      cases ok
    | ok u =>
      rw [written] at ok
      exact Nat.lt_of_succ_lt (h.before ok)
  · cases written : write s with
    | error e => exact .inl ⟨raised e, e, by simp only [viewed, written], rfl⟩
    | ok u =>
      exact .inr ⟨(), { w with working := some u }, f, u, by simp only [viewed, written], rfl, rfl,
        rfl, rfl, h⟩

/-- The commit comes last. -/
theorem commit {a : α} (last : stop a = n + 1) :
    AllOrNothing (δ := δ) CallState.working n stop
      (Call.commit >>= fun _ => (pure a : Call σ τ ε α)) fun s => .ok (a, s) := by
  have before : n < stop a := by omega
  refine ⟨?_, ?_, fun ok => by cases ok; exact before⟩
  · rintro d w s b t viewed ⟨⟩ quiet
    obtain ⟨here, -⟩ := (Disturbance.quietBetween_iff before).mp quiet
    rw [Call.commit, Call.bind_of_ok (Call.await_of_quiet here rfl), viewed, last]
    rfl
  · intro d w s viewed disturbed
    by_cases here : d.cancelled n = false ∧ d.failing n = false
    · refine absurd ?_ (disturbed a s rfl)
      refine (Disturbance.quietBetween_iff before).mpr ⟨here, fun i hi lt => ?_⟩
      omega
    · obtain ⟨e, raised⟩ := Call.await_of_not (ε := ε) (w := w) (fun w : CallState σ τ => .ok ((),
        { w with stored := w.working.getD w.stored, working := none })) (.inl here)
      exact ⟨e, w, n + 1, Call.bind_of_error raised, rfl⟩

/-- What is raised after the begin is rolled back and raised again. -/
theorem orElse (h : AllOrNothing view n stop p f) :
    AllOrNothing view n stop (p.orElse fun e => do
      Call.rollbackQuietly
      Call.raise e) f := by
  refine ⟨?_, ?_, h.before⟩
  · intro d w s a t viewed ok quiet
    rw [Call.orElse, h.returns viewed ok quiet]
  · intro d w s viewed disturbed
    obtain ⟨e, u, m, raised, stored⟩ := h.raises viewed disturbed
    refine ⟨e, if d.failing m then u else { u with working := none }, m + 1, ?_, ?_⟩
    · rw [Call.orElse, raised]
      rfl
    · split <;> exact stored

/-- A transaction does to the stored tables what its body does to its view of them. -/
theorem transaction {body : Call σ τ ε α} (h : AllOrNothing CallState.working (n + 1) stop body f) :
    AllOrNothing (fun w => some w.stored) n stop (Call.transaction body) f :=
  await CallState.working (fun ok => Nat.lt_of_succ_lt (h.before ok)) fun {w s} viewed =>
    .inr ⟨(), { w with working := some w.stored }, f, s, rfl, rfl, rfl, viewed, rfl, h.orElse⟩

end AllOrNothing

end Call

end SupportOps.Library
