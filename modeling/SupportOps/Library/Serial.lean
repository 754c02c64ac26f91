import SupportOps.Library.Sessions

/-!
# Transactions behind one lock

A transaction that takes one common lock with its first write reads, until it ends, a store that
nobody else changes. Its statements then have the effect of one call of a sequential function at
the moment of the commit, whatever the other sessions do in between. The sequential function and
what is left of it after each statement are parameters.
-/
namespace SupportOps.Library

variable {ι σ W κ P ℓ E ε : Type*}

/-- The sequential meaning of a client's programs, and the lock that makes it theirs. -/
structure Serial (C : Client σ W κ P ℓ E) (ε : Type*) where
  lock : κ
  locked : ∀ x, lock ∈ C.locks x
  /-- Nothing has been done yet. -/
  untouched : P → Prop
  /-- The whole call. -/
  call : P → σ → Except ε (E × σ)
  /-- What is left of it. -/
  rest : P → σ → Except ε (E × σ)
  start : ∀ {l s p}, C.start l s = some p → untouched p
  rest_eq_call : ∀ {p}, untouched p → rest p = call p
  next : ∀ {l p s f q ws es}, C.exec l p s f = some (.next q ws es) →
    es = [] ∧ call q = call p ∧ rest q (C.applyAll ws s) = rest p s ∧ (untouched p → ws ≠ [])
  restart : ∀ {l p s f q}, C.exec l p s f ≠ some (.restart q)
  commit : ∀ {l p s f es}, C.exec l p s f = some (.commit es) →
    ∃ e, es = [e] ∧ rest p s = .ok (e, s)
  rollback : ∀ {l p s f es}, C.exec l p s f = some (.rollback es) → es = []

namespace Serial

variable {C : Client σ W κ P ℓ E} (S : Serial C ε)

/-- Running the rest of each open call gives what the whole call gives on the committed store. -/
structure Invariant (w : World ι σ W κ P E) : Prop where
  locks : C.LocksHeld w
  untouched : ∀ i ses, w.sessions i = some ses → ses.writes = [] → S.untouched ses.program
  rest : ∀ i ses, w.sessions i = some ses →
    S.rest ses.program (C.view ses w.stored) = S.call ses.program w.stored

/-- A step that is not a call. -/
def Silent (w u : World ι σ W κ P E) : Prop := u.stored = w.stored ∧ u.log = w.log

/-- A step that has the effect of one whole call. -/
def Calls (w u : World ι σ W κ P E) (i : ι) : Prop :=
  ∃ p e, S.call p w.stored = .ok (e, u.stored) ∧ u.log = w.log ++ [(i, e)]

theorem Invariant.initial (s : σ) : S.Invariant (Client.initial s : World ι σ W κ P E) where
  locks := C.locksHeld_initial s
  untouched i ses h := by cases h
  rest i ses h := by cases h

theorem rest_of_untouched {ses : Session P W}
    (untouched : ses.writes = [] → S.untouched ses.program) (none : ses.writes = []) (s : σ) :
    S.rest ses.program (C.view ses s) = S.call ses.program s := by
  rw [S.rest_eq_call (untouched none), Client.view, none, Client.applyAll_nil]

variable [DecidableEq ι] [DecidableEq κ]

theorem Invariant.step {w u : World ι σ W κ P E} {i : ι} {l : ℓ} (h : S.Invariant w)
    (step : C.Stepped w i l u) : S.Invariant u ∧ (Silent w u ∨ S.Calls w u i) := by
  have locks := C.locksHeld_step h.locks step
  cases step with
  | begin p closed start =>
    refine ⟨⟨locks, ?_, ?_⟩, .inl ⟨rfl, rfl⟩⟩
    · intro j sj hj
      rcases Client.sessions_begin hj with ⟨-, rfl⟩ | ⟨-, old⟩
      · exact fun _ => S.start start
      · exact h.untouched j sj old
    · intro j sj hj
      rcases Client.sessions_begin hj with ⟨-, rfl⟩ | ⟨-, old⟩
      · exact S.rest_of_untouched (fun _ => S.start start) rfl _
      · exact h.rest j sj old
  | next ses p ws es here exec free =>
    obtain ⟨rfl, call, rest, writes⟩ := S.next exec
    refine ⟨⟨locks, ?_, ?_⟩, .inl ⟨rfl, List.append_nil _⟩⟩
    · intro j sj hj
      rcases C.sessions_advance hj with ⟨-, rfl⟩ | ⟨-, old⟩
      · intro none
        obtain ⟨before, nothing⟩ := List.append_eq_nil_iff.mp none
        exact absurd nothing (writes (h.untouched i ses here before))
      · exact h.untouched j sj old
    · intro j sj hj
      rcases C.sessions_advance hj with ⟨-, rfl⟩ | ⟨-, old⟩
      · change S.rest p (C.applyAll (ses.writes ++ ws) w.stored) = S.call p w.stored
        rw [Client.applyAll_append, call]
        exact rest.trans (h.rest i ses here)
      · exact h.rest j sj old
  | restart ses p here exec => exact absurd exec S.restart
  | commit ses es here exec =>
    obtain ⟨e, rfl, rest⟩ := S.commit exec
    refine ⟨⟨locks, ?_, ?_⟩, .inr ⟨ses.program, e, ?_, rfl⟩⟩
    · intro j sj hj
      exact h.untouched j sj (C.sessions_commit hj).2
    · intro j sj hj
      obtain ⟨ne, old⟩ := C.sessions_commit hj
      cases others : sj.writes with
      | nil => exact S.rest_of_untouched (h.untouched j sj old) others _
      | cons y ys =>
        cases own : ses.writes with
        | nil =>
          change S.rest _ (C.view sj (C.view ses w.stored)) = S.call _ (C.view ses w.stored)
          have same : C.view ses w.stored = w.stored := by rw [Client.view, own]; rfl
          rw [same]
          exact h.rest j sj old
        | cons x xs =>
          -- both would hold the lock
          have hx : x ∈ ses.writes := by rw [own]; exact List.mem_cons_self ..
          have hy : y ∈ sj.writes := by rw [others]; exact List.mem_cons_self ..
          exact absurd (C.eq_of_common_lock h.locks old here hy hx (S.locked y) (S.locked x)) ne
    · exact (h.rest i ses here).symm.trans rest
  | rollback ses es here exec =>
    obtain rfl := S.rollback exec
    refine ⟨⟨locks, ?_, ?_⟩, .inl ⟨rfl, List.append_nil _⟩⟩
    · intro j sj hj
      exact h.untouched j sj (Client.sessions_rollback hj).2
    · intro j sj hj
      exact h.rest j sj (Client.sessions_rollback hj).2

theorem invariant_of_run {s : σ} {w : World ι σ W κ P E} {ls : List (ι × ℓ)}
    (run : C.machine.run (Client.initial s) ls = some w) : S.Invariant w :=
  C.invariant (fun _ _ _ _ h step => (h.step S step).1) (Invariant.initial S s) run

/-- Every step of every interleaving is silent or one whole call. -/
theorem step_cases {s : σ} {w u : World ι σ W κ P E} {ls : List (ι × ℓ)} {i : ι} {l : ℓ}
    (run : C.machine.run (Client.initial s) ls = some w) (step : C.machine.step w (i, l) = some u) :
    Silent w u ∨ S.Calls w u i :=
  ((S.invariant_of_run run).step S (C.stepped_of_step step)).2

/-- What every whole call keeps, of store and log, holds after every interleaving. -/
theorem call_invariant {I : σ → List (ι × E) → Prop}
    (kept : ∀ s log i p e t, I s log → S.call p s = .ok (e, t) → I t (log ++ [(i, e)]))
    {s : σ} {w : World ι σ W κ P E} {ls : List (ι × ℓ)} (start : I s [])
    (run : C.machine.run (Client.initial s) ls = some w) : I w.stored w.log := by
  have both : S.Invariant w ∧ I w.stored w.log := by
    refine C.invariant (I := fun w => S.Invariant w ∧ I w.stored w.log)
      (fun w i l u h step => ?_) ⟨Invariant.initial S s, start⟩ run
    obtain ⟨invariant, ⟨stored, log⟩ | ⟨p, e, call, log⟩⟩ := h.1.step S step
    · exact ⟨invariant, by rw [stored, log]; exact h.2⟩
    · exact ⟨invariant, by rw [log]; exact kept _ _ i p e _ h.2 call⟩
  exact both.2

end Serial

end SupportOps.Library
