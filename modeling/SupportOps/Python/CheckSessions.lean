import SupportOps.Library.Sessions
import SupportOps.Python.Checks

/-!
# Checks under concurrent sessions

`transition_check` and `expire_waiting_checks` in any number of sessions. A session loads its
checks when it opens, validates the transition of each against the copy it holds and updates the
row by its id. So the transition that is committed starts from the loaded state, which need not
be the committed one any more.
-/
namespace SupportOps.Python

open Library

/-! ## One call as a program -/

inductive CheckPhase where
  | between
  | validated (loaded new : CheckRun)

/-- A call after its `SELECT`: every check it loaded, and those it has not come to yet. -/
structure CheckProgram where
  args : TransitionArgs
  loaded : List CheckRun
  rest : List CheckRun
  phase : CheckPhase

inductive CheckStep where
  /-- `session.get` for `transition_check` -/
  | load (id : Nat) (args : TransitionArgs)
  /-- the `SELECT` of `expire_waiting_checks` -/
  | loadOverdue (now : Instant)
  | validate
  | flush
  | commit
  deriving DecidableEq, Repr

/-- A session opens with the `SELECT` of its checks. -/
def loadChecks : CheckStep → Store → Option CheckProgram
  | .load id args, s => (s.checks.find? id).map fun c => ⟨args, [c], [c], .between⟩
  | .loadOverdue now, s =>
    let checks := s.checks.rows.filter (overdue now)
    some ⟨timeoutArgs now, checks, checks, .between⟩
  | _, _ => none

def checkStatement : CheckStep → CheckProgram → Option (Effect CheckProgram Write Empty)
  | .validate, ⟨args, loaded, c :: rest, .between⟩ =>
    match c.transition args with
    | .error _ => some (.rollback [])
    | .ok d => some (.next ⟨args, loaded, rest, .validated c d⟩ [] [])
  | .flush, ⟨args, loaded, rest, .validated c d⟩ =>
    some (.next ⟨args, loaded, rest, .between⟩ (c.transitionWrites d args.now) [])
  | .commit, ⟨_, _, [], .between⟩ => some (.commit [])
  | _, _ => none

/-- The sessions; their updates are taken to lock nothing, which allows every interleaving. -/
def checkSessions : Client Store Write RowKey CheckProgram CheckStep Empty where
  apply := Write.apply
  locks := fun _ => []
  start := loadChecks
  exec l p _ _ := checkStatement l p

abbrev CheckWorld (ι : Type) := World ι Store Write RowKey CheckProgram Empty

/-- Every statement a call can take after its `SELECT`. -/
inductive CheckCase : CheckStep → CheckProgram → Effect CheckProgram Write Empty → Prop
  | rejected (args : TransitionArgs) (loaded : List CheckRun) (c : CheckRun)
      (rest : List CheckRun) (e : TransitionError) (raises : c.transition args = .error e) :
      CheckCase .validate ⟨args, loaded, c :: rest, .between⟩ (.rollback [])
  | validated (args : TransitionArgs) (loaded : List CheckRun) (c d : CheckRun)
      (rest : List CheckRun) (ok : c.transition args = .ok d) :
      CheckCase .validate ⟨args, loaded, c :: rest, .between⟩
        (.next ⟨args, loaded, rest, .validated c d⟩ [] [])
  | flushed (args : TransitionArgs) (loaded : List CheckRun) (c d : CheckRun)
      (rest : List CheckRun) :
      CheckCase .flush ⟨args, loaded, rest, .validated c d⟩
        (.next ⟨args, loaded, rest, .between⟩ (c.transitionWrites d args.now) [])
  | commit (args : TransitionArgs) (loaded : List CheckRun) :
      CheckCase .commit ⟨args, loaded, [], .between⟩ (.commit [])

theorem checkCase_of_statement {l : CheckStep} {p : CheckProgram}
    {e : Effect CheckProgram Write Empty} (h : checkStatement l p = some e) : CheckCase l p e := by
  unfold checkStatement at h
  split at h
  · split at h
    · next raises => cases h; exact .rejected _ _ _ _ _ raises
    · next ok => cases h; exact .validated _ _ _ _ _ ok
  · cases h; exact .flushed ..
  · cases h; exact .commit ..
  · cases h

/-! ## The property at stake -/

/-- A check whose state differs afterwards has taken an allowed transition. -/
def ChangesAllowed (s t : Store) : Prop :=
  ∀ k c d, s.checks.find? k = some c → t.checks.find? k = some d → d.state ≠ c.state →
    d.state ∈ allowedTransitions c.state

/-- A finished check is still there and in the same state. -/
def FinishedStays (s t : Store) : Prop :=
  ∀ k c, s.checks.find? k = some c → c.state.finished = true →
    ∃ d, t.checks.find? k = some d ∧ d.state = c.state

/-- What a session commits starts from the committed state of each check it has changed. -/
def LoadedIsCurrent {ι : Type} (w : CheckWorld ι) : ι × CheckStep → Prop
  | (i, .commit) => ∀ ses, w.sessions i = some ses → ∀ c ∈ ses.program.loaded,
      (w.stored.checks.find? c.id).map CheckRun.state = some c.state
  | _ => True

/-! ## What a session has validated -/

/-- The statement changes the state of loaded checks only, each along the table. -/
def Validated (loaded : List CheckRun) : Write → Prop
  | .updateCheck u => ∃ c ∈ loaded, c.id = u.id ∧ ∀ state ∈ u.state,
      state ∈ allowedTransitions c.state
  | .insertAudit _ => True
  | _ => False

theorem validated_of_transition {args : TransitionArgs} {loaded : List CheckRun} {c d : CheckRun}
    (mem : c ∈ loaded) (ok : c.transition args = .ok d) (now : Instant) :
    ∀ w ∈ c.transitionWrites d now, Validated loaded w := by
  intro w hw
  rcases List.mem_cons.mp hw with rfl | hw
  · refine ⟨c, mem, rfl, fun state hstate => ?_⟩
    have allowed := (CheckRun.state_of_transition ok).1
    have : d.state ≠ c.state := fun e => c.state.not_mem_allowed (e ▸ allowed)
    simp only [CheckRun.flush, changed_of_ne this, Option.mem_def, Option.some.injEq] at hstate
    exact hstate ▸ allowed
  · obtain rfl := List.mem_singleton.mp hw; trivial

/-- After a session's writes a check is in its old state, or in one that follows the state the
session loaded. -/
theorem state_after_writes {loaded : List CheckRun} {ws : List Write}
    (valid : ∀ w ∈ ws, Validated loaded w) {s : Store} {k : Nat} {c : CheckRun}
    (here : s.checks.find? k = some c) :
    ∃ d, (s.write ws).checks.find? k = some d ∧ (d.state = c.state ∨
      ∃ l ∈ loaded, l.id = k ∧ d.state ∈ allowedTransitions l.state) := by
  induction ws generalizing s c with
  | nil => exact ⟨c, here, Or.inl rfl⟩
  | cons w ws ih =>
    have later : ∀ x ∈ ws, Validated loaded x := fun x hx => valid x (List.mem_cons_of_mem _ hx)
    have first : ∃ d, (w.apply s).checks.find? k = some d ∧ (d.state = c.state ∨
        ∃ l ∈ loaded, l.id = k ∧ d.state ∈ allowedTransitions l.state) := by
      have now := valid w (List.mem_cons_self ..)
      cases w with
      | updateCheck u =>
        obtain ⟨l, hl, id, allowed⟩ := now
        rw [Write.apply_checks]
        simp only [Table.find?_modify, here]
        by_cases same : k = u.id
        · refine ⟨u.apply c, by simp [same], ?_⟩
          cases target : u.state with
          | none => exact Or.inl (by simp [CheckUpdate.apply, target])
          | some state =>
            exact Or.inr ⟨l, hl, id.trans same.symm, by
              simpa [CheckUpdate.apply, target] using allowed state target⟩
        · exact ⟨c, by simp [same], Or.inl rfl⟩
      | insertAudit row => exact ⟨c, here, Or.inl rfl⟩
      | _ => exact now.elim
    obtain ⟨d, hd, moved⟩ := first
    obtain ⟨e, he, moved'⟩ := ih later hd
    refine ⟨e, he, ?_⟩
    rcases moved' with same | other
    · rw [same]; exact moved
    · exact Or.inr other

section Invariant

variable {ι : Type}

/-- An open session has validated everything it has written. -/
structure SessionValid (ses : Session CheckProgram Write) : Prop where
  writes : ∀ w ∈ ses.writes, Validated ses.program.loaded w
  rest : ∀ c ∈ ses.program.rest, c ∈ ses.program.loaded
  phase : ∀ c d, ses.program.phase = .validated c d →
    c ∈ ses.program.loaded ∧ c.transition ses.program.args = .ok d

def AllValid (w : CheckWorld ι) : Prop := ∀ i ses, w.sessions i = some ses → SessionValid ses

theorem allValid_initial (s : Store) : AllValid (Client.initial s : CheckWorld ι) := by
  intro i ses h; cases h

variable [DecidableEq ι]

theorem AllValid.step {w u : CheckWorld ι} {i : ι} {l : CheckStep} (h : AllValid w)
    (step : checkSessions.Stepped w i l u) : AllValid u := by
  intro j sj hj
  cases step with
  | begin p closed start =>
    rcases Client.sessions_begin hj with ⟨rfl, rfl⟩ | ⟨-, old⟩
    · cases l with
      | load id args =>
        obtain ⟨c, -, rfl⟩ := Option.map_eq_some_iff.mp start
        exact ⟨fun _ hw => (by cases hw), fun _ hc => hc, fun _ _ phase => by cases phase⟩
      | loadOverdue now =>
        cases start
        exact ⟨fun _ hw => (by cases hw), fun _ hc => hc, fun _ _ phase => by cases phase⟩
      | _ => cases start
    · exact h j sj old
  | next ses p ws es here exec free =>
    rcases checkSessions.sessions_advance hj with ⟨rfl, rfl⟩ | ⟨-, old⟩
    · have valid := h _ ses here
      obtain ⟨program, writes, since⟩ := ses
      cases checkCase_of_statement exec with
      | validated args loaded c d rest ok =>
        refine ⟨by simpa using valid.writes, fun x hx => valid.rest x (List.mem_cons_of_mem _ hx),
          fun c' d' phase => ?_⟩
        cases phase
        exact ⟨valid.rest c (List.mem_cons_self ..), ok⟩
      | flushed args loaded c d rest =>
        obtain ⟨mem, ok⟩ := valid.phase c d rfl
        refine ⟨fun x hx => ?_, valid.rest, fun c' d' phase => by cases phase⟩
        rcases List.mem_append.mp hx with old | new
        · exact valid.writes x old
        · exact validated_of_transition mem ok args.now x new
    · exact h j sj old
  | restart ses p here exec =>
    obtain ⟨program, writes, since⟩ := ses
    cases checkCase_of_statement exec
  | commit ses es here exec => exact h j sj (checkSessions.sessions_commit hj).2
  | rollback ses es here exec => exact h j sj (Client.sessions_rollback hj).2

/-- One step changes the committed checks along the table. -/
theorem states_of_step {w u : CheckWorld ι} {i : ι} {l : CheckStep} (valid : AllValid w)
    (current : LoadedIsCurrent w (i, l)) (step : checkSessions.Stepped w i l u) :
    ∀ k c, w.stored.checks.find? k = some c → ∃ d, u.stored.checks.find? k = some d ∧
      (d.state = c.state ∨ d.state ∈ allowedTransitions c.state) := by
  intro k c here
  rcases checkSessions.stored_eq_or_commit step with same | ⟨ses, es, open_, exec, stored⟩
  · exact ⟨c, by rw [same]; exact here, Or.inl rfl⟩
  · have held := current
    obtain ⟨program, writes, since⟩ := ses
    cases checkCase_of_statement exec with
    | commit args loaded =>
      obtain ⟨d, hd, moved⟩ := state_after_writes (valid i _ open_).writes here
      refine ⟨d, by rw [stored]; exact hd, ?_⟩
      rcases moved with same | ⟨l, hl, id, allowed⟩
      · exact Or.inl same
      · -- the session validated against `l`, whose state is still the committed one
        have := held _ open_ l hl
        rw [id, here] at this
        exact Or.inr ((Option.some.inj this) ▸ allowed)

theorem AllValid.machine_step {w u : CheckWorld ι} {l : ι × CheckStep} (valid : AllValid w)
    (step : checkSessions.machine.step w l = some u) : AllValid u :=
  valid.step (checkSessions.stepped_of_step (i := l.1) (l := l.2) step)

/-- While every commit starts from the committed states, in every interleaving each change of a
committed state is an allowed transition and a finished check stays as it is. -/
theorem changesAllowed_and_finishedStays (s : Store) (ls : List (ι × CheckStep))
    (current : checkSessions.machine.Along LoadedIsCurrent (Client.initial s) ls) :
    checkSessions.machine.Along (fun w l => ∀ u, checkSessions.machine.step w l = some u →
        ChangesAllowed w.stored u.stored) (Client.initial s) ls ∧
      ∀ pre post v w, ls = pre ++ post →
        checkSessions.machine.run (Client.initial s) pre = some v →
        checkSessions.machine.run v post = some w → FinishedStays v.stored w.stored := by
  have along := checkSessions.machine.along_of_invariant
    (Q := fun w l => ∀ u, checkSessions.machine.step w l = some u →
      ∀ k c, w.stored.checks.find? k = some c → ∃ d, u.stored.checks.find? k = some d ∧
        (d.state = c.state ∨ d.state ∈ allowedTransitions c.state))
    (fun _ _ _ _ valid step => AllValid.machine_step valid step)
    (fun w l current valid u step =>
      states_of_step valid current (checkSessions.stepped_of_step (i := l.1) (l := l.2) step))
    current (allValid_initial s)
  refine ⟨along.mono _ ?_, ?_⟩
  · intro w l moves u step k c d here there ne
    obtain ⟨d', hd', moved⟩ := moves u step k c here
    cases there.symm.trans hd'
    exact moved.resolve_left ne
  · rintro pre post v w rfl before after
    have later := (checkSessions.machine.along_append.mp along).2 v before
    refine checkSessions.machine.rel_of_along (R := fun v w => FinishedStays v.stored w.stored) (fun
      _ k c here _ => ⟨c, here, rfl⟩) ?_ (later.mono _ ?_) after
    · intro a b c ab bc k x here finished
      obtain ⟨y, hy, same⟩ := ab k x here finished
      obtain ⟨z, hz, same'⟩ := bc k y hy (same ▸ finished)
      exact ⟨z, hz, same'.trans same⟩
    · intro w l moves u step k c here finished
      obtain ⟨d, hd, moved⟩ := moves u step k c here
      refine ⟨d, hd, moved.resolve_right ?_⟩
      rw [c.state.finished_iff.mp finished]
      exact List.not_mem_nil

end Invariant

/-! ## A confirmation and an expiry -/

/-- A check that waits for a confirmation due at 0. -/
def waiting : CheckRun :=
  ⟨1, "door closed", "PUMP-101", .waitingConfirmation, "", some 0, 0, 0⟩

def oneWaiting : Store := { Store.empty with checks := ⟨[waiting], by decide⟩ }

/-- The statements of a call on one check after its `SELECT`. -/
def oneTransition (i : Bool) : List (Bool × CheckStep) :=
  [(i, .validate), (i, .flush), (i, .commit)]

def confirmWaiting : CheckStep := .load 1 (.ascii "Confirmed" "" none 0)

instance (w : CheckWorld Bool) (l : Bool × CheckStep) : Decidable (LoadedIsCurrent w l) :=
  match l with
  | (i, .commit) => inferInstanceAs (Decidable (∀ ses ∈ w.sessions i, ∀ c ∈ ses.program.loaded,
      (w.stored.checks.find? c.id).map CheckRun.state = some c.state))
  | (_, .load ..) | (_, .loadOverdue _) | (_, .validate) | (_, .flush) => isTrue trivial

/-- The second check's confirmation is due a minute later. -/
def twoWaiting : Store :=
  { Store.empty with checks :=
    ⟨[waiting, { waiting with id := 2, confirmationDueAt := some (seconds 60) }], by decide⟩ }

/-- The second check is confirmed while a sweep times the first one out. Later on the one cannot be
cancelled any more, nor the other one confirmed, and a sweep finds nothing. -/
def confirmedBeside : List (Bool × CheckStep) :=
  [(false, .load 2 (.ascii "Confirmed" "" none 0)), (true, .loadOverdue 0), (false, .validate),
    (true, .validate), (true, .flush), (false, .flush), (true, .commit), (false, .commit),
    (true, .load 2 (.ascii "cancelled" "" none (seconds 61))), (true, .validate),
    (false, .load 1 (.ascii "confirmed" "" none (seconds 61))), (false, .validate),
    (true, .loadOverdue (seconds 61)), (true, .commit)]

theorem finishedStays_twoWaiting : (∃ w : CheckWorld Bool,
      checkSessions.machine.run (Client.initial twoWaiting) confirmedBeside = some w ∧
      w.stored.checks.rows.map CheckRun.state = [.timeout, .confirmed]) ∧
    checkSessions.machine.Along (fun w l => ∀ u, checkSessions.machine.step w l = some u →
        ChangesAllowed w.stored u.stored) (Client.initial twoWaiting) confirmedBeside ∧
      ∀ pre post v w, confirmedBeside = pre ++ post →
        checkSessions.machine.run (Client.initial twoWaiting) pre = some v →
        checkSessions.machine.run v post = some w → FinishedStays v.stored w.stored :=
  ⟨⟨_, rfl, by decide⟩, changesAllowed_and_finishedStays twoWaiting confirmedBeside (by decide)⟩

/-- The expiry loads the check before the confirmation is committed, and times it out after. -/
theorem confirmed_check_times_out : ∃ v w : CheckWorld Bool,
    checkSessions.machine.run (Client.initial oneWaiting)
      ((false, confirmWaiting) :: (true, .loadOverdue 0) :: oneTransition false) = some v ∧
    (v.stored.checks.find? 1).map CheckRun.state = some .confirmed ∧
    checkSessions.machine.run v (oneTransition true) = some w ∧
    (w.stored.checks.find? 1).map CheckRun.state = some .timeout ∧
    ¬ FinishedStays v.stored w.stored ∧ ¬ ChangesAllowed v.stored w.stored := by
  refine ⟨_, _, rfl, by decide, rfl, by decide, ?_, ?_⟩
  · intro stays
    obtain ⟨d, hd, same⟩ := stays 1 _ rfl rfl
    cases hd
    exact absurd same (by decide)
  · intro allowed
    exact absurd (allowed 1 _ _ rfl rfl (by decide)) (by decide)

end SupportOps.Python
