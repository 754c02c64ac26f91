import SupportOps.Library.Admission
import SupportOps.Python.IngestSessions
import SupportOps.Python.Seed

/-!
# The limit of the queue under concurrency

`_process_new` counts the committed backlog and inserts its action some statements later, without
a lock in between. Calls that count at the same time do not see each other's actions, so the
committed backlog can pass `max_queue_backlog`: by at most one less than there are sessions.
-/
namespace SupportOps.Python

open Library

/-! ## What a session is about to add -/

def IngestPhase.pastBacklog : IngestPhase → Bool
  | .queueAction _ _ _ => true
  | .complete _ o => o.action.isSome
  | .answer response => !response.replay && response.processed.action.isSome
  | _ => false

/-- The actions that a transaction has inserted. -/
def insertedActions (ws : List Write) : Nat := ws.countP Write.onActions

/-- What a call has inserted by its phase: no action before its check of the backlog, and at most
one after it. -/
def IngestPhase.mayInsert : IngestPhase → Nat
  | .queueAction _ _ _ => 0
  | phase => if phase.pastBacklog then 1 else 0

structure BacklogCounted (p : IngestProgram) (ws : List Write) : Prop where
  inserted : insertedActions ws ≤ p.phase.mayInsert
  updates : ∀ u, Write.updateAction u ∉ ws

@[simp] theorem insertedActions_append (ws vs : List Write) :
    insertedActions (ws ++ vs) = insertedActions ws + insertedActions vs :=
  List.countP_append ..

theorem queueBacklog_write_le {s : Store} {ws : List Write}
    (updates : ∀ u, Write.updateAction u ∉ ws) :
    (s.write ws).queueBacklog ≤ s.queueBacklog + insertedActions ws := by
  induction ws generalizing s with
  | nil => exact le_rfl
  | cons w ws ih =>
    have rest := ih (s := w.apply s) fun u hu => updates u (List.mem_cons_of_mem _ hu)
    have first : (w.apply s).queueBacklog ≤ s.queueBacklog + insertedActions [w] := by
      cases w with
      | insertAction row =>
        unfold Store.queueBacklog
        rw [Write.apply_actions]
        cases taken : s.actions.find? row.id with
        | some a =>
          have same : s.actions.insert row = s.actions := s.actions.insert_of_taken taken
          simp only [same]
          exact Nat.le_add_right _ _
        | none =>
          have rows := s.actions.rows_insert_of_fresh (r := row) taken
          simp only [rows, List.countP_append]
          exact Nat.add_le_add_left List.countP_le_length _
      | updateAction u => exact absurd (List.mem_cons_self ..) (updates u)
      | _ => exact Nat.le_add_right _ _
    have split : insertedActions (w :: ws) = insertedActions [w] + insertedActions ws :=
      insertedActions_append [w] ws
    rw [Store.write_cons, split]
    omega

/-- A transaction that has inserted no action sees the committed backlog. -/
theorem queueBacklog_write_of_none {s : Store} {ws : List Write} (none : insertedActions ws = 0) :
    (s.write ws).queueBacklog = s.queueBacklog := by
  have off : ws.filter Write.onActions = [] := by
    rw [List.filter_eq_nil_iff]
    exact fun w hw on => Nat.lt_irrefl 0 (none ▸ List.countP_pos_iff.mpr ⟨w, hw, on⟩)
  unfold Store.queueBacklog
  rw [actions_write, off, Store.write_nil]

/-! ## Statements -/

section Statements

variable {p q : IngestProgram} {ws vs : List Write} {tick : Tick} {o : Processed}

theorem pastBacklog_finish (p : IngestProgram) (tick : Tick) (o : Processed) :
    (p.finish tick o).phase.pastBacklog = o.action.isSome := by
  unfold IngestProgram.finish IngestProgram.goto
  cases p.claimed <;> rfl

theorem mayInsert_finish (p : IngestProgram) (tick : Tick) (o : Processed) :
    (p.finish tick o).phase.mayInsert = if o.action.isSome then 1 else 0 := by
  unfold IngestProgram.finish IngestProgram.goto
  cases p.claimed <;> rfl

/-- Statements that leave the actions alone. -/
def Quiet (vs : List Write) : Prop := ∀ w ∈ vs, w.onActions = false

theorem Quiet.insertedActions (h : Quiet vs) : insertedActions vs = 0 :=
  List.countP_eq_zero.mpr fun w hw => by simp [h w hw]

theorem BacklogCounted.quiet (h : BacklogCounted p ws) (quiet : Quiet vs)
    (later : p.phase.mayInsert ≤ q.phase.mayInsert) : BacklogCounted q (ws ++ vs) where
  inserted := by
    rw [insertedActions_append, quiet.insertedActions]
    exact h.inserted.trans later
  updates u hu := by
    rcases List.mem_append.mp hu with old | new
    · exact h.updates u old
    · exact absurd (quiet _ new) (by simp [Write.onActions])

theorem quiet_eventWrites (asset : Asset) (event : OperationalEvent) :
    Quiet (eventWrites asset event) := by
  intro w hw
  unfold eventWrites at hw
  rcases List.mem_append.mp hw with status | inserted
  · split at status
    · cases status
    · obtain rfl := List.mem_singleton.mp status; rfl
  · obtain rfl := List.mem_singleton.mp inserted; rfl

/-- The call passes its check, or it is on the same side of it as before. -/
def Passes (s : Store) (p q : IngestProgram) : Prop :=
  q.phase.pastBacklog = p.phase.pastBacklog ∨
    (q.phase.pastBacklog = true ∧ s.queueBacklog < p.settings.maxQueueBacklog)

/-- Each statement inserts what its phase allows, and only the check lets a call pass. -/
theorem BacklogCounted.next {s : Store} {es : List Answer} (h : BacklogCounted p ws)
    (exec : ingestStatement tick p (s.write ws) = some (.next q vs es)) :
    BacklogCounted q (ws ++ vs) ∧ q.settings = p.settings ∧ Passes s p q := by
  obtain ⟨settings, payload, claimed, clock, phase⟩ := p
  cases phase with
  | lookup key =>
    simp only [ingestStatement] at exec
    split at exec <;> cases exec <;> exact ⟨h.quiet (by simp [Quiet]) le_rfl, rfl, .inl rfl⟩
  | claim key =>
    simp only [ingestStatement] at exec
    split at exec
    · cases exec
    · split at exec <;> cases exec
      exact ⟨h.quiet (by simp [Quiet, Write.onActions]) le_rfl, rfl, .inl rfl⟩
  | poll key attempts =>
    cases attempts with
    | zero => cases exec
    | succ attempts =>
      simp only [ingestStatement] at exec
      split at exec <;> cases exec <;> exact ⟨h.quiet (by simp [Quiet]) le_rfl, rfl, .inl rfl⟩
  | replay record eventId =>
    cases exec
    exact ⟨h.quiet (by simp [Quiet, IdempotencyRecord.replayed, Write.onActions]) le_rfl, rfl,
      .inl rfl⟩
  | reload record eventId =>
    simp only [ingestStatement] at exec
    split at exec <;> cases exec
    exact ⟨h.quiet (by simp [Quiet]) le_rfl, rfl, .inl rfl⟩
  | loadAsset =>
    simp only [ingestStatement] at exec
    split at exec <;> cases exec
    exact ⟨h.quiet (by simp [Quiet]) le_rfl, rfl, .inl rfl⟩
  | recordEvent asset =>
    simp only [ingestStatement] at exec
    split at exec <;> cases exec
    exact ⟨h.quiet (quiet_eventWrites asset _) le_rfl, rfl, .inl rfl⟩
  | matchRule asset event =>
    simp only [ingestStatement] at exec
    split at exec <;> cases exec
    · exact ⟨h.quiet (by simp [Quiet, Write.onActions]) (by rw [mayInsert_finish]; exact le_rfl),
        rfl, .inl (pastBacklog_finish ..)⟩
    · exact ⟨h.quiet (by simp [Quiet]) le_rfl, rfl, .inl rfl⟩
  | checkCooldown asset event rule =>
    simp only [ingestStatement] at exec
    split at exec <;> cases exec
    · exact ⟨h.quiet (by simp [Quiet, Write.onActions]) (by rw [mayInsert_finish]; exact le_rfl),
        rfl, .inl (pastBacklog_finish ..)⟩
    · exact ⟨h.quiet (by simp [Quiet]) le_rfl, rfl, .inl rfl⟩
  | openIncident asset event rule =>
    simp only [ingestStatement] at exec
    split at exec <;> cases exec
    exact ⟨h.quiet (by simp [Quiet, Write.onActions]) le_rfl, rfl, .inl rfl⟩
  | checkBacklog event rule incident =>
    have none : insertedActions ws = 0 := Nat.le_zero.mp h.inserted
    simp only [ingestStatement, queueBacklog_write_of_none none] at exec
    split at exec
    · cases exec
      exact ⟨h.quiet (by simp [Quiet, Write.onActions]) (by rw [mayInsert_finish]; exact le_rfl),
        rfl, .inl (pastBacklog_finish ..)⟩
    · split at exec
      · cases exec
        exact ⟨h.quiet (by simp [Quiet, Write.onActions]) (by rw [mayInsert_finish]; exact le_rfl),
          rfl, .inl (pastBacklog_finish ..)⟩
      · next room =>
        cases exec
        exact ⟨h.quiet (by simp [Quiet]) le_rfl, rfl, .inr ⟨rfl, Nat.lt_of_not_le room⟩⟩
  | queueAction event rule incident =>
    simp only [ingestStatement] at exec
    split at exec <;> cases exec
    refine ⟨⟨?_, fun u hu => ?_⟩, rfl, .inl (pastBacklog_finish ..)⟩
    · have none : insertedActions ws = 0 := Nat.le_zero.mp h.inserted
      rw [insertedActions_append, none, mayInsert_finish]
      exact le_rfl
    · rcases List.mem_append.mp hu with old | new
      · exact h.updates u old
      · simp at new
  | complete id o =>
    cases exec
    exact ⟨h.quiet (by simp [Quiet, Write.onActions]) le_rfl, rfl, .inl (Bool.true_and _)⟩
  | answer response => cases exec

end Statements

/-! ## Sessions -/

section Sessions

variable {ι : Type}

/-- Every open session has inserted what its phase allows, under the common limit. -/
def AllCounted (limit : Nat) (w : Ingest ι) : Prop :=
  ∀ i ses, w.sessions i = some ses →
    BacklogCounted ses.program ses.writes ∧ ses.program.settings.maxQueueBacklog ≤ limit

/-- The session has passed its check and not committed. -/
def pastCheck (w : Ingest ι) (i : ι) : Bool :=
  (w.sessions i).any fun ses => ses.program.phase.pastBacklog

variable {limit : Nat} {w u : Ingest ι} {i : ι} {l : IngestStep}

theorem past_of_sessions {j : ι} (same : u.sessions j = w.sessions j) :
    pastCheck u j = pastCheck w j := by
  rw [pastCheck, pastCheck, same]

theorem past_of_some {ses : Session IngestProgram Write} (here : w.sessions i = some ses) :
    pastCheck w i = ses.program.phase.pastBacklog := by
  rw [pastCheck, here]; rfl

theorem past_of_none (closed : w.sessions i = none) : pastCheck w i = false := by
  rw [pastCheck, closed]; rfl

variable [DecidableEq ι] [Fintype ι]

/-- The committed backlog, and the sessions that are about to add to it. -/
def admissionOf (w : Ingest ι) : Admission ι :=
  ⟨w.stored.queueBacklog, Finset.univ.filter fun i => pastCheck w i⟩

/-- No call is made under a higher limit. -/
def Limited (limit : Nat) (_ : Ingest ι) : ι × IngestStep → Prop
  | (_, .call settings _) => settings.maxQueueBacklog ≤ limit
  | _ => True

instance (limit : Nat) (w : Ingest ι) (l : ι × IngestStep) : Decidable (Limited limit w l) := by
  unfold Limited
  split <;> infer_instance

omit [Fintype ι] in
theorem AllCounted.step (h : AllCounted limit w) (limited : Limited limit w (i, l))
    (step : ingestion.Stepped w i l u) : AllCounted limit u := by
  cases step with
  | begin p closed start =>
    intro j sj hj
    rcases Client.sessions_begin hj with ⟨-, rfl⟩ | ⟨-, old⟩
    · cases l with
      | call settings payload =>
        cases start
        refine ⟨⟨Nat.zero_le _, fun u hu => by cases hu⟩, limited⟩
      | statement tick => cases start
    · exact h j sj old
  | next ses p ws es here exec free =>
    intro j sj hj
    rcases ingestion.sessions_advance hj with ⟨-, rfl⟩ | ⟨-, old⟩
    · obtain ⟨tick, rfl, exec⟩ := exec_statement exec
      obtain ⟨counted, settings, -⟩ := (h i ses here).1.next exec
      exact ⟨counted, settings ▸ (h i ses here).2⟩
    · exact h j sj old
  | restart ses p here exec =>
    intro j sj hj
    rcases Client.sessions_restart hj with ⟨-, rfl⟩ | ⟨-, old⟩
    · obtain ⟨tick, rfl, exec⟩ := exec_statement exec
      obtain ⟨key, -, rfl⟩ := restart_cases exec
      exact ⟨⟨Nat.zero_le _, fun u hu => by cases hu⟩, (h i ses here).2⟩
    · exact h j sj old
  | commit ses es here exec => exact fun j sj hj => h j sj (ingestion.sessions_commit hj).2
  | rollback ses es here exec => exact fun j sj hj => h j sj (Client.sessions_rollback hj).2

/-- The admitted sessions after a step of session `i`. -/
theorem admitted_step (others : ∀ j, j ≠ i → pastCheck u j = pastCheck w j) :
    (admissionOf u).admitted =
      if pastCheck u i then insert i (admissionOf w).admitted
      else (admissionOf w).admitted.erase i := by
  have mem (j : ι) : j ∈ (admissionOf u).admitted ↔ pastCheck u j = true := by simp [admissionOf]
  have mem' (j : ι) : j ∈ (admissionOf w).admitted ↔ pastCheck w j = true := by simp [admissionOf]
  ext j
  rw [mem]
  by_cases same : j = i
  · subst same
    cases here : pastCheck u j <;> simp
  · rw [others j same]
    split <;> simp [same, mem']

omit [DecidableEq ι] in
/-- A step that moves no session past its check or back, and leaves the backlog. -/
theorem admission_eq (past : ∀ j, pastCheck u j = pastCheck w j) (stored : u.stored = w.stored) :
    admissionOf u = admissionOf w := by
  simp only [admissionOf, past, stored]

/-- In the view of the backlog each step is one of the abstract parties', or nothing. -/
theorem AllCounted.admission_step (h : AllCounted limit w) (step : ingestion.Stepped w i l u) :
    admissionOf u = admissionOf w ∨
      ∃ k, (Admission.machine limit).step (admissionOf w) k = some (admissionOf u) := by
  cases step with
  | begin p closed start =>
    refine .inl (admission_eq (fun j => ?_) rfl)
    by_cases same : j = i
    · subst same
      rw [past_of_none closed, past_of_some (Function.update_self ..)]
      cases l with
      | call settings payload =>
        cases start
        dsimp only
        split <;> rfl
      | statement tick => cases start
    · exact past_of_sessions (Client.sessions_begin_of_ne same)
  | next ses p ws es here exec free =>
    obtain ⟨tick, rfl, exec⟩ := exec_statement exec
    have others : ∀ j, j ≠ i → pastCheck (ingestion.advance w i ses p ws es) j = pastCheck w j :=
      fun j ne => past_of_sessions (ingestion.sessions_advance_of_ne ne)
    have now : (ingestion.advance w i ses p ws es).sessions i =
        some ⟨p, ses.writes ++ ws, ses.since⟩ := Function.update_self ..
    have own : pastCheck (ingestion.advance w i ses p ws es) i = p.phase.pastBacklog :=
      past_of_some now
    obtain ⟨-, -, same | ⟨passed, below⟩⟩ := (h i ses here).1.next exec
    · refine .inl (admission_eq (fun j => ?_) rfl)
      by_cases eq : j = i
      · subst eq; rw [own, same, past_of_some here]
      · exact others j eq
    · right
      refine ⟨.enter i, ?_⟩
      have room : (admissionOf w).count < limit := below.trans_le (h i ses here).2
      have admitted := admitted_step others
      rw [own, passed, if_pos rfl] at admitted
      simp only [Admission.machine, Admission.step, if_pos room, ← admitted]
      rfl
  | restart ses p here exec =>
    obtain ⟨tick, rfl, exec⟩ := exec_statement exec
    obtain ⟨key, phase, rfl⟩ := restart_cases exec
    refine .inl (admission_eq (fun j => ?_) rfl)
    by_cases same : j = i
    · subst same
      rw [past_of_some here, phase, past_of_some (Function.update_self ..)]
      rfl
    · exact past_of_sessions (Function.update_of_ne same ..)
  | commit ses es here exec =>
    obtain ⟨tick, rfl, exec⟩ := exec_statement exec
    obtain ⟨a, phase, -⟩ := commit_cases exec
    obtain ⟨counted, -⟩ := h i ses here
    have added : (ingestion.commit w i ses es).stored.queueBacklog ≤
        w.stored.queueBacklog + insertedActions ses.writes :=
      queueBacklog_write_le counted.updates
    have admitted := admitted_step (w := w) (u := ingestion.commit w i ses es) (i := i)
      fun j ne => past_of_sessions (ingestion.sessions_commit_of_ne ne)
    rw [past_of_none (Function.update_self ..), if_neg Bool.false_ne_true] at admitted
    have inserted := counted.inserted
    rw [phase] at inserted
    have mine := past_of_some here
    rw [phase] at mine
    right
    cases past : IngestPhase.pastBacklog (.answer a) with
    | true =>
      rw [past] at mine
      have within : insertedActions ses.writes ≤ 1 :=
        inserted.trans (by simp [IngestPhase.mayInsert, past])
      refine ⟨.add i (ingestion.commit w i ses es).stored.queueBacklog, ?_⟩
      have allowed : i ∈ (admissionOf w).admitted ∧
          (ingestion.commit w i ses es).stored.queueBacklog ≤ (admissionOf w).count + 1 := by
        refine ⟨by simp [admissionOf, mine], ?_⟩
        change _ ≤ w.stored.queueBacklog + 1
        omega
      simp only [Admission.machine, Admission.step, if_pos allowed, ← admitted]
      rfl
    | false =>
      rw [past] at mine
      have none : insertedActions ses.writes ≤ 0 :=
        inserted.trans (by simp [IngestPhase.mayInsert, past])
      refine ⟨.lower (ingestion.commit w i ses es).stored.queueBacklog, ?_⟩
      have allowed : (ingestion.commit w i ses es).stored.queueBacklog ≤ (admissionOf w).count := by
        change _ ≤ w.stored.queueBacklog
        omega
      have out : i ∉ (admissionOf w).admitted := by simp [admissionOf, mine]
      rw [Finset.erase_eq_of_notMem out] at admitted
      simp only [Admission.machine, Admission.step, if_pos allowed, ← admitted]
      rfl
  | rollback ses es here exec =>
    have admitted := admitted_step (w := w) (u := Client.rollback w i es) (i := i)
      fun j ne => past_of_sessions (Client.sessions_rollback_of_ne ne)
    rw [past_of_none (Function.update_self ..), if_neg Bool.false_ne_true] at admitted
    refine .inr ⟨.withdraw i, ?_⟩
    simp only [Admission.machine, Admission.step, ← admitted]
    rfl

/-- In every interleaving the committed backlog, together with the sessions that have passed their
check and not committed, exceeds the limit by less than the number of sessions, unless the queue
was longer to begin with. -/
theorem queueBacklog_le_of_sessions {s : Store} {ls : List (ι × IngestStep)}
    (limited : ingestion.machine.Along (Limited limit) (Client.initial s) ls)
    (run : ingestion.machine.run (Client.initial s) ls = some w) :
    w.stored.queueBacklog + (Finset.univ.filter fun i => pastCheck w i).card ≤
      max s.queueBacklog (limit + Fintype.card ι - 1) := by
  have start : AllCounted limit (Client.initial s : Ingest ι) := fun i ses h => by cases h
  obtain ⟨ks, parties⟩ := ingestion.machine.run_of_simulation (f := admissionOf)
    (fun _ _ _ admitted h step =>
      AllCounted.step h admitted (ingestion.stepped_of_step step))
    (fun _ _ _ _ h step => h.admission_step (ingestion.stepped_of_step step)) limited start run
  have bound := Admission.run_le parties
  have nobody : (admissionOf (Client.initial s : Ingest ι)).admitted.card = 0 := by
    simp [admissionOf, pastCheck, Client.initial]
  rw [nobody, Nat.add_zero] at bound
  exact bound

/-- Two calls that count an empty queue at the same time, under a limit of one. -/
def twoOutages : List (Bool × IngestStep) :=
  [(false, .call ⟨1⟩ pumpOffline), (true, .call ⟨1⟩ gatewayOffline)] ++
    statements false 6 0 1 ++ statements true 6 0 2 ++ statements false 2 0 1 ++
    statements true 2 0 2

/-- The bound is reached. -/
theorem queueBacklog_twoOutages : ∃ w : Ingest Bool,
    ingestion.machine.run (Client.initial demo) twoOutages = some w ∧
    w.stored.queueBacklog = 2 ∧ 1 + Fintype.card Bool - 1 = 2 ∧
    w.stored.queueBacklog + (Finset.univ.filter fun i => pastCheck w i).card ≤
      max demo.queueBacklog (1 + Fintype.card Bool - 1) := by
  have limited : ingestion.machine.Along (Limited 1) (Client.initial demo) twoOutages := by decide
  exact ⟨_, rfl, by decide, by decide, queueBacklog_le_of_sessions limited rfl⟩

end Sessions

end SupportOps.Python
