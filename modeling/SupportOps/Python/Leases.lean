import SupportOps.Python.Passes
import SupportOps.Python.Workers

/-!
# Leases and attempts under concurrent workers

The invariant that keeps concurrent calls apart: the batches of open sessions are disjoint, and
the attempts a session sees on its batch account for the transport calls made so far. It holds
as long as no session selects a row that another open session has in its batch. The code does
not see to that: two sessions that select before either commits both take the row, the row lock
only delays the second, and it goes on with the copy it has loaded.
-/
namespace SupportOps.Python

open Library

/-! ## The property at stake -/

section Property

variable {ι : Type}

/-- A call about to invoke the transport for an action is the only one that has invoked it,
except for those that committed before it selected its rows and those whose lease is over. -/
def LeaseExclusive (w : Workers ι) : Prop :=
  ∀ i ses a, w.sessions i = some ses → ses.program.phase = .leased a →
    ∀ n p leasedAt, w.log[n]? = some (p, .invoked a.id leasedAt) →
      (p = i ∧ ses.since ≤ n) ∨
      (∃ m, n < m ∧ m < ses.since ∧ w.log[m]? = some (p, .committed)) ∨
      leasedAt + seconds ses.program.args.leaseSeconds ≤ ses.program.args.now

/-- The stored attempts of every action have grown by its transport calls. -/
def AttemptsCounted (s : Store) (w : Workers ι) : Prop :=
  ∀ k, (w.stored.actions.find? k).map Action.attempts =
    (s.actions.find? k).map fun a => a.attempts + invocations w.log k

/-- No exception follows the transport's answer: it returns or times out, and the time of a
repetition is a `datetime`. -/
def PassProgram.settles (p : PassProgram) (reply : TransportReply) : Bool :=
  match p.phase with
  | .leased a => a.settles p.args fun _ => reply
  | _ => true

def TransportSettles (w : Workers ι) : ι × PassStep → Prop
  | (i, .transport reply) => ∀ ses ∈ w.sessions i, ses.program.settles reply
  | _ => True

/-- No other open session has a row in its batch that is about to be selected. -/
def SelectsAlone (w : Workers ι) : ι × PassStep → Prop
  | (i, .select args) => w.sessions i = none → ∀ j, ∀ ses ∈ w.sessions j,
      ∀ a ∈ dueActions args w.stored, a.id ∉ ses.program.loaded
  | _ => True

end Property

/-! ## The invariant of one open session -/

section Invariant

variable {ι : Type}

/-- The attempts of a row account for the calls in the log. -/
def Counted (s : Store) (log : List (ι × PassEvent)) (row : Option Action) (extra k : Nat) : Prop :=
  (row.map fun a => a.attempts + extra) =
    (s.actions.find? k).map fun a => a.attempts + invocations log k

/-- What holds of an open session over the stored rows and the log: its batch is its own. -/
structure Owns (s stored : Store) (log : List (ι × PassEvent))
    (ses : Session PassProgram Write) : Prop where
  current : ∀ a ∈ ses.program.pending,
    (stored.write ses.writes).actions.find? a.id = some a ∧ a.finished = false
  nodup : (ses.program.pending.map Action.id).Nodup
  loaded : ∀ a ∈ ses.program.pending, a.id ∈ ses.program.loaded
  writes : ∀ w ∈ ses.writes, WritesOnly ses.program.loaded w
  counted : ∀ k ∈ ses.program.loaded,
    Counted s log ((stored.write ses.writes).actions.find? k) (ses.program.inFlight k) k
  called : ∀ a b audits, ses.program.phase = .called a b audits →
    ∃ reply, Attempted ses.program.args reply a b audits
  untouched : ses.program.args.maxAttempts < 1 →
    ∀ k ∈ ses.program.loaded, Counted s log (stored.actions.find? k) 0 k
  since : ses.since ≤ log.length

/-- A session does not notice what others do to rows outside its batch. -/
theorem Owns.frame {s stored stored' : Store} {log log' : List (ι × PassEvent)}
    {ses : Session PassProgram Write} (h : Owns s stored log ses)
    (same : ∀ k ∈ ses.program.loaded, stored'.actions.find? k = stored.actions.find? k)
    (calls : ∀ k ∈ ses.program.loaded, invocations log' k = invocations log k)
    (longer : log.length ≤ log'.length) : Owns s stored' log' ses := by
  have view : ∀ k ∈ ses.program.loaded, (stored'.write ses.writes).actions.find? k =
      (stored.write ses.writes).actions.find? k :=
    fun k hk => Store.find?_write_congr h.writes (same k hk)
  refine ⟨?_, h.nodup, h.loaded, h.writes, ?_, h.called, ?_, h.since.trans longer⟩
  · intro a ha
    rw [view _ (h.loaded a ha)]; exact h.current a ha
  · intro k hk
    unfold Counted; rw [view k hk, calls k hk]; exact h.counted k hk
  · intro none k hk
    unfold Counted; rw [same k hk, calls k hk]; exact h.untouched none k hk

/-- Flushing a row of the batch over itself: the other rows of the view stay. -/
theorem find?_view_flush {stored : Store} {ws : List Write} {a : Action} (b : Action)
    (audits : List AuditLog) (current : (stored.write ws).actions.find? a.id = some a)
    (id : b.id = a.id)
    (incident : b.incidentId = a.incidentId) (type : b.actionType = a.actionType)
    (created : b.createdAt = a.createdAt) (k : Nat) :
    (stored.write (ws ++ (.updateAction (a.flush b) :: audits.map .insertAudit))).actions.find? k =
      if k = a.id then some b else (stored.write ws).actions.find? k := by
  have silent : ∀ (t : Store), (t.write (audits.map .insertAudit)).actions = t.actions := by
    intro t
    induction audits generalizing t with
    | nil => rfl
    | cons row rows ih => exact ih _
  rw [Store.write_append, Store.write_cons, silent]
  exact (stored.write ws).find?_flush_action b current id incident type created k

theorem Owns.lease {s stored : Store} {log : List (ι × PassEvent)} {args : PassArgs}
    {loaded : List Nat} {a : Action} {rest : List Action} {ws : List Write} {since : Nat}
    (h : Owns s stored log ⟨⟨args, loaded, a :: rest, .between⟩, ws, since⟩) :
    Owns s stored log ⟨⟨args, loaded, rest, .leased (a.leased args)⟩,
      ws ++ [.updateAction (a.flush (a.leased args))], since⟩ := by
  obtain ⟨current, unfinished⟩ := h.current a (List.mem_cons_self ..)
  have view := find?_view_flush (a.leased args) [] current rfl rfl rfl rfl
  simp only [List.map_nil] at view
  have nodup := List.nodup_cons.mp h.nodup
  have mine : a.id ∈ loaded := h.loaded a (List.mem_cons_self ..)
  refine ⟨?_, h.nodup, ?_, ?_, ?_, fun _ _ _ phase => (by cases phase), h.untouched, h.since⟩
  · intro b hb
    rw [view]
    rcases List.mem_cons.mp hb with rfl | later
    · exact ⟨if_pos rfl, unfinished⟩
    · have other : b.id ≠ a.id := fun e => nodup.1 (e ▸ List.mem_map_of_mem later)
      rw [if_neg other]
      exact h.current b (List.mem_cons_of_mem _ later)
  · intro b hb
    rcases List.mem_cons.mp hb with rfl | later
    · exact mine
    · exact h.loaded b (List.mem_cons_of_mem _ later)
  · intro w hw
    rcases List.mem_append.mp hw with old | new
    · exact h.writes w old
    · obtain rfl := List.mem_singleton.mp new; exact mine
  · intro k hk
    have counted := h.counted k hk
    unfold Counted at counted ⊢
    rw [view]
    split
    · next same => subst same; rw [current] at counted; exact counted
    · exact counted

theorem invocations_append (log : List (ι × PassEvent)) (i : ι) (k : Nat) (now : Instant)
    (j : Nat) :
    invocations (log ++ [(i, .invoked k now)]) j = invocations log j + if k = j then 1 else 0 := by
  simp [invocations, List.countP_append, List.countP_singleton]

theorem Owns.transport {s stored : Store} {log : List (ι × PassEvent)} {args : PassArgs}
    {loaded : List Nat} {a b : Action} {rest : List Action} {audits : List AuditLog}
    {ws : List Write} {since : Nat} {reply : TransportReply}
    (h : Owns s stored log ⟨⟨args, loaded, rest, .leased a⟩, ws, since⟩)
    (attempted : Attempted args reply a b audits) (i : ι) :
    Owns s stored (log ++ [(i, .invoked a.id args.now)])
      ⟨⟨args, loaded, rest, .called a b audits⟩, ws, since⟩ := by
  refine ⟨h.current, h.nodup, h.loaded, h.writes, ?_, ?_, ?_, h.since.trans (by simp)⟩
  · intro k hk
    have counted := h.counted k hk
    simp only [Counted, PassProgram.inFlight, invocations_append] at counted ⊢
    by_cases same : a.id = k
    · simp only [same, if_true]
      have := congrArg (Option.map (· + 1)) counted
      simpa [Option.map_map, Function.comp_def, Nat.add_assoc] using this
    · simpa [same] using counted
  · intro a' b' audits' phase
    cases phase; exact ⟨reply, attempted⟩
  · intro none
    have := attempted.allowed
    simp only at none
    omega

theorem Owns.outcome {s stored : Store} {log : List (ι × PassEvent)} {args : PassArgs}
    {loaded : List Nat} {a b : Action} {rest : List Action} {audits : List AuditLog}
    {ws : List Write} {since : Nat}
    (h : Owns s stored log ⟨⟨args, loaded, rest, .called a b audits⟩, ws, since⟩) :
    Owns s stored log ⟨⟨args, loaded, rest, .between⟩,
      ws ++ (.updateAction (a.flush b) :: audits.map .insertAudit), since⟩ := by
  obtain ⟨current, -⟩ := h.current a (List.mem_cons_self ..)
  obtain ⟨reply, attempted⟩ := h.called a b audits rfl
  have view := find?_view_flush b audits current attempted.id attempted.incident
    attempted.type attempted.created
  have nodup := List.nodup_cons.mp h.nodup
  have mine : a.id ∈ loaded := h.loaded a (List.mem_cons_self ..)
  refine ⟨?_, nodup.2, fun c hc => h.loaded c (List.mem_cons_of_mem _ hc), ?_, ?_,
    fun _ _ _ phase => (by cases phase), h.untouched, h.since⟩
  · intro c hc
    have other : c.id ≠ a.id := fun e => nodup.1 (e ▸ List.mem_map_of_mem hc)
    rw [view, if_neg other]
    exact h.current c (List.mem_cons_of_mem _ hc)
  · intro w hw
    rcases List.mem_append.mp hw with old | new
    · exact h.writes w old
    · rcases List.mem_cons.mp new with rfl | audit
      · exact mine
      · obtain ⟨row, -, rfl⟩ := List.mem_map.mp audit; trivial
  · intro k hk
    have counted := h.counted k hk
    simp only [Counted, PassProgram.inFlight] at counted ⊢
    rw [view]
    by_cases same : k = a.id
    · subst same
      rw [current] at counted
      simpa [attempted.attempts] using counted
    · have : a.id ≠ k := fun e => same e.symm
      simpa [same, this] using counted

/-! ## The invariant of the world -/

structure Invariant (s : Store) (w : Workers ι) : Prop where
  owns : ∀ i ses, w.sessions i = some ses → Owns s w.stored w.log ses
  disjoint : ∀ i j si sj, w.sessions i = some si → w.sessions j = some sj → i ≠ j →
    ∀ k ∈ si.program.loaded, k ∉ sj.program.loaded
  rest : ∀ k, (∀ i ses, w.sessions i = some ses → k ∉ ses.program.loaded) →
    Counted s w.log (w.stored.actions.find? k) 0 k
  /-- A call in the log is of a session that has committed since, or still has the row. -/
  invoked : ∀ n p k leasedAt, w.log[n]? = some (p, .invoked k leasedAt) →
    (∃ m, n < m ∧ w.log[m]? = some (p, .committed)) ∨
    ∃ ses, w.sessions p = some ses ∧ k ∈ ses.program.loaded ∧ ses.since ≤ n ∧
      1 ≤ ses.program.args.maxAttempts
  exclusive : ∀ i ses, w.sessions i = some ses → ∀ k ∈ ses.program.loaded,
    ∀ n p leasedAt, w.log[n]? = some (p, .invoked k leasedAt) →
      (p = i ∧ ses.since ≤ n) ∨
      ∃ m, n < m ∧ m < ses.since ∧ w.log[m]? = some (p, .committed)

theorem Invariant.leaseExclusive {s : Store} {w : Workers ι} (h : Invariant s w) :
    LeaseExclusive w := by
  intro i ses a here phase n p leasedAt invoked
  have mine : a.id ∈ ses.program.loaded :=
    (h.owns i ses here).loaded a (by simp [PassProgram.pending, phase])
  exact (h.exclusive i ses here a.id mine n p leasedAt invoked).imp_right Or.inl

theorem Invariant.attemptsCounted {s : Store} {w : Workers ι} (h : Invariant s w)
    (closed : ∀ i, w.sessions i = none) : AttemptsCounted s w :=
  fun k => h.rest k fun i ses here => by rw [closed] at here; cases here

theorem Invariant.initial (s : Store) : Invariant s (Client.initial s : Workers ι) := by
  refine ⟨?_, ?_, ?_, ?_, ?_⟩
  · intro i ses h
    cases h
  · intro i j si sj h
    cases h
  · intro k _
    simp [Counted, Client.initial, invocations]
  · intro n p k t h
    simp [Client.initial] at h
  · intro i ses h
    cases h

/-- The calls in a log are not changed by entries for other actions. -/
theorem invocations_append_of_ne {log : List (ι × PassEvent)} {i : ι} {es : List PassEvent}
    {k : Nat} (other : ∀ t, .invoked k t ∉ es) :
    invocations (log ++ es.map (Prod.mk i)) k = invocations log k := by
  unfold invocations
  rw [List.countP_append, Nat.add_eq_left, List.countP_eq_zero]
  intro e he
  obtain ⟨e, mem, rfl⟩ := List.mem_map.mp he
  cases e with
  | invoked k' t =>
    simp only [decide_eq_true_eq]
    rintro rfl
    exact other t mem
  | committed => simp

/-- A row of no open session after a step of `i`, and not of `i` before it, is of none before. -/
theorem outside_of_kept {w u : Workers ι} {i : ι} {ses : Session PassProgram Write} {k : Nat}
    (here : w.sessions i = some ses) (mine : k ∉ ses.program.loaded)
    (kept : ∀ j sj, j ≠ i → w.sessions j = some sj → u.sessions j = some sj)
    (outside : ∀ j sj, u.sessions j = some sj → k ∉ sj.program.loaded) :
    ∀ j sj, w.sessions j = some sj → k ∉ sj.program.loaded := by
  intro j sj hj
  by_cases same : j = i
  · subst same
    cases here.symm.trans hj
    exact mine
  · exact outside j sj (kept j sj same hj)

variable [DecidableEq ι]

/-- A call opens on rows that no open session has in its batch. -/
theorem Invariant.begin {s : Store} {w : Workers ι} (h : Invariant s w) {i : ι} (args : PassArgs)
    (closed : w.sessions i = none)
    (alone : ∀ j ses, w.sessions j = some ses →
      ∀ a ∈ dueActions args w.stored, a.id ∉ ses.program.loaded) :
    Invariant s (Client.begin w i
      ⟨args, (dueActions args w.stored).map Action.id, dueActions args w.stored, .between⟩) := by
  have fresh : ∀ k ∈ (dueActions args w.stored).map Action.id,
      ∀ j ses, w.sessions j = some ses → k ∉ ses.program.loaded := by
    intro k hk j ses hj
    obtain ⟨a, ha, rfl⟩ := List.mem_map.mp hk
    exact alone j ses hj a ha
  have kept : ∀ j ses, w.sessions j = some ses → (Client.begin w i (⟨args,
      (dueActions args w.stored).map Action.id, dueActions args w.stored,
      .between⟩ : PassProgram)).sessions j = some ses := by
    intro j ses hj
    have : j ≠ i := fun e => by subst e; rw [closed] at hj; cases hj
    rw [Client.sessions_begin_of_ne this]
    exact hj
  refine ⟨?_, ?_, fun k hk => h.rest k fun j ses hj => hk j ses (kept j ses hj), ?_, ?_⟩
  · intro j ses hj
    rcases Client.sessions_begin hj with ⟨rfl, rfl⟩ | ⟨-, old⟩
    · refine ⟨dueActions_current, dueActions_nodup _ _, fun a ha => List.mem_map_of_mem ha,
        fun w hw => (by cases hw), ?_, fun _ _ _ phase => (by cases phase), ?_, le_rfl⟩
      · intro k hk
        exact h.rest k (fresh k hk)
      · intro _ k hk
        exact h.rest k (fresh k hk)
    · exact h.owns j ses old
  · intro j k sj sk hj hk ne x hx
    rcases Client.sessions_begin hj with ⟨rfl, rfl⟩ | ⟨-, oldj⟩ <;>
      rcases Client.sessions_begin hk with ⟨rfl, rfl⟩ | ⟨-, oldk⟩
    · exact absurd rfl ne
    · exact fresh x hx k sk oldk
    · exact fun hx' => fresh x hx' j sj oldj hx
    · exact h.disjoint j k sj sk oldj oldk ne x hx
  · intro n p k t hn
    rcases h.invoked n p k t hn with done | ⟨ses, hp, own⟩
    · exact Or.inl done
    · exact Or.inr ⟨ses, kept p ses hp, own⟩
  · intro j ses hj k hk n p t hn
    rcases Client.sessions_begin hj with ⟨rfl, rfl⟩ | ⟨-, old⟩
    · -- whoever called for `k` no longer has it in an open batch, so it has committed
      rcases h.invoked n p k t hn with ⟨m, lt, done⟩ | ⟨ses, hp, loaded, -⟩
      · exact Or.inr ⟨m, lt, (List.getElem?_eq_some_iff.mp done).1, done⟩
      · exact absurd loaded (fresh k hk p ses hp)
    · exact h.exclusive j ses old k hk n p t hn

/-- A statement of a call on its own batch. -/
theorem Invariant.advance {s : Store} {w : Workers ι} (h : Invariant s w) {i : ι}
    {ses : Session PassProgram Write} (here : w.sessions i = some ses) {p : PassProgram}
    (batch : p.loaded = ses.program.loaded) (args : p.args = ses.program.args) {ws : List Write}
    {es : List PassEvent}
    (mine : ∀ e ∈ es, ∃ k ∈ ses.program.loaded, ∃ t, e = .invoked k t)
    (allowed : es ≠ [] → 1 ≤ ses.program.args.maxAttempts)
    (owns : Owns s w.stored (w.log ++ es.map (Prod.mk i)) ⟨p, ses.writes ++ ws, ses.since⟩) :
    Invariant s (workers.advance w i ses p ws es) := by
  have others : ∀ k ∉ ses.program.loaded,
      invocations (w.log ++ es.map (Prod.mk i)) k = invocations w.log k := by
    refine fun k hk => invocations_append_of_ne fun t mem => ?_
    obtain ⟨k', hk', t', same⟩ := mine _ mem
    cases same
    exact hk hk'
  have moved : (workers.advance w i ses p ws es).sessions i =
      some ⟨p, ses.writes ++ ws, ses.since⟩ := by simp [Client.advance]
  have kept : ∀ j sj, j ≠ i → w.sessions j = some sj →
      (workers.advance w i ses p ws es).sessions j = some sj := by
    intro j sj ne hj
    rw [workers.sessions_advance_of_ne ne]
    exact hj
  refine ⟨?_, ?_, ?_, ?_, ?_⟩
  · intro j sj hj
    rcases workers.sessions_advance hj with ⟨rfl, rfl⟩ | ⟨ne, old⟩
    · exact owns
    · exact (h.owns j sj old).frame (fun _ _ => rfl)
        (fun k hk => others k (h.disjoint j i sj ses old here ne k hk)) (by simp [Client.advance])
  · intro j k sj sk hj hk ne x hx
    rcases workers.sessions_advance hj with ⟨rfl, rfl⟩ | ⟨-, oldj⟩ <;>
      rcases workers.sessions_advance hk with ⟨rfl, rfl⟩ | ⟨-, oldk⟩
    · exact absurd rfl ne
    · exact h.disjoint _ _ ses sk here oldk ne x (batch ▸ hx)
    · exact fun hx' => h.disjoint _ _ sj ses oldj here ne x hx (batch ▸ hx')
    · exact h.disjoint j k sj sk oldj oldk ne x hx
  · intro k hk
    have mine : k ∉ ses.program.loaded := batch ▸ hk i _ moved
    have counted := h.rest k (outside_of_kept here mine kept hk)
    unfold Counted at counted ⊢
    exact counted.trans (by rw [← others k mine]; rfl)
  · intro n q k t hn
    rcases Client.getElem?_append_cases hn with old | ⟨late, new⟩
    · rcases h.invoked n q k t old with ⟨m, lt, done⟩ | ⟨sq, hq, hk, le, one⟩
      · exact Or.inl ⟨m, lt, Client.getElem?_append_of_some _ done⟩
      · by_cases same : q = i
        · subst same
          cases here.symm.trans hq
          exact Or.inr ⟨_, moved, batch ▸ hk, le, args ▸ one⟩
        · exact Or.inr ⟨sq, kept q sq same hq, hk, le, one⟩
    · obtain ⟨e, he, same⟩ := List.mem_map.mp new
      obtain ⟨k', hk', t', rfl⟩ := mine e he
      cases same
      exact Or.inr ⟨_, moved, batch ▸ hk', (h.owns i ses here).since.trans late,
        args ▸ allowed (List.ne_nil_of_mem he)⟩
  · intro j sj hj k hk n q t hn
    have exclusive : ∀ sj', w.sessions j = some sj' → sj'.program.loaded = sj.program.loaded →
        sj'.since = sj.since → (q = j ∧ sj.since ≤ n) ∨ ∃ m, n < m ∧ m < sj.since ∧
          (w.log ++ es.map (Prod.mk i))[m]? = some (q, .committed) := by
      intro sj' hj' same since
      rcases Client.getElem?_append_cases hn with old | ⟨late, new⟩
      · rcases h.exclusive j sj' hj' k (same ▸ hk) n q t old with own | ⟨m, lt, lt', done⟩
        · exact Or.inl (since ▸ own)
        · exact Or.inr ⟨m, lt, since ▸ lt', Client.getElem?_append_of_some _ done⟩
      · obtain ⟨e, he, same'⟩ := List.mem_map.mp new
        obtain ⟨k', hk', t', rfl⟩ := mine e he
        cases same'
        by_cases own : j = i
        · subst own
          exact Or.inl ⟨rfl, since ▸ (h.owns j sj' hj').since.trans late⟩
        · exact absurd hk' (h.disjoint j i sj' ses hj' here own k (same ▸ hk))
    rcases workers.sessions_advance hj with ⟨rfl, rfl⟩ | ⟨-, oldj⟩
    · exact exclusive ses here batch.symm rfl
    · exact exclusive sj oldj rfl rfl

/-- A call that is through with its batch commits it. -/
theorem Invariant.commit {s : Store} {w : Workers ι} (h : Invariant s w) {i : ι}
    {ses : Session PassProgram Write} (here : w.sessions i = some ses)
    (through : ses.program.phase = .between) :
    Invariant s (workers.commit w i ses [.committed]) := by
  have own := h.owns i ses here
  have view : ∀ k ∉ ses.program.loaded,
      (w.stored.write ses.writes).actions.find? k = w.stored.actions.find? k :=
    fun k hk => Store.find?_write_of_not_mem own.writes hk
  have calls : ∀ k, invocations (w.log ++ [PassEvent.committed].map (Prod.mk i)) k =
      invocations w.log k := fun k => invocations_append_of_ne (by simp)
  have kept : ∀ j sj, j ≠ i → w.sessions j = some sj →
      (workers.commit w i ses [.committed]).sessions j = some sj := by
    intro j sj ne hj
    rw [workers.sessions_commit_of_ne ne]
    exact hj
  have old : ∀ {n : Nat} {q : ι} {k : Nat} {t : Instant},
      (w.log ++ [PassEvent.committed].map (Prod.mk i))[n]? = some (q, .invoked k t) →
      w.log[n]? = some (q, .invoked k t) := by
    intro n q k t hn
    rcases Client.getElem?_append_cases hn with old | ⟨-, new⟩
    · exact old
    · simp at new
  refine ⟨?_, ?_, ?_, ?_, ?_⟩
  · intro j sj hj
    obtain ⟨ne, hj⟩ := workers.sessions_commit hj
    exact (h.owns j sj hj).frame
      (fun k hk => view k (h.disjoint j i sj ses hj here ne k hk)) (fun k _ => calls k)
      (by simp [Client.commit])
  · intro j k sj sk hj hk
    exact h.disjoint j k sj sk (workers.sessions_commit hj).2 (workers.sessions_commit hk).2
  · intro k hk
    unfold Counted
    change ((w.stored.write ses.writes).actions.find? k).map _ =
      (s.actions.find? k).map fun a => a.attempts +
        invocations (w.log ++ [PassEvent.committed].map (Prod.mk i)) k
    rw [calls]
    by_cases mine : k ∈ ses.program.loaded
    · have counted := own.counted k mine
      simpa [Counted, PassProgram.inFlight, through] using counted
    · rw [view k mine]
      exact h.rest k (outside_of_kept here mine kept hk)
  · intro n q k t hn
    rcases h.invoked n q k t (old hn) with ⟨m, lt, done⟩ | ⟨sq, hq, hk, le, one⟩
    · exact Or.inl ⟨m, lt, Client.getElem?_append_of_some _ done⟩
    · by_cases same : q = i
      · subst same
        exact Or.inl ⟨w.log.length, (List.getElem?_eq_some_iff.mp (old hn)).1,
          by simp [Client.commit]⟩
      · exact Or.inr ⟨sq, kept q sq same hq, hk, le, one⟩
  · intro j sj hj k hk n q t hn
    obtain ⟨ne, hj⟩ := workers.sessions_commit hj
    rcases h.exclusive j sj hj k hk n q t (old hn) with own | ⟨m, lt, lt', done⟩
    · exact Or.inl own
    · exact Or.inr ⟨m, lt, lt', Client.getElem?_append_of_some _ done⟩

/-- A call that allows no attempts gives its batch up before it has called the transport. -/
theorem Invariant.rollback {s : Store} {w : Workers ι} (h : Invariant s w) {i : ι}
    {ses : Session PassProgram Write} (here : w.sessions i = some ses)
    (none : ses.program.args.maxAttempts < 1) :
    Invariant s (Client.rollback w i [] : Workers ι) := by
  have own := h.owns i ses here
  have kept : ∀ j sj, j ≠ i → w.sessions j = some sj →
      (Client.rollback w i [] : Workers ι).sessions j = some sj := by
    intro j sj ne hj
    rw [Client.sessions_rollback_of_ne ne]
    exact hj
  have log : (Client.rollback w i [] : Workers ι).log = w.log := by simp [Client.rollback]
  have left : ∀ {j sj}, (Client.rollback w i [] : Workers ι).sessions j = some sj →
      j ≠ i ∧ w.sessions j = some sj := fun hj => Client.sessions_rollback hj
  refine ⟨?_, ?_, ?_, ?_, ?_⟩
  · intro j sj hj
    rw [log]; exact h.owns j sj (left hj).2
  · intro j k sj sk hj hk
    exact h.disjoint j k sj sk (left hj).2 (left hk).2
  · intro k hk
    rw [log]
    by_cases mine : k ∈ ses.program.loaded
    · exact own.untouched none k mine
    · exact h.rest k (outside_of_kept here mine kept hk)
  · intro n q k t hn
    rw [log] at hn ⊢
    rcases h.invoked n q k t hn with done | ⟨sq, hq, hk, le, one⟩
    · exact Or.inl done
    · have other : q ≠ i := fun e => by subst e; cases here.symm.trans hq; omega
      exact Or.inr ⟨sq, kept q sq other hq, hk, le, one⟩
  · intro j sj hj k hk n q t hn
    rw [log] at hn ⊢
    exact h.exclusive j sj (left hj).2 k hk n q t hn

/-- Every admitted step. -/
theorem Invariant.step {s : Store} {w u : Workers ι} {i : ι} {l : PassStep} (h : Invariant s w)
    (settles : TransportSettles w (i, l)) (alone : SelectsAlone w (i, l))
    (step : workers.Stepped w i l u) : Invariant s u := by
  cases step with
  | begin p closed start =>
    cases l with
    | select args =>
      simp only [workers, selectDue] at start
      split at start
      · cases start
        exact h.begin args closed (alone closed)
      · cases start
    | _ => cases start
  | next ses p ws es here exec free =>
    have own := h.owns i ses here
    obtain ⟨program, writes, since⟩ := ses
    cases passCase_of_statement exec with
    | lease args loaded a rest =>
      refine h.advance here ?_ ?_ ?_ ?_ ?_
      · rfl
      · rfl
      · simp
      · simp
      · simpa using own.lease
    | called args loaded a b rest reply audits ok =>
      obtain ⟨-, unfinished⟩ := own.current a (List.mem_cons_self ..)
      have attempted := attempted_of_ok unfinished ok
      rw [attempted.calls]
      refine h.advance here ?_ ?_ ?_ ?_ ?_
      · rfl
      · rfl
      · simpa using own.loaded a (List.mem_cons_self ..)
      · exact fun _ => attempted.allowed
      · simpa using own.transport attempted i
    | outcome args loaded a b rest audits =>
      refine h.advance here ?_ ?_ ?_ ?_ ?_
      · rfl
      · rfl
      · simp
      · simp
      · simpa using own.outcome
  | restart ses p here exec =>
    obtain ⟨program, writes, since⟩ := ses
    cases passCase_of_statement exec
  | commit ses es here exec =>
    obtain ⟨program, writes, since⟩ := ses
    cases passCase_of_statement exec
    exact h.commit here rfl
  | rollback ses es here exec =>
    obtain ⟨program, writes, since⟩ := ses
    cases passCase_of_statement exec with
    | raised args loaded a rest reply e raises =>
      obtain ⟨-, unfinished⟩ := (h.owns i _ here).current a (List.mem_cons_self ..)
      have none := maxAttempts_of_error unfinished (settles _ here) raises
      have silent : transportCalls args (fun _ => reply) a = [] := by
        simp [transportCalls, none]
      rw [silent]
      exact h.rollback here none

/-- While no exception follows a transport call, and no call selects a row that another open call
has in its batch, in every interleaving the leases exclude each other and the stored attempts count
the transport calls. -/
theorem leaseExclusive_and_attemptsCounted (s : Store) (ls : List (ι × PassStep))
    (along : workers.machine.Along (fun w l => TransportSettles w l ∧ SelectsAlone w l)
      (Client.initial s) ls) (w : Workers ι)
    (run : workers.machine.run (Client.initial s) ls = some w) :
    LeaseExclusive w ∧ ((∀ i, w.sessions i = none) → AttemptsCounted s w) := by
  have invariant : Invariant s w :=
    workers.invariant_of_along (fun _ _ _ _ admitted h step => h.step admitted.1 admitted.2 step)
      along (Invariant.initial s) run
  exact ⟨invariant.leaseExclusive, invariant.attemptsCounted⟩

end Invariant

/-! ## Two workers -/

instance (w : Workers Bool) (l : Bool × PassStep) : Decidable (TransportSettles w l) :=
  match l with
  | (i, .transport reply) =>
    inferInstanceAs (Decidable (∀ ses ∈ w.sessions i, ses.program.settles reply = true))
  | (_, .select _) | (_, .lease) | (_, .outcome) | (_, .commit) => isTrue trivial

instance (w : Workers Bool) (l : Bool × PassStep) : Decidable (SelectsAlone w l) :=
  match l with
  | (i, .select args) =>
    have : Decidable (w.sessions i = none) := decidable_of_iff _ Option.isNone_iff_eq_none
    inferInstanceAs (Decidable (w.sessions i = none → ∀ j : Bool, ∀ ses ∈ w.sessions j,
      ∀ a ∈ dueActions args w.stored, a.id ∉ ses.program.loaded))
  | (_, .lease) | (_, .transport _) | (_, .outcome) | (_, .commit) => isTrue trivial

/-- A call with room for one action, to which the database answers action `k` first. -/
def firstOf (k : Nat) (now : Instant) : PassArgs :=
  { passArgs 3 with limit := 1, now := now, ties := [k] }

/-- Two workers take different rows at the same time; one times out. A later call repeats the
action that timed out. -/
def overlapping : List (Bool × PassStep) :=
  [(false, .select (firstOf 1 0)), (true, .select (firstOf 2 0)), (false, .lease), (true, .lease),
    (false, .transport (.result true "completed")), (true, .transport (.timeoutError "no answer")),
    (true, .outcome), (false, .outcome), (false, .commit), (true, .commit),
    (false, .select (firstOf 1 (minutes 1))), (false, .lease),
    (false, .transport (.result true "completed")), (false, .outcome), (false, .commit)]

theorem leaseExclusive_overlapping : ∃ w : Workers Bool,
    workers.machine.run (Client.initial twoQueued) overlapping = some w ∧
    w.stored.actions.rows.map Action.attempts = [1, 2] ∧
    LeaseExclusive w ∧ ((∀ i, w.sessions i = none) → AttemptsCounted twoQueued w) :=
  ⟨_, rfl, by decide,
    leaseExclusive_and_attemptsCounted twoQueued overlapping (by decide) _ rfl⟩

/-- A store that holds one queued action. -/
def oneQueued : Store := { Store.empty with actions := ⟨[queuedAt 1 0], by decide⟩ }

/-- The statements of a call on one row after its `SELECT`, the transport returning success. -/
def oneAttempt (i : Bool) : List (Bool × PassStep) :=
  [(i, .lease), (i, .transport (.result true "completed")), (i, .outcome), (i, .commit)]

/-- Both workers select the action before either commits. The second waits for the row, takes
its lease within the first one's lease time and calls the transport again, and writes its own
first attempt over that of the other. -/
theorem leases_overlap : ∃ v w : Workers Bool,
    workers.machine.run (Client.initial oneQueued)
      ((false, .select (passArgs 3)) :: (true, .select (passArgs 3)) :: oneAttempt false ++
        [(true, .lease)]) = some v ∧ ¬ LeaseExclusive v ∧
    workers.machine.run (Client.initial oneQueued)
      ((false, .select (passArgs 3)) :: (true, .select (passArgs 3)) :: oneAttempt false ++
        oneAttempt true) = some w ∧ (∀ i, w.sessions i = none) ∧
    invocations w.log 1 = 2 ∧ (w.stored.actions.find? 1).map Action.attempts = some 1 ∧
    ¬ AttemptsCounted oneQueued w := by
  refine ⟨_, _, rfl, ?_, rfl, ?_, by decide, by decide, ?_⟩
  · intro exclusive
    rcases exclusive true _ _ rfl rfl 0 false 0 rfl with own | ⟨m, lt, lt', -⟩ | late
    · exact absurd own.1 (by decide)
    · exact absurd lt' (by change ¬ m < 0; omega)
    · exact absurd late (by decide)
  · intro i
    cases i <;> rfl
  · intro counted
    exact absurd (counted 1) (by decide)

end SupportOps.Python
