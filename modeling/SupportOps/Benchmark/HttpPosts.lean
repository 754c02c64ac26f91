import SupportOps.Benchmark.Reordered
import SupportOps.DotNet.Added

/-!
# The workload over HTTP

`run_http_runtime` posts every event of the workload from a pool of threads, so the calls of
`IngestAsync` interleave and commit in any order. Within one cooldown the committed calls lead the
store through the tally of their events, one call at a time.
-/
namespace SupportOps.DotNet

open Library Benchmark

/-! ## What is posted -/

/-- The body that `post_event` sends to the .NET runtime: no time of occurrence. -/
def postBody (e : SharedEvent) : SyntheticEventRequest where
  source := some e.source
  assetId := some e.assetId
  category := some e.category
  severity := e.severity
  message := some e.message
  executorMode := some e.executorMode.value

/-- The event of a submitted future. -/
def submitted (events : List SharedEvent) (index : Nat) : Option SharedEvent :=
  events[index % events.length]?

/-- The time of occurrence is passed on, and nothing depends on it. -/
theorem normalize_occurredAt (culture : Culture) (request : SyntheticEventRequest)
    (occurredAt : Option Instant) (now : Instant) (guid : String) :
    normalize culture { request with occurredAt := occurredAt } now guid =
      (normalize culture request now guid).map fun e =>
        { e with occurredAt := occurredAt.getD now } := by
  unfold normalize
  dsimp only
  split <;> rfl

theorem Plain.normalize_postBody {culture : Culture} {e : SharedEvent} (plain : Plain culture e)
    (keeps : culture.KeepsModes) (now : Instant) (guid : String) :
    ∃ event, DotNet.normalize culture (postBody e) now guid = .ok event ∧ Reads event e ∧
      event.id = newId "evt" guid := by
  obtain ⟨event, normalized, reads, id⟩ := plain.normalize keeps now guid
  refine ⟨{ event with occurredAt := now }, ?_, ⟨reads.1, reads.2, reads.3, reads.4⟩, id⟩
  have same := normalize_occurredAt culture (toRequest e) none now guid
  rw [normalized] at same
  exact same

/-! ## One call -/

/-- The store after committed calls of one cooldown, that have read the clock between `since` and
`latest`: its incidents are the open scopes of the tally, and its actions wait for their first
attempt. -/
structure Posted (since latest : Instant) (s : Store) (t : Tally (String × String)) : Prop where
  counters : s.eventually = t.counters
  opened : ∀ k, k ∈ t.opened ↔ ∃ i ∈ s.incidents.rows, (i.assetId, i.category) = k
  recent : ∀ i ∈ s.incidents.rows, since ≤ i.createdAt
  queued : ∀ a ∈ s.actions.rows, a.status = .queued ∧ a.attempts = 0 ∧ a.nextAttemptAt ≤ latest

namespace Posted

variable {since latest : Instant} {s u : Store} {t : Tally (String × String)} {e : SharedEvent}

theorem empty (since latest : Instant) :
    Posted since latest .empty (dotnetGrouping.tally []) where
  counters := rfl
  opened k := by simp [Grouping.tally, Store.empty]
  recent i hi := by cases hi
  queued a ha := by cases ha

/-- One more decided event with its rows. -/
theorem append (h : Posted since latest s t) {now : Instant} {r : EventIngestionResult}
    {incidents : List Incident} {actions : List QueuedAction}
    (added : Added s u e now (dotnetGrouping.decide t e) r incidents actions)
    (begun : since ≤ now) (ended : now ≤ latest) :
    Posted since latest u (dotnetGrouping.next t e) where
  counters := by
    rw [added.eventually, h.counters]
    rfl
  opened k := by
    have scopes : incidents.map (fun i => (i.assetId, i.category)) =
        if (dotnetGrouping.decide t e).opens then [dotnetGrouping.scopeOf e] else [] := by
      have scopes := congrArg (List.map fun x : String × String × Instant => (x.1, x.2.1))
        added.opened
      rw [List.map_map] at scopes
      refine Eq.trans scopes ?_
      split <;> rfl
    have opens : (∃ i ∈ incidents, (i.assetId, i.category) = k) ↔
        (dotnetGrouping.decide t e).opens = true ∧ k = dotnetGrouping.scopeOf e := by
      rw [← List.mem_map (f := fun i : Incident => (i.assetId, i.category)), scopes]
      split
      · next opens => simp [opens]
      · next quiet => simp [quiet]
    rw [Grouping.mem_opened_next, h.opened, added.addedIncidents, ← opens]
    simp only [List.mem_append, or_and_right, exists_or]
  recent i hi := by
    rw [added.addedIncidents] at hi
    rcases List.mem_append.mp hi with old | new
    · exact h.recent i old
    · have created := List.mem_map_of_mem (f := fun i : Incident =>
        (i.assetId, i.category, i.createdAt)) new
      rw [added.opened] at created
      split at created
      · have same := congrArg (fun x => x.2.2) (List.mem_singleton.mp created)
        exact begun.trans_eq same.symm
      · cases created
  queued a ha := by
    rw [added.addedActions] at ha
    rcases List.mem_append.mp ha with old | new
    · exact h.queued a old
    · obtain ⟨status, attempts, due⟩ := added.queued a new
      exact ⟨status, attempts, due.trans_le ended⟩

/-- Within the window the cooldown query finds an incident exactly when the scope is open. -/
theorem isSome_recentOpenIncident (h : Posted since latest s t) {event : OperationEvent}
    (reads : Reads event e) {now : Instant} (past : now - benchmarkOptions.cooldown ≤ since)
    (guids : Guids) :
    ((decisionCall benchmarkOptions event now guids).recentOpenIncident s).isSome = true ↔
      dotnetGrouping.scopeOf e ∈ t.opened := by
  rw [h.opened, isSome_recentOpenIncident_iff]
  constructor
  · rintro ⟨i, hi, asset, category, -⟩
    exact ⟨i, hi, congrArg₂ Prod.mk (asset.trans reads.assetId)
      (category.trans reads.category)⟩
  · rintro ⟨i, hi, scope⟩
    obtain ⟨asset, category⟩ := Prod.mk.inj scope
    refine ⟨i, hi, asset.trans reads.assetId.symm, category.trans reads.category.symm, ?_,
      past.trans (h.recent i hi)⟩
    cases i.status
    rfl

end Posted

/-- A recorded decision is the one of the tally. -/
theorem Recorded.posted {culture : Culture} {since latest : Instant} {s u : Store}
    {t : Tally (String × String)} {e : SharedEvent} {event : OperationEvent} {now : Instant}
    {guids : Guids} {r : EventIngestionResult} (h : Posted since latest s t)
    (reads : Reads event e) (begun : since ≤ now) (ended : now ≤ latest)
    (near : latest - benchmarkOptions.cooldown ≤ since)
    (newEvent : s.events.find? event.id = none)
    (recorded : Recorded culture (decisionCall benchmarkOptions event now guids) s r u) :
    Posted since latest u (dotnetGrouping.next t e) := by
  have past : now - benchmarkOptions.cooldown ≤ since :=
    (Int.sub_le_sub_right ended _).trans near
  have query := h.isSome_recentOpenIncident reads past guids
  have decided : decisionOn e
      ((decisionCall benchmarkOptions event now guids).recentOpenIncident s).isSome =
      dotnetGrouping.decide t e := by
    cases worth : dotnetPolicy.band e.category e.severity with
    | none => rw [decisionOn_of_none _ worth, Grouping.decide_of_none worth]
    | some band =>
      rw [decisionOn_of_some _ worth, if_congr query rfl rfl]
      split
      · next opened => rw [Grouping.decide_of_mem worth opened]
      · next closed => rw [Grouping.decide_of_notMem worth closed]
  obtain ⟨incidents, actions, added⟩ := recorded.added (by decide) reads newEvent
  rw [decided] at added
  exact h.append added begun ended

/-! ## Every interleaving of the pool -/

/-- What the pool does: a future posts its event once, within the window of clock readings, and
calls go on statement by statement. -/
def Posts (events : List SharedEvent) (count : Nat) (since latest : Instant) :
    Nat × IngestStep → Prop
  | (index, .ingest request now _) => index < count ∧
      (submitted events index).map postBody = some request ∧ since ≤ now ∧ now ≤ latest
  | (_, .statement) => True

instance (events : List SharedEvent) (count : Nat) (since latest : Instant) :
    DecidablePred (Posts events count since latest)
  | (_, .ingest _ _ _) => inferInstanceAs (Decidable (_ ∧ _))
  | (_, .statement) => inferInstanceAs (Decidable True)

/-- A call is about the event of its future, and has read the clock within the window. -/
def Asked (events : List SharedEvent) (count : Nat) (since latest : Instant) (index : Nat)
    (event : OperationEvent) (now : Instant) : Prop :=
  index < count ∧ ∃ e, submitted events index = some e ∧ Reads event e ∧ since ≤ now ∧ now ≤ latest

/-- Every open call and every answer is about the event of its future. -/
structure AllAsked (events : List SharedEvent) (count : Nat) (since latest : Instant)
    (w : World Nat Store Write Unit IngestProgram Answer) : Prop where
  sessions : ∀ i ses, w.sessions i = some ses →
    Asked events count since latest i ses.program.operationEvent ses.program.now
  log : ∀ x ∈ w.log, Asked events count since latest x.1 x.2.call.operationEvent x.2.call.now

section Pool

variable {culture : Culture} {events : List SharedEvent} {count : Nat} {since latest : Instant}

theorem AllAsked.step (keeps : culture.KeepsModes) (plain : ∀ e ∈ events, Plain culture e)
    {w u : World Nat Store Write Unit IngestProgram Answer} {i : Nat} {l : IngestStep}
    (h : AllAsked events count since latest w) (posts : Posts events count since latest (i, l))
    (step : (ingestion culture benchmarkOptions).Stepped w i l u) :
    AllAsked events count since latest u := by
  cases step with
  | begin p closed start =>
    refine ⟨fun j ses hj => ?_, h.log⟩
    rcases Client.sessions_begin hj with ⟨rfl, rfl⟩ | ⟨-, old⟩
    · cases l with
      | statement => cases start
      | ingest request now guids =>
        obtain ⟨inside, body, begun, ended⟩ := posts
        obtain ⟨e, found, rfl⟩ := Option.map_eq_some_iff.mp body
        obtain ⟨event, normalized, reads, -⟩ :=
          (plain e (List.mem_of_getElem? found)).normalize_postBody keeps now guids.event
        simp only [ingestion, openCall, normalized] at start
        cases start
        exact ⟨inside, e, found, reads, begun, ended⟩
    · exact h.sessions j ses old
  | next ses p ws es here exec free =>
    obtain ⟨rfl, -⟩ := (serial culture benchmarkOptions).next exec
    refine ⟨fun j sj hj => ?_, by rw [Client.advance, List.map_nil, List.append_nil]; exact h.log⟩
    rcases Client.sessions_advance _ hj with ⟨rfl, rfl⟩ | ⟨-, old⟩
    · have asked := h.sessions j ses here
      cases exec_statement exec with
      | write x next sent ok => exact asked
      | read next sent begun => exact asked
    · exact h.sessions j sj old
  | restart ses p here exec => exact absurd exec (serial culture benchmarkOptions).restart
  | commit ses es here exec =>
    refine ⟨fun j sj hj => h.sessions j sj (Client.sessions_commit _ hj).2, fun x hx => ?_⟩
    cases exec_statement exec with
    | commit result phase =>
      rcases List.mem_append.mp hx with old | new
      · exact h.log x old
      · obtain rfl := List.mem_singleton.mp new
        exact h.sessions i ses here
  | rollback ses es here exec =>
    obtain rfl := (serial culture benchmarkOptions).rollback exec
    refine ⟨fun j sj hj => h.sessions j sj (Client.sessions_rollback hj).2, ?_⟩
    rw [Client.rollback, List.map_nil, List.append_nil]
    exact h.log

variable (keeps : culture.KeepsModes) (plain : ∀ e ∈ events, Plain culture e)
  {ls : List (Nat × IngestStep)} (posts : ∀ l ∈ ls, Posts events count since latest l)
  {w : World Nat Store Write Unit IngestProgram Answer}
  (pool : (ingestion culture benchmarkOptions).machine.run (Client.initial .empty) ls = some w)

include keeps plain posts pool

theorem allAsked_of_run : AllAsked events count since latest w := by
  refine (ingestion culture benchmarkOptions).invariant_of_along
    (G := fun _ il => Posts events count since latest il ∧ True)
    (fun w i l u posts h step => h.step keeps plain posts.1 step)
    (((ingestion culture benchmarkOptions).machine.along_true _ ls).and_label _ posts) ?_ pool
  exact ⟨fun i ses hi => (by cases hi), fun x hx => (by cases hx)⟩

/-- Whatever the order of the commits, the store holds what the tally of the committed events
says. -/
theorem posted_of_run (near : latest - benchmarkOptions.cooldown ≤ since) :
    Posted since latest w.stored
      (dotnetGrouping.tally (w.log.filterMap fun x => submitted events x.1)) := by
  refine (serial culture benchmarkOptions).call_invariant
    (I := fun s log =>
      (∀ x ∈ log, Asked events count since latest x.1 x.2.call.operationEvent x.2.call.now) →
      Posted since latest s (dotnetGrouping.tally (log.filterMap fun x => submitted events x.1)))
    (fun s log i p a t ih call asked => ?_) (fun _ => .empty since latest) pool
    (allAsked_of_run keeps plain posts pool).log
  have before := ih fun x hx => asked x (List.mem_append_left _ hx)
  obtain ⟨r, rfl, newEvent, recorded⟩ := recorded_of_call culture benchmarkOptions call
  obtain ⟨-, e, found, reads, begun, ended⟩ := asked _ (List.mem_append_right _ (.head _))
  have added : ((log ++ [(i, (⟨p.call benchmarkOptions, r⟩ : Answer))]).filterMap fun x =>
      submitted events x.1) = (log.filterMap fun x => submitted events x.1) ++ [e] := by
    rw [List.filterMap_append, List.filterMap_cons, found]
    rfl
  rw [added, Grouping.tally_concat]
  exact recorded.posted before reads begun ended near newEvent

end Pool

end SupportOps.DotNet
