import SupportOps.Library.Runs
import SupportOps.Python.Processor

/-!
# Idempotency records in sequential runs

Calls of `process` one after another, each committed or rolled back before the next. Every
idempotency record then holds a result: it is inserted and completed in one transaction.
-/
namespace SupportOps.Python

open Library

/-- One `process` call with its settings and surroundings. -/
structure Call where
  settings : Settings
  env : Surroundings
  payload : EventCreate

/-- Sequential calls, each committed or rolled back before the next. -/
def calls : Machine Store Call :=
  ⟨fun s c => some (processed c.settings c.env c.payload.toEventBody s)⟩

/-- Every idempotency record holds the id of a stored event. -/
def RecordsComplete (s : Store) : Prop :=
  ∀ r ∈ s.records.rows, ∃ k, r.eventId = some k ∧ (s.events.find? k).isSome

/-- The record of a key comes with the event it answers with. -/
theorem RecordsComplete.answered {s : Store} (h : RecordsComplete s) {key : String}
    {record : IdempotencyRecord} (found : s.recordByKey key = some record) :
    ∃ k event, completedRecord s key = some (record, k) ∧ s.events.find? k = some event := by
  obtain ⟨k, hk, stored⟩ := h record (List.mem_of_find?_eq_some found)
  obtain ⟨event, hevent⟩ := Option.isSome_iff_exists.mp stored
  exact ⟨k, event, by simp [completedRecord, found, hk], hevent⟩

theorem RecordsComplete.grow {s t : Store} (h : RecordsComplete s) (records : t.records = s.records)
    (e : OperationalEvent) (events : t.events = s.events.insert e) : RecordsComplete t := by
  intro r hr
  rw [records] at hr
  obtain ⟨k, hk, stored⟩ := h r hr
  refine ⟨k, hk, ?_⟩
  rw [events, Table.find?_insert]
  simp [stored]

theorem RecordsComplete.processed {s : Store} (h : RecordsComplete s) (c : Call) :
    RecordsComplete (processed c.settings c.env c.payload.toEventBody s) := by
  unfold Python.processed
  split
  · next r t ok =>
    cases processCase_of_process ok with
    | unkeyed _ new => exact h.grow new.records_eq _ new.events_eq
    | @owned key o u keyed vacant new =>
      intro r hr
      change r ∈ (u.records.modify s.records.nextId _
        (IdempotencyRecord.key_complete o.columns c.env.now)).rows at hr
      change ∃ k, r.eventId = some k ∧ (u.events.find? k).isSome
      obtain ⟨q, hq, rfl⟩ := u.records.mem_modify.mp hr
      by_cases same : Keyed.key q = s.records.nextId
      · exact ⟨o.event.id, by simp [same, IdempotencyRecord.complete, Processed.columns],
          by simp [new.find?_event]⟩
      · rw [if_neg same]
        have old : q ∈ s.records.rows := by
          rw [new.records_eq] at hq
          rcases s.records.mem_of_mem_insert hq with old | rfl
          · exact old
          · exact absurd rfl same
        obtain ⟨k, hk, stored⟩ := h q old
        refine ⟨k, hk, ?_⟩
        rw [new.events_eq, Table.find?_insert]
        change ((s.events.find? k).or _).isSome
        simp [stored]
    | @replayed key record k event keyed completed found =>
      intro r hr
      change r ∈ (s.records.modify record.id _ (IdempotencyRecord.key_hit c.env.now)).rows at hr
      obtain ⟨q, hq, rfl⟩ := s.records.mem_modify.mp hr
      have same : (if Keyed.key q = record.id then q.hit c.env.now else q).eventId = q.eventId := by
        split <;> rfl
      rw [same]
      exact h q hq
  · exact h

theorem recordsComplete_of_run {assets : Table Asset} {rules : Table AutomationRule} {s : Store}
    {cs : List Call} (run : calls.run (Store.seeded assets rules) cs = some s) :
    RecordsComplete s := by
  refine calls.run_invariant ?_ ?_ run
  · intro s c t h step
    cases step; exact h.processed c
  · intro r hr; cases hr

end SupportOps.Python
