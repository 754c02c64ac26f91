import SupportOps.DotNet.Store
import SupportOps.Library.Calendar

/-!
# Timestamps as text

`Format` and `Parse` of `SqliteOpsStore`, and the queries on the texts that `Format` writes. SQLite
compares them byte by byte; they are in the order of their instants, so that the queries select
and sort as the store does on instants.
-/
namespace SupportOps.DotNet

open Library

/-! ## `DateTimeOffset` -/

def ticksPerMinute : Int := 600000000

def ticksPerDay : Nat := 864000000000

/-- The last tick of the year 9999, counted from the start of the year 1. -/
def maxTicks : Nat := 3155378975999999999

/-- The ticks of a `DateTime`. -/
def InRange (ticks : Int) : Prop := 0 ≤ ticks ∧ ticks ≤ maxTicks

instance (ticks : Int) : Decidable (InRange ticks) := inferInstanceAs (Decidable (_ ∧ _))

/-- An instant and an offset of at most 14 hours, both the instant and the time on the clock in
range. -/
@[ext] structure DateTimeOffset where
  utcTicks : Instant
  offsetMinutes : Int
  utc_range : InRange utcTicks
  offset_range : -840 ≤ offsetMinutes ∧ offsetMinutes ≤ 840
  clock_range : InRange (utcTicks + offsetMinutes * ticksPerMinute)

namespace DateTimeOffset

/-- The time on the clock. -/
def clockTicks (d : DateTimeOffset) : Int := d.utcTicks + d.offsetMinutes * ticksPerMinute

def toUniversalTime (d : DateTimeOffset) : DateTimeOffset where
  utcTicks := d.utcTicks
  offsetMinutes := 0
  utc_range := d.utc_range
  offset_range := by decide
  clock_range := by
    rw [Int.zero_mul, Int.add_zero]
    exact d.utc_range

/-- A time on the clock at an offset, unless it is out of range. -/
def ofClock (ticks offsetMinutes : Int) : Option DateTimeOffset :=
  if h : InRange (ticks - offsetMinutes * ticksPerMinute) ∧
      (-840 ≤ offsetMinutes ∧ offsetMinutes ≤ 840) ∧ InRange ticks then
    some ⟨ticks - offsetMinutes * ticksPerMinute, offsetMinutes, h.1, h.2.1, by
      rw [Int.sub_add_cancel]
      exact h.2.2⟩
  else none

end DateTimeOffset

/-! ## Format and Parse -/

/-- Year, month, day, hour, minute, second and the fraction of a second. -/
def clockValues (ticks : Nat) : List Nat :=
  (Calendar.Date.ofDayNumber (ticks / ticksPerDay)).values ++
    places [10000000, 60, 60] (ticks % ticksPerDay)

/-- `yyyy-MM-ddTHH:mm:ss.fffffff`. -/
def clockLayout : List Field :=
  [⟨[], 4⟩, ⟨['-'], 2⟩, ⟨['-'], 2⟩, ⟨['T'], 2⟩, ⟨[':'], 2⟩, ⟨[':'], 2⟩, ⟨['.'], 7⟩]

/-- `zzz`, after its sign. -/
def offsetLayout : List Field := [⟨[], 2⟩, ⟨[':'], 2⟩]

/-- The round-trip format `O`. -/
def DateTimeOffset.roundtrip (d : DateTimeOffset) : List Char :=
  render clockLayout (clockValues d.clockTicks.toNat) ++
    (if 0 ≤ d.offsetMinutes then '+' else '-') ::
      render offsetLayout [d.offsetMinutes.natAbs / 60, d.offsetMinutes.natAbs % 60]

def format (value : DateTimeOffset) : String := String.ofList value.toUniversalTime.roundtrip

/-- The ticks of a time on the clock, if there is one. -/
def clockOfValues : List Nat → Option Nat
  | [year, month, day, hour, minute, second, fraction] =>
    if hour < 24 ∧ minute < 60 ∧ second < 60 then
      (Calendar.Date.ofParts year month day).map fun date =>
        date.dayNumber * ticksPerDay + (((hour * 60 + minute) * 60 + second) * 10000000 + fraction)
    else none
  | _ => none

/-- `DateTimeOffset.Parse` of texts in the format `O`, the only ones that the store writes. -/
def parse (value : String) : Option DateTimeOffset := do
  let (values, zone) ← scan clockLayout value.toList
  let ticks ← clockOfValues values
  match zone with
  | '+' :: zone => offset ticks 1 (scan offsetLayout zone)
  | '-' :: zone => offset ticks (-1) (scan offsetLayout zone)
  | _ => none
where
  offset (ticks : Nat) (sign : Int) : Option (List Nat × List Char) → Option DateTimeOffset
    | some ([hours, minutes], []) =>
      if minutes < 60 then
        DateTimeOffset.ofClock ticks (sign * (hours * 60 + minutes : Nat))
      else none
    | _ => none

/-! ## The time on the clock -/

theorem places_clock (ticks : Nat) : places [10000000, 60, 60] ticks =
    [ticks / 10000000 / 60 / 60, ticks / 10000000 / 60 % 60, ticks / 10000000 % 60,
      ticks % 10000000] := rfl

theorem clockOfValues_clockValues (ticks : Nat) :
    clockOfValues (clockValues ticks) = some ticks := by
  have day := (Calendar.Date.ofDayNumber (ticks / ticksPerDay)).ofParts_self
  have within : ticks % ticksPerDay < 864000000000 := Nat.mod_lt _ (by decide)
  have split := Nat.div_add_mod' ticks ticksPerDay
  rw [clockValues, places_clock]
  simp only [Calendar.Date.values, List.cons_append, List.nil_append, clockOfValues, day,
    Option.map_some, Calendar.Date.dayNumber_ofDayNumber]
  generalize ticks % ticksPerDay = r at *
  rw [if_pos (by omega)]
  congr 1
  omega

theorem clockValues_inj {s t : Nat} : clockValues s = clockValues t ↔ s = t := by
  refine ⟨fun same => ?_, fun same => same ▸ rfl⟩
  have read := clockOfValues_clockValues s
  rw [same, clockOfValues_clockValues] at read
  exact (Option.some.inj read).symm

/-- Times on the clock compare as their numbers do. -/
theorem clockValues_lt_iff {s t : Nat} : clockValues s < clockValues t ↔ s < t := by
  rw [clockValues, clockValues, append_lt_append_iff (by simp), Calendar.Date.values_lt_iff,
    Calendar.Date.values_inj,
    ← Calendar.Date.dayNumber_inj, Calendar.Date.dayNumber_ofDayNumber,
    Calendar.Date.dayNumber_ofDayNumber, places_lt_iff, ← lt_iff_div_mod]

theorem fits_clockValues {ticks : Nat} (range : ticks ≤ maxTicks) :
    Fits clockLayout (clockValues ticks) := by
  have number := Calendar.Date.dayNumber_ofDayNumber (ticks / ticksPerDay)
  have within : ticks % ticksPerDay < 864000000000 := Nat.mod_lt _ (by decide)
  have inside : ticks / ticksPerDay < Calendar.daysOfYears 9999 := by
    have days : Calendar.daysOfYears 9999 = 3652059 := by decide
    unfold ticksPerDay maxTicks at *
    omega
  rw [clockValues, places_clock]
  generalize Calendar.Date.ofDayNumber (ticks / ticksPerDay) = date at *
  generalize ticks % ticksPerDay = r at *
  have year := Calendar.Date.year_le (number.symm ▸ inside : date.dayNumber < _)
  have month := date.month_le
  have day := date.day_le_31
  simp only [Fits, clockLayout, Calendar.Date.values, List.cons_append, List.nil_append,
    List.forall₂_cons, List.forall₂_nil_left_iff, and_true]
  omega

/-! ## Round trips -/

namespace DateTimeOffset

variable (d : DateTimeOffset)

theorem clockTicks_toNat : d.clockTicks = d.clockTicks.toNat ∧ d.clockTicks.toNat ≤ maxTicks := by
  have range := d.clock_range
  unfold InRange at range
  unfold clockTicks
  omega

theorem ofClock_self : ofClock d.clockTicks d.offsetMinutes = some d := by
  have back : d.clockTicks - d.offsetMinutes * ticksPerMinute = d.utcTicks := Int.add_sub_cancel _ _
  rw [ofClock, dif_pos ⟨back.symm ▸ d.utc_range, d.offset_range, d.clock_range⟩]
  exact congrArg some (DateTimeOffset.ext back rfl)

end DateTimeOffset

theorem parse_roundtrip (d : DateTimeOffset) : parse (String.ofList d.roundtrip) = some d := by
  obtain ⟨clock, range⟩ := d.clockTicks_toNat
  have offset := d.offset_range
  have fits : Fits offsetLayout [d.offsetMinutes.natAbs / 60, d.offsetMinutes.natAbs % 60] := by
    simp only [Fits, offsetLayout, List.forall₂_cons, List.forall₂_nil_left_iff, and_true]
    omega
  have zone := scan_render fits []
  rw [List.append_nil] at zone
  have minutes : d.offsetMinutes.natAbs % 60 < 60 := Nat.mod_lt _ (by decide)
  have whole : d.offsetMinutes.natAbs / 60 * 60 + d.offsetMinutes.natAbs % 60 =
      d.offsetMinutes.natAbs := Nat.div_add_mod' _ _
  have self := d.ofClock_self
  rw [clock] at self
  unfold parse DateTimeOffset.roundtrip
  rw [String.toList_ofList, scan_render (fits_clockValues range)]
  by_cases east : 0 ≤ d.offsetMinutes
  · have sign : (1 : Int) * d.offsetMinutes.natAbs = d.offsetMinutes := by omega
    simp only [if_pos east, Option.bind_eq_bind, Option.bind_some, clockOfValues_clockValues,
      zone, parse.offset, if_pos minutes, whole, sign, self]
  · have sign : (-1 : Int) * d.offsetMinutes.natAbs = d.offsetMinutes := by omega
    simp only [if_neg east, Option.bind_eq_bind, Option.bind_some, clockOfValues_clockValues,
      zone, parse.offset, if_pos minutes, whole, sign, self]

theorem parse_format (a : DateTimeOffset) : parse (format a) = some a.toUniversalTime :=
  parse_roundtrip _

/-! ## Order -/

/-- The text in a column that holds an instant. -/
def column (t : Instant) : String :=
  String.ofList (render clockLayout (clockValues t.toNat) ++ ['+', '0', '0', ':', '0', '0'])

theorem format_eq_column (a : DateTimeOffset) : format a = column a.utcTicks := by
  have clock : a.toUniversalTime.clockTicks = a.utcTicks := by
    rw [DateTimeOffset.clockTicks, DateTimeOffset.toUniversalTime, Int.zero_mul, Int.add_zero]
  have offset : a.toUniversalTime.offsetMinutes = 0 := rfl
  have zone : render offsetLayout [Int.natAbs 0 / 60, Int.natAbs 0 % 60] =
      ['0', '0', ':', '0', '0'] := by decide
  rw [format, DateTimeOffset.roundtrip, clock, offset, if_pos (Int.le_refl 0), zone]
  rfl

section Order

variable {s t : Instant}

theorem InRange.toNat_le (h : InRange t) : t.toNat ≤ maxTicks := by
  unfold InRange at h
  omega

theorem ascii_clock (ticks : Nat) :
    Ascii (render clockLayout (clockValues ticks) ++ ['+', '0', '0', ':', '0', '0']) := by
  refine ascii_append (ascii_render ?_ _) ?_
  · simp [Ascii, clockLayout]
  · simp [Ascii]

/-- The texts of instants in range compare as the instants do. -/
theorem column_lt_iff (hs : InRange s) (ht : InRange t) :
    bytes (column s) < bytes (column t) ↔ s < t := by
  have fs := fits_clockValues hs.toNat_le
  have ft := fits_clockValues ht.toNat_le
  have ticks : ∀ m n : Int, 0 ≤ m → (m.toNat < n.toNat ↔ m < n) := by omega
  rw [column, column, bytes_lt_iff (ascii_clock _) (ascii_clock _),
    append_lt_append_iff (length_render fs ft), render_lt_iff fs ft, clockValues_lt_iff,
    or_iff_left fun same => List.lt_irrefl _ same.2]
  exact ticks s t hs.1

theorem column_le_iff (hs : InRange s) (ht : InRange t) :
    bytes (column s) ≤ bytes (column t) ↔ s ≤ t :=
  (not_congr (column_lt_iff ht hs)).trans Int.not_lt

theorem column_inj (hs : InRange s) (ht : InRange t) : column s = column t ↔ s = t := by
  have fs := fits_clockValues hs.toNat_le
  have ft := fits_clockValues ht.toNat_le
  have ticks : ∀ m n : Int, 0 ≤ m → 0 ≤ n → (m.toNat = n.toNat ↔ m = n) := by omega
  rw [column, column, String.ofList_inj, List.append_left_inj, render_inj fs ft, clockValues_inj]
  exact ticks s t hs.1 ht.1

end Order

/-! ## Queries on the texts -/

/-- The times that a statement writes are instants of `DateTimeOffset`s. -/
def Write.Dated : Write → Prop
  | .createIncident row => InRange row.createdAt
  | .createAction row => InRange row.createdAt ∧ InRange row.nextAttemptAt
  | .updateAction action => InRange action.nextAttemptAt
  | _ => True

instance (w : Write) : Decidable w.Dated := by
  cases w <;> unfold Write.Dated <;> infer_instance

namespace Store

/-- Every time in the rows that the queries read is the instant of a `DateTimeOffset`. -/
structure Dated (s : Store) : Prop where
  incidents : ∀ i ∈ s.incidents.rows, InRange i.createdAt
  created : ∀ a ∈ s.actions.rows, InRange a.createdAt
  next : ∀ a ∈ s.actions.rows, InRange a.nextAttemptAt

theorem dated_empty : empty.Dated where
  incidents := fun _ h => by cases h
  created := fun _ h => by cases h
  next := fun _ h => by cases h

theorem Dated.apply {s : Store} (h : s.Dated) {w : Write} (row : w.Dated) : (w.apply s).Dated := by
  cases w with
  | beginImmediate => exact h
  | insertEvent _ => exact { h with }
  | createIncident row' => exact { h with incidents := s.incidents.forall_insert h.incidents row }
  | createAction row' =>
    exact
      { h with
        created := s.actions.forall_insert h.created row.1
        next := s.actions.forall_insert h.next row.2 }
  | updateAction action =>
    exact
      { h with
        created := s.actions.forall_modify h.created action.key_updated fun _ kept => kept
        next := s.actions.forall_modify h.next action.key_updated fun _ _ => row }
  | addAudit _ => exact { h with }

/-- Statements that write dates keep the store dated. -/
theorem Dated.write {s : Store} (h : s.Dated) (ws : List Write) (rows : ∀ w ∈ ws, w.Dated) :
    (s.write ws).Dated := by
  induction ws generalizing s with
  | nil => exact h
  | cons w ws ih => exact ih (h.apply (rows w (.head _))) fun v hv => rows v (.tail _ hv)

/-- The `WHERE` clause of `GetRecentOpenIncidentAsync`, with `created_at >= $since` on texts. -/
def recentOpenText (assetId category since : String) (i : Incident) : Bool :=
  decide (i.assetId = assetId) && decide (i.category = category) &&
    decide (i.status = .opened) && decide (bytes since ≤ bytes (column i.createdAt))

/-- `ORDER BY created_at DESC`, on texts. -/
def newerText (i j : Incident) : Prop := bytes (column j.createdAt) ≤ bytes (column i.createdAt)

instance : DecidableRel newerText := fun i j =>
  inferInstanceAs (Decidable (bytes (column j.createdAt) ≤ bytes (column i.createdAt)))

/-- `GetRecentOpenIncidentAsync`, on texts. -/
def getRecentOpenIncidentText (s : Store) (assetId category since : String) (ties : List String) :
    Option Incident :=
  (s.incidents.select (recentOpenText assetId category since)
    (tied Incident.id ties newerText) 1).head?

/-- `ORDER BY next_attempt_at ASC, created_at ASC`, on texts. -/
def dueBeforeText (a b : QueuedAction) : Prop :=
  bytes (column a.nextAttemptAt) < bytes (column b.nextAttemptAt) ∨
    column a.nextAttemptAt = column b.nextAttemptAt ∧
      bytes (column a.createdAt) ≤ bytes (column b.createdAt)

instance : DecidableRel dueBeforeText := fun a b =>
  inferInstanceAs (Decidable (bytes (column a.nextAttemptAt) < bytes (column b.nextAttemptAt) ∨
    column a.nextAttemptAt = column b.nextAttemptAt ∧
      bytes (column a.createdAt) ≤ bytes (column b.createdAt)))

/-- The `WHERE` clause of `GetDueActionsAsync`, with `next_attempt_at <= $now` on texts. -/
def dueText (now : String) (a : QueuedAction) : Bool :=
  decide (a.status = .queued ∨ a.status = .retry) &&
    decide (bytes (column a.nextAttemptAt) ≤ bytes now)

/-- `GetDueActionsAsync`, on texts. -/
def getDueActionsText (s : Store) (limit : Nat) (now : String) (ties : List String) :
    List QueuedAction :=
  s.actions.select (dueText now) (tied QueuedAction.id ties dueBeforeText) limit

variable {s : Store}

theorem getRecentOpenIncidentText_eq (dated : s.Dated) (assetId category : String)
    (since : DateTimeOffset) (ties : List String) :
    s.getRecentOpenIncidentText assetId category (format since) ties =
      s.getRecentOpenIncident assetId category since.utcTicks ties := by
  have condition : ∀ i ∈ s.incidents.rows, recentOpenText assetId category (format since) i =
      recentOpen assetId category since.utcTicks i := by
    intro i mem
    have text := column_le_iff since.utc_range (dated.incidents i mem)
    rw [recentOpenText, recentOpen, format_eq_column, decide_eq_decide.mpr text]
  have order : ∀ i ∈ s.incidents.rows, ∀ j ∈ s.incidents.rows, newerText i j ↔ newer i j :=
    fun i hi j hj => column_le_iff (dated.incidents j hj) (dated.incidents i hi)
  exact congrArg List.head? (s.incidents.select_congr condition
    (fun i hi j hj => tied_congr (order i hi j hj) (order j hj i hi)) 1)

theorem getDueActionsText_eq (dated : s.Dated) (limit : Nat) (now : DateTimeOffset)
    (ties : List String) :
    s.getDueActionsText limit (format now) ties = s.getDueActions limit now.utcTicks ties := by
  have order : ∀ a ∈ s.actions.rows, ∀ b ∈ s.actions.rows, dueBeforeText a b ↔ dueBefore a b := by
    intro a ha b hb
    rw [dueBeforeText, dueBefore, column_lt_iff (dated.next a ha) (dated.next b hb),
      column_inj (dated.next a ha) (dated.next b hb),
      column_le_iff (dated.created a ha) (dated.created b hb)]
  refine s.actions.select_congr (fun a mem => ?_)
    (fun a ha b hb => tied_congr (order a ha b hb) (order b hb a ha)) limit
  have text := column_le_iff (dated.next a mem) now.utc_range
  rw [dueText, due, format_eq_column, decide_eq_decide.mpr text]

end Store

/-- `Format` is a faithful encoding of instants that keeps their order, so the queries on texts
select and sort as they do on instants. -/
theorem format_faithful (a b : DateTimeOffset) :
    (∃ c, parse (format a) = some c ∧ c.utcTicks = a.utcTicks ∧ c.offsetMinutes = 0) ∧
    (format a = format b ↔ a.utcTicks = b.utcTicks) ∧
    (bytes (format a) ≤ bytes (format b) ↔ a.utcTicks ≤ b.utcTicks) ∧
    ∀ s : Store, s.Dated → ∀ ties,
      (∀ assetId category, s.getRecentOpenIncidentText assetId category (format a) ties =
        s.getRecentOpenIncident assetId category a.utcTicks ties) ∧
      ∀ limit, s.getDueActionsText limit (format a) ties =
        s.getDueActions limit a.utcTicks ties := by
  refine ⟨⟨a.toUniversalTime, parse_format a, rfl, rfl⟩, ?_, ?_, fun s dated ties =>
    ⟨fun assetId category => Store.getRecentOpenIncidentText_eq dated assetId category a ties,
      fun limit => Store.getDueActionsText_eq dated limit a ties⟩⟩
  · rw [format_eq_column, format_eq_column]
    exact column_inj a.utc_range b.utc_range
  · rw [format_eq_column, format_eq_column]
    exact column_le_iff a.utc_range b.utc_range

/-- The last tick before midnight of a leap day, at two hours east. -/
def leapDay : DateTimeOffset where
  utcTicks := 638448407999999999
  offsetMinutes := 120
  utc_range := by decide
  offset_range := by decide
  clock_range := by decide

/-- The next tick, at an hour west. -/
def nextTick : DateTimeOffset where
  utcTicks := 638448408000000000
  offsetMinutes := -60
  utc_range := by decide
  offset_range := by decide
  clock_range := by decide

example : String.ofList leapDay.roundtrip = "2024-02-29T23:59:59.9999999+02:00" ∧
    format leapDay = "2024-02-29T21:59:59.9999999+00:00" := by decide

/-- An action that is due from a time on. -/
def dueFrom (id : String) (time : DateTimeOffset) : QueuedAction where
  id := id
  incidentId := "incident"
  assetId := "PUMP-101"
  actionType := "notify"
  executorMode := "success"
  status := .queued
  attempts := 0
  maxAttempts := 3
  createdAt := leapDay.utcTicks
  updatedAt := leapDay.utcTicks
  nextAttemptAt := time.utcTicks
  lastError := none

/-- Two actions, one of which is due at the last tick of the leap day. -/
def twoTicks : Store :=
  Store.empty.write [.createAction (dueFrom "b" nextTick), .createAction (dueFrom "a" leapDay)]

theorem dated_twoTicks : twoTicks.Dated :=
  Store.dated_empty.write _ (by decide)

theorem format_faithful_leapDay :
    (format leapDay = format nextTick ↔ leapDay.utcTicks = nextTick.utcTicks) ∧
    (bytes (format leapDay) ≤ bytes (format nextTick) ↔ leapDay.utcTicks ≤ nextTick.utcTicks) ∧
    twoTicks.getDueActionsText 5 (format leapDay) ["a", "b"] =
      twoTicks.getDueActions 5 leapDay.utcTicks ["a", "b"] :=
  have faithful := format_faithful leapDay nextTick
  ⟨faithful.2.1, faithful.2.2.1, (faithful.2.2.2 twoTicks dated_twoTicks ["a", "b"]).2 5⟩

end SupportOps.DotNet
