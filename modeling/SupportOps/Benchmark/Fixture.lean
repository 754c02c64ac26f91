import SupportOps.Benchmark.Workload
import SupportOps.DotNet.Engine
import SupportOps.DotNet.Timestamps
import SupportOps.Library.Json

/-!
# The fixture file

`write_jsonl` writes the shared workload, one event a line, and each engine reads it back with
code of its own: `read_jsonl` and `load_workload` in Python, `ReadEvents` in .NET. All of them
get the events that were written, in their order and up to the count they ask for.
-/
namespace SupportOps.Benchmark

open Library Json

/-! ## `isoformat` -/

/-- The microseconds of `datetime` before 1970. -/
def unixEpoch : Int := 62135596800000000

/-- An instant between the years 1 and 9999. -/
def InDatetime (t : Instant) : Prop := 0 ≤ t + unixEpoch ∧ t + unixEpoch ≤ 315537897599999999

instance (t : Instant) : Decidable (InDatetime t) := inferInstanceAs (Decidable (_ ∧ _))

/-- Year, month, day, hour, minute and second. -/
def secondValues (seconds : Nat) : List Nat :=
  (Calendar.Date.ofDayNumber (seconds / 86400)).values ++ places [60, 60] (seconds % 86400)

/-- `YYYY-MM-DDTHH:MM:SS` -/
def secondLayout : List Field :=
  [⟨[], 4⟩, ⟨['-'], 2⟩, ⟨['-'], 2⟩, ⟨['T'], 2⟩, ⟨[':'], 2⟩, ⟨[':'], 2⟩]

/-- `.ffffff` -/
def microLayout : List Field := [⟨['.'], 6⟩]

/-- `isoformat()` of a `datetime` in UTC. -/
def isoformat (t : Instant) : String :=
  let micros := (t + unixEpoch).toNat
  String.ofList (render secondLayout (secondValues (micros / 1000000)) ++
    ((if micros % 1000000 = 0 then [] else render microLayout [micros % 1000000]) ++
      ['+', '0', '0', ':', '0', '0']))

/-! ## Rows -/

/-- The `SharedEvent` of `workload.py`; nothing checks the annotations of its fields. -/
structure SharedRow where
  assetId : Json
  source : Json
  category : Json
  severity : Json
  occurredAt : Json
  message : Json
  executorMode : Json

def SharedEvent.row (e : SharedEvent) : SharedRow where
  assetId := .str e.assetId
  source := .str e.source
  category := .str e.category
  severity := .int e.severity
  occurredAt := .str (isoformat e.occurredAt)
  message := .str e.message
  executorMode := .str e.executorMode.value

namespace SharedRow

def asdict (row : SharedRow) : List (String × Json) :=
  [("asset_id", row.assetId), ("source", row.source), ("category", row.category),
    ("severity", row.severity), ("occurred_at", row.occurredAt), ("message", row.message),
    ("executor_mode", row.executorMode)]

/-- The parameters of the constructor. -/
def parameters : List String :=
  ["asset_id", "source", "category", "severity", "occurred_at", "message", "executor_mode"]

/-- `SharedEvent(**row)` of the `dict` with these members: of two with one name the last stays;
`none` is a `TypeError`. -/
def ofMembers (members : List (String × Json)) : Option SharedRow :=
  let value := fun name => members.reverse.lookup name
  if members.all fun m => parameters.contains m.1 then do
    let assetId ← value "asset_id"
    let source ← value "source"
    let category ← value "category"
    let severity ← value "severity"
    let occurredAt ← value "occurred_at"
    let message ← value "message"
    let executorMode ← value "executor_mode"
    some { assetId, source, category, severity, occurredAt, message, executorMode }
  else none

end SharedRow

/-- The text of the file. -/
def writeJsonl (newline : Newline) (events : List SharedRow) : List Char :=
  dumpLines newline (events.map fun event => .obj event.asdict)

/-! ## The Python readers -/

/-- The lines a text file gives, each with its end if it has one. -/
def textLines (file : List Char) : List (List Char) :=
  (splitLines file).map fun (line, ended) => if ended then line ++ ['\n'] else line

/-- The loop of a reader: it stops before the line after the last event asked for, and at the
first line that is no event. -/
def readLoop {α : Type} (event : List Char → Option α) (count : Option Nat) :
    List α → List (List Char) → Option (List α)
  | events, [] => some events
  | events, line :: lines =>
    if count.any fun count => count ≤ events.length then some events
    else do
      let next ← event line
      readLoop event count (events ++ [next]) lines

/-- `SharedEvent(**json.loads(line))` -/
def SharedRow.load (line : List Char) : Option SharedRow := do
  let .obj members ← loads line | none
  ofMembers members

/-- `read_jsonl`; `none` is an exception. -/
def readJsonl (file : List Char) (count : Option Nat) : Option (List SharedRow) :=
  readLoop SharedRow.load count [] (textLines file)

/-- `str.isspace` of one character. -/
def isSpace (c : Char) : Bool :=
  let n := c.toNat
  9 ≤ n && n ≤ 13 || 0x1C ≤ n && n ≤ 0x20 || n = 0x85 || n = 0xA0 || n = 0x1680 ||
    0x2000 ≤ n && n ≤ 0x200A || n = 0x2028 || n = 0x2029 || n = 0x202F || n = 0x205F || n = 0x3000

/-- `load_workload`: the value of every line that is not blank. -/
def loadWorkload (file : List Char) : Option (List Json) :=
  ((textLines file).filter fun line => !line.all isSpace).mapM loads

/-! ## The .NET reader -/

/-- The record `SharedEvent`; a reference is `none` where it is null. -/
structure SharedRecord where
  assetId : Option String := none
  source : Option String := none
  category : Option String := none
  severity : Int := 0
  occurredAt : Option String := none
  message : Option String := none
  executorMode : Option String := none

namespace SharedRecord

/-- `SnakeCaseLower` and `PropertyNameCaseInsensitive`: the member is the one of a property. -/
def named (member property : String) : Bool :=
  member.toList.map Char.toLower = property.toList

def text : Json → Option (Option String)
  | .null => some none
  | .str s => some (some s)
  | _ => none

/-- An `Int32`. -/
def number : Json → Option Int
  | .int n => if -2147483648 ≤ n ∧ n ≤ 2147483647 then some n else none
  | _ => none

/-- One member of the object; those that name no property are ignored. -/
def set (r : SharedRecord) (member : String) (value : Json) : Option SharedRecord :=
  if named member "asset_id" then (text value).map fun t => { r with assetId := t }
  else if named member "source" then (text value).map fun t => { r with source := t }
  else if named member "category" then (text value).map fun t => { r with category := t }
  else if named member "severity" then (number value).map fun n => { r with severity := n }
  else if named member "occurred_at" then (text value).map fun t => { r with occurredAt := t }
  else if named member "message" then (text value).map fun t => { r with message := t }
  else if named member "executor_mode" then
    (text value).map fun t => { r with executorMode := t }
  else some r

/-- `Deserialize<SharedEvent>`; `none` is an exception, also where the value is null and its
properties are read. -/
def deserialize (line : List Char) : Option SharedRecord := do
  let .obj members ← loads line | none
  members.foldlM (fun r m => set r m.1 m.2) {}

end SharedRecord

/-- `DateTimeOffset.Parse` of a date and time in seconds, with six digits of a fraction or none,
and an offset. -/
def parseTimestamp (value : String) : Option DotNet.DateTimeOffset := do
  let (values, rest) ← scan secondLayout value.toList
  let (fraction, zone) := match scan microLayout rest with
    | some ([fraction], zone) => (fraction, zone)
    | _ => (0, rest)
  let ticks ← DotNet.clockOfValues (values ++ [10 * fraction])
  match zone with
  | '+' :: zone => DotNet.parse.offset ticks 1 (scan DotNet.offsetLayout zone)
  | '-' :: zone => DotNet.parse.offset ticks (-1) (scan DotNet.offsetLayout zone)
  | _ => none

/-- What `ReadEvents` adds for a line; its instants are in ticks from 1970 on. -/
def SharedRecord.request (line : List Char) : Option DotNet.SyntheticEventRequest := do
  let shared ← deserialize line
  let occurredAt ← shared.occurredAt
  let occurredAt ← parseTimestamp occurredAt
  some
    { source := shared.source
      assetId := shared.assetId
      category := shared.category
      severity := shared.severity
      message := shared.message
      executorMode := shared.executorMode
      occurredAt := some (occurredAt.utcTicks - DotNet.ticks unixEpoch) }

/-- `ReadEvents`; `none` is an exception. -/
def readEvents (file : List Char) (count : Nat) : Option (List DotNet.SyntheticEventRequest) :=
  readLoop SharedRecord.request (some count) [] ((splitLines file).map Prod.fst)

/-! ## Timestamps -/

theorem clockValues_micros (micros : Nat) : DotNet.clockValues (10 * micros) =
    secondValues (micros / 1000000) ++ [10 * (micros % 1000000)] := by
  have day : 10 * micros / DotNet.ticksPerDay = micros / 1000000 / 86400 := by
    unfold DotNet.ticksPerDay
    omega
  have second : 10 * micros % DotNet.ticksPerDay / 10000000 = micros / 1000000 % 86400 := by
    unfold DotNet.ticksPerDay
    omega
  have fraction : 10 * micros % DotNet.ticksPerDay % 10000000 = 10 * (micros % 1000000) := by
    unfold DotNet.ticksPerDay
    omega
  rw [DotNet.clockValues, DotNet.places_clock, day, second, fraction]
  rfl

theorem fits_secondValues {micros : Nat} (range : 10 * micros ≤ DotNet.maxTicks) :
    Fits secondLayout (secondValues (micros / 1000000)) := by
  have fits := DotNet.fits_clockValues range
  rw [clockValues_micros] at fits
  simp only [Fits, DotNet.clockLayout, secondLayout, secondValues, Calendar.Date.values, places,
    List.cons_append, List.nil_append, List.forall₂_cons] at fits ⊢
  tauto

/-- A time on the clock in UTC. -/
theorem parse_utc {ticks : Nat} (range : ticks ≤ DotNet.maxTicks) :
    ∃ d, DotNet.parse.offset ticks 1 (scan DotNet.offsetLayout ['0', '0', ':', '0', '0']) =
      some d ∧ d.utcTicks = ticks := by
  have zone : scan DotNet.offsetLayout ['0', '0', ':', '0', '0'] = some ([0, 0], []) := by decide
  have clock : DotNet.InRange ticks := ⟨Int.natCast_nonneg _, Int.ofNat_le.mpr range⟩
  let d : DotNet.DateTimeOffset :=
    ⟨ticks, 0, clock, by decide, by rwa [Int.zero_mul, Int.add_zero]⟩
  have self := d.ofClock_self
  have utc : d.clockTicks = ticks := by rw [DotNet.DateTimeOffset.clockTicks, Int.zero_mul,
    Int.add_zero]
  rw [utc] at self
  rw [zone]
  exact ⟨d, self, rfl⟩

/-- The instants of `datetime` are read from their texts. -/
theorem parseTimestamp_isoformat {t : Instant} (range : InDatetime t) :
    ∃ d, parseTimestamp (isoformat t) = some d ∧
      d.utcTicks = DotNet.ticks t + DotNet.ticks unixEpoch := by
  obtain ⟨micros, instant⟩ := Int.eq_ofNat_of_zero_le range.1
  have inside : 10 * micros ≤ DotNet.maxTicks := by
    have last : (micros : Int) ≤ 315537897599999999 := instant ▸ range.2
    unfold DotNet.maxTicks
    omega
  obtain ⟨d, utc, ticks⟩ := parse_utc inside
  have read := DotNet.clockOfValues_clockValues (10 * micros)
  rw [clockValues_micros] at read
  refine ⟨d, ?_, ?_⟩
  · rw [parseTimestamp, isoformat, instant, Int.toNat_natCast, String.toList_ofList,
      scan_render (fits_secondValues inside)]
    by_cases whole : micros % 1000000 = 0
    · rw [if_pos whole]
      rw [whole] at read
      have none : scan microLayout ['+', '0', '0', ':', '0', '0'] = none := by decide
      simp only [List.nil_append, Option.bind_eq_bind, Option.bind_some, none, read]
      exact utc
    · have fits : Fits microLayout [micros % 1000000] := by
        simp only [Fits, microLayout, List.forall₂_cons, List.forall₂_nil_left_iff, and_true]
        omega
      simp only [if_neg whole, Option.bind_eq_bind, Option.bind_some, scan_render fits, read]
      exact utc
  · rw [ticks, DotNet.ticks, DotNet.ticks, ← Int.mul_add, instant]
    rfl

/-! ## Lines -/

/-- The line of a row. -/
def SharedRow.line (row : SharedRow) : List Char := dumps (.obj row.asdict)

theorem loads_line (row : SharedRow) : loads row.line = some (.obj row.asdict) := by
  have value := loads_dumps (.obj row.asdict) (show skip [] = [] from rfl)
    fun c mem => by cases mem
  rwa [List.append_nil] at value

theorem loads_ended (row : SharedRow) :
    loads (row.line ++ ['\n']) = some (.obj row.asdict) := by
  have ends : Ends ['\n'] := by
    intro c mem
    cases mem
    decide
  exact loads_dumps _ (by decide) ends

/-- The constructor takes the members `asdict` gives. -/
theorem ofMembers_asdict (row : SharedRow) : SharedRow.ofMembers row.asdict = some row := by
  have known : row.asdict.all (fun m => SharedRow.parameters.contains m.1) = true := by
    simp [SharedRow.asdict, SharedRow.parameters]
  rw [SharedRow.ofMembers, if_pos known]
  rfl

theorem load_ended (row : SharedRow) : SharedRow.load (row.line ++ ['\n']) = some row := by
  rw [SharedRow.load, loads_ended]
  exact ofMembers_asdict row

/-- The severity is an `Int32`, and the instant a `datetime`. -/
structure SharedEvent.Written (e : SharedEvent) : Prop where
  severity : -2147483648 ≤ e.severity ∧ e.severity ≤ 2147483647
  occurredAt : InDatetime e.occurredAt

/-- The members that `asdict` gives, each to its property. -/
theorem set_text (r : SharedRecord) (s : String) :
    r.set "asset_id" (.str s) = some { r with assetId := s } ∧
    r.set "source" (.str s) = some { r with source := s } ∧
    r.set "category" (.str s) = some { r with category := s } ∧
    r.set "occurred_at" (.str s) = some { r with occurredAt := s } ∧
    r.set "message" (.str s) = some { r with message := s } ∧
    r.set "executor_mode" (.str s) = some { r with executorMode := s } :=
  ⟨rfl, rfl, rfl, rfl, rfl, rfl⟩

theorem set_severity (r : SharedRecord) {n : Int} (range : -2147483648 ≤ n ∧ n ≤ 2147483647) :
    r.set "severity" (.int n) = some { r with severity := n } := by
  change (SharedRecord.number (.int n)).map _ = _
  rw [SharedRecord.number, if_pos range, Option.map_some]

theorem deserialize_line {e : SharedEvent} (written : e.Written) :
    SharedRecord.deserialize e.row.line = some
      { assetId := some e.assetId
        source := some e.source
        category := some e.category
        severity := e.severity
        occurredAt := some (isoformat e.occurredAt)
        message := some e.message
        executorMode := some e.executorMode.value } := by
  rw [SharedRecord.deserialize, loads_line]
  change e.row.asdict.foldlM (fun r m => SharedRecord.set r m.1 m.2) {} = _
  simp only [SharedRow.asdict, SharedEvent.row, List.foldlM_cons, List.foldlM_nil, set_text,
    set_severity _ written.severity, Option.bind_eq_bind, Option.bind_some]
  rfl

/-- What `ReadEvents` makes of the line of an event. -/
theorem request_line {e : SharedEvent} (written : e.Written) :
    SharedRecord.request e.row.line = some (DotNet.toRequest e) := by
  obtain ⟨d, read, instant⟩ := parseTimestamp_isoformat written.occurredAt
  rw [SharedRecord.request, deserialize_line written]
  simp only [Option.bind_eq_bind, Option.bind_some, read, instant]
  rw [Int.add_sub_cancel]
  rfl

/-! ## Readers -/

/-- The first events, or all of them. -/
def upTo {α : Type} (count : Option Nat) (events : List α) : List α :=
  count.elim events fun count => events.take count

/-- Where every line is an event, the loop gives those before the count. -/
theorem readLoop_map {α β : Type} {event : List Char → Option α} {line : β → List Char}
    {value : β → α} {rows : List β} (reads : ∀ r ∈ rows, event (line r) = some (value r))
    (count : Option Nat) (events : List α) :
    readLoop event count events (rows.map line) = some
      (events ++ upTo (count.map fun count => count - events.length) (rows.map value)) := by
  induction rows generalizing events with
  | nil => cases count <;> simp [readLoop, upTo]
  | cons r rows ih =>
    rw [List.forall_mem_cons] at reads
    have rest := ih reads.2 (events ++ [value r])
    rw [List.map_cons, readLoop, reads.1]
    cases count with
    | none =>
      rw [Option.any_none, if_neg Bool.false_ne_true]
      change readLoop event none (events ++ [value r]) (rows.map line) = _
      rw [rest]
      simp [upTo]
    | some count =>
      rw [Option.any_some]
      split
      · next enough =>
        have none : count - events.length = 0 := Nat.sub_eq_zero_of_le (of_decide_eq_true enough)
        simp [upTo, none]
      · next more =>
        have here : count - events.length = count - (events.length + 1) + 1 := by
          rw [decide_eq_true_eq] at more
          omega
        change readLoop event (some count) (events ++ [value r]) (rows.map line) = _
        rw [rest]
        simp [upTo, here]

/-- `read_jsonl` gets the rows that were written, up to the count. -/
theorem readJsonl_writeJsonl (newline : Newline) (rows : List SharedRow) (count : Option Nat) :
    readJsonl (writeJsonl newline rows) count = some (upTo count rows) := by
  have lines : textLines (writeJsonl newline rows) = rows.map fun row => row.line ++ ['\n'] := by
    simp [textLines, writeJsonl, splitLines_dumpLines, SharedRow.line]
  have read := readLoop_map (fun row (_ : row ∈ rows) => load_ended row) count []
  rw [readJsonl, lines, read]
  simp

/-- `load_workload` gets the members of every row. -/
theorem loadWorkload_writeJsonl (newline : Newline) (rows : List SharedRow) :
    loadWorkload (writeJsonl newline rows) = some (rows.map fun row => .obj row.asdict) := by
  have lines : textLines (writeJsonl newline rows) = rows.map fun row => row.line ++ ['\n'] := by
    simp [textLines, writeJsonl, splitLines_dumpLines, SharedRow.line]
  have solid : ∀ line ∈ rows.map (fun row => row.line ++ ['\n']),
      (!line.all isSpace) = true := by
    intro line mem
    obtain ⟨row, -, rfl⟩ := List.mem_map.mp mem
    rfl
  have read : loads ∘ (fun row : SharedRow => row.line ++ ['\n']) = fun row =>
      some (.obj row.asdict) := funext loads_ended
  rw [loadWorkload, lines, List.filter_eq_self.mpr solid, List.mapM_map, read]
  exact List.mapM_pure

/-- `ReadEvents` gets the requests of the events that were written, up to the count. -/
theorem readEvents_writeJsonl (newline : Newline) {events : List SharedEvent}
    (written : ∀ e ∈ events, e.Written) (count : Nat) :
    readEvents (writeJsonl newline (events.map SharedEvent.row)) count =
      some ((events.map DotNet.toRequest).take count) := by
  have lines : (splitLines (writeJsonl newline (events.map SharedEvent.row))).map Prod.fst =
      events.map fun e => e.row.line := by
    simp [writeJsonl, splitLines_dumpLines, SharedRow.line]
  have read := readLoop_map (fun e mem => request_line (written e mem)) (some count) []
  rw [readEvents, lines, read]
  simp [upTo]

/-- All three readers get the events of the file, the two with a count the first of them. -/
theorem readers_writeJsonl (newline : Newline) {events : List SharedEvent}
    (written : ∀ e ∈ events, e.Written) (count : Nat) :
    readJsonl (writeJsonl newline (events.map SharedEvent.row)) (some count) =
        some ((events.take count).map SharedEvent.row) ∧
      readEvents (writeJsonl newline (events.map SharedEvent.row)) count =
        some ((events.take count).map DotNet.toRequest) ∧
      loadWorkload (writeJsonl newline (events.map SharedEvent.row)) =
        some (events.map fun e => .obj e.row.asdict) := by
  refine ⟨?_, ?_, ?_⟩
  · rw [readJsonl_writeJsonl, List.map_take]
    rfl
  · rw [readEvents_writeJsonl newline written, List.map_take]
  · rw [loadWorkload_writeJsonl, List.map_map]
    rfl

/-- An event whose texts need every kind of escape. -/
def escapedEvent : SharedEvent where
  assetId := "pump \"7\""
  source := "north\\gate\r\n"
  category := "Überdruck"
  severity := -3
  occurredAt := 1767225600000001
  message := "\t😀\u007f"
  executorMode := .permanentFailure

theorem readers_writeJsonl_escapedEvent :
    readJsonl (writeJsonl .crlf ([escapedEvent, eventAt 3 7].map SharedEvent.row)) (some 1) =
        some (([escapedEvent, eventAt 3 7].take 1).map SharedEvent.row) ∧
      readEvents (writeJsonl .crlf ([escapedEvent, eventAt 3 7].map SharedEvent.row)) 1 =
        some (([escapedEvent, eventAt 3 7].take 1).map DotNet.toRequest) ∧
      loadWorkload (writeJsonl .crlf ([escapedEvent, eventAt 3 7].map SharedEvent.row)) =
        some ([escapedEvent, eventAt 3 7].map fun e => .obj e.row.asdict) :=
  readers_writeJsonl .crlf
    (List.forall_mem_cons.mpr ⟨⟨by decide, by decide⟩,
      List.forall_mem_singleton.mpr ⟨by decide, by decide⟩⟩) 1

/-! ## The generated fixture -/

/-- The workload reaches the end of the year 9999 after 251635075200 events. -/
theorem written_eventAt {index : Nat} (early : index < 251635075200) (seed : Int) :
    (eventAt index seed).Written := by
  have instant : (eventAt index seed).occurredAt = workloadStart + 1000000 * index := by
    unfold eventAt
    grind
  have severity : 0 ≤ (eventAt index seed).severity ∧ (eventAt index seed).severity ≤ 100 := by
    unfold eventAt
    grind
  refine ⟨by omega, ?_⟩
  rw [InDatetime, instant]
  change (0 : Int) ≤ 1767225600000000 + 1000000 * index + 62135596800000000 ∧
    (1767225600000000 + 1000000 * index + 62135596800000000 : Int) ≤ 315537897599999999
  omega

theorem take_generateEvents (count n : Nat) (seed : Int) :
    (generateEvents n seed).take count = generateEvents (min count n) seed := by
  rw [generateEvents, ← List.map_take, List.take_range]
  rfl

/-- Both engines run on the same events: the workload of the smaller count. -/
theorem readers_generateEvents (newline : Newline) {n : Nat} (few : n ≤ 251635075200) (seed : Int)
    (count : Nat) :
    readJsonl (writeJsonl newline ((generateEvents n seed).map SharedEvent.row)) (some count) =
        some ((generateEvents (min count n) seed).map SharedEvent.row) ∧
      readEvents (writeJsonl newline ((generateEvents n seed).map SharedEvent.row)) count =
        some ((generateEvents (min count n) seed).map DotNet.toRequest) := by
  have written : ∀ e ∈ generateEvents n seed, e.Written := by
    intro e mem
    obtain ⟨index, before, rfl⟩ := List.mem_map.mp mem
    exact written_eventAt (Nat.lt_of_lt_of_le (List.mem_range.mp before) few) seed
  rw [readJsonl_writeJsonl, readEvents_writeJsonl newline written, ← List.map_take,
    take_generateEvents]
  refine ⟨?_, rfl⟩
  rw [upTo, Option.elim_some, ← List.map_take, take_generateEvents]

end SupportOps.Benchmark
