import Mathlib.Order.Monotone.Basic
import SupportOps.Library.FixedWidth

/-!
# The Gregorian calendar

Days are numbered from January 1 of the year 1. A number of a day determines its date, a date the
number, and days compare as their dates do.
-/
namespace SupportOps.Library.Calendar

/-! ## Blocks -/

section Blocks

variable {start : Nat → Nat} {i j r s : Nat}

/-- Places in consecutive blocks compare by the block, then by the place in it. -/
theorem block_lt_iff (mono : Monotone start) (hr : start i + r < start (i + 1))
    (hs : start j + s < start (j + 1)) :
    start i + r < start j + s ↔ i < j ∨ i = j ∧ r < s := by
  rcases Nat.lt_trichotomy i j with before | rfl | after
  · have apart : start (i + 1) ≤ start j := mono (Nat.succ_le_of_lt before)
    exact iff_of_true (by omega) (.inl before)
  · omega
  · have apart : start (j + 1) ≤ start i := mono (Nat.succ_le_of_lt after)
    exact iff_of_false (by omega) (by omega)

end Blocks

/-- The block of a place, and where it is in it, by the lengths of the blocks. -/
def locate : List Nat → Nat → Nat × Nat
  | [], n => (0, n)
  | l :: ls, n => if n < l then (0, n) else ((locate ls (n - l)).1 + 1, (locate ls (n - l)).2)

theorem sum_take_succ (ls : List Nat) (i : Nat) :
    (ls.take (i + 1)).sum = (ls.take i).sum + ls.getD i 0 := by
  induction ls generalizing i with
  | nil => simp
  | cons l ls ih =>
    cases i with
    | zero => simp
    | succ i =>
      have rest := ih i
      simp only [List.take_succ_cons, List.sum_cons, List.getD_cons_succ]
      omega

theorem locate_spec {ls : List Nat} {n : Nat} (inside : n < ls.sum) :
    (ls.take (locate ls n).1).sum + (locate ls n).2 = n ∧
      (locate ls n).2 < ls.getD (locate ls n).1 0 := by
  induction ls generalizing n with
  | nil => cases inside
  | cons l ls ih =>
    unfold locate
    split
    · next here => simpa using here
    · next later =>
      rw [List.sum_cons] at inside
      obtain ⟨place, bound⟩ := ih (n := n - l) (by omega)
      simp only [List.take_succ_cons, List.sum_cons, List.getD_cons_succ]
      exact ⟨by omega, bound⟩

/-! ## Years and months -/

def leap (year : Nat) : Bool := year % 4 = 0 && (year % 100 ≠ 0 || year % 400 = 0)

def yearLength (year : Nat) : Nat := if leap year then 366 else 365

def monthLengths (year : Nat) : List Nat :=
  [31, if leap year then 29 else 28, 31, 30, 31, 30, 31, 31, 30, 31, 30, 31]

def daysInMonth (year month : Nat) : Nat := (monthLengths year).getD (month - 1) 0

/-- The days of the first `n` years. -/
def daysOfYears (n : Nat) : Nat := 365 * n + n / 4 - n / 100 + n / 400

/-- The days of the first `n` months. -/
def daysOfMonths (year n : Nat) : Nat := ((monthLengths year).take n).sum

theorem sum_monthLengths (year : Nat) : (monthLengths year).sum = yearLength year := by
  unfold monthLengths yearLength
  split <;> rfl

theorem leap_iff {year : Nat} :
    leap year = true ↔ year % 4 = 0 ∧ (year % 100 ≠ 0 ∨ year % 400 = 0) := by
  simp [leap]

theorem daysOfYears_succ (n : Nat) : daysOfYears (n + 1) = daysOfYears n + yearLength (n + 1) := by
  have fewer : n / 100 ≤ n / 4 := Nat.div_le_div_left (by decide) (by decide)
  have hundred : (n + 1) % 100 = 0 → (n + 1) % 4 = 0 := by omega
  have cycle : (n + 1) % 400 = 0 → (n + 1) % 100 = 0 := by omega
  have leap := @leap_iff (n + 1)
  unfold daysOfYears yearLength
  rw [Nat.succ_div, Nat.succ_div, Nat.succ_div]
  simp only [Nat.dvd_iff_mod_eq_zero]
  generalize n / 4 = fours, n / 100 = centuries, n / 400 = cycles at *
  grind

theorem monotone_daysOfYears : Monotone daysOfYears :=
  monotone_nat_of_le_succ fun n => by rw [daysOfYears_succ]; exact Nat.le_add_right _ _

theorem monotone_daysOfMonths (year : Nat) : Monotone (daysOfMonths year) :=
  monotone_nat_of_le_succ fun n => by
    rw [daysOfMonths, daysOfMonths, sum_take_succ]
    exact Nat.le_add_right _ _

/-- The years before a day, by cycles of 400, 100, 4 years and one year. -/
def yearsBefore (day : Nat) : Nat :=
  let r := day % 146097
  let centuries := min (r / 36524) 3
  let r := r - centuries * 36524
  let fours := r / 1461
  let r := r % 1461
  day / 146097 * 400 + centuries * 100 + fours * 4 + min (r / 365) 3

theorem daysOfYears_cycles {a b c d : Nat} (hd : d < 4) (hc : c < 25) (hb : b < 4) :
    daysOfYears (a * 400 + b * 100 + c * 4 + d) = a * 146097 + b * 36524 + c * 1461 + d * 365 := by
  unfold daysOfYears
  omega

/-- Division into at most `top + 1` parts, the last of which may have one more. -/
theorem capped_spec (size top : Nat) {n : Nat} (pos : 0 < size) (small : n ≤ top * size + size) :
    ∃ q r, min (n / size) top = q ∧ n = q * size + r ∧ q ≤ top ∧
      (r < size ∨ r = size ∧ q = top) := by
  have whole := Nat.div_add_mod' n size
  rcases Nat.lt_or_ge top (n / size) with beyond | inside
  · have least : (top + 1) * size ≤ n / size * size := Nat.mul_le_mul_right size beyond
    rw [Nat.succ_mul] at least
    exact ⟨top, size, Nat.min_eq_right (Nat.le_of_lt beyond), by omega, Nat.le_refl top,
      .inr ⟨rfl, rfl⟩⟩
  · exact ⟨n / size, n % size, Nat.min_eq_left inside, whole.symm, inside,
      .inl (Nat.mod_lt n pos)⟩

/-- What a day leaves after its cycles and years is a day of a year; the last one is in a leap
year. -/
theorem cycles_spec (day : Nat) : ∃ a b c d e, yearsBefore day = a * 400 + b * 100 + c * 4 + d ∧
    day = a * 146097 + b * 36524 + c * 1461 + d * 365 + e ∧ d < 4 ∧ c < 25 ∧ b < 4 ∧
    (e < 365 ∨ e = 365 ∧ d = 3 ∧ (c < 24 ∨ b = 3)) := by
  have cycles := Nat.div_add_mod' day 146097
  obtain ⟨b, q, centuries, century, hb, inCentury⟩ :=
    capped_spec 36524 3 (n := day % 146097) (by decide) (by omega)
  have fours := Nat.div_add_mod' q 1461
  obtain ⟨d, e, years, year, hd, inYear⟩ :=
    capped_spec 365 3 (n := q % 1461) (by decide) (by omega)
  have rest : day % 146097 - b * 36524 = q := by omega
  refine ⟨day / 146097, b, q / 1461, d, e, ?_, by omega, by omega, by omega, by omega, by omega⟩
  simp only [yearsBefore, centuries, rest, years]

theorem yearsBefore_spec (day : Nat) :
    daysOfYears (yearsBefore day) ≤ day ∧ day < daysOfYears (yearsBefore day + 1) := by
  obtain ⟨a, b, c, d, e, years, days, hd, hc, hb, inYear⟩ := cycles_spec day
  rw [daysOfYears_succ, years, daysOfYears_cycles hd hc hb]
  refine ⟨by omega, ?_⟩
  rcases inYear with early | ⟨last, third, cycle⟩
  · unfold yearLength
    split <;> omega
  · have long : leap (a * 400 + b * 100 + c * 4 + d + 1) = true := leap_iff.mpr (by omega)
    rw [yearLength, if_pos long]
    omega

/-- The day of the year, counted from 0, is one of its months. -/
theorem sub_daysOfYears_lt (day : Nat) :
    day - daysOfYears (yearsBefore day) < (monthLengths (yearsBefore day + 1)).sum := by
  have year := yearsBefore_spec day
  rw [daysOfYears_succ, ← sum_monthLengths] at year
  exact Nat.sub_lt_left_of_lt_add year.1 year.2

/-! ## Dates -/

@[ext] structure Date where
  year : Nat
  month : Nat
  day : Nat
  year_pos : 1 ≤ year
  month_pos : 1 ≤ month
  day_pos : 1 ≤ day
  day_le : day ≤ daysInMonth year month
  deriving DecidableEq, Repr

namespace Date

/-- The date, if there is one. -/
def ofParts (year month day : Nat) : Option Date :=
  if h : 1 ≤ year ∧ 1 ≤ month ∧ 1 ≤ day ∧ day ≤ daysInMonth year month then
    some ⟨year, month, day, h.1, h.2.1, h.2.2.1, h.2.2.2⟩
  else none

theorem ofParts_self (d : Date) : ofParts d.year d.month d.day = some d :=
  dif_pos ⟨d.year_pos, d.month_pos, d.day_pos, d.day_le⟩

def values (d : Date) : List Nat := [d.year, d.month, d.day]

@[simp] theorem length_values (d : Date) : d.values.length = 3 := rfl

theorem values_inj {d e : Date} : d.values = e.values ↔ d = e := by
  refine ⟨fun same => ?_, fun same => same ▸ rfl⟩
  simp only [values, List.cons.injEq] at same
  exact Date.ext same.1 same.2.1 same.2.2.1

/-- The day of the year, counted from 0. -/
def dayOfYear (d : Date) : Nat := daysOfMonths d.year (d.month - 1) + (d.day - 1)

def dayNumber (d : Date) : Nat := daysOfYears (d.year - 1) + d.dayOfYear

variable (d e : Date)

theorem month_place : d.dayOfYear < daysOfMonths d.year (d.month - 1 + 1) := by
  have first := d.day_pos
  have last := d.day_le
  unfold daysInMonth at last
  rw [dayOfYear, daysOfMonths, daysOfMonths, sum_take_succ]
  omega

theorem year_place : d.dayNumber < daysOfYears (d.year - 1 + 1) := by
  have within := d.month_place
  have inYear : daysOfMonths d.year (d.month - 1 + 1) ≤ yearLength d.year := by
    have whole := congrArg List.sum (List.take_append_drop (d.month - 1 + 1) (monthLengths d.year))
    rw [List.sum_append, sum_monthLengths] at whole
    exact whole ▸ Nat.le_add_right _ _
  have year : d.year - 1 + 1 = d.year := Nat.sub_add_cancel d.year_pos
  rw [daysOfYears_succ, year, dayNumber]
  omega

/-- Dates compare as their days do. -/
theorem values_lt_iff : d.values < e.values ↔ d.dayNumber < e.dayNumber := by
  have days : d.dayNumber < e.dayNumber ↔
      d.year - 1 < e.year - 1 ∨ d.year - 1 = e.year - 1 ∧ d.dayOfYear < e.dayOfYear :=
    block_lt_iff monotone_daysOfYears d.year_place e.year_place
  have dy := d.year_pos
  have ey := e.year_pos
  have dm := d.month_pos
  have em := e.month_pos
  have dd := d.day_pos
  have ed := e.day_pos
  have months : d.year = e.year → (d.dayOfYear < e.dayOfYear ↔
      d.month - 1 < e.month - 1 ∨ d.month - 1 = e.month - 1 ∧ d.day - 1 < e.day - 1) := by
    intro same
    have place := e.month_place
    unfold dayOfYear at place ⊢
    rw [← same] at place ⊢
    exact block_lt_iff (monotone_daysOfMonths d.year) d.month_place place
  rw [days]
  simp only [values, List.cons_lt_cons_iff, List.lt_irrefl]
  grind

theorem dayNumber_inj : d.dayNumber = e.dayNumber ↔ d = e := by
  refine ⟨fun same => ?_, fun same => same ▸ rfl⟩
  have below : ¬ d.values < e.values := fun less => by
    rw [values_lt_iff] at less
    omega
  have above : ¬ e.values < d.values := fun less => by
    rw [values_lt_iff] at less
    omega
  refine values_inj.mp ?_
  simp only [values, List.cons_lt_cons_iff, List.lt_irrefl] at below above
  rw [values, values]
  grind

/-- The date of a day. -/
def ofDayNumber (n : Nat) : Date where
  year := yearsBefore n + 1
  month := (locate (monthLengths (yearsBefore n + 1)) (n - daysOfYears (yearsBefore n))).1 + 1
  day := (locate (monthLengths (yearsBefore n + 1)) (n - daysOfYears (yearsBefore n))).2 + 1
  year_pos := Nat.le_add_left _ _
  month_pos := Nat.le_add_left _ _
  day_pos := Nat.le_add_left _ _
  day_le := by
    rw [daysInMonth, Nat.add_sub_cancel]
    exact Nat.add_one_le_iff.mpr (locate_spec (sub_daysOfYears_lt n)).2

theorem dayNumber_ofDayNumber (n : Nat) : (ofDayNumber n).dayNumber = n := by
  have place := (locate_spec (sub_daysOfYears_lt n)).1
  have years := Nat.add_sub_of_le (yearsBefore_spec n).1
  simp only [dayNumber, dayOfYear, ofDayNumber, Nat.add_sub_cancel, daysOfMonths]
  rw [place, years]

/-- A day of the first `n` years has one of their dates. -/
theorem year_le {d : Date} {n : Nat} (inside : d.dayNumber < daysOfYears n) : d.year ≤ n := by
  by_contra later
  have start : daysOfYears n ≤ daysOfYears (d.year - 1) := monotone_daysOfYears (by omega)
  unfold dayNumber at inside
  omega

theorem month_le (d : Date) : d.month ≤ 12 := by
  by_contra later
  have none : daysInMonth d.year d.month = 0 := by
    have beyond : (monthLengths d.year).length ≤ d.month - 1 := show 12 ≤ d.month - 1 by omega
    rw [daysInMonth, List.getD_eq_getElem?_getD, List.getElem?_eq_none beyond]
    rfl
  have := d.day_pos
  have := d.day_le
  omega

theorem day_le_31 (d : Date) : d.day ≤ 31 := by
  have bound : ∀ l ∈ monthLengths d.year, l ≤ 31 := by
    unfold monthLengths
    split <;> decide
  refine d.day_le.trans ?_
  unfold daysInMonth
  rw [List.getD_eq_getElem?_getD]
  cases found : (monthLengths d.year)[d.month - 1]? with
  | none => exact Nat.zero_le 31
  | some l => exact bound l (List.mem_of_getElem? found)

end Date

end SupportOps.Library.Calendar
