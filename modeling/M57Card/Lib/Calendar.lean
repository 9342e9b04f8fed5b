import Mathlib.Algebra.BigOperators.Intervals
import Mathlib.Algebra.Order.BigOperators.Group.Finset

/-!
# Dates and times of day

A date is a year, a month and a day that the calendar has. The days are numbered from the first one
of year 0: the days of the years before, then those of the months before, then the day. Blocks of
days that follow each other give every number to one day only, so a date is what its number says,
and the date after it has the next number. An instant is a date with a time of day; its seconds
number it in the same way, and to go some hours later is to add their seconds.

## Main definitions

* `IsLeap`, `daysInMonth`, `daysInYear` : the calendar.
* `Date`, `Date.dayOfYear`, `Date.dayNumber`, `Date.next`.
* `Instant`, `Instant.seconds`, `Instant.later`.

## Main results

* `Date.dayNumber_next`, `Date.dayNumber_injective`.
* `Instant.seconds_later`.
-/

namespace M57Card.Calendar

open Finset

/-! ### Blocks of days -/

/-- The number of days in front of a block, the blocks counted from `lo`. -/
def daysBefore (len : ℕ → ℕ) (lo n : ℕ) : ℕ := ∑ i ∈ Ico lo n, len i

theorem daysBefore_succ (len : ℕ → ℕ) {lo n : ℕ} (hn : lo ≤ n) :
    daysBefore len lo (n + 1) = daysBefore len lo n + len n :=
  sum_Ico_succ_top hn len

theorem daysBefore_mono (len : ℕ → ℕ) (lo : ℕ) {m n : ℕ} (hmn : m ≤ n) :
    daysBefore len lo m ≤ daysBefore len lo n :=
  sum_le_sum_of_subset (Ico_subset_Ico_right hmn)

/-- A block ends where a later one begins, or in front of it. -/
theorem daysBefore_add_le (len : ℕ → ℕ) {lo m n : ℕ} (hm : lo ≤ m) (hmn : m < n) :
    daysBefore len lo m + len m ≤ daysBefore len lo n := by
  rw [← daysBefore_succ len hm]
  exact daysBefore_mono len lo hmn

/-- A number belongs to one day of one block. -/
theorem eq_of_daysBefore_add_eq {len : ℕ → ℕ} {lo m n i j : ℕ} (hm : lo ≤ m) (hn : lo ≤ n)
    (hi : 1 ≤ i) (hi' : i ≤ len m) (hj : 1 ≤ j) (hj' : j ≤ len n)
    (h : daysBefore len lo m + i = daysBefore len lo n + j) : m = n ∧ i = j := by
  rcases lt_trichotomy m n with hlt | rfl | hlt
  · have hle := daysBefore_add_le len hm hlt
    omega
  · exact ⟨rfl, Nat.add_left_cancel h⟩
  · have hle := daysBefore_add_le len hn hlt
    omega

/-! ### The calendar -/

/-- A year with a 29 February. -/
def IsLeap (y : ℕ) : Prop := y % 4 = 0 ∧ y % 100 ≠ 0 ∨ y % 400 = 0

instance : DecidablePred IsLeap := fun y =>
  inferInstanceAs (Decidable (y % 4 = 0 ∧ y % 100 ≠ 0 ∨ y % 400 = 0))

/-- The days of a month. -/
def daysInMonth (y : ℕ) : ℕ → ℕ
  | 2 => if IsLeap y then 29 else 28
  | 4 => 30
  | 6 => 30
  | 9 => 30
  | 11 => 30
  | _ => 31

/-- The days of a year. -/
def daysInYear (y : ℕ) : ℕ := daysBefore (daysInMonth y) 1 13

theorem daysInMonth_pos (y m : ℕ) : 0 < daysInMonth y m := by
  unfold daysInMonth
  split <;> first | decide | split <;> decide

theorem daysInMonth_le (y m : ℕ) : daysInMonth y m ≤ 31 := by
  unfold daysInMonth
  split <;> first | decide | split <;> decide

/-- A year has 365 days, a leap year one more. -/
theorem daysInYear_eq (y : ℕ) : daysInYear y = if IsLeap y then 366 else 365 := by
  rw [daysInYear, daysBefore, sum_Ico_eq_sum_range]
  by_cases h : IsLeap y
  · simp [sum_range_succ, daysInMonth, h]
  · simp [sum_range_succ, daysInMonth, h]

/-- A date of the calendar. -/
@[ext]
structure Date where
  year : ℕ
  month : ℕ
  day : ℕ
  one_le_month : 1 ≤ month
  month_le : month ≤ 12
  one_le_day : 1 ≤ day
  day_le : day ≤ daysInMonth year month

namespace Date

variable (d : Date)

/-- The number of a day in its year. -/
def dayOfYear : ℕ := daysBefore (daysInMonth d.year) 1 d.month + d.day

/-- The number of a day. -/
def dayNumber : ℕ := daysBefore daysInYear 0 d.year + d.dayOfYear

theorem one_le_dayOfYear : 1 ≤ d.dayOfYear := by
  have hday := d.one_le_day
  unfold dayOfYear
  omega

theorem dayOfYear_le : d.dayOfYear ≤ daysInYear d.year := by
  have hday := d.day_le
  have hmonth : _ ≤ daysInYear d.year :=
    daysBefore_add_le (daysInMonth d.year) d.one_le_month (Nat.lt_succ_of_le d.month_le)
  unfold dayOfYear
  omega

theorem dayOfYear_lt : d.dayOfYear < 367 := by
  have hle := d.dayOfYear_le
  rw [daysInYear_eq] at hle
  split_ifs at hle <;> omega

/-- The day after a date. -/
def next : Date :=
  if hd : d.day < daysInMonth d.year d.month then
    ⟨d.year, d.month, d.day + 1, d.one_le_month, d.month_le, Nat.le_add_left 1 d.day, hd⟩
  else if hm : d.month < 12 then
    ⟨d.year, d.month + 1, 1, Nat.le_add_left 1 d.month, hm, le_rfl, daysInMonth_pos _ _⟩
  else
    ⟨d.year + 1, 1, 1, le_rfl, by decide, le_rfl, daysInMonth_pos _ _⟩

/-- The day after has the next number. -/
theorem dayNumber_next : d.next.dayNumber = d.dayNumber + 1 := by
  have hday := d.day_le
  have hmonth := d.month_le
  unfold next
  split_ifs with hd hm
  · rfl
  · have hlast := daysBefore_succ (daysInMonth d.year) d.one_le_month
    simp only [dayNumber, dayOfYear]
    omega
  · have htwelve : d.month = 12 := le_antisymm hmonth (not_lt.mp hm)
    have hlast : daysInYear d.year = _ := daysBefore_succ (daysInMonth d.year) (by decide)
    have hyear := daysBefore_succ daysInYear d.year.zero_le
    have hfirst : daysBefore (daysInMonth (d.year + 1)) 1 1 = 0 := rfl
    simp only [dayNumber, dayOfYear, htwelve] at *
    omega

/-- A date is what its number says. -/
theorem dayNumber_injective : Function.Injective dayNumber := by
  intro d e h
  obtain ⟨hyear, hofYear⟩ := eq_of_daysBefore_add_eq d.year.zero_le e.year.zero_le
    d.one_le_dayOfYear d.dayOfYear_le e.one_le_dayOfYear e.dayOfYear_le h
  unfold dayOfYear at hofYear
  rw [hyear] at hofYear
  obtain ⟨hmonth, hday⟩ := eq_of_daysBefore_add_eq d.one_le_month e.one_le_month
    d.one_le_day (hyear ▸ d.day_le) e.one_le_day e.day_le hofYear
  exact Date.ext hyear hmonth hday

/-- The day after is in the same year or in the next one. -/
theorem year_next : d.next.year = d.year ∨ d.next.year = d.year + 1 := by
  unfold next
  split_ifs
  · exact Or.inl rfl
  · exact Or.inl rfl
  · exact Or.inr rfl

end Date

/-! ### Instants -/

/-- A second of a day. -/
structure Instant where
  date : Date
  hour : ℕ
  minute : ℕ
  second : ℕ
  hour_lt : hour < 24
  minute_lt : minute < 60
  second_lt : second < 60

namespace Instant

variable (t : Instant)

/-- The number of a second. -/
def seconds : ℕ := t.date.dayNumber * 86400 + t.hour * 3600 + t.minute * 60 + t.second

/-- At most a day later. -/
def later (hours : ℕ) (hh : hours ≤ 24) : Instant :=
  if h : t.hour + hours < 24 then
    { t with hour := t.hour + hours, hour_lt := h }
  else
    { t with
      date := t.date.next
      hour := t.hour + hours - 24
      hour_lt := by have := t.hour_lt; omega }

/-- Hours later are their seconds later. -/
theorem seconds_later (hours : ℕ) (hh : hours ≤ 24) :
    (t.later hours hh).seconds = t.seconds + hours * 3600 := by
  unfold later
  split_ifs with h
  · simp only [seconds]
    omega
  · have hnext := t.date.dayNumber_next
    simp only [seconds]
    omega

end Instant

end M57Card.Calendar
