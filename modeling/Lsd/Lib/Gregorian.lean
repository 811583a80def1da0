import Mathlib

/-!
# The Gregorian calendar

The calendar as it is counted: a date has a day after it, in the same month, in
the next one or in the next year, and the date after some days is found by
counting them. Every date has an ordinal, and dates with one ordinal are one
date, so a date can be found without counting.
-/

namespace Gregorian

/-- There are months. -/
instance instNeZeroMonths : NeZero 12 := ⟨by decide⟩

/-- A year with a leap day. -/
def isLeap (year : Nat) : Bool := year % 4 = 0 && (year % 100 ≠ 0 || year % 400 = 0)

/-- The days of a month, in a year with a leap day or without. -/
def monthLength (leap : Bool) : Fin 12 → Nat
  | 1 => if leap then 29 else 28
  | 3 | 5 | 8 | 10 => 30
  | _ => 31

/-- The days of a year before a month. -/
def monthStart (leap : Bool) (month : Fin 12) : Nat :=
  ![0, 31, 59, 90, 120, 151, 181, 212, 243, 273, 304, 334] month +
    if leap && 1 < month then 1 else 0

/-- The days of a year. -/
def yearLength (leap : Bool) : Nat := if leap then 366 else 365

/-- The days before a year. -/
def yearStart : Nat → Nat
  | 0 => 0
  | year + 1 => yearStart year + yearLength (isLeap year)

/-- A month has a day. -/
theorem monthLength_pos : ∀ (leap : Bool) (month : Fin 12), 0 < monthLength leap month := by
  decide

/-- A month begins when the one before it is over. -/
theorem monthStart_next : ∀ (leap : Bool) (month : Fin 12), month ≠ 11 →
    monthStart leap (month + 1) = monthStart leap month + monthLength leap month := by
  decide

/-- A month is over before a later one begins. -/
theorem monthStart_add_le : ∀ (leap : Bool) (month later : Fin 12), month < later →
    monthStart leap month + monthLength leap month ≤ monthStart leap later := by
  decide

/-- Every month is over with its year. -/
theorem monthStart_add_le_year : ∀ (leap : Bool) (month : Fin 12),
    monthStart leap month + monthLength leap month ≤ yearLength leap := by
  decide

/-- A year is over before a later one begins. -/
theorem yearStart_add_le {year later : Nat} (before : year < later) :
    yearStart year + yearLength (isLeap year) ≤ yearStart later := by
  induction later with
  | zero => nomatch before
  | succ later ih =>
    rcases Nat.lt_succ_iff_lt_or_eq.mp before with sooner | rfl
    · exact (ih sooner).trans (Nat.le_add_right ..)
    · exact Nat.le_refl _

/-- A date. The first day of a month is its day 0. -/
@[ext] structure Date where
  /-- The year. -/
  year : Nat
  /-- The month. -/
  month : Fin 12
  /-- The days of the month that are over. -/
  day : Nat
  /-- The month has the day. -/
  valid : day < monthLength (isLeap year) month
deriving DecidableEq

namespace Date

/-- The first day of a year. -/
def newYear (year : Nat) : Date := ⟨year, 0, 0, monthLength_pos _ _⟩

/-- The day after a date. -/
def next (date : Date) : Date :=
  if inside : date.day + 1 < monthLength (isLeap date.year) date.month then
    ⟨date.year, date.month, date.day + 1, inside⟩
  else if date.month = 11 then newYear (date.year + 1)
  else ⟨date.year, date.month + 1, 0, monthLength_pos _ _⟩

/-- The date some days after another. -/
def after (days : Nat) (date : Date) : Date := next^[days] date

/-- The days before a date, from the first day of the year 0. -/
def ordinal (date : Date) : Nat :=
  yearStart date.year + monthStart (isLeap date.year) date.month + date.day

/-- A year begins with its first day. -/
theorem ordinal_newYear (year : Nat) : (newYear year).ordinal = yearStart year := by
  have first : monthStart (isLeap year) 0 = 0 := by cases isLeap year <;> rfl
  change yearStart year + monthStart (isLeap year) 0 + 0 = _
  rw [first]
  rfl

/-- The next day has the next ordinal. -/
theorem ordinal_next (date : Date) : date.next.ordinal = date.ordinal + 1 := by
  have valid := date.valid
  rw [next]
  split
  · exact (Nat.add_assoc ..).symm
  · next full =>
    have last : date.day + 1 = monthLength (isLeap date.year) date.month := by omega
    split
    · next december =>
      have year : monthStart (isLeap date.year) 11 + monthLength (isLeap date.year) 11 =
          yearLength (isLeap date.year) := by
        cases isLeap date.year <;> rfl
      rw [december] at last
      rw [ordinal_newYear, yearStart, ordinal, december]
      omega
    · next inside =>
      have month := monthStart_next (isLeap date.year) date.month inside
      change yearStart date.year + monthStart (isLeap date.year) (date.month + 1) + 0 = _
      rw [ordinal, month]
      omega

/-- Days later the ordinal has grown by the days. -/
theorem ordinal_after (days : Nat) (date : Date) :
    (after days date).ordinal = date.ordinal + days := by
  induction days with
  | zero => rfl
  | succ days ih =>
    rw [after, Function.iterate_succ_apply', ordinal_next]
    exact congrArg (· + 1) ih

/-- A date is in its year. -/
theorem ordinal_lt (date : Date) :
    date.ordinal < yearStart date.year + yearLength (isLeap date.year) := by
  have valid := date.valid
  have year := monthStart_add_le_year (isLeap date.year) date.month
  rw [ordinal]
  omega

/-- Dates with one ordinal are in one year. -/
theorem year_eq {left right : Date} (same : left.ordinal = right.ordinal) :
    left.year = right.year := by
  have leftInside := left.ordinal_lt
  have rightInside := right.ordinal_lt
  have leftStart : yearStart left.year ≤ left.ordinal := by
    rw [ordinal]
    omega
  have rightStart : yearStart right.year ≤ right.ordinal := by
    rw [ordinal]
    omega
  rcases Nat.lt_trichotomy left.year right.year with before | equal | behind
  · have ended := yearStart_add_le before
    omega
  · exact equal
  · have ended := yearStart_add_le behind
    omega

/-- Dates with one ordinal are one date. -/
theorem ordinal_injective : Function.Injective ordinal := by
  intro left right same
  have year := year_eq same
  have leftValid := left.valid
  have rightValid := right.valid
  rw [ordinal, ordinal, year] at same
  rw [year] at leftValid
  have month : left.month = right.month := by
    rcases lt_trichotomy left.month right.month with before | equal | behind
    · have ended := monthStart_add_le (isLeap right.year) _ _ before
      omega
    · exact equal
    · have ended := monthStart_add_le (isLeap right.year) _ _ behind
      omega
  rw [month] at same
  exact Date.ext year month (by omega)

/-- A date is some days after another exactly when its ordinal is. -/
theorem after_eq_iff {days : Nat} {date later : Date} :
    after days date = later ↔ later.ordinal = date.ordinal + days := by
  rw [← ordinal_injective.eq_iff, ordinal_after]
  exact eq_comm

end Date

end Gregorian
