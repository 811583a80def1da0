import Lsd.Drivers.GoldfishRtc
import Lsd.Lib.Gregorian

/-!
# The date of a timestamp

When `date` returns, and when what it returns is the date in the calendar. The
time of the day is always right. The days are counted in years of 31556926
seconds, which drift against the years of the calendar, and the two month tables
move by the leap day in opposite directions, so the date is right when the drift
is what the tables add.
-/

namespace Lsd

open Gregorian

namespace Month

/-- A month in the calendar. -/
def index : Month → Fin 12
  | .january => 0
  | .febuary => 1
  | .march => 2
  | .april => 3
  | .may => 4
  | .june => 5
  | .july => 6
  | .august => 7
  | .september => 8
  | .october => 9
  | .november => 10
  | .december => 11

variable {days : Nat} {leap : Bool} {month : Month}

/-- What the range of a month contains. -/
theorem contains_iff : month.contains leap days = true ↔
    (month.range leap).1 ≤ days ∧ days < (month.range leap).2 := by
  rw [contains, Bool.and_eq_true, decide_eq_true_eq, decide_eq_true_eq]

/-- A chosen month has a range that contains the days. -/
theorem range_of_fromOffset (chosen : fromOffset days leap = .ok month) :
    (month.range leap).1 ≤ days ∧ days < (month.range leap).2 := by
  rw [fromOffset] at chosen
  split at chosen
  · next found =>
    obtain rfl := Except.ok.inj chosen
    exact contains_iff.mp (List.find?_some found)
  · nomatch chosen

/-- The offset of a month is at most the start of its range. -/
theorem offset_le_range :
    ∀ (leap : Bool) (month : Month), month.offset leap ≤ (month.range leap).1 := by
  intro leap month
  cases leap <;> cases month <;> decide

/-- Offsets have a month up to the end of the last range. -/
theorem fromOffset_iff :
    (∃ month, fromOffset days leap = .ok month) ↔ days < 365 + leapOffset leap := by
  constructor
  · rintro ⟨month, chosen⟩
    have inside := (range_of_fromOffset chosen).2
    have last : (month.range leap).2 ≤ 365 + leapOffset leap := by
      cases leap <;> cases month <;> decide
    omega
  · intro early
    rw [fromOffset]
    split
    · next month _ => exact ⟨month, rfl⟩
    · next missing =>
      have outside := List.find?_eq_none.mp missing
      simp only [all, List.forall_mem_cons, contains_iff, range] at outside
      omega

/-- The offset of a chosen month is at most the days. -/
theorem offset_le (chosen : fromOffset days leap = .ok month) : month.offset leap ≤ days :=
  (offset_le_range leap month).trans (range_of_fromOffset chosen).1

/-- The first two months are chosen up to the end of the second range. -/
theorem index_le_one_iff (chosen : fromOffset days leap = .ok month) :
    month.index ≤ 1 ↔ days < 59 + leapOffset leap := by
  constructor
  · intro early
    have inside := (range_of_fromOffset chosen).2
    have second : month.index ≤ 1 → (month.range leap).2 ≤ 59 + leapOffset leap := by
      cases leap <;> cases month <;> decide
    have := second early
    omega
  · intro early
    by_cases first : days < 31
    · have chosen' : fromOffset days leap = .ok .january := by
        rw [fromOffset, all, List.find?_cons_of_pos (contains_iff.mpr ⟨Nat.zero_le _, first⟩)]
      obtain rfl := Except.ok.inj (chosen'.symm.trans chosen)
      decide
    · have chosen' : fromOffset days leap = .ok .febuary := by
        rw [fromOffset, all, List.find?_cons_of_neg fun inside => first (contains_iff.mp inside).2,
          List.find?_cons_of_pos (contains_iff.mpr ⟨Nat.le_of_not_lt first, early⟩)]
      obtain rfl := Except.ok.inj (chosen'.symm.trans chosen)
      decide

/-- Where a month begins in the calendar, compared with its offset. -/
theorem monthStart_index : ∀ (common leap : Bool) (month : Month),
    monthStart common month.index =
      month.offset leap + if month.index ≤ 1 then 0 else leapOffset common + leapOffset leap := by
  intro common leap month
  cases common <;> cases leap <;> cases month <;> decide

end Month

namespace UnixTimestamp

variable {self : UnixTimestamp} {date : Date} {first : Nat}

/-- What `date` returns, for a month that is chosen. -/
theorem date_eq {month : Month} (chosen : Month.fromOffset self.days self.isLeap = .ok month) :
    self.date = .ok {
      year := self.years
      month := month
      day := self.days - month.offset self.isLeap
      hour := self.seconds / 3600 % 24
      minute := self.seconds / 60 % 60
      second := self.seconds % 60 } := by
  rw [UnixTimestamp.date, chosen]
  exact if_neg (Nat.not_lt.mpr (Month.offset_le chosen))

/-- When `date` returns, a month is chosen. -/
theorem chosen_of_date (returned : self.date = .ok date) :
    ∃ month, Month.fromOffset self.days self.isLeap = .ok month := by
  rw [UnixTimestamp.date] at returned
  cases chosen : Month.fromOffset self.days self.isLeap with
  | error reason =>
    rw [chosen] at returned
    nomatch returned
  | ok month => exact ⟨month, rfl⟩

/-- `date` returns for every timestamp but those in the last hours of a year whose table has no leap
day; and no chosen month begins behind the day. -/
theorem date_returns_iff (self : UnixTimestamp) :
    ((∃ date, self.date = .ok date) ↔
      ¬ (self.count.toNat / 31556926 % 4 = 0 ∧ 31536000 ≤ self.count.toNat % 31556926)) ∧
    ∀ month, Month.fromOffset self.days self.isLeap = .ok month →
      month.offset self.isLeap ≤ self.days := by
  refine ⟨?_, fun month => Month.offset_le⟩
  have chosen : (∃ date, self.date = .ok date) ↔
      ∃ month, Month.fromOffset self.days self.isLeap = .ok month :=
    ⟨fun ⟨_, returned⟩ => chosen_of_date returned, fun ⟨_, chosen⟩ => ⟨_, date_eq chosen⟩⟩
  rw [chosen, Month.fromOffset_iff]
  by_cases common : self.years % 4 = 0
  · have flag : self.isLeap = false := by
      rw [isLeap, decide_eq_false_iff_not, not_not]
      exact common
    rw [flag]
    change self.count.toNat % 31556926 / 86400 < 365 ↔ _
    change self.count.toNat / 31556926 % 4 = 0 at common
    omega
  · have flag : self.isLeap = true := decide_eq_true common
    rw [flag]
    change self.count.toNat % 31556926 / 86400 < 366 ↔ _
    change ¬ self.count.toNat / 31556926 % 4 = 0 at common
    omega

/-- In the first second of 1971 the days are in no range. -/
theorem date_panics : (⟨31536000⟩ : UnixTimestamp).date = .error (.panic "Invalid offset") := by
  decide +kernel

/-- The day in the calendar. -/
def calendarDay (self : UnixTimestamp) : Gregorian.Date :=
  .after (self.seconds / 86400) (.newYear 1970)

/-- A date is that of the timestamp in the calendar, where the first day of a month has a number. -/
structure Shows (timestamp : UnixTimestamp) (first : Nat) (date : Date) : Prop where
  /-- The year. -/
  year : date.year + 1970 = timestamp.calendarDay.year
  /-- The month. -/
  month : date.month.index = timestamp.calendarDay.month
  /-- The day of the month. -/
  day : date.day = timestamp.calendarDay.day + first
  /-- The hour of the day. -/
  hour : date.hour = timestamp.seconds % 86400 / 3600
  /-- The minute of the hour. -/
  minute : date.minute = timestamp.seconds % 3600 / 60
  /-- The second of the minute. -/
  second : date.second = timestamp.seconds % 60

/-- The leap day of the year in the calendar. -/
def leapYear (self : UnixTimestamp) : Bool := Gregorian.isLeap (self.years + 1970)

/-- The days by which the day of the calendar is ahead of the days that `date` counts in its
year. -/
def drift (self : UnixTimestamp) : ℤ :=
  (self.seconds / 86400 : ℕ) - (yearStart (self.years + 1970) - yearStart 1970 : ℤ) - self.days

/-- The days that the tables add to the days of a year. -/
def tableDays (self : UnixTimestamp) : Nat :=
  if self.days < 59 + Month.leapOffset self.isLeap then 0
  else Month.leapOffset self.leapYear + Month.leapOffset self.isLeap

/-- The drift is what the tables add, and the days are a day that the month has. -/
def Aligned (self : UnixTimestamp) (first : Nat) : Prop :=
  ∃ month, Month.fromOffset self.days self.isLeap = .ok month ∧
    self.drift = (self.tableDays : ℤ) - first ∧
    month.offset self.isLeap + first ≤ self.days ∧
    self.days < month.offset self.isLeap + first + monthLength self.leapYear month.index

/-- The seconds since 1970 of a date, where the first day of a month has a number. -/
def secondsOf (first : Nat) (date : Date) : ℤ :=
  (yearStart (date.year + 1970) +
    monthStart (Gregorian.isLeap (date.year + 1970)) date.month.index +
      date.day - first - yearStart 1970) * 86400 +
    date.hour * 3600 + date.minute * 60 + date.second

/-- Which day a timestamp has in the calendar. -/
theorem calendarDay_eq_iff {day : Gregorian.Date} :
    self.calendarDay = day ↔ day.ordinal = yearStart 1970 + self.seconds / 86400 := by
  rw [calendarDay, Gregorian.Date.after_eq_iff, Gregorian.Date.ordinal_newYear]

/-- The month tables against the calendar. -/
theorem monthStart_tableDays {month : Month}
    (chosen : Month.fromOffset self.days self.isLeap = .ok month) :
    monthStart self.leapYear month.index = month.offset self.isLeap + self.tableDays := by
  have index := Month.index_le_one_iff chosen
  rw [Month.monthStart_index self.leapYear self.isLeap month, tableDays]
  simp only [index]

/-- A date shows the day of the timestamp exactly when the days are aligned. -/
theorem shows_iff (returned : self.date = .ok date) :
    self.Shows first date ↔ self.Aligned first := by
  obtain ⟨month, chosen⟩ := chosen_of_date returned
  obtain rfl := Except.ok.inj ((date_eq chosen).symm.trans returned)
  have starts := monthStart_tableDays chosen
  have fits := Month.offset_le chosen
  constructor
  · intro shows
    have valid := self.calendarDay.valid
    have ordinal := calendarDay_eq_iff.mp (rfl : self.calendarDay = self.calendarDay)
    have day : self.days - month.offset self.isLeap = self.calendarDay.day + first := shows.day
    have year : self.years + 1970 = self.calendarDay.year := shows.year
    have place : month.index = self.calendarDay.month := shows.month
    rw [← year, ← place] at valid
    rw [Gregorian.Date.ordinal, ← year, ← place] at ordinal
    change _ + monthStart self.leapYear month.index + _ = _ at ordinal
    change _ < monthLength self.leapYear month.index at valid
    refine ⟨month, chosen, ?_, ?_, ?_⟩
    · rw [drift]
      omega
    · omega
    · omega
  · rintro ⟨month', chosen', drifts, low, high⟩
    obtain rfl := Except.ok.inj (chosen.symm.trans chosen')
    have valid : self.days - month.offset self.isLeap - first <
        monthLength (Gregorian.isLeap (self.years + 1970)) month.index := by
      change _ < monthLength self.leapYear month.index
      omega
    have day : self.calendarDay = ⟨self.years + 1970, month.index, _, valid⟩ := by
      rw [calendarDay_eq_iff]
      change yearStart (self.years + 1970) + monthStart self.leapYear month.index +
        (self.days - month.offset self.isLeap - first) = _
      rw [drift] at drifts
      omega
    constructor
    case year => exact (congrArg Gregorian.Date.year day).symm
    case month => exact (congrArg Gregorian.Date.month day).symm
    case day =>
      rw [day]
      change self.days - month.offset self.isLeap =
        self.days - month.offset self.isLeap - first + first
      omega
    case hour =>
      change self.seconds / 3600 % 24 = _
      omega
    case minute =>
      change self.seconds / 60 % 60 = _
      omega
    case second => rfl

/-- A date that is shown goes back to the seconds of the timestamp. -/
theorem secondsOf_shows (shows : self.Shows first date) : secondsOf first date = self.seconds := by
  have ordinal := calendarDay_eq_iff.mp (rfl : self.calendarDay = self.calendarDay)
  have day := shows.day
  rw [Gregorian.Date.ordinal, ← shows.year, ← shows.month] at ordinal
  rw [secondsOf, shows.hour, shows.minute, shows.second]
  omega

/-- The days of a year, as `date` counts them, that lie in a month of the tables and not in that
month of the calendar, where the months begin with day 0 or with another day. -/
def edgeDays (first : Nat) (isLeap leapYear : Bool) : List Nat :=
  match first, isLeap with
  | 0, false => []
  | 0, true => (if leapYear then [] else [59]) ++ [89, 90, 119, 120, 150, 151, 180, 181, 211, 212,
      242, 243, 272, 273, 303, 304, 333, 334, 364, 365]
  | _, false => [0, 31, 59, 90, 120, 151, 181, 212, 243, 273, 304, 334]
  | _, true => [0, 31, 90, 120, 151, 181, 212, 243, 273, 304, 334, 365]

/-- These are the days at the edges of the tables. -/
theorem edgeDays_table : ∀ days < 366, ∀ isLeap leapYear : Bool, ∀ first < 2,
    (Month.fromOffset days isLeap).toOption.all (fun month =>
      decide ((month.offset isLeap + first ≤ days ∧
        days < month.offset isLeap + first + monthLength leapYear month.index) ↔
          days ∉ edgeDays first isLeap leapYear)) = true := by
  decide +kernel

/-- In numbers: the days are aligned when the drift is what the tables add and the day is not one of
those. -/
theorem aligned_iff_days (returned : self.date = .ok date) (convention : first < 2) :
    self.Aligned first ↔ self.drift = (self.tableDays : ℤ) - first ∧
      self.days ∉ edgeDays first self.isLeap self.leapYear := by
  obtain ⟨month, chosen⟩ := chosen_of_date returned
  have small : self.days < 366 := by
    unfold days
    omega
  have table := edgeDays_table self.days small self.isLeap self.leapYear first convention
  rw [chosen] at table
  have inMonth := of_decide_eq_true table
  constructor
  · rintro ⟨other, chosen', drifts, low, high⟩
    obtain rfl := Except.ok.inj (chosen.symm.trans chosen')
    exact ⟨drifts, inMonth.mp ⟨low, high⟩⟩
  · rintro ⟨drifts, within⟩
    obtain ⟨low, high⟩ := inMonth.mpr within
    exact ⟨month, chosen, drifts, low, high⟩

/-- What `date` returns is the date in the calendar, with some number for the first day of a month,
exactly when the days are aligned; and then it goes back to the timestamp. -/
theorem date_gregorian_iff (returned : self.date = .ok date) (first : Nat) :
    (self.Shows first date ↔ self.Aligned first) ∧
      (self.Aligned first → secondsOf first date = self.count.toNat) :=
  ⟨shows_iff returned, fun aligned => secondsOf_shows ((shows_iff returned).mpr aligned)⟩

/-- The last second of 1970 is shown, where the first day of a month is its day 0. -/
theorem date_gregorian_1970 :
    ∃ date, (⟨31535999⟩ : UnixTimestamp).date = .ok date ∧
      (⟨31535999⟩ : UnixTimestamp).Shows 0 date ∧ secondsOf 0 date = 31535999 := by
  have chosen : Month.fromOffset (days ⟨31535999⟩) (isLeap ⟨31535999⟩) = .ok .december := by
    decide +kernel
  have returned := date_eq chosen
  have aligned : (⟨31535999⟩ : UnixTimestamp).Aligned 0 :=
    ⟨.december, chosen, by decide +kernel, by decide +kernel, by decide +kernel⟩
  exact ⟨_, returned, (date_gregorian_iff returned 0).1.mpr aligned,
    (date_gregorian_iff returned 0).2 aligned⟩

/-- On the 14th of November 2023 the day that is returned is 15, which is neither the days of the
month that are over nor the day of the month. -/
theorem date_not_gregorian :
    ∃ date, (⟨1700000000⟩ : UnixTimestamp).date = .ok date ∧ date.day = 15 ∧
      (⟨1700000000⟩ : UnixTimestamp).calendarDay.day = 13 ∧
      ∀ first ≤ 1, ¬ (⟨1700000000⟩ : UnixTimestamp).Shows first date := by
  have chosen : Month.fromOffset (days ⟨1700000000⟩) (isLeap ⟨1700000000⟩) = .ok .november := by
    decide +kernel
  have returned := date_eq chosen
  have day : (⟨1700000000⟩ : UnixTimestamp).calendarDay = ⟨2023, 10, 13, by decide⟩ :=
    calendarDay_eq_iff.mpr (by decide +kernel)
  have shown : days ⟨1700000000⟩ - Month.offset (isLeap ⟨1700000000⟩) .november = 15 := by
    decide +kernel
  refine ⟨_, returned, shown, congrArg Gregorian.Date.day day, ?_⟩
  intro first convention shows
  have same := shows.day
  rw [day] at same
  change days ⟨1700000000⟩ - _ = 13 + first at same
  omega

end UnixTimestamp

end Lsd
