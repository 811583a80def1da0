import Lsd.Memory.Address

/-!
# The real time clock

`goldfish_rtc`: how a count of seconds since 1970 is shown as a date. A year is
taken to have 31556926 seconds. The days in such a year select the month and the
day, both with a leap day that depends on the year.
-/

namespace Lsd

/-- `Month`. -/
inductive Month where
  | january
  | febuary
  | march
  | april
  | may
  | june
  | july
  | august
  | september
  | october
  | november
  | december
deriving DecidableEq, Repr

namespace Month

/-- `leap_offset`. -/
def leapOffset (isLeap : Bool) : Nat := if isLeap then 1 else 0

/-- `Month::offset`. -/
def offset (isLeap : Bool) : Month → Nat
  | .january => 0
  | .febuary => 31
  | .march => 59 - leapOffset isLeap
  | .april => 90 - leapOffset isLeap
  | .may => 120 - leapOffset isLeap
  | .june => 151 - leapOffset isLeap
  | .july => 181 - leapOffset isLeap
  | .august => 212 - leapOffset isLeap
  | .september => 243 - leapOffset isLeap
  | .october => 273 - leapOffset isLeap
  | .november => 304 - leapOffset isLeap
  | .december => 334 - leapOffset isLeap

/-- The range of a month in `Month::from_offset`. -/
def range (isLeap : Bool) : Month → Nat × Nat
  | .january => (0, 31)
  | .febuary => (31, 59 + leapOffset isLeap)
  | .march => (59, 90 + leapOffset isLeap)
  | .april => (90, 120 + leapOffset isLeap)
  | .may => (120, 151 + leapOffset isLeap)
  | .june => (151, 181 + leapOffset isLeap)
  | .july => (181, 212 + leapOffset isLeap)
  | .august => (212, 243 + leapOffset isLeap)
  | .september => (243, 273 + leapOffset isLeap)
  | .october => (273, 304 + leapOffset isLeap)
  | .november => (304, 334 + leapOffset isLeap)
  | .december => (334, 365 + leapOffset isLeap)

/-- `Range::contains`, for the range of a month. -/
def contains (isLeap : Bool) (offset : Nat) (month : Month) : Bool :=
  (month.range isLeap).1 ≤ offset && offset < (month.range isLeap).2

/-- The months, in the order in which `Month::from_offset` tries them. -/
def all : List Month :=
  [.january, .febuary, .march, .april, .may, .june, .july, .august, .september, .october,
    .november, .december]

/-- `Month::from_offset`: the first month with a range that contains the offset. -/
def fromOffset (offset : Nat) (isLeap : Bool) : Except Stop Month :=
  match all.find? (contains isLeap offset) with
  | some month => .ok month
  | none => .error (.panic "Invalid offset")

end Month

/-- `Date`. -/
structure Date where
  /-- Years since 1970. -/
  year : Nat
  /-- The month. -/
  month : Month
  /-- The day of the month. -/
  day : Nat
  /-- The hour of the day. -/
  hour : Nat
  /-- The minute of the hour. -/
  minute : Nat
  /-- The second of the minute. -/
  second : Nat
deriving DecidableEq, Repr

/-- `UnixTimestamp`. -/
structure UnixTimestamp where
  /-- The seconds since 1970. -/
  count : UInt64
deriving DecidableEq, Repr

namespace UnixTimestamp

variable (self : UnixTimestamp)

/-- `seconds`, in `date`. -/
def seconds : Nat := self.count.toNat

/-- `days`, in `date`. -/
def days : Nat := self.seconds % 31556926 / 86400

/-- `years`, in `date`. -/
def years : Nat := self.seconds / 31556926

/-- The flag that `date` gives for a leap year. -/
def isLeap : Bool := self.years % 4 ≠ 0

/-- `UnixTimestamp::date`. A day that is negative is an error here. -/
def date : Except Stop Date := do
  let minutes := self.seconds / 60
  let hours := self.seconds / 3600
  let months ← Month.fromOffset self.days self.isLeap
  if self.days < months.offset self.isLeap then
    .error (.panic "attempt to subtract with overflow")
  else
    pure {
      year := self.years
      month := months
      day := self.days - months.offset self.isLeap
      hour := hours % 24
      minute := minutes % 60
      second := self.seconds % 60 }

end UnixTimestamp

end Lsd
