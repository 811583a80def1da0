import Lsd.Memory.Address

/-!
# Time

`timing`: the counter of the hart, the durations between two of its readings,
timeouts, and the units in which a deadline is set. What a tick is worth is the
timer speed, which the device tree tells in ticks per second.
-/

namespace Lsd

/-- Timing code, which returns or panics. -/
abbrev Timed (α : Type) : Type := Except Stop α

/-- Timing code goes on with the value that it returns. -/
@[simp] theorem Timed.ok_bind {α β : Type} (value : α) (next : α → Timed β) :
    (Except.ok value : Timed α) >>= next = next value := rfl

/-- A division, which panics for a divisor of zero. -/
def Timed.divide (left right : UInt64) : Timed UInt64 :=
  if right = 0 then .error (.panic "attempt to divide by zero") else .ok (left / right)

/-- A division by something. -/
theorem Timed.divide_of_ne {left right : UInt64} (nonzero : right ≠ 0) :
    Timed.divide left right = .ok (left / right) :=
  if_neg nonzero

/-- A remainder, which panics for a divisor of zero. -/
def Timed.remainder (left right : UInt64) : Timed UInt64 :=
  if right = 0 then .error (.panic "attempt to calculate the remainder with a divisor of zero")
  else .ok (left % right)

/-- A remainder of a division by something. -/
theorem Timed.remainder_of_ne {left right : UInt64} (nonzero : right ≠ 0) :
    Timed.remainder left right = .ok (left % right) :=
  if_neg nonzero

/-- `core::time::Duration`. -/
structure Duration where
  /-- Whole seconds. -/
  secs : UInt64
  /-- The nanoseconds beyond them. -/
  nanos : UInt32
  /-- They are less than a second. -/
  small : nanos < 1000000000
deriving DecidableEq, Repr

namespace Duration

/-- `Duration::new`, which carries whole seconds over. -/
def new (secs : UInt64) (nanos : UInt32) : Timed Duration :=
  if small : nanos < 1000000000 then .ok ⟨secs, nanos, small⟩
  else if secs.toNat + (nanos / 1000000000).toNat < 2 ^ 64 then
    .ok ⟨secs + (nanos / 1000000000).toUInt64, nanos % 1000000000, UInt32.mod_lt _ (by decide)⟩
  else .error (.panic "overflow in Duration::new")

/-- Nothing is carried from less than a second. -/
theorem new_of_small {secs : UInt64} {nanos : UInt32} (small : nanos < 1000000000) :
    new secs nanos = .ok ⟨secs, nanos, small⟩ :=
  dif_pos small

/-- `Duration::default`. -/
def zero : Duration := ⟨0, 0, by decide⟩

/-- Durations are ordered by their seconds, and then by their nanoseconds. -/
instance : LE Duration where
  le left right := left.secs < right.secs ∨ left.secs = right.secs ∧ left.nanos ≤ right.nanos

instance : DecidableLE Duration := fun left right =>
  inferInstanceAs (Decidable (left.secs < right.secs ∨ _))

end Duration

/-- `MICROS_PER_SECOND`. -/
def microsPerSecond : UInt64 := 1000000

/-- `Instant`: a reading of the counter. -/
structure Instant where
  /-- The ticks at that time. -/
  count : UInt64
deriving DecidableEq, Repr

namespace Instant

/-- The ticks that `checked_duration_since` takes for a microsecond. -/
def ticksPerMicro (freq : UInt64) : UInt64 := (freq + microsPerSecond - 1) / microsPerSecond

/-- `checked_duration_since`, at a timer speed. -/
def checkedDurationSince (freq : UInt64) (self earlier : Instant) : Timed (Option Duration) :=
  if self.count < earlier.count then .ok none
  else do
    let diff := self.count - earlier.count
    let secs ← Timed.divide diff freq
    let rems ← Timed.remainder diff freq
    let micros ← Timed.divide rems (ticksPerMicro freq)
    let nanos := micros * 1000
    let duration ← Duration.new secs nanos.toUInt32
    pure (some duration)

/-- `duration_since`, and `Sub::sub`. -/
def durationSince (freq : UInt64) (self earlier : Instant) : Timed Duration := do
  let duration ← checkedDurationSince freq self earlier
  pure (duration.getD Duration.zero)

end Instant

/-- `Timeout`. -/
structure Timeout where
  /-- When it was started. -/
  start : Instant
  /-- How long it lasts. -/
  duration : Duration
deriving DecidableEq, Repr

namespace Timeout

/-- `Timeout::start`, at a reading of the counter. -/
def started (now : Instant) (duration : Duration) : Timeout := ⟨now, duration⟩

/-- `Timeout::expired`, at a reading of the counter. -/
def expired (freq : UInt64) (now : Instant) (self : Timeout) : Timed Bool := do
  let elapsed ← now.durationSince freq self.start
  pure (self.duration ≤ elapsed)

end Timeout

/-- `timing::Unit`: how long a deadline is away. -/
inductive TimingUnit where
  /-- 604800 seconds. -/
  | weeks (wks : UInt64)
  /-- 86400 seconds. -/
  | days (days : UInt64)
  /-- 3600 seconds. -/
  | hours (hrs : UInt64)
  /-- 100 seconds. -/
  | hectoseconds (hs : UInt64)
  /-- 60 seconds. -/
  | minutes (mins : UInt64)
  /-- 10 seconds. -/
  | decaseconds (ds : UInt64)
  /-- The base unit of time. -/
  | seconds (secs : UInt64)
  /-- .1 seconds. -/
  | deciseconds (dis : UInt64)
  /-- .01 seconds. -/
  | centiseconds (cs : UInt64)
  /-- .001 seconds. -/
  | milliSeconds (ms : UInt64)
  /-- .000001 seconds. -/
  | microSeconds (us : UInt64)
  /-- A tick of the hardware timer. -/
  | ticks (ticks : UInt64)
deriving DecidableEq, Repr

/-- `Unit::ticks`, at a timer speed. -/
def TimingUnit.toTicks (timerSpeed : UInt64) : TimingUnit → UInt64
  | .weeks wks => timerSpeed * wks * 604800
  | .days count => timerSpeed * count * 86400
  | .hours hrs => timerSpeed * hrs * 3600
  | .hectoseconds hs => timerSpeed * hs * 100
  | .minutes mins => timerSpeed * mins * 60
  | .decaseconds ds => timerSpeed * ds * 10
  | .seconds secs => timerSpeed * secs
  | .deciseconds dis => timerSpeed * dis / 10
  | .centiseconds cs => timerSpeed * cs / 100
  | .milliSeconds ms => timerSpeed * ms / 1000
  | .microSeconds us => timerSpeed * us / 1000000
  | .ticks count => count

end Lsd
