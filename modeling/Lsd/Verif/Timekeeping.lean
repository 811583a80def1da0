import Lsd.Timing
import Lsd.Lib.Rounding

/-!
# Timekeeping

What the durations between two readings of the counter are worth, in exact time.
A duration is never longer than the time that has passed, so a timeout is never
early, and it stays expired. How much shorter it can be depends on the timer
speed, which is rounded up to whole ticks per microsecond before it divides.
-/

namespace Lsd

open Rounding

variable {freq : UInt64} {now later earlier : Instant}

/-- The nanoseconds of a duration. -/
def Duration.toNanos (self : Duration) : Nat := self.secs.toNat * 1000000000 + self.nanos.toNat

/-- The length of a duration in seconds. -/
def Duration.seconds (self : Duration) : ℚ := self.toNanos / 1000000000

/-- The ticks between two readings of the counter. -/
def Instant.ticksSince (self earlier : Instant) : Nat := self.count.toNat - earlier.count.toNat

/-- The time between two readings in seconds, at a timer speed. -/
def Instant.secondsSince (freq : UInt64) (self earlier : Instant) : ℚ :=
  self.ticksSince earlier / freq.toNat

/-- The order of durations is that of their nanoseconds. -/
theorem Duration.le_iff {left right : Duration} : left ≤ right ↔ left.toNanos ≤ right.toNanos := by
  have leftSmall := UInt32.lt_iff_toNat_lt.mp left.small
  have rightSmall := UInt32.lt_iff_toNat_lt.mp right.small
  change left.nanos.toNat < 1000000000 at leftSmall
  change right.nanos.toNat < 1000000000 at rightSmall
  change left.secs < right.secs ∨ left.secs = right.secs ∧ left.nanos ≤ right.nanos ↔ _
  rw [UInt64.lt_iff_toNat_lt, ← UInt64.toNat_inj, UInt32.le_iff_toNat_le, toNanos, toNanos]
  omega

/-- The nanoseconds that are counted for some ticks. -/
def countedNanos (rate ticks : Nat) : Nat :=
  ticks / rate * 1000000000 + ticks % rate / ((rate + 1000000 - 1) / 1000000) * 1000

section Counted

variable {rate ticks : Nat}

/-- The counted microseconds beyond the seconds are less than a second. -/
theorem micros_lt (moves : 0 < rate) : ticks % rate / ((rate + 1000000 - 1) / 1000000) < 1000000 :=
  (RoundsUp.of_div (by decide)).count_lt (Nat.mod_lt _ moves)

/-- More ticks never count less. -/
theorem countedNanos_mono (moves : 0 < rate) {more : Nat} (grows : ticks ≤ more) :
    countedNanos rate ticks ≤ countedNanos rate more := by
  have below := @micros_lt rate ticks moves
  have seconds : ticks / rate ≤ more / rate := Nat.div_le_div_right grows
  rw [countedNanos, countedNanos]
  rcases seconds.lt_or_eq with longer | same
  · omega
  · have left := Nat.div_add_mod ticks rate
    have right := Nat.div_add_mod more rate
    rw [same] at left ⊢
    have rest : ticks % rate ≤ more % rate := by omega
    exact Nat.add_le_add_left (Nat.mul_le_mul_right _ (Nat.div_le_div_right rest)) _

/-- What is counted never exceeds the ticks. -/
theorem countedNanos_le : countedNanos rate ticks * rate ≤ ticks * 1000000000 := by
  have whole := Nat.div_add_mod ticks rate
  have less : ticks % rate / ((rate + 1000000 - 1) / 1000000) * rate ≤ ticks % rate * 1000000 :=
    (RoundsUp.of_div (by decide)).count_le
  rw [countedNanos]
  nlinarith

/-- What is counted is within a microsecond of the ticks when the microseconds are. -/
theorem countedNanos_near :
    ticks * 1000000000 < (countedNanos rate ticks + 1000) * rate ↔
      Near rate 1000000 ((rate + 1000000 - 1) / 1000000) (ticks % rate) := by
  have whole := Nat.div_add_mod ticks rate
  rw [Near, countedNanos]
  generalize ticks % rate / ((rate + 1000000 - 1) / 1000000) = micros
  constructor <;> intro near <;> nlinarith

end Counted

section Speed

variable (moves : 0 < freq.toNat) (bound : freq.toNat + 1000000 < 2 ^ 64)
include moves bound

/-- The ticks that are taken for a microsecond, in numbers. -/
theorem ticksPerMicro_toNat :
    (Instant.ticksPerMicro freq).toNat = (freq.toNat + 1000000 - 1) / 1000000 := by
  have sum : (freq + microsPerSecond - 1).toNat = freq.toNat + 1000000 - 1 := by
    rw [UInt64.toNat_sub, UInt64.toNat_add]
    change (2 ^ 64 - 1 + (freq.toNat + 1000000) % 2 ^ 64) % 2 ^ 64 = _
    omega
  rw [Instant.ticksPerMicro, UInt64.toNat_div, sum]
  rfl

/-- What `checked_duration_since` returns: it divides by no zero, and nothing is cut off. -/
theorem checkedDurationSince_eq (ordered : earlier.count ≤ now.count) :
    ∃ elapsed, now.checkedDurationSince freq earlier = .ok (some elapsed) ∧
      elapsed.secs.toNat = now.ticksSince earlier / freq.toNat ∧
      elapsed.nanos.toNat = now.ticksSince earlier % freq.toNat /
        ((freq.toNat + 1000000 - 1) / 1000000) * 1000 := by
  have perMicro := ticksPerMicro_toNat moves bound
  have positive : 0 < (freq.toNat + 1000000 - 1) / 1000000 :=
    (RoundsUp.of_div (by decide)).positive moves
  have below := @micros_lt freq.toNat (now.ticksSince earlier) moves
  have diff : (now.count - earlier.count).toNat = now.ticksSince earlier :=
    UInt64.toNat_sub_of_le _ _ ordered
  have nonzero : freq ≠ 0 := by
    rintro rfl
    exact absurd moves (by decide)
  have nonzero' : Instant.ticksPerMicro freq ≠ 0 := by
    intro zero
    rw [zero] at perMicro
    exact positive.ne perMicro
  have exact : ((now.count - earlier.count) % freq / Instant.ticksPerMicro freq * 1000).toNat =
      now.ticksSince earlier % freq.toNat / ((freq.toNat + 1000000 - 1) / 1000000) * 1000 := by
    have thousand : (1000 : UInt64).toNat = 1000 := rfl
    rw [UInt64.toNat_mul, UInt64.toNat_div, UInt64.toNat_mod, diff, perMicro, thousand]
    apply Nat.mod_eq_of_lt
    omega
  obtain ⟨micros, quotient⟩ :
      ∃ micros, (now.count - earlier.count) % freq / Instant.ticksPerMicro freq = micros := ⟨_, rfl⟩
  rw [quotient] at exact
  have nanos : (micros * 1000).toUInt32.toNat =
      now.ticksSince earlier % freq.toNat / ((freq.toNat + 1000000 - 1) / 1000000) * 1000 := by
    rw [UInt64.toNat_toUInt32, exact, Nat.mod_eq_of_lt (by omega)]
  have small : (micros * 1000).toUInt32 < 1000000000 := by
    have second : (1000000000 : UInt32).toNat = 1000000000 := rfl
    rw [UInt32.lt_iff_toNat_lt, nanos, second]
    omega
  refine ⟨⟨(now.count - earlier.count) / freq, _, small⟩, ?_, ?_, nanos⟩
  · rw [Instant.checkedDurationSince, if_neg (UInt64.not_lt.mpr ordered)]
    dsimp only
    rw [Timed.divide_of_ne nonzero, Timed.ok_bind, Timed.remainder_of_ne nonzero, Timed.ok_bind,
      Timed.divide_of_ne nonzero', Timed.ok_bind, quotient, Duration.new_of_small small,
        Timed.ok_bind]
    rfl
  · rw [UInt64.toNat_div, diff]

/-- The nanoseconds between two readings, if one is after the other. -/
theorem checkedDurationSince_nanos (ordered : earlier.count ≤ now.count) :
    ∃ elapsed, now.checkedDurationSince freq earlier = .ok (some elapsed) ∧
      elapsed.toNanos = countedNanos freq.toNat (now.ticksSince earlier) := by
  obtain ⟨elapsed, ran, secs, nanos⟩ := checkedDurationSince_eq moves bound ordered
  refine ⟨elapsed, ran, ?_⟩
  rw [Duration.toNanos, secs, nanos, countedNanos]

/-- `duration_since` counts nothing when no time has passed. -/
theorem durationSince_nanos : ∃ elapsed, now.durationSince freq earlier = .ok elapsed ∧
    elapsed.toNanos = countedNanos freq.toNat (now.ticksSince earlier) := by
  rcases UInt64.lt_or_le now.count earlier.count with before | ordered
  · refine ⟨Duration.zero, ?_, ?_⟩
    · rw [Instant.durationSince, Instant.checkedDurationSince, if_pos before]
      rfl
    · have none : now.ticksSince earlier = 0 :=
        Nat.sub_eq_zero_of_le (UInt64.lt_iff_toNat_lt.mp before).le
      rw [none, countedNanos, Nat.zero_mod, Nat.zero_div, Nat.zero_div]
      rfl
  · obtain ⟨elapsed, ran, nanos⟩ := checkedDurationSince_nanos moves bound ordered
    refine ⟨elapsed, ?_, nanos⟩
    rw [Instant.durationSince, ran]
    rfl

/-- When a timeout has expired. -/
theorem expired_eq (timeout : Timeout) : timeout.expired freq now =
    .ok (timeout.duration.toNanos ≤ countedNanos freq.toNat (now.ticksSince timeout.start)) := by
  obtain ⟨elapsed, ran, nanos⟩ := @durationSince_nanos freq now timeout.start moves bound
  have same : timeout.duration ≤ elapsed ↔ timeout.duration.toNanos ≤
      countedNanos freq.toNat (now.ticksSince timeout.start) := nanos ▸ Duration.le_iff
  rw [Timeout.expired, ran, Timed.ok_bind, decide_eq_decide.mpr same]
  rfl

end Speed

/-- Counted nanoseconds are at most the time that has passed. -/
theorem countedNanos_seconds (moves : 0 < freq.toNat) :
    (countedNanos freq.toNat (now.ticksSince earlier) : ℚ) / 1000000000 ≤
      now.secondsSince freq earlier := by
  have less := @countedNanos_le freq.toNat (now.ticksSince earlier)
  rw [Instant.secondsSince, div_le_div_iff₀ (by norm_num) (by exact_mod_cast moves)]
  exact_mod_cast less

/-- A later reading is more ticks after an earlier one. -/
theorem ticksSince_mono (ordered : now.count ≤ later.count) :
    now.ticksSince earlier ≤ later.ticksSince earlier :=
  Nat.sub_le_sub_right (UInt64.le_iff_toNat_le.mp ordered) _

/-- A later reading is a duration after an earlier one only if it is no earlier. -/
theorem ordered_of_checked {elapsed : Duration}
    (ran : now.checkedDurationSince freq earlier = .ok (some elapsed)) :
    earlier.count ≤ now.count := by
  by_contra before
  rw [Instant.checkedDurationSince, if_pos (UInt64.not_le.mp before)] at ran
  cases ran

section Sound

variable (moves : 1 ≤ freq.toNat) (bound : freq.toNat + 1000000 < 2 ^ 64)

include moves bound

/-- The nanoseconds of a duration between two readings. -/
theorem checked_nanos {elapsed : Duration}
    (ran : now.checkedDurationSince freq earlier = .ok (some elapsed)) :
    elapsed.toNanos = countedNanos freq.toNat (now.ticksSince earlier) := by
  obtain ⟨found, same, nanos⟩ := checkedDurationSince_nanos moves bound (ordered_of_checked ran)
  obtain rfl : elapsed = found := by simpa [ran] using same
  exact nanos

/-- A duration is exact in its parts and never longer than the time that has passed. -/
theorem checked_parts (ordered : earlier.count ≤ now.count) :
    ∃ elapsed, now.checkedDurationSince freq earlier = .ok (some elapsed) ∧
      elapsed.secs.toNat = now.ticksSince earlier / freq.toNat ∧
      elapsed.nanos.toNat = now.ticksSince earlier % freq.toNat /
        ((freq.toNat + 1000000 - 1) / 1000000) * 1000 ∧
      elapsed.nanos.toNat < 1000000000 ∧ elapsed.seconds ≤ now.secondsSince freq earlier := by
  obtain ⟨elapsed, ran, secs, nanos⟩ := checkedDurationSince_eq moves bound ordered
  have whole := checked_nanos moves bound ran
  refine ⟨elapsed, ran, secs, nanos, UInt32.lt_iff_toNat_lt.mp elapsed.small, ?_⟩
  rw [Duration.seconds, whole]
  exact countedNanos_seconds moves

/-- Durations grow with the later reading. -/
theorem checked_mono {elapsed longer : Duration} (ordered : now.count ≤ later.count)
    (ran : now.checkedDurationSince freq earlier = .ok (some elapsed))
    (ran' : later.checkedDurationSince freq earlier = .ok (some longer)) : elapsed ≤ longer := by
  rw [Duration.le_iff, checked_nanos moves bound ran, checked_nanos moves bound ran']
  exact countedNanos_mono moves (ticksSince_mono ordered)

/-- A timeout has expired exactly when its nanoseconds are counted. -/
theorem expired_iff {timeout : Timeout} : timeout.expired freq now = .ok true ↔
    timeout.duration.toNanos ≤ countedNanos freq.toNat (now.ticksSince timeout.start) := by
  rw [expired_eq moves bound]
  constructor
  · intro expired
    exact of_decide_eq_true (Except.ok.inj expired)
  · intro reached
    rw [decide_eq_true reached]

/-- A timeout is never early. -/
theorem expired_late {timeout : Timeout} (expired : timeout.expired freq now = .ok true) :
    timeout.duration.seconds ≤ now.secondsSince freq timeout.start := by
  have reached := (expired_iff moves bound).mp expired
  refine le_trans ?_ (countedNanos_seconds moves)
  rw [Duration.seconds, div_le_div_iff_of_pos_right (by norm_num)]
  exact_mod_cast reached

/-- A timeout stays expired. -/
theorem expired_stays {timeout : Timeout} (ordered : now.count ≤ later.count)
    (expired : timeout.expired freq now = .ok true) : timeout.expired freq later = .ok true := by
  rw [expired_iff moves bound] at expired ⊢
  exact expired.trans (countedNanos_mono moves (ticksSince_mono ordered))

end Sound

/-- Durations between readings are exact in their parts, grow with the later reading and are never
longer than the time that has passed. A timeout is never early, and it stays expired. -/
theorem timeouts_sound (moves : 1 ≤ freq.toNat) (bound : freq.toNat + 1000000 < 2 ^ 64) :
    (∀ now earlier : Instant, earlier.count ≤ now.count →
      ∃ elapsed, now.checkedDurationSince freq earlier = .ok (some elapsed) ∧
        elapsed.secs.toNat = now.ticksSince earlier / freq.toNat ∧
        elapsed.nanos.toNat = now.ticksSince earlier % freq.toNat /
          ((freq.toNat + 1000000 - 1) / 1000000) * 1000 ∧
        elapsed.nanos.toNat < 1000000000 ∧ elapsed.seconds ≤ now.secondsSince freq earlier) ∧
    (∀ now earlier : Instant, now.count < earlier.count →
      now.checkedDurationSince freq earlier = .ok none) ∧
    (∀ (earlier now later : Instant) (elapsed longer : Duration), now.count ≤ later.count →
      now.checkedDurationSince freq earlier = .ok (some elapsed) →
      later.checkedDurationSince freq earlier = .ok (some longer) → elapsed ≤ longer) ∧
    (∀ (timeout : Timeout) (now : Instant), ∃ answer, timeout.expired freq now = .ok answer) ∧
    (∀ (timeout : Timeout) (now : Instant), timeout.expired freq now = .ok true →
      timeout.duration.seconds ≤ now.secondsSince freq timeout.start) ∧
    ∀ (timeout : Timeout) (now later : Instant), now.count ≤ later.count →
      timeout.expired freq now = .ok true → timeout.expired freq later = .ok true := by
  refine ⟨?_, ?_, ?_, ?_, ?_, ?_⟩
  · exact fun now earlier ordered => checked_parts moves bound ordered
  · exact fun now earlier before => if_pos before
  · exact fun earlier now later elapsed longer ordered => checked_mono moves bound ordered
  · exact fun timeout now => ⟨_, expired_eq moves bound timeout⟩
  · exact fun timeout now => expired_late moves bound
  · exact fun timeout now later ordered => expired_stays moves bound ordered

/-- A timeout of two seconds. -/
def twoSeconds : Timeout := ⟨⟨0⟩, ⟨2, 0, Duration.zero.small⟩⟩

/-- At ten million ticks per second a timeout of two seconds has expired after twenty million ticks,
and stays so. -/
theorem timeouts_sound_twoSeconds :
    twoSeconds.expired 10000000 ⟨20000000⟩ = .ok true ∧
      twoSeconds.duration.seconds ≤ Instant.secondsSince 10000000 ⟨20000000⟩ twoSeconds.start ∧
      twoSeconds.expired 10000000 ⟨30000000⟩ = .ok true := by
  have sound := @timeouts_sound 10000000 (by decide) (by decide)
  have expired : twoSeconds.expired 10000000 ⟨20000000⟩ = .ok true := by decide +kernel
  exact ⟨expired, sound.2.2.2.2.1 _ _ expired, sound.2.2.2.2.2 _ _ _ (by decide) expired⟩

/-- After some ticks the time that is lost until the next counted microsecond is less than the time
to it. What is lost per second is what the rate is rounded up by. -/
def Steady (rate ticks : Nat) : Prop :=
  let unit := (rate + 1000000 - 1) / 1000000
  let rest := ticks % rate
  let ahead := unit - rest % unit
  (rest + ahead) * (1000000 * unit - rate) < ahead * (1000000 * unit)

/-- A count is within a microsecond of the time exactly when the ticks are steady. -/
theorem countedNanos_accurate (moves : 0 < freq.toNat) :
    |(countedNanos freq.toNat (now.ticksSince earlier) : ℚ) / 1000000000 -
        now.secondsSince freq earlier| < 1 / 1000000 ↔
      Steady freq.toNat (now.ticksSince earlier) := by
  have rate : (0 : ℚ) < freq.toNat := by exact_mod_cast moves
  have under := @countedNanos_seconds freq now earlier moves
  have steady : Steady freq.toNat (now.ticksSince earlier) ↔ Near freq.toNat 1000000
      ((freq.toNat + 1000000 - 1) / 1000000) (now.ticksSince earlier % freq.toNat) :=
    ((RoundsUp.of_div (by decide)).near_iff moves).symm
  rw [steady, ← countedNanos_near, abs_sub_comm, abs_of_nonneg (sub_nonneg.mpr under),
    sub_lt_iff_lt_add', Instant.secondsSince, div_lt_iff₀ rate, ← @Nat.cast_lt ℚ]
  push_cast
  constructor <;> intro near <;> linarith

/-- The speeds at which every count is accurate. -/
theorem steady_iff {rate : Nat} (moves : 0 < rate) :
    (∀ ticks, Steady rate ticks) ↔ rate % 1000000 = 0 ∨ rate % 1000000 = 999999 ∨ rate = 1 := by
  have rounds : RoundsUp rate 1000000 ((rate + 1000000 - 1) / 1000000) := .of_div (by decide)
  have exceeds : 1000000 * ((rate + 1000000 - 1) / 1000000) ≤ rate + 1 ∨ rate = 1 ↔
      rate % 1000000 = 0 ∨ rate % 1000000 = 999999 ∨ rate = 1 := by omega
  rw [← exceeds, ← rounds.near_all_iff (by decide) moves]
  constructor
  · intro steady ticks below
    rw [rounds.near_iff moves]
    have here := steady ticks
    rw [Steady, Nat.mod_eq_of_lt below] at here
    exact here
  · intro near ticks
    exact (rounds.near_iff moves).mp (near _ (Nat.mod_lt _ moves))

/-- A duration between two readings is within a microsecond of the time that has passed exactly when
the ticks are steady, and every duration is at the speeds that are rounded up by at most one
tick. -/
theorem elapsed_accurate_iff (moves : 1 ≤ freq.toNat) (bound : freq.toNat + 1000000 < 2 ^ 64) :
    (∀ now earlier : Instant, earlier.count ≤ now.count →
      ∃ elapsed, now.checkedDurationSince freq earlier = .ok (some elapsed) ∧
        (|elapsed.seconds - now.secondsSince freq earlier| < 1 / 1000000 ↔
          Steady freq.toNat (now.ticksSince earlier))) ∧
    ((∀ (now earlier : Instant) (elapsed : Duration),
        now.checkedDurationSince freq earlier = .ok (some elapsed) →
        |elapsed.seconds - now.secondsSince freq earlier| < 1 / 1000000) ↔
      freq.toNat % 1000000 = 0 ∨ freq.toNat % 1000000 = 999999 ∨ freq.toNat = 1) := by
  have each : ∀ now earlier : Instant, earlier.count ≤ now.count →
      ∃ elapsed, now.checkedDurationSince freq earlier = .ok (some elapsed) ∧
        (|elapsed.seconds - now.secondsSince freq earlier| < 1 / 1000000 ↔
          Steady freq.toNat (now.ticksSince earlier)) := by
    intro now earlier ordered
    obtain ⟨elapsed, ran, nanos⟩ := checkedDurationSince_nanos moves bound ordered
    refine ⟨elapsed, ran, ?_⟩
    rw [Duration.seconds, nanos]
    exact countedNanos_accurate moves
  refine ⟨each, ?_⟩
  rw [← steady_iff moves]
  constructor
  · intro accurate ticks
    -- the ticks beyond the whole seconds are a reading
    have small : ticks % freq.toNat < 2 ^ 64 := (Nat.mod_lt _ moves).trans freq.toNat_lt
    have reading : Instant.ticksSince ⟨UInt64.ofNat (ticks % freq.toNat)⟩ ⟨0⟩ =
        ticks % freq.toNat := by
      change (UInt64.ofNat _).toNat - 0 = _
      rw [UInt64.toNat_ofNat', Nat.mod_eq_of_lt small, Nat.sub_zero]
    obtain ⟨elapsed, ran, near⟩ := each ⟨UInt64.ofNat (ticks % freq.toNat)⟩ ⟨0⟩ (UInt64.zero_le)
    have steady := near.mp (accurate _ _ _ ran)
    rw [reading, Steady, Nat.mod_mod] at steady
    exact steady
  · intro steady now earlier elapsed ran
    obtain ⟨elapsed', same, accurate⟩ := each now earlier (ordered_of_checked ran)
    obtain rfl : elapsed = elapsed' := by simpa [ran] using same
    exact accurate.mpr (steady _)

/-- At ten million ticks per second the time of a second and a half is accurate. -/
theorem elapsed_accurate_tenMega :
    ∃ elapsed, Instant.checkedDurationSince 10000000 ⟨15000000⟩ ⟨0⟩ = .ok (some elapsed) ∧
      |elapsed.seconds - Instant.secondsSince 10000000 ⟨15000000⟩ ⟨0⟩| < 1 / 1000000 := by
  have accurate := @elapsed_accurate_iff 10000000 (by decide) (by decide)
  obtain ⟨elapsed, ran, near⟩ := accurate.1 ⟨15000000⟩ ⟨0⟩ (by decide)
  exact ⟨elapsed, ran, accurate.2.mpr (.inl (by decide)) _ _ _ ran⟩

/-- At 32768 ticks per second, the speed of a watch crystal, 32767 ticks are counted as 32767
microseconds, and nearly a second has passed. -/
theorem elapsed_inaccurate :
    1 ≤ (32768 : UInt64).toNat ∧ (32768 : UInt64).toNat + 1000000 < 2 ^ 64 ∧
      ∃ elapsed, Instant.checkedDurationSince 32768 ⟨32767⟩ ⟨0⟩ = .ok (some elapsed) ∧
        ¬ |elapsed.seconds - Instant.secondsSince 32768 ⟨32767⟩ ⟨0⟩| < 1 / 1000000 := by
  refine ⟨by decide, by decide, ⟨0, 32767000, by decide⟩, by decide +kernel, ?_⟩
  have counted : Duration.toNanos ⟨0, 32767000, by decide⟩ = 32767000 := by decide
  have passed : Instant.ticksSince ⟨32767⟩ ⟨0⟩ = 32767 := by decide
  have rate : (32768 : UInt64).toNat = 32768 := by decide
  rw [Duration.seconds, counted, Instant.secondsSince, passed, rate]
  norm_num [abs_lt]

end Lsd
