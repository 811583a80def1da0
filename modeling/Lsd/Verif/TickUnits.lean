import Lsd.Timing

/-!
# Ticks of a unit

How many ticks a deadline is away, compared with its length in seconds. Every
unit multiplies by the timer speed first, in 64 bits. A unit of whole seconds is
exact whenever its ticks fit; a fraction of a second divides what is left of the
product, and is exact only when the product fits.
-/

namespace Lsd

/-- The length of some periods of whole seconds. -/
def periods (value : UInt64) (seconds : Nat) : ℚ := value.toNat * seconds

/-- The length of some parts of a second. -/
def secondParts (value : UInt64) (parts : Nat) : ℚ := value.toNat / parts

/-- The length of a unit in seconds. A tick has none when the timer stands still. -/
def TimingUnit.length (timerSpeed : UInt64) : TimingUnit → Option ℚ
  | .weeks wks => some (periods wks 604800)
  | .days count => some (periods count 86400)
  | .hours hrs => some (periods hrs 3600)
  | .hectoseconds hs => some (periods hs 100)
  | .minutes mins => some (periods mins 60)
  | .decaseconds ds => some (periods ds 10)
  | .seconds secs => some (periods secs 1)
  | .deciseconds dis => some (secondParts dis 10)
  | .centiseconds cs => some (secondParts cs 100)
  | .milliSeconds ms => some (secondParts ms 1000)
  | .microSeconds us => some (secondParts us 1000000)
  | .ticks count => if timerSpeed = 0 then none else some (count.toNat / timerSpeed.toNat)

/-- The product of a fraction of a second does not fit. -/
def TimingUnit.Overflows (timerSpeed : UInt64) : TimingUnit → Prop
  | .deciseconds value | .centiseconds value | .milliSeconds value | .microSeconds value =>
    2 ^ 64 ≤ timerSpeed.toNat * value.toNat
  | _ => False

namespace TimingUnit

variable {timerSpeed value factor part : UInt64} {unit : TimingUnit} {seconds : ℚ}

/-- The ticks of periods are their product with the timer speed. -/
theorem floor_periods (seconds : Nat) :
    ⌊timerSpeed.toNat * periods value seconds⌋₊ = timerSpeed.toNat * value.toNat * seconds := by
  rw [periods, ← mul_assoc]
  exact_mod_cast Nat.floor_natCast (timerSpeed.toNat * value.toNat * seconds)

/-- The ticks of parts of a second are a quotient of their product with the timer speed. -/
theorem floor_secondParts {parts : Nat} (positive : 0 < parts) :
    ⌊timerSpeed.toNat * secondParts value parts⌋₊ = timerSpeed.toNat * value.toNat / parts := by
  have divisor : (0 : ℚ) < parts := by exact_mod_cast positive
  have below := Nat.div_mul_le_self (timerSpeed.toNat * value.toNat) parts
  have above := @Nat.lt_div_mul_add (timerSpeed.toNat * value.toNat) parts positive
  rw [secondParts, ← mul_div_assoc, ← Nat.cast_mul, Nat.floor_eq_iff (by positivity)]
  rw [le_div_iff₀ divisor, div_lt_iff₀ divisor, add_mul, one_mul]
  exact ⟨by exact_mod_cast below, by exact_mod_cast above⟩

/-- The product for periods is exact when it fits. -/
theorem periods_exact {seconds : Nat} (same : factor.toNat = seconds)
    (fits : ⌊timerSpeed.toNat * periods value seconds⌋₊ < 2 ^ 64) :
    (timerSpeed * value * factor).toNat = ⌊timerSpeed.toNat * periods value seconds⌋₊ := by
  rw [floor_periods] at fits ⊢
  rw [UInt64.toNat_mul, UInt64.toNat_mul, Nat.mod_mul_mod, same, Nat.mod_eq_of_lt fits]

/-- The quotient for parts of a second is exact when the product fits. -/
theorem secondParts_exact_iff {parts : Nat} (same : part.toNat = parts) (positive : 0 < parts) :
    (timerSpeed * value / part).toNat = ⌊timerSpeed.toNat * secondParts value parts⌋₊ ↔
      ¬ 2 ^ 64 ≤ timerSpeed.toNat * value.toNat := by
  have bound := part.toNat_lt
  rw [floor_secondParts positive, UInt64.toNat_div, UInt64.toNat_mul, same]
  generalize timerSpeed.toNat * value.toNat = product
  constructor
  · intro exact large
    -- what is cut off the product makes a difference of at least one
    have more : product % 2 ^ 64 + parts ≤ product := by omega
    have less : product % 2 ^ 64 / parts + 1 ≤ product / parts := by
      rw [← Nat.add_div_right _ positive]
      exact Nat.div_le_div_right more
    omega
  · intro small
    rw [Nat.mod_eq_of_lt (by omega)]

/-- The ticks of ticks. -/
theorem floor_ticks (moves : timerSpeed ≠ 0) :
    ⌊(timerSpeed.toNat : ℚ) * (value.toNat / timerSpeed.toNat)⌋₊ = value.toNat := by
  have rate : (timerSpeed.toNat : ℚ) ≠ 0 := by
    intro zero
    exact moves (UInt64.toNat_inj.mp (by exact_mod_cast zero))
  rw [mul_div_cancel₀ _ rate, Nat.floor_natCast]

/-- The ticks of a unit are exact, when they fit, unless the product of a fraction overflows. -/
theorem toTicks_eq_iff (measured : unit.length timerSpeed = some seconds)
    (fits : ⌊timerSpeed.toNat * seconds⌋₊ < 2 ^ 64) :
    (unit.toTicks timerSpeed).toNat = ⌊timerSpeed.toNat * seconds⌋₊ ↔
      ¬ unit.Overflows timerSpeed := by
  cases unit
  case ticks count =>
    rw [length] at measured
    split at measured
    · nomatch measured
    · next moves =>
      obtain rfl := Option.some.inj measured
      exact iff_of_true (floor_ticks moves).symm not_false
  case deciseconds =>
    obtain rfl := Option.some.inj measured
    exact secondParts_exact_iff rfl (by decide)
  case centiseconds =>
    obtain rfl := Option.some.inj measured
    exact secondParts_exact_iff rfl (by decide)
  case milliSeconds =>
    obtain rfl := Option.some.inj measured
    exact secondParts_exact_iff rfl (by decide)
  case microSeconds =>
    obtain rfl := Option.some.inj measured
    exact secondParts_exact_iff rfl (by decide)
  case seconds secs =>
    obtain rfl := Option.some.inj measured
    have exact := @periods_exact timerSpeed secs 1 1 rfl fits
    rw [UInt64.mul_one] at exact
    exact iff_of_true exact not_false
  all_goals
    obtain rfl := Option.some.inj measured
    exact iff_of_true (periods_exact rfl fits) not_false

/-- `Unit::ticks` is exact whenever the answer fits, unless a fraction of a second overflows; then
it never is. Of two units of one length, when one does not overflow, both have the same ticks
exactly when the other does not either. -/
theorem toTicks_exact_iff (timerSpeed : UInt64) :
    (∀ (unit : TimingUnit) (seconds : ℚ), unit.length timerSpeed = some seconds →
      ⌊timerSpeed.toNat * seconds⌋₊ < 2 ^ 64 →
      ((unit.toTicks timerSpeed).toNat = ⌊timerSpeed.toNat * seconds⌋₊ ↔
        ¬ unit.Overflows timerSpeed)) ∧
    ∀ (left right : TimingUnit) (seconds : ℚ), left.length timerSpeed = some seconds →
      right.length timerSpeed = some seconds → ⌊timerSpeed.toNat * seconds⌋₊ < 2 ^ 64 →
      ¬ left.Overflows timerSpeed →
      (left.toTicks timerSpeed = right.toTicks timerSpeed ↔ ¬ right.Overflows timerSpeed) := by
  refine ⟨fun _ _ measured fits => toTicks_eq_iff measured fits, ?_⟩
  intro left right seconds measured measured' fits fitting
  rw [← toTicks_eq_iff measured' fits, ← UInt64.toNat_inj,
    (toTicks_eq_iff measured fits).mpr fitting]
  exact eq_comm

/-- At ten million ticks per second ten milliseconds are a hundred thousand ticks, as many as one
centisecond. -/
theorem toTicks_exact_tenMega :
    ((milliSeconds 10).toTicks 10000000).toNat =
    ⌊(10000000 : UInt64).toNat * secondParts 10 1000⌋₊ ∧
      (milliSeconds 10).toTicks 10000000 = (centiseconds 1).toTicks 10000000 := by
  have fits : ⌊(10000000 : UInt64).toNat * secondParts 10 1000⌋₊ < 2 ^ 64 := by
    rw [floor_secondParts (by decide)]
    decide
  have same : secondParts 1 100 = secondParts 10 1000 := by
    have one : (1 : UInt64).toNat = 1 := rfl
    have ten : (10 : UInt64).toNat = 10 := rfl
    norm_num [secondParts, one, ten]
  have fitting : ¬ (milliSeconds 10).Overflows 10000000 := by
    change ¬ 2 ^ 64 ≤ _
    decide
  have fitting' : ¬ (centiseconds 1).Overflows 10000000 := by
    change ¬ 2 ^ 64 ≤ _
    decide
  have exact := toTicks_exact_iff 10000000
  exact ⟨(exact.1 _ _ rfl fits).mpr fitting,
    (exact.2 _ (centiseconds 1) _ rfl (congrArg some same) fits fitting).mpr fitting'⟩

/-- Two million million milliseconds are fewer ticks than a word holds, but their product with the
timer speed is not a word. As many deciseconds have other ticks. -/
theorem toTicks_inexact :
    ⌊(10000000 : UInt64).toNat * secondParts 2000000000000 1000⌋₊ = 20000000000000000 ∧
      ((milliSeconds 2000000000000).toTicks 10000000).toNat = 1553255926290448 ∧
      (milliSeconds 2000000000000).length 10000000 = (deciseconds 20000000000).length 10000000 ∧
      ((deciseconds 20000000000).toTicks 10000000).toNat = 20000000000000000 := by
  refine ⟨?_, by decide, ?_, by decide⟩
  · rw [floor_secondParts (by decide)]
    decide
  · have few : (20000000000 : UInt64).toNat = 20000000000 := rfl
    have many : (2000000000000 : UInt64).toNat = 2000000000000 := rfl
    norm_num [length, secondParts, few, many]

end TimingUnit

end Lsd
