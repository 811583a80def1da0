import Mathlib

/-!
# Counting in rounded units

A rate counts ticks for each whole, and a whole has a number of parts. When a
part is taken to be a whole number of ticks, rounded up, the parts that are
counted in some ticks are too few. How far they fall behind, and for which rates
they stay within one part.
-/

namespace Rounding

variable {rate parts unit ticks : Nat}

/-- A unit is the ticks of a part, rounded up. -/
structure RoundsUp (rate parts unit : Nat) : Prop where
  /-- The units of all parts cover the whole. -/
  covers : rate ≤ parts * unit
  /-- A unit with a tick less does not. -/
  least : parts * unit < rate + parts

/-- The parts that are counted stay within one part of the ticks. -/
def Near (rate parts unit ticks : Nat) : Prop := ticks * parts < (ticks / unit + 1) * rate

/-- A division that rounds up makes such a unit. -/
theorem RoundsUp.of_div (positive : 0 < parts) :
    RoundsUp rate parts ((rate + parts - 1) / parts) := by
  have whole := Nat.div_add_mod (rate + parts - 1) parts
  have rest := Nat.mod_lt (rate + parts - 1) positive
  constructor <;> omega

namespace RoundsUp

variable (rounds : RoundsUp rate parts unit)
include rounds

/-- A unit has a tick. -/
theorem positive (moves : 0 < rate) : 0 < unit :=
  Nat.pos_of_mul_pos_left (moves.trans_le rounds.covers)

/-- Less than a whole has fewer units than parts. -/
theorem count_lt (below : ticks < rate) : ticks / unit < parts :=
  Nat.div_lt_of_lt_mul (below.trans_le (Nat.mul_comm parts unit ▸ rounds.covers))

/-- The parts that are counted never exceed the ticks. -/
theorem count_le : ticks / unit * rate ≤ ticks * parts :=
  calc ticks / unit * rate
    _ ≤ ticks / unit * (parts * unit) := Nat.mul_le_mul_left _ rounds.covers
    _ = ticks / unit * unit * parts := by ring
    _ ≤ ticks * parts := Nat.mul_le_mul_right _ (Nat.div_mul_le_self _ _)

/-- The count stays within one part when what is lost until the next unit is less than the ticks to
that unit. -/
theorem near_iff (moves : 0 < rate) :
    Near rate parts unit ticks ↔
      (ticks + (unit - ticks % unit)) * (parts * unit - rate) <
        (unit - ticks % unit) * (parts * unit) := by
  have positive := rounds.positive moves
  have whole := Nat.div_add_mod ticks unit
  have rest := Nat.mod_lt ticks positive
  obtain ⟨left, leaves⟩ := Nat.exists_eq_add_of_le rest.le
  obtain ⟨excess, exceeds⟩ := Nat.exists_eq_add_of_le rounds.covers
  have next : ticks + (unit - ticks % unit) = unit * (ticks / unit + 1) := by
    rw [Nat.mul_succ]
    omega
  have ahead : unit - ticks % unit = left := by omega
  have lost : parts * unit - rate = excess := by omega
  rw [next, ahead, lost, Near]
  have scaled : unit * (ticks / unit + 1) * excess < left * (parts * unit) ↔
      (ticks / unit + 1) * excess < left * parts := by
    rw [show left * (parts * unit) = unit * (left * parts) by ring, Nat.mul_assoc]
    exact Nat.mul_lt_mul_left positive
  -- both sides, when the ticks are counted up to the next unit
  have counted : ticks * parts + left * parts = (ticks / unit + 1) * (parts * unit) := by
    rw [← Nat.add_mul, ← ahead, next]
    ring
  rw [exceeds, Nat.mul_add] at counted
  omega

/-- At the last tick of the units that fit in the whole, the count stays within one part when the
excess of those units is less than the parts. -/
theorem near_last (moves : 0 < rate) (fits : 0 < rate / unit) :
    Near rate parts unit (unit * (rate / unit) - 1) ↔
      rate / unit * (parts * unit - rate) < parts := by
  have positive := rounds.positive moves
  obtain ⟨before, counts⟩ := Nat.exists_eq_add_of_lt fits
  have tick : unit * (rate / unit) - 1 = unit * before + (unit - 1) := by
    rw [counts, Nat.zero_add, Nat.mul_succ]
    omega
  have last : (unit * (rate / unit) - 1) % unit = unit - 1 := by
    rw [tick, Nat.mul_add_mod, Nat.mod_eq_of_lt (by omega)]
  have left : unit - (unit - 1) = 1 := by omega
  have ends : unit * (rate / unit) - 1 + 1 = unit * (rate / unit) :=
    Nat.sub_add_cancel (Nat.mul_pos positive fits)
  rw [rounds.near_iff moves, last, left, ends, Nat.one_mul, Nat.mul_comm parts unit, Nat.mul_assoc]
  exact Nat.mul_lt_mul_left positive

/-- The excess of the units that fit in a whole reaches the parts, unless it is at most one tick or
the whole has no other tick. -/
theorem excess_reaches (enough : 4 ≤ parts) (moves : 1 < rate) (exceeds : rate + 2 ≤ parts * unit) :
    parts ≤ rate / unit * (parts * unit - rate) := by
  have positive := rounds.positive (Nat.zero_lt_of_lt moves)
  have least := rounds.least
  have whole := Nat.div_add_mod rate unit
  have rest := Nat.mod_lt rate positive
  obtain ⟨excess, total⟩ := Nat.exists_eq_add_of_le rounds.covers
  have lost : parts * unit - rate = excess := by omega
  rw [lost]
  generalize rate / unit = count at whole ⊢
  have few : count < parts := by
    by_contra many
    have : parts * unit ≤ unit * count := Nat.mul_comm parts unit ▸
      Nat.mul_le_mul_left unit (Nat.le_of_not_lt many)
    omega
  obtain ⟨others, split⟩ := Nat.exists_eq_add_of_lt few
  have spread : parts * unit = unit * count + others * unit + unit := by
    rw [split]
    ring
  have large : others * unit < excess := by omega
  rcases Nat.eq_zero_or_pos others with none | some
  · -- all but one of the units fit
    subst none
    have double : count * 2 ≤ count * excess := Nat.mul_le_mul_left count (by omega)
    omega
  · have each : others ≤ others * unit := Nat.le_mul_of_pos_right others positive
    rcases Nat.lt_or_ge 1 count with more | one
    · nlinarith
    · -- a unit of more than one tick would leave an excess of more than the parts
      have single : unit = 1 := by
        by_contra several
        have : others * 2 ≤ others * unit := Nat.mul_le_mul_left others (by omega)
        omega
      subst single
      omega

/-- The count stays within one part for all ticks exactly when the units exceed the whole by at most
one tick, or the whole is a single tick. -/
theorem near_all_iff (enough : 4 ≤ parts) (moves : 0 < rate) :
    (∀ ticks < rate, Near rate parts unit ticks) ↔ parts * unit ≤ rate + 1 ∨ rate = 1 := by
  have positive := rounds.positive moves
  have covers := rounds.covers
  constructor
  · intro near
    by_contra failing
    obtain ⟨exceeds, more⟩ := not_or.mp failing
    have fits : 0 < rate / unit := by
      have reaches := rounds.excess_reaches enough (by omega) (by omega)
      exact Nat.pos_of_mul_pos_right (Nat.lt_of_lt_of_le (by omega) reaches)
    have inside := Nat.mul_div_le rate unit
    have whole := Nat.mul_pos positive fits
    have last := (rounds.near_last moves fits).mp (near _ (by omega))
    have reaches := rounds.excess_reaches enough (by omega) (by omega)
    omega
  · rintro (exceeds | single) ticks below
    · rw [rounds.near_iff moves]
      have rest := Nat.mod_lt ticks positive
      obtain ⟨more, ahead⟩ := Nat.exists_eq_add_of_lt rest
      have next : unit - ticks % unit = more + 1 := by omega
      have room : more ≤ more * (parts * unit) := Nat.le_mul_of_pos_right more (by omega)
      rw [next, Nat.add_mul more, Nat.one_mul]
      rcases Nat.le_one_iff_eq_zero_or_eq_one.mp (Nat.sub_le_iff_le_add'.mpr exceeds) with
        none | one
      · rw [none]
        omega
      · rw [one]
        omega
    · subst single
      obtain rfl : ticks = 0 := by omega
      rw [Near, Nat.zero_mul, Nat.mul_one]
      exact Nat.succ_pos _

end RoundsUp

end Rounding
