import Mathlib

/-!
# The next index in cyclic order

A round-robin scan starts after an index, goes through the positions of an array
and from its end back to its start, and stops at the first position that has a
property. A position that has it is met within one round, and the position the
scan started from is met last.
-/

namespace Cycle

variable {n i j k : Nat} {p : Nat → Prop}

/-- `j` is the first position after `i`, in cyclic order, with the property. -/
def Next (n : Nat) (p : Nat → Prop) (i j : Nat) : Prop :=
  ∃ distance, 0 < distance ∧ distance ≤ n ∧ j = (i + distance) % n ∧ p j ∧
    ∀ before, 0 < before → before < distance → ¬ p ((i + before) % n)

/-- A step to the next position wraps at the end. -/
theorem succ_mod (bound : i < n) : (if i + 1 = n then 0 else i + 1) = (i + 1) % n := by
  split
  · next wraps => rw [wraps, Nat.mod_self]
  · next inside => exact (Nat.mod_eq_of_lt (by omega)).symm

/-- The start is not met before the round is over. -/
theorem mod_ne_start (bound : i < n) {distance : Nat} (positive : 0 < distance)
    (short : distance < n) : (i + distance) % n ≠ i := by
  by_cases inside : i + distance < n
  · rw [Nat.mod_eq_of_lt inside]
    omega
  · rw [Nat.mod_eq_sub_mod (by omega), Nat.mod_eq_of_lt (by omega)]
    omega

/-- Every position is met within one round. -/
theorem exists_distance (start : i < n) (bound : k < n) :
    ∃ distance, 0 < distance ∧ distance ≤ n ∧ (i + distance) % n = k := by
  by_cases after : i < k
  · exact ⟨k - i, by omega, by omega, by rw [Nat.add_sub_cancel' after.le, Nat.mod_eq_of_lt bound]⟩
  · refine ⟨k + n - i, by omega, by omega, ?_⟩
    rw [show i + (k + n - i) = k + n by omega, Nat.add_mod_right, Nat.mod_eq_of_lt bound]

/-- A scan ends when some position has the property. -/
theorem exists_next (start : i < n) (bound : k < n) (found : p k) : ∃ j, Next n p i j := by
  classical
  obtain ⟨distance, positive, round, met⟩ := exists_distance start bound
  have some : ∃ d, 0 < d ∧ d ≤ n ∧ p ((i + d) % n) :=
    ⟨distance, positive, round, by rwa [met]⟩
  obtain ⟨first, within, has⟩ := Nat.find_spec some
  refine ⟨_, Nat.find some, first, within, rfl, has, fun before later short holds => ?_⟩
  exact Nat.find_min some short ⟨later, by omega, holds⟩

/-- The scan ends at a position of the array. -/
theorem Next.lt (next : Next n p i j) : j < n := by
  obtain ⟨distance, positive, round, rfl, -⟩ := next
  exact Nat.mod_lt _ (by omega)

/-- The position it ends at has the property. -/
theorem Next.holds (next : Next n p i j) : p j := by
  obtain ⟨distance, -, -, -, holds, -⟩ := next
  exact holds

/-- The scan ends at one position. -/
theorem Next.unique (first : Next n p i j) (second : Next n p i k) : j = k := by
  obtain ⟨d, positive, -, rfl, holds, before⟩ := first
  obtain ⟨e, positive', -, rfl, holds', before'⟩ := second
  rcases Nat.lt_trichotomy d e with less | same | more
  · exact absurd holds (before' d positive less)
  · rw [same]
  · exact absurd holds' (before e positive' more)

/-- The scan comes back to its start only when no other position has the property. -/
theorem Next.ne_start (next : Next n p i j) (start : i < n) (bound : k < n) (other : k ≠ i)
    (found : p k) : j ≠ i := by
  obtain ⟨distance, positive, round, rfl, holds, before⟩ := next
  by_cases short : distance < n
  · exact mod_ne_start start positive short
  · obtain ⟨e, positive', round', met⟩ := exists_distance start bound
    have whole : e ≠ n := fun same => other (by
      rw [← met, same, Nat.add_mod_right, Nat.mod_eq_of_lt start])
    exact absurd (met ▸ found) (before e positive' (by omega))

/-- A position right after the start that has the property is the next one. -/
theorem Next.eq_succ (next : Next n p i j) (bound : i + 1 < n) (found : p (i + 1)) : j = i + 1 := by
  refine next.unique ⟨1, Nat.one_pos, by omega, (Nat.mod_eq_of_lt bound).symm, found, ?_⟩
  exact fun before later short => absurd short (by omega)

/-- Scans that each start where the one before ended. -/
def Scans (n : Nat) (p : Nat → Prop) : Nat → Nat → Nat → Prop
  | 0, i, j => i = j
  | rounds + 1, i, j => ∃ stop, Next n p i stop ∧ Scans n p rounds stop j

/-- A scan that passes a position with the property has ended there or before it. -/
theorem Next.closer {distance : Nat} (next : Next n p i j) (positive : 0 < distance)
    (ahead : (i + distance) % n = k) (found : p k) :
    j = k ∨ ∃ left, 0 < left ∧ left < distance ∧ (j + left) % n = k := by
  obtain ⟨taken, advance, -, stop, -, before⟩ := next
  have reached : taken ≤ distance := by
    by_contra short
    exact before distance positive (by omega) (ahead ▸ found)
  rcases reached.lt_or_eq with inside | whole
  · refine Or.inr ⟨distance - taken, by omega, by omega, ?_⟩
    rw [stop, Nat.mod_add_mod, Nat.add_assoc, Nat.add_sub_cancel' reached, ahead]
  · exact Or.inl (by rw [stop, whole, ahead])

/-- A position with the property is met after at most as many scans as it is positions ahead. -/
theorem exists_scans (bound : k < n) (found : p k) : ∀ distance i, i < n → 0 < distance →
    (i + distance) % n = k → ∃ rounds, 0 < rounds ∧ rounds ≤ distance ∧ Scans n p rounds i k := by
  intro distance
  induction distance using Nat.strong_induction_on with
  | _ distance ih =>
    intro i start positive ahead
    obtain ⟨j, next⟩ := exists_next start bound found
    rcases next.closer positive ahead found with met | ⟨left, more, less, ahead'⟩
    · exact ⟨1, Nat.one_pos, positive, j, next, met⟩
    · obtain ⟨rounds, -, few, scans⟩ := ih left less j next.lt more ahead'
      exact ⟨rounds + 1, by omega, by omega, j, next, scans⟩

/-- A position with the property is met after at most as many scans as there are positions. -/
theorem exists_scans_le (start : i < n) (bound : k < n) (found : p k) :
    ∃ rounds, 0 < rounds ∧ rounds ≤ n ∧ Scans n p rounds i k := by
  obtain ⟨distance, positive, round, ahead⟩ := exists_distance start bound
  obtain ⟨rounds, some, few, scans⟩ := exists_scans bound found distance i start positive ahead
  exact ⟨rounds, some, few.trans round, scans⟩

end Cycle
