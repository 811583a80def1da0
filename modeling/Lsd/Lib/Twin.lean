import Mathlib

/-!
# Two memories side by side

A program that is run from two memories shows what it depends on: when they agree
on the addresses that it reads, both runs do the same. `Alike` says so of the two
ends. Each address was written by both runs, with the same value in the end, or by
none of them.
-/

namespace Twin

variable {ι ω : Type}

/-- Two runs, from `old` to `new` and from `other` to `newer`, that write the same: each address was
written by both, with the same value in the end, or by none of them. -/
def Alike (writes : Set ι) (old other new newer : ι → ω) : Prop :=
  ∀ address, (address ∈ writes ∧ newer address = new address) ∨
    (new address = old address ∧ newer address = other address)

variable {writes more : Set ι} {old other new newer last latest : ι → ω} {address : ι}

/-- Runs that write nothing write the same. -/
theorem Alike.refl : Alike writes old other old other := fun _ => .inr ⟨rfl, rfl⟩

/-- The addresses that may be written can be more. -/
theorem Alike.mono (alike : Alike writes old other new newer) (subset : writes ⊆ more) :
    Alike more old other new newer := fun address =>
  (alike address).imp_left fun written => ⟨subset written.1, written.2⟩

/-- Runs that go on alike were alike. -/
theorem Alike.trans (first : Alike writes old other new newer)
    (second : Alike writes new newer last latest) : Alike writes old other last latest := by
  intro address
  rcases second address with written | ⟨same, same'⟩
  · exact .inl written
  · rw [same, same']
    exact first address

/-- Where the runs began with the same value they end with the same value. -/
theorem Alike.agree (alike : Alike writes old other new newer)
    (same : other address = old address) : newer address = new address := by
  rcases alike address with written | ⟨kept, kept'⟩
  · exact written.2
  · rw [kept, kept', same]

/-- Nothing else is written. -/
theorem Alike.kept (alike : Alike writes old other new newer) (outside : address ∉ writes) :
    new address = old address := by
  rcases alike address with written | kept
  · exact absurd written.1 outside
  · exact kept.1

/-- Writing the same value at the same address is alike. -/
theorem Alike.update [DecidableEq ι] {value : ω} (alike : Alike writes old other new newer)
    (member : address ∈ writes) :
    Alike writes old other (Function.update new address value)
      (Function.update newer address value) := by
  intro place
  by_cases here : place = address
  · subst here
    rw [Function.update_self, Function.update_self]
    exact .inl ⟨member, rfl⟩
  · rw [Function.update_of_ne here, Function.update_of_ne here]
    exact alike place

end Twin
