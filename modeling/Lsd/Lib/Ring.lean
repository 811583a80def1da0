import Mathlib

/-!
# Rings with wrapping counters

A producer writes entries round a ring and counts them; a consumer counts those
it has taken. Both counters wrap at a modulus that the length of the ring
divides, so the place of an entry is told by its counter. As long as no more
entries are outstanding than the ring has places, the ring is a queue: equal
counters mean that it is empty, and the place of the consumer's counter holds
the oldest entry that was not taken.
-/

namespace Ring

variable {α : Type} {modulus head tail taken : Nat} {ring given : List α} {entry : α}

/-- The entries that were given and not taken stand in the ring, where the counters say. -/
structure Tracks (modulus : Nat) (ring : List α) (head tail : Nat) (given : List α)
    (taken : Nat) : Prop where
  /-- The ring has a place. -/
  positive : 0 < ring.length
  /-- The counters wrap at a multiple of its length. -/
  divides : ring.length ∣ modulus
  /-- The counters tell a full ring from an empty one. -/
  small : ring.length < modulus
  /-- The producer counts the entries given. -/
  head : head = given.length % modulus
  /-- The consumer counts the entries taken. -/
  tail : tail = taken % modulus
  /-- No entry is taken before it is given. -/
  behind : taken ≤ given.length
  /-- The entries fit the ring. -/
  room : given.length ≤ taken + ring.length
  /-- Each has its place. -/
  kept : ∀ number, taken ≤ number → number < given.length →
    ring[number % ring.length]? = given[number]?

/-- An empty ring. -/
theorem Tracks.empty (positive : 0 < ring.length) (divides : ring.length ∣ modulus)
    (small : ring.length < modulus) : Tracks modulus ring 0 0 [] 0 :=
  ⟨positive, divides, small, (Nat.zero_mod _).symm, (Nat.zero_mod _).symm, Nat.le_refl _,
    Nat.zero_le _, fun _ _ short => absurd short (Nat.not_lt_zero _)⟩

/-- The producer's place. -/
theorem Tracks.head_mod (tracks : Tracks modulus ring head tail given taken) :
    head % ring.length = given.length % ring.length := by
  rw [tracks.head, Nat.mod_mod_of_dvd _ tracks.divides]

/-- The consumer's place. -/
theorem Tracks.tail_mod (tracks : Tracks modulus ring head tail given taken) :
    tail % ring.length = taken % ring.length := by
  rw [tracks.tail, Nat.mod_mod_of_dvd _ tracks.divides]

/-- The counters are equal when all entries are taken. -/
theorem Tracks.empty_iff (tracks : Tracks modulus ring head tail given taken) :
    tail = head ↔ taken = given.length := by
  have behind := tracks.behind
  have room := tracks.room
  have small := tracks.small
  rw [tracks.head, tracks.tail]
  constructor
  · intro same
    have distance : (given.length - taken) % modulus = 0 :=
      Nat.sub_mod_eq_zero_of_mod_eq same.symm
    rw [Nat.mod_eq_of_lt (by omega)] at distance
    omega
  · intro same
    rw [same]

/-- Counts that differ by less than the length have different places. -/
theorem place_ne {length first second : Nat} (less : first < second)
    (near : second < first + length) : first % length ≠ second % length := by
  intro same
  have distance : (second - first) % length = 0 := Nat.sub_mod_eq_zero_of_mod_eq same.symm
  rw [Nat.mod_eq_of_lt (by omega)] at distance
  omega

/-- Writing the producer's place touches no entry while there is room. -/
theorem Tracks.write (tracks : Tracks modulus ring head tail given taken)
    (free : given.length < taken + ring.length) (entry : α) :
    Tracks modulus (ring.set (head % ring.length) entry) head tail given taken ∧
      (ring.set (head % ring.length) entry)[given.length % ring.length]? = some entry := by
  have inside := Nat.mod_lt given.length tracks.positive
  have length : (ring.set (head % ring.length) entry).length = ring.length := List.length_set
  rw [tracks.head_mod] at length ⊢
  refine ⟨⟨?_, ?_, ?_, tracks.head, tracks.tail, tracks.behind, ?_, ?_⟩, ?_⟩
  · rw [length]
    exact tracks.positive
  · rw [length]
    exact tracks.divides
  · rw [length]
    exact tracks.small
  · rw [length]
    exact tracks.room
  · intro number old short
    have apart : number % ring.length ≠ given.length % ring.length :=
      place_ne short (by omega)
    rw [length, List.getElem?_set_ne apart.symm]
    exact tracks.kept number old short
  · exact List.getElem?_set_self inside

/-- An entry that was written is given when the producer counts it. -/
theorem Tracks.publish (tracks : Tracks modulus ring head tail given taken)
    (free : given.length < taken + ring.length)
    (written : ring[given.length % ring.length]? = some entry) :
    Tracks modulus ring ((head + 1) % modulus) tail (given ++ [entry]) taken := by
  have length : (given ++ [entry]).length = given.length + 1 := List.length_append
  refine ⟨tracks.positive, tracks.divides, tracks.small, ?_, tracks.tail, ?_, ?_, ?_⟩
  · rw [length, tracks.head, Nat.mod_add_mod]
  · exact length ▸ tracks.behind.trans (Nat.le_succ _)
  · rw [length]
    exact free
  · intro number old short
    rw [length] at short
    by_cases last : number = given.length
    · rw [last, written, List.getElem?_concat_length]
    · rw [List.getElem?_append_left (by omega)]
      exact tracks.kept number old (by omega)

/-- The consumer finds the oldest entry and counts it. -/
theorem Tracks.take (tracks : Tracks modulus ring head tail given taken)
    (more : taken < given.length) :
    ring[tail % ring.length]? = given[taken]? ∧
      Tracks modulus ring head ((tail + 1) % modulus) given (taken + 1) := by
  have room := tracks.room
  constructor
  · rw [tracks.tail_mod]
    exact tracks.kept taken (Nat.le_refl _) more
  · refine ⟨tracks.positive, tracks.divides, tracks.small, tracks.head, ?_, more, by omega,
      fun number old short => tracks.kept number (by omega) short⟩
    rw [tracks.tail, Nat.mod_add_mod]

end Ring
