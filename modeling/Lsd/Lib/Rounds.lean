import Lsd.Lib.Program

/-!
# Loops as rounds

The rounds of a loop begin at places: what the loop carries from one round to the
next. A round ends the loop with a value or goes on at another place. A loop that
is written by recursion on the number of rounds left is a loop of rounds, and the
places it passes are a trace of its run that no value of it shows.
-/

namespace Program.Prog

variable {ε σ τ α : Type}

/-- At most some number of rounds, and what is done when they are used up. -/
def rounds (exhausted : Prog ε σ α) (round : τ → Prog ε σ (τ ⊕ α)) : Nat → τ → Prog ε σ α
  | 0, _ => exhausted
  | count + 1, place => do
    let outcome ← round place
    match outcome with
    | .inl next => rounds exhausted round count next
    | .inr value => pure value

/-- The places at which the rounds begin. -/
def places (round : τ → Prog ε σ (τ ⊕ α)) : Nat → τ → σ → List τ
  | 0, _, _ => []
  | count + 1, place, state => place ::
    match (round place).run state with
    | (.ok (.inl next), later) => places round count next later
    | _ => []

variable {round : τ → Prog ε σ (τ ⊕ α)} {count : Nat} {place next : τ} {state later : σ}

/-- A round that goes on passes its place and those of the others. -/
theorem places_next (ran : (round place).run state = (.ok (.inl next), later)) :
    places round (count + 1) place state = place :: places round count next later := by
  rw [places, ran]

end Program.Prog
