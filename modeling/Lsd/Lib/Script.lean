import Lsd.Lib.Program

/-!
# Programs step by step

A run of a program gives its last state only. Where others can act between two
accesses of a program to its state, the states in between matter: a script is a
program taken apart at these points. It is done, or it has stopped, or it makes
one access and goes on as the state before the access says. A script is safe
when a property holds after each of its accesses and another one when it is
done. It is safe amid others when the property holds although they change the
state between its accesses, in ways that they are relied on to keep to.
-/

namespace Program

/-- A program taken apart into its accesses to the state. -/
inductive Script (ε σ α : Type) : Type
  /-- The program has returned. -/
  | done (value : α)
  /-- The program has stopped. -/
  | stopped (reason : ε)
  /-- The program makes an access and goes on. -/
  | access (effect : σ → σ) (next : σ → Script ε σ α)

namespace Script

variable {ε σ α β : Type}

/-- Do one script after the other. -/
def andThen (first : Script ε σ α) (rest : α → Script ε σ β) : Script ε σ β :=
  match first with
  | done value => rest value
  | stopped reason => stopped reason
  | access effect next => access effect fun state => (next state).andThen rest

/-- Scripts are sequenced at their ends. -/
instance : Monad (Script ε σ) where
  pure := done
  bind := andThen

/-- A program as a single access. -/
def one (program : Prog ε σ α) : Script ε σ α :=
  access (fun state => (program.run state).2) fun state =>
    match (program.run state).1 with
    | .ok value => done value
    | .error reason => stopped reason

/-- Run a script if a condition holds. -/
def only (condition : Prop) [Decidable condition] (script : Script ε σ Unit) : Script ε σ Unit :=
  if condition then script else pure ()

/-- The program that a script takes apart. -/
def whole : Script ε σ α → Prog ε σ α
  | done value => pure value
  | stopped reason => Prog.stop reason
  | access effect next => fun state => (next state).whole.run (effect state)

/-- The next access, unless the script has ended. -/
def step : Script ε σ α → σ → Option (Script ε σ α × σ)
  | access effect next, state => some (next state, effect state)
  | _, _ => none

/-- A single access that returns is done after it. -/
theorem step_one {program : Prog ε σ α} {state later : σ} {value : α}
    (ran : program.run state = (.ok value, later)) :
    (one program).step state = some (done value, later) := by
  change some ((match (program.run state).1 with
    | .ok value => done value
    | .error reason => stopped reason), (program.run state).2) = _
  rw [ran]

/-- A sequence that begins with an access that returns goes on with what follows it. -/
theorem step_one_bind {program : Prog ε σ α} {rest : α → Script ε σ β} {state later : σ} {value : α}
    (ran : program.run state = (.ok value, later)) :
    (one program >>= rest).step state = some (rest value, later) := by
  change some (((match (program.run state).1 with
    | .ok value => done value
    | .error reason => stopped reason) : Script ε σ α).andThen rest, (program.run state).2) = _
  rw [ran]
  rfl

/-- A number of accesses, or as many as there are. -/
def steps : Nat → Script ε σ α → σ → Script ε σ α × σ
  | 0, script, state => (script, state)
  | count + 1, script, state =>
    match script.step state with
    | some (next, later) => steps count next later
    | none => (script, state)

/-- A property holds after each access from here on, and another one of the value and the state at
the end. -/
def Safe (during : σ → Prop) (after : α → σ → Prop) : Script ε σ α → σ → Prop
  | done value, state => after value state
  | stopped _, _ => True
  | access effect next, state =>
    during (effect state) ∧ Safe during after (next state) (effect state)

/-- Nothing is taken apart in a value. -/
@[simp] theorem whole_pure (value : α) : (pure value : Script ε σ α).whole = pure value := rfl

/-- A single access is its program. -/
@[simp] theorem whole_one (program : Prog ε σ α) : (one program).whole = program := by
  funext state
  change (whole (match (program.run state).1 with
    | .ok value => done value
    | .error reason => stopped reason)).run (program.run state).2 = program.run state
  cases ran : program.run state with
  | mk outcome later => cases outcome <;> rfl

/-- The parts of a sequence are sequenced. -/
@[simp] theorem whole_bind (first : Script ε σ α) (rest : α → Script ε σ β) :
    (first >>= rest).whole = first.whole >>= fun value => (rest value).whole := by
  change (first.andThen rest).whole = _
  induction first with
  | done value => rfl
  | stopped reason => rfl
  | access effect next ih =>
    funext state
    exact congrFun (ih state) (effect state)

/-- A choice is taken apart branch by branch. -/
@[simp] theorem whole_ite (condition : Prop) [Decidable condition] (first second : Script ε σ α) :
    (if condition then first else second).whole =
      if condition then first.whole else second.whole := by
  split <;> rfl

/-- A script under a condition is a program under it. -/
@[simp] theorem whole_only (condition : Prop) [Decidable condition] (script : Script ε σ Unit) :
    (only condition script).whole = Prog.only condition script.whole := whole_ite ..

/-- The rounds of a loop are taken apart. -/
@[simp] theorem whole_forM {ι : Type} (items : List ι) (round : ι → Script ε σ Unit) :
    (items.forM round).whole = items.forM fun item => (round item).whole := by
  induction items with
  | nil => rfl
  | cons item items ih =>
    change (round item >>= fun _ => items.forM round).whole = _
    rw [whole_bind, ih]
    rfl

variable {during : σ → Prop} {after : α → σ → Prop} {state : σ}

/-- A safe script stays safe at its next access. -/
theorem Safe.step {script next : Script ε σ α} {later : σ} (safe : Safe during after script state)
    (stepped : script.step state = some (next, later)) :
    during later ∧ Safe during after next later := by
  cases script with
  | done value => nomatch stepped
  | stopped reason => nomatch stepped
  | access effect rest =>
    obtain ⟨rfl, rfl⟩ := Prod.mk.inj (Option.some.inj stepped)
    exact safe

/-- A single access is safe when its state and its value are as they should be. -/
theorem Safe.one {program : Prog ε σ α} (between : during (program.run state).2)
    (ended : ∀ value, (program.run state).1 = .ok value → after value (program.run state).2) :
    Safe during after (one program) state := by
  refine ⟨between, ?_⟩
  show Safe during after (match (program.run state).1 with
    | .ok value => done value
    | .error reason => stopped reason) (program.run state).2
  cases outcome : (program.run state).1 with
  | ok value => exact ended value outcome
  | error reason => trivial

/-- A single access that returns is safe when its state and its value are as they should be. -/
theorem Safe.one_ok {program : Prog ε σ α} {value : α} {later : σ}
    (ran : program.run state = (.ok value, later)) (between : during later)
    (ended : after value later) : Safe during after (Script.one program) state := by
  apply Safe.one
  · rw [ran]
    exact between
  · intro other same
    rw [ran] at same ⊢
    exact Except.ok.inj same ▸ ended

/-- A single access that stops is safe when its state is as it should be. -/
theorem Safe.one_stop {program : Prog ε σ α} {reason : ε} {later : σ}
    (ran : program.run state = (.error reason, later)) (between : during later) :
    Safe during after (Script.one program) state := by
  apply Safe.one
  · rw [ran]
    exact between
  · intro value same
    rw [ran] at same
    nomatch same

/-- The end of a safe script may be described more weakly. -/
theorem Safe.mono {weaker : α → σ → Prop} {script : Script ε σ α}
    (safe : Safe during after script state) (implies : ∀ value later, after value later →
      weaker value later) : Safe during weaker script state := by
  induction script generalizing state with
  | done value => exact implies value state safe
  | stopped reason => trivial
  | access effect next ih => exact ⟨safe.1, ih state safe.2⟩

/-- What holds of a safe script may be described more weakly. -/
theorem Safe.weaken {between : σ → Prop} {weaker : α → σ → Prop} {script : Script ε σ α}
    (safe : Safe during after script state) (implies : ∀ later, during later → between later)
    (ends : ∀ value later, after value later → weaker value later) :
    Safe between weaker script state := by
  induction script generalizing state with
  | done value => exact ends value state safe
  | stopped reason => trivial
  | access effect next ih => exact ⟨implies _ safe.1, ih state safe.2⟩

/-- A sequence is safe when its first part is, and leads to where the rest is safe. -/
theorem Safe.bind {first : Script ε σ β} {rest : β → Script ε σ α}
    (safe : Safe during (fun value later => Safe during after (rest value) later) first state) :
    Safe during after (first >>= rest) state := by
  change Safe during after (first.andThen rest) state
  induction first generalizing state with
  | done value => exact safe
  | stopped reason => trivial
  | access effect next ih => exact ⟨safe.1, ih state safe.2⟩

/-- A sequence is safe when its first part leads to where the rest is safe. -/
theorem Safe.andThen {M : β → σ → Prop} {first : Script ε σ β} {rest : β → Script ε σ α}
    (safe : Safe during M first state)
    (goesOn : ∀ value later, M value later → Safe during after (rest value) later) :
    Safe during after (first >>= rest) state :=
  Safe.bind (safe.mono goesOn)

/-- A choice is safe when the chosen branch is. -/
theorem Safe.ite {condition : Prop} [Decidable condition] {first second : Script ε σ α}
    (left : condition → Safe during after first state)
    (right : ¬ condition → Safe during after second state) :
    Safe during after (if condition then first else second) state := by
  split
  · next holds => exact left holds
  · next fails => exact right fails

/-- A loop is safe when each round is, and keeps what the rounds need. -/
theorem Safe.forM {ι : Type} {I : σ → Prop} {round : ι → Script ε σ Unit} {items : List ι}
    (start : I state)
    (rounds : ∀ item ∈ items, ∀ state, I state →
      Safe during (fun _ later => I later) (round item) state) :
    Safe during (fun _ later => I later) (items.forM round) state := by
  induction items generalizing state with
  | nil => exact start
  | cons item items ih =>
    change Safe during _ (round item >>= fun _ => items.forM round) state
    apply (rounds item List.mem_cons_self state start).andThen
    intro _ later kept
    exact ih kept fun other member => rounds other (List.mem_cons_of_mem item member)

/-- A property holds after each access from here on, although others may change the state before the
access in certain ways. -/
def SafeAmid (others : σ → σ → Prop) (during : σ → Prop) : Script ε σ α → σ → Prop
  | done _, _ => True
  | stopped _, _ => True
  | access effect next, state => ∀ changed, others state changed →
    during (effect changed) ∧ SafeAmid others during (next changed) (effect changed)

section Amid

variable {others : σ → σ → Prop} {script next : Script ε σ α} {state later changed : σ}
  {during weaker : σ → Prop}

/-- A script that is safe amid others is safe after its next access. -/
theorem SafeAmid.step (safe : SafeAmid others during script state) (still : others state state)
    (stepped : script.step state = some (next, later)) :
    during later ∧ SafeAmid others during next later := by
  cases script with
  | done value => nomatch stepped
  | stopped reason => nomatch stepped
  | access effect rest =>
    obtain ⟨rfl, rfl⟩ := Prod.mk.inj (Option.some.inj stepped)
    exact safe state still

/-- It is still safe after a change by others. -/
theorem SafeAmid.perturbed (safe : SafeAmid others during script state)
    (trans : ∀ latest, others changed latest → others state latest) :
    SafeAmid others during script changed := by
  cases script with
  | done value => trivial
  | stopped reason => trivial
  | access effect rest => exact fun latest again => safe latest (trans latest again)

/-- What holds during a script may be described more weakly. -/
theorem SafeAmid.weaken (safe : SafeAmid others during script state)
    (implies : ∀ later, during later → weaker later) : SafeAmid others weaker script state := by
  induction script generalizing state with
  | done value => trivial
  | stopped reason => trivial
  | access effect rest ih =>
    intro changed change
    obtain ⟨here, onward⟩ := safe changed change
    exact ⟨implies _ here, ih changed onward⟩

/-- An access leads to where the rest is safe. -/
theorem SafeAmid.oneThen {program : Prog ε σ β} {rest : β → Script ε σ α}
    (goesOn : ∀ changed, others state changed → during (program.run changed).2 ∧
      ∀ value, (program.run changed).1 = .ok value →
        SafeAmid others during (rest value) (program.run changed).2) :
    SafeAmid others during (Script.one program >>= rest) state := by
  intro changed change
  obtain ⟨here, onward⟩ := goesOn changed change
  refine ⟨here, ?_⟩
  show SafeAmid others during (Script.andThen (match (program.run changed).1 with
    | .ok value => done value
    | .error reason => stopped reason) rest) (program.run changed).2
  cases outcome : (program.run changed).1 with
  | ok value => exact onward value outcome
  | error reason => trivial

end Amid

/-- A script of which each access keeps an invariant, in any state with it, and which returns only
certain values. -/
def Preserves (I : σ → Prop) (good : α → Prop) : Script ε σ α → Prop
  | done value => good value
  | stopped _ => True
  | access effect next => ∀ state, I state → I (effect state) ∧ Preserves I good (next state)

section Preserves

variable {I : σ → Prop} {good : α → Prop} {reached : β → Prop}

/-- A single access keeps what its program keeps. -/
theorem Preserves.one {program : Prog ε σ α}
    (kept : ∀ state, I state → I (program.run state).2 ∧
      ∀ value, (program.run state).1 = .ok value → good value) :
    Preserves I good (Script.one program) := by
  intro state holds
  obtain ⟨later, returned⟩ := kept state holds
  refine ⟨later, ?_⟩
  show Preserves I good (match (program.run state).1 with
    | .ok value => done value
    | .error reason => stopped reason)
  cases outcome : (program.run state).1 with
  | ok value => exact returned value outcome
  | error reason => trivial

/-- A value keeps everything. -/
theorem Preserves.pure {value : α} (returned : good value) :
    Preserves I good (Pure.pure value : Script ε σ α) := returned

/-- A script that has stopped keeps everything. -/
theorem Preserves.stopped (reason : ε) : Preserves I good (.stopped reason : Script ε σ α) :=
  trivial

/-- A sequence keeps what its parts keep. -/
theorem Preserves.bind {first : Script ε σ β} {rest : β → Script ε σ α}
    (left : Preserves I reached first)
    (right : ∀ value, reached value → Preserves I good (rest value)) :
    Preserves I good (first >>= rest) := by
  change Preserves I good (first.andThen rest)
  induction first with
  | done value => exact right value left
  | stopped reason => trivial
  | access effect next ih => exact fun state holds =>
    ⟨(left state holds).1, ih state (left state holds).2⟩

/-- A choice keeps what its branches keep. -/
theorem Preserves.ite {condition : Prop} [Decidable condition] {first second : Script ε σ α}
    (left : Preserves I good first) (right : Preserves I good second) :
    Preserves I good (if condition then first else second) := by
  split
  · exact left
  · exact right

/-- A loop keeps what its rounds keep. -/
theorem Preserves.forM {ι : Type} {round : ι → Script ε σ Unit} {items : List ι}
    (rounds : ∀ item ∈ items, Preserves I (fun _ => True) (round item)) :
    Preserves I (fun _ => True) (items.forM round) := by
  induction items with
  | nil => exact .pure trivial
  | cons item items ih =>
    refine .bind (rounds item List.mem_cons_self) fun _ _ => ?_
    exact ih fun other member => rounds other (List.mem_cons_of_mem item member)

/-- A script that keeps an invariant is safe amid others that keep it. -/
theorem Preserves.amid {others : σ → σ → Prop} {script : Script ε σ α} {state : σ}
    (preserves : Preserves I good script)
    (kept : ∀ before after, others before after → I before → I after) (holds : I state) :
    SafeAmid others I script state := by
  induction script generalizing state with
  | done value => trivial
  | stopped reason => trivial
  | access effect next ih =>
    intro changed change
    obtain ⟨here, onward⟩ := preserves changed (kept state changed change holds)
    exact ⟨here, ih changed onward here⟩

end Preserves

end Script

end Program
