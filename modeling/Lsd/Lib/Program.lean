import Mathlib

/-!
# Programs with a state and an early stop

A program reads and writes a state and either returns a value or stops. A stop
keeps the state it was reached in, so that a theorem can say what a refused or
failing call left behind. The rules here run a sequence one step at a time from
the result of its first step.
-/

namespace Program

/-- A program over states `σ` that returns an `α` or stops with an `ε`. -/
def Prog (ε σ α : Type) : Type := σ → Except ε α × σ

variable {ε σ α β : Type}

namespace Prog

/-- Run a program from a state. -/
def run (program : Prog ε σ α) (state : σ) : Except ε α × σ := program state

/-- Sequencing runs the continuation in the state the first program left. -/
instance : Monad (Prog ε σ) where
  pure value := fun state => (.ok value, state)
  bind first next := fun state =>
    match first state with
    | (.ok value, later) => next value later
    | (.error reason, later) => (.error reason, later)

/-- End the run without a value. -/
def stop (reason : ε) : Prog ε σ α := fun state => (.error reason, state)

/-- Read a part of the state. -/
def read (part : σ → α) : Prog ε σ α := fun state => (.ok (part state), state)

/-- Change the state. -/
def update (change : σ → σ) : Prog ε σ Unit := fun state => (.ok (), change state)

/-- Run a program on a part of the state. -/
def within {τ : Type} (part : σ → τ) (put : σ → τ → σ) (program : Prog ε τ α) : Prog ε σ α :=
  fun state =>
    let (result, later) := program (part state)
    (result, put state later)

/-- Run a program if a condition holds. -/
def only (condition : Prop) [Decidable condition] (program : Prog ε σ Unit) : Prog ε σ Unit :=
  if condition then program else pure ()

/-- Returning leaves the state alone. -/
@[simp] theorem run_pure (value : α) (state : σ) :
    (pure value : Prog ε σ α).run state = (.ok value, state) := rfl

/-- A stop keeps its state. -/
@[simp] theorem run_stop (reason : ε) (state : σ) :
    (stop reason : Prog ε σ α).run state = (.error reason, state) := rfl

/-- A read returns the part and changes nothing. -/
@[simp] theorem run_read (part : σ → α) (state : σ) :
    (read part : Prog ε σ α).run state = (.ok (part state), state) := rfl

/-- An update returns nothing. -/
@[simp] theorem run_update (change : σ → σ) (state : σ) :
    (update change : Prog ε σ Unit).run state = (.ok (), change state) := rfl

/-- A choice runs the chosen branch. -/
@[simp] theorem run_ite (condition : Prop) [Decidable condition] (first second : Prog ε σ α)
    (state : σ) : (if condition then first else second).run state =
      if condition then first.run state else second.run state := by
  split <;> rfl

/-- A program on a part of the state changes that part. -/
theorem run_within {τ : Type} {part : σ → τ} {put : σ → τ → σ} {program : Prog ε τ α} {state : σ}
    {result : Except ε α} {later : τ} (ran : program.run (part state) = (result, later)) :
    (program.within part put).run state = (result, put state later) := by
  change (let (result, later) := program.run (part state); (result, put state later)) = _
  rw [ran]

/-- A program whose condition holds is run. -/
theorem run_only_pos {condition : Prop} [Decidable condition] (holds : condition)
    (program : Prog ε σ Unit) (state : σ) : (only condition program).run state =
      program.run state := by
  rw [only, if_pos holds]

/-- A program whose condition does not hold is passed over. -/
theorem run_only_neg {condition : Prop} [Decidable condition] (fails : ¬ condition)
    (program : Prog ε σ Unit) (state : σ) :
    (only condition program).run state = (.ok (), state) := by
  rw [only, if_neg fails, run_pure]

/-- The whole case split of a sequence. -/
theorem run_bind (first : Prog ε σ α) (next : α → Prog ε σ β) (state : σ) :
    (first >>= next).run state =
      match first.run state with
      | (.ok value, later) => (next value).run later
      | (.error reason, later) => (.error reason, later) := rfl

/-- A sequence whose first program returns continues from the state it left. -/
theorem run_bind_ok {first : Prog ε σ α} {next : α → Prog ε σ β} {state later : σ} {value : α}
    (returned : first.run state = (.ok value, later)) :
    (first >>= next).run state = (next value).run later := by
  rw [run_bind, returned]

/-- A sequence whose first program stops has stopped. -/
theorem run_bind_stop {first : Prog ε σ α} {next : α → Prog ε σ β} {state later : σ} {reason : ε}
    (stopped : first.run state = (.error reason, later)) :
    (first >>= next).run state = (.error reason, later) := by
  rw [run_bind, stopped]

/-- A sequence that returned did so through a returning first program. -/
theorem run_bind_eq_ok {first : Prog ε σ α} {next : α → Prog ε σ β} {state last : σ} {result : β}
    (returned : (first >>= next).run state = (.ok result, last)) :
    ∃ value later, first.run state = (.ok value, later) ∧
      (next value).run later = (.ok result, last) := by
  rw [run_bind] at returned
  cases head : first.run state with
  | mk outcome later =>
    cases outcome with
    | ok value => exact ⟨value, later, rfl, by simpa [head] using returned⟩
    | error reason => simp [head] at returned

/-- A loop that returned did its first round and then the others. -/
theorem run_forM_cons_eq_ok {ι : Type} {item : ι} {rest : List ι} {round : ι → Prog ε σ Unit}
    {state last : σ} (ran : ((item :: rest).forM round).run state = (.ok (), last)) :
    ∃ middle, (round item).run state = (.ok (), middle) ∧
      (rest.forM round).run middle = (.ok (), last) := by
  obtain ⟨⟨⟩, middle, first, later⟩ := run_bind_eq_ok ran
  exact ⟨middle, first, later⟩

/-- A loop goes on after its first round. -/
theorem run_forM_cons_ok {ι : Type} {item : ι} {rest : List ι} {round : ι → Prog ε σ Unit}
    {state middle : σ} (first : (round item).run state = (.ok (), middle)) :
    ((item :: rest).forM round).run state = (rest.forM round).run middle := run_bind_ok first

/-- A loop that returned keeps an invariant over the items that are done, when every round that
returns does. -/
theorem run_forM_ok {ι : Type} {items : List ι} {round : ι → Prog ε σ Unit} {state last : σ}
    (I : List ι → σ → Prop) (ran : (items.forM round).run state = (.ok (), last))
    (start : I [] state)
    (step : ∀ done item rest, items = done ++ item :: rest → ∀ before after, I done before →
      (round item).run before = (.ok (), after) → I (done ++ [item]) after) : I items last := by
  suffices whole : ∀ done rest, items = done ++ rest → ∀ before, I done before →
      (rest.forM round).run before = (.ok (), last) → I items last from
    whole [] items rfl state start ran
  intro done rest
  induction rest generalizing done with
  | nil =>
    intro parts before held ran
    obtain ⟨-, rfl⟩ := Prod.mk.inj ran
    rwa [parts, List.append_nil]
  | cons item rest ih =>
    intro parts before held ran
    obtain ⟨after, first, later⟩ := run_forM_cons_eq_ok ran
    have parts' : items = (done ++ [item]) ++ rest := by rw [parts, List.append_assoc]; rfl
    exact ih (done ++ [item]) parts' after (step done item rest parts before after held first) later

/-- A loop over a range that returned keeps an invariant over the number of rounds. -/
theorem run_range_ok {count : Nat} {round : Nat → Prog ε σ Unit} {state last : σ}
    (I : Nat → σ → Prop) (ran : ((List.range count).forM round).run state = (.ok (), last))
    (start : I 0 state)
    (step : ∀ index < count, ∀ before after, I index before →
      (round index).run before = (.ok (), after) → I (index + 1) after) : I count last := by
  have whole := run_forM_ok (fun done => I done.length) ran start fun done item rest parts => ?_
  · rwa [List.length_range] at whole
  · intro before after held first
    have length := congrArg List.length parts
    rw [List.length_range, List.length_append, List.length_cons] at length
    have here : done.length < count := by omega
    have named : item = done.length := by
      have found := congrArg (fun list : List Nat => list[done.length]?) parts
      simpa [List.getElem?_range here] using found.symm
    rw [List.length_append]
    subst named
    exact step _ here before after held first

/-- A loop returns, and keeps an invariant over the items that are done, when every round does. -/
theorem run_forM_returns {ι : Type} {items : List ι} {round : ι → Prog ε σ Unit} {state : σ}
    (I : List ι → σ → Prop) (start : I [] state)
    (step : ∀ done item rest, items = done ++ item :: rest → ∀ before, I done before →
      ∃ after, (round item).run before = (.ok (), after) ∧ I (done ++ [item]) after) :
    ∃ last, (items.forM round).run state = (.ok (), last) ∧ I items last := by
  suffices whole : ∀ done rest, items = done ++ rest → ∀ before, I done before →
      ∃ last, (rest.forM round).run before = (.ok (), last) ∧ I items last from
    whole [] items rfl state start
  intro done rest
  induction rest generalizing done with
  | nil =>
    intro parts before held
    refine ⟨before, rfl, ?_⟩
    rwa [parts, List.append_nil]
  | cons item rest ih =>
    intro parts before held
    obtain ⟨after, first, held⟩ := step done item rest parts before held
    have parts' : items = (done ++ [item]) ++ rest := by rw [parts, List.append_assoc]; rfl
    obtain ⟨last, later, held⟩ := ih (done ++ [item]) parts' after held
    exact ⟨last, (run_forM_cons_ok first).trans later, held⟩

/-- A loop over a range returns, and keeps an invariant over the number of rounds, when every round
does. -/
theorem run_range_returns {count : Nat} {round : Nat → Prog ε σ Unit} {state : σ}
    (I : Nat → σ → Prop)
    (start : I 0 state)
    (step : ∀ index < count, ∀ before, I index before →
      ∃ after, (round index).run before = (.ok (), after) ∧ I (index + 1) after) :
    ∃ last, ((List.range count).forM round).run state = (.ok (), last) ∧ I count last := by
  suffices whole : ∀ rest done, done + rest = count → ∀ before, I done before →
      ∃ last, ((List.range' done rest).forM round).run before = (.ok (), last) ∧ I count last by
    rw [List.range_eq_range']
    exact whole count 0 (Nat.zero_add count) state start
  intro rest
  induction rest with
  | zero =>
    intro done parts before held
    exact ⟨before, rfl, parts ▸ held⟩
  | succ rest ih =>
    intro done parts before held
    obtain ⟨after, first, held⟩ := step done (by omega) before held
    obtain ⟨last, later, held⟩ := ih (done + 1) (by omega) after held
    refine ⟨last, ?_, held⟩
    rw [List.range'_succ]
    exact (run_bind_ok first).trans later

/-- A loop over a range that carries a value and returned keeps an invariant over the number of
rounds and the value. -/
theorem run_rangeFold_ok {count : Nat} {round : α → Nat → Prog ε σ α} {first result : α}
    {state last : σ} (I : Nat → α → σ → Prop)
    (ran : ((List.range count).foldlM round first).run state = (.ok result, last))
    (start : I 0 first state)
    (step : ∀ index < count, ∀ value before next after, I index value before →
      (round value index).run before = (.ok next, after) → I (index + 1) next after) :
    I count result last := by
  suffices whole : ∀ rest done, done + rest = count → ∀ value before, I done value before →
      ((List.range' done rest).foldlM round value).run before = (.ok result, last) →
        I count result last by
    rw [List.range_eq_range'] at ran
    exact whole count 0 (Nat.zero_add count) first state start ran
  intro rest
  induction rest with
  | zero =>
    intro done parts value before held ran
    obtain ⟨same, rfl⟩ := Prod.mk.inj ran
    obtain rfl := Except.ok.inj same
    rwa [← parts]
  | succ rest ih =>
    intro done parts value before held ran
    rw [List.range'_succ, List.foldlM_cons] at ran
    obtain ⟨next, after, first, later⟩ := run_bind_eq_ok ran
    exact ih (done + 1) (by omega) next after
      (step done (by omega) value before next after held first)
      later

/-- A program that leaves a part of the state as it found it, whatever its outcome. -/
def Keeps {τ : Type} (part : σ → τ) (program : Prog ε σ α) : Prop :=
  ∀ state, part (program.run state).2 = part state

variable {τ : Type} {part : σ → τ}

/-- Returning keeps everything. -/
theorem Keeps.pure (value : α) : Keeps part (Pure.pure value : Prog ε σ α) := fun _ => rfl

/-- A stop keeps everything. -/
theorem Keeps.stop (reason : ε) : Keeps part (stop reason : Prog ε σ α) := fun _ => rfl

/-- A read keeps everything. -/
theorem Keeps.read (found : σ → α) : Keeps part (read found : Prog ε σ α) := fun _ => rfl

/-- An update keeps what it does not change. -/
theorem Keeps.update {change : σ → σ} (same : ∀ state, part (change state) = part state) :
    Keeps part (update change : Prog ε σ Unit) := same

/-- A sequence keeps what both programs keep. -/
theorem Keeps.bind {first : Prog ε σ α} {next : α → Prog ε σ β} (left : Keeps part first)
    (right : ∀ value, Keeps part (next value)) : Keeps part (first >>= next) := by
  intro state
  rw [run_bind]
  cases head : first.run state with
  | mk outcome later =>
    have kept : part later = part state := by simpa [head] using left state
    cases outcome with
    | ok value => exact (right value later).trans kept
    | error reason => exact kept

/-- A choice keeps what both branches keep. -/
theorem Keeps.ite {condition : Prop} [Decidable condition] {first second : Prog ε σ α}
    (left : Keeps part first) (right : Keeps part second) :
    Keeps part (if condition then first else second) := by
  split
  · exact left
  · exact right

/-- A loop keeps what each round keeps. -/
theorem Keeps.forM {ι : Type} {items : List ι} {round : ι → Prog ε σ Unit}
    (rounds : ∀ item ∈ items, Keeps part (round item)) : Keeps part (items.forM round) := by
  induction items with
  | nil => exact .pure ()
  | cons item items ih =>
    exact .bind (rounds item List.mem_cons_self) fun _ =>
      ih fun other member => rounds other (List.mem_cons_of_mem item member)

/-- What was kept by a run with this end. -/
theorem Keeps.of_run {program : Prog ε σ α} {state later : σ} {outcome : Except ε α}
    (keeps : Keeps part program) (ran : program.run state = (outcome, later)) :
    part later = part state := by simpa [ran] using keeps state

/-- A program that leaves a part of the state as it found it when it stops. -/
def KeepsStopped {τ : Type} (part : σ → τ) (program : Prog ε σ α) : Prop :=
  ∀ state reason later, program.run state = (.error reason, later) → part later = part state

/-- A sequence whose first program keeps a part keeps it in a stop when the rest does. -/
theorem Keeps.bind_stopped {first : Prog ε σ α} {next : α → Prog ε σ β} (left : Keeps part first)
    (right : ∀ value, KeepsStopped part (next value)) : KeepsStopped part (first >>= next) := by
  intro state reason later ran
  rw [run_bind] at ran
  cases head : first.run state with
  | mk outcome middle =>
    have kept : part middle = part state := left.of_run head
    rw [head] at ran
    cases outcome with
    | ok value => exact (right value middle reason later ran).trans kept
    | error _ =>
      obtain ⟨-, rfl⟩ := Prod.mk.inj ran
      exact kept

end Prog

end Program
