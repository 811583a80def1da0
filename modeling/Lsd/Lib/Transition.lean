import Mathlib

/-!
# Runs of a labelled transition system

A system has starting states and labelled steps. An invariant that holds at the
start and is kept by every step holds of every reachable state. A simulation
carries a run of one system over to a run of another: every step of the first is
matched by a step of the second with the same label, and the states stay
related.
-/

namespace Transition

variable {σ τ α : Type}

/-- The states that runs of the system reach. -/
inductive Reachable (start : σ → Prop) (step : σ → α → σ → Prop) : σ → Prop
  /-- A run begins in a starting state. -/
  | start {state : σ} : start state → Reachable start step state
  /-- A run goes on by a step. -/
  | next {before after : σ} (label : α) :
      Reachable start step before → step before label after → Reachable start step after

/-- A property of the starting states that every step keeps holds in every reachable state. -/
theorem Reachable.invariant {start : σ → Prop} {step : σ → α → σ → Prop} {property : σ → Prop}
    {state : σ} (reachable : Reachable start step state)
    (initial : ∀ state, start state → property state)
    (kept : ∀ before label after, property before → step before label after → property after) :
    property state := by
  induction reachable with
  | start begun => exact initial _ begun
  | next _ _ moved ih => exact kept _ _ _ ih moved

/-- What a step function reaches by some labels one after the other. -/
theorem Reachable.foldlM {start : σ → Prop} {step : σ → α → Option σ} {labels : List α}
    {first last : σ} (reachable : Reachable start (fun s label s' => step s label = some s') first)
    (ran : labels.foldlM step first = some last) :
    Reachable start (fun s label s' => step s label = some s') last := by
  induction labels generalizing first with
  | nil =>
    obtain rfl := Option.some.inj ran
    exact reachable
  | cons label labels ih =>
    rw [List.foldlM_cons] at ran
    obtain ⟨middle, stepped, rest⟩ := Option.bind_eq_some_iff.mp ran
    exact ih (reachable.next label stepped) rest

/-- A property of each step that some labels make one after the other, as far as there are steps. -/
def Along (step : σ → α → Option σ) (property : σ → α → σ → Prop) : σ → List α → Prop
  | _, [] => True
  | state, label :: labels => ∀ after, step state label = some after →
      property state label after ∧ Along step property after labels

/-- A property of steps holds along a run when another one does, which keeps an invariant under
which it implies the first. -/
theorem Along.of_along {step : σ → α → Option σ} {first second : σ → α → σ → Prop} {labels : List α}
    {state : σ} (I : σ → Prop) (start : I state)
    (kept : ∀ before label after, I before → step before label = some after →
      second before label after → first before label after ∧ I after)
    (along : Along step second state labels) : Along step first state labels := by
  induction labels generalizing state with
  | nil => trivial
  | cons label labels ih =>
    intro after stepped
    obtain ⟨holds, rest⟩ := along after stepped
    obtain ⟨other, again⟩ := kept state label after start stepped holds
    exact ⟨other, ih again rest⟩

/-- Two properties of steps hold along the same runs, when under an invariant the first implies the
second for the labels of the run, and the second the first and the invariant again. -/
theorem Along.iff {step : σ → α → Option σ} {first second : σ → α → σ → Prop} {labels : List α}
    {state : σ} (I : σ → Prop) (start : I state)
    (implies : ∀ before, ∀ label ∈ labels, ∀ after, I before → step before label = some after →
      first before label after → second before label after)
    (kept : ∀ before label after, I before → step before label = some after →
      second before label after → first before label after ∧ I after) :
    Along step first state labels ↔ Along step second state labels := by
  refine ⟨fun along => ?_, Along.of_along I start kept⟩
  induction labels generalizing state with
  | nil => trivial
  | cons label labels ih =>
    intro after stepped
    obtain ⟨holds, rest⟩ := along after stepped
    have other := implies state label List.mem_cons_self after start stepped holds
    have again := (kept state label after start stepped other).2
    exact ⟨other, ih again (fun before label member =>
      implies before label (List.mem_cons_of_mem _ member)) rest⟩

/-- A run from one state to another, with the labels of its steps. -/
inductive Run (step : σ → α → σ → Prop) : σ → List α → σ → Prop
  /-- The run without steps. -/
  | nil (state : σ) : Run step state [] state
  /-- A run goes on by a step. -/
  | snoc {first before after : σ} {labels : List α} {label : α} :
      Run step first labels before → step before label after →
        Run step first (labels ++ [label]) after

/-- When related states match each other's steps, a run is matched by a run with the same labels
whose end is related to its end. -/
theorem Run.simulate {step : σ → α → σ → Prop} {abstract : τ → α → τ → Prop}
    {first last : σ} {labels : List α} {image : τ} (related : σ → τ → Prop)
    (run : Run step first labels last) (initial : related first image)
    (matched : ∀ before label after image, related before image → step before label after →
      ∃ next, abstract image label next ∧ related after next) :
    ∃ next, Run abstract image labels next ∧ related last next := by
  induction run with
  | nil => exact ⟨image, .nil image, initial⟩
  | snoc _ moved ih =>
    obtain ⟨middle, ran, relation⟩ := ih
    obtain ⟨next, follows, relation'⟩ := matched _ _ _ _ relation moved
    exact ⟨next, .snoc ran follows, relation'⟩

end Transition
