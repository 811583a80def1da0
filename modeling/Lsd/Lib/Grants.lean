import Mathlib

/-!
# Grants of pages

A system that hands out pages step by step. A step grants pages that were not in
use before, and leaves alone what the pages in use hold. Over a run no page is
then granted twice, and what a step has established about the pages that it
granted still holds at the end.
-/

namespace Grants

variable {σ π κ α : Type}

/-- A step that grants pages, for a content that each page has in a state. -/
structure Step (content : σ → π → κ) (used : Set π) (s : σ) (granted later : Set π) (s' : σ) :
    Prop where
  /-- The pages were not in use. -/
  fresh : Disjoint used granted
  /-- Pages stay in use. -/
  grown : used ⊆ later
  /-- The granted pages are in use then. -/
  inUse : granted ⊆ later
  /-- Pages in use hold what they held. -/
  kept : ∀ page ∈ used, content s' page = content s page

/-- A run of such steps. A label tells what pages a step grants, and what it has established. -/
inductive Run (content : σ → π → κ) (granted : α → Set π) (outcome : α → σ → Prop) :
    Set π → σ → List α → Set π → σ → Prop
  /-- Nothing was granted. -/
  | nil (used : Set π) (s : σ) : Run content granted outcome used s [] used s
  /-- A step comes first. -/
  | cons {used middle last : Set π} {s between s' : σ} {label : α} {labels : List α} :
      Step content used s (granted label) middle between → outcome label between →
        Run content granted outcome middle between labels last s' →
          Run content granted outcome used s (label :: labels) last s'

variable {content : σ → π → κ} {granted : α → Set π} {outcome : α → σ → Prop} {used last : Set π}
  {s s' : σ} {labels : List α}

/-- Pages that were in use still are, and hold what they held. -/
theorem Run.kept (run : Run content granted outcome used s labels last s') :
    used ⊆ last ∧ ∀ page ∈ used, content s' page = content s page := by
  induction run with
  | nil => exact ⟨Set.Subset.rfl, fun _ _ => rfl⟩
  | cons step _ _ ih =>
    refine ⟨step.grown.trans ih.1, fun page member => ?_⟩
    exact (ih.2 page (step.grown member)).trans (step.kept page member)

/-- What is granted was not in use before the run. -/
theorem Run.fresh (run : Run content granted outcome used s labels last s') :
    ∀ label ∈ labels, Disjoint used (granted label) := by
  induction run with
  | nil => exact fun label member => absurd member List.not_mem_nil
  | cons step _ _ ih =>
    exact List.forall_mem_cons.mpr ⟨step.fresh, fun label member =>
      (ih label member).mono_left step.grown⟩

/-- What was granted is in use at the end. -/
theorem Run.inUse (run : Run content granted outcome used s labels last s') :
    ∀ label ∈ labels, granted label ⊆ last := by
  induction run with
  | nil => exact fun label member => absurd member List.not_mem_nil
  | cons step _ later ih =>
    exact List.forall_mem_cons.mpr ⟨step.inUse.trans later.kept.1, ih⟩

/-- No page is granted twice. -/
theorem Run.apart (run : Run content granted outcome used s labels last s') :
    labels.Pairwise fun first second => Disjoint (granted first) (granted second) := by
  induction run with
  | nil => exact .nil
  | cons step _ later ih =>
    exact .cons (fun other member => (later.fresh other member).mono_left step.inUse) ih

/-- What a step has established holds at the end, when it depends on the granted pages only. -/
theorem Run.outcomes (run : Run content granted outcome used s labels last s')
    (stable : ∀ label s s', (∀ page ∈ granted label, content s' page = content s page) →
      outcome label s → outcome label s') : ∀ label ∈ labels, outcome label s' := by
  induction run with
  | nil => exact fun label member => absurd member List.not_mem_nil
  | cons step established later ih =>
    refine List.forall_mem_cons.mpr ⟨?_, ih⟩
    exact stable _ _ _ (fun page member => later.kept.2 page (step.inUse member)) established

end Grants
