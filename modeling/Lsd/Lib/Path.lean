import Mathlib

/-!
# Singly linked paths

A path follows a link function from node to node. A list that hangs off a head
is the path from the link of a top, which is no node, to an end. Taking a node
out lets its predecessor, or the top, bypass it.
-/

namespace Path

variable {α : Type} {next next' : α → α} {first last top x : α}
  {xs ys pre post : List α}

/-- The nodes that the links lead through from a first node to an end. -/
def Through (next : α → α) : α → List α → α → Prop
  | first, [], last => first = last
  | first, x :: xs, last => first = x ∧ Through next (next x) xs last

/-- A path reads only the links of its nodes. -/
theorem Through.congr (path : Through next first xs last) (same : ∀ y ∈ xs, next' y = next y) :
    Through next' first xs last := by
  induction xs generalizing first with
  | nil => exact path
  | cons x xs ih =>
    obtain ⟨here, rest⟩ := path
    refine ⟨here, ?_⟩
    rw [same x List.mem_cons_self]
    exact ih rest fun y member => same y (List.mem_cons_of_mem x member)

/-- Two paths between the same ends that they do not pass are the same. -/
theorem Through.unique (left : Through next first xs last) (right : Through next first ys last)
    (outLeft : last ∉ xs) (outRight : last ∉ ys) : xs = ys := by
  induction xs generalizing first ys with
  | nil =>
    cases ys with
    | nil => rfl
    | cons y ys => exact absurd (left.symm.trans right.1 ▸ List.mem_cons_self) outRight
  | cons x xs ih =>
    obtain ⟨rfl, left⟩ := left
    cases ys with
    | nil => exact absurd (right ▸ List.mem_cons_self) outLeft
    | cons y ys =>
      obtain ⟨rfl, right⟩ := right
      rw [ih left right (fun member => outLeft (List.mem_cons_of_mem _ member))
        fun member => outRight (List.mem_cons_of_mem _ member)]

/-- When the predecessor of a node bypasses it, the path goes on without the node. -/
theorem Through.unlink (path : Through next (next top) (pre ++ x :: post) last)
    (nodup : (top :: pre ++ post).Nodup) (bypass : next' (pre.getLastD top) = next x)
    (same : ∀ y ∈ top :: pre ++ post, y ≠ pre.getLastD top → next' y = next y) :
    Through next' (next' top) (pre ++ post) last := by
  induction pre generalizing top with
  | nil =>
    obtain ⟨-, rest⟩ := path
    obtain ⟨fresh, -⟩ := List.nodup_cons.mp nodup
    rw [List.nil_append, show next' top = next x from bypass]
    exact rest.congr fun y member =>
      same y (List.mem_cons_of_mem top member) (ne_of_mem_of_not_mem member fresh)
  | cons p pre ih =>
    obtain ⟨here, rest⟩ := path
    obtain ⟨fresh, nodup⟩ := List.nodup_cons.mp nodup
    rw [List.getLastD_cons] at bypass same
    have member : pre.getLastD p ∈ p :: pre := List.getLastD_mem_cons
    have apart : top ≠ pre.getLastD p :=
      (ne_of_mem_of_not_mem (List.mem_append_left post member) fresh).symm
    refine ⟨(same top List.mem_cons_self apart).trans here, ?_⟩
    exact ih rest nodup bypass fun y member => same y (List.mem_cons_of_mem top member)

end Path
