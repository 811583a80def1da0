import Mathlib

/-!
# Doubly linked chains

A chain is a list of nodes together with the two link functions read from a
store: `prev` of each node is the node before it and `next` the node after it,
with given nodes at both ends. Surgery on a chain changes one link function at
one node, so each edit is a lemma about `Function.update`. The node type is
arbitrary; a store with links in memory words is one instance.
-/

namespace Linked

variable {α : Type} {prev next prev' next' : α → α} {before after : α} {xs ys : List α}

/-- The links of consecutive nodes mirror each other, from `before` to `after`. -/
def Chain (prev next : α → α) : α → List α → α → Prop
  | _, [], _ => True
  | before, x :: xs, after => prev x = before ∧ next x = xs.headD after ∧ Chain prev next x xs after

/-- A chain splits at any position into two chains that meet there. -/
theorem chain_append : Chain prev next before (xs ++ ys) after ↔
    Chain prev next before xs (ys.headD after) ∧
      Chain prev next (xs.getLastD before) ys after := by
  induction xs generalizing before with
  | nil => simp [Chain]
  | cons x xs ih =>
    have last : (x :: xs).getLastD before = xs.getLastD x := by cases xs <;> rfl
    have head : (xs ++ ys).headD after = xs.headD (ys.headD after) := by cases xs <;> rfl
    simp only [List.cons_append, Chain, ih, last, head, and_assoc]

/-- The links of one node of a chain. -/
theorem Chain.node {x : α} (chain : Chain prev next before (xs ++ x :: ys) after) :
    prev x = xs.getLastD before ∧ next x = ys.headD after :=
  have tail := (chain_append.mp chain).2
  ⟨tail.1, tail.2.1⟩

/-- A chain reads only the links of its own nodes. -/
theorem Chain.congr (chain : Chain prev next before xs after)
    (same : ∀ x ∈ xs, prev' x = prev x ∧ next' x = next x) :
    Chain prev' next' before xs after := by
  induction xs generalizing before with
  | nil => trivial
  | cons x xs ih =>
    obtain ⟨hp, hn, rest⟩ := chain
    obtain ⟨sp, sn⟩ := same x List.mem_cons_self
    exact ⟨sp.trans hp, sn.trans hn, ih rest fun y hy => same y (List.mem_cons_of_mem x hy)⟩

/-- Rewriting the backward link of the first node moves the front end of the chain. -/
theorem Chain.update_first [DecidableEq α] {x : α} (chain : Chain prev next before (x :: xs) after)
    (fresh : x ∉ xs) (front : α) :
    Chain (Function.update prev x front) next front (x :: xs) after := by
  obtain ⟨-, hn, rest⟩ := chain
  refine ⟨Function.update_self .., hn, rest.congr fun y hy => ⟨?_, rfl⟩⟩
  exact Function.update_of_ne (ne_of_mem_of_not_mem hy fresh) _ _

/-- Rewriting the forward link of the last node moves the back end of the chain. -/
theorem Chain.update_last [DecidableEq α] {x : α}
    (chain : Chain prev next before (xs ++ [x]) after) (fresh : x ∉ xs) (back : α) :
    Chain prev (Function.update next x back) before (xs ++ [x]) back := by
  rw [chain_append] at chain ⊢
  obtain ⟨init, hp, -, -⟩ := chain
  refine ⟨init.congr fun y hy => ⟨rfl, ?_⟩, hp, Function.update_self .., trivial⟩
  exact Function.update_of_ne (ne_of_mem_of_not_mem hy fresh) _ _

/-- Two chains from one node to an end neither passes are the same list. -/
theorem Chain.unique {first : α} {before' : α} (left : Chain prev next before (first :: xs) after)
    (right : Chain prev next before' (first :: ys) after) (outLeft : after ∉ xs)
    (outRight : after ∉ ys) : xs = ys := by
  induction xs generalizing first before before' ys with
  | nil =>
    cases ys with
    | nil => rfl
    | cons y ys =>
      have meet : after = y := left.2.1.symm.trans right.2.1
      exact absurd List.mem_cons_self (meet ▸ outRight)
  | cons x xs ih =>
    cases ys with
    | nil =>
      have meet : after = x := right.2.1.symm.trans left.2.1
      exact absurd List.mem_cons_self (meet ▸ outLeft)
    | cons y ys =>
      have same : x = y := left.2.1.symm.trans right.2.1
      subst same
      rw [ih left.2.2 right.2.2 (fun h => outLeft (List.mem_cons_of_mem x h))
        (fun h => outRight (List.mem_cons_of_mem x h))]

/-- A chain that never passes its own end visits no node twice. -/
theorem Chain.nodup (chain : Chain prev next before xs after) (out : after ∉ xs) : xs.Nodup := by
  induction xs generalizing before with
  | nil => exact List.nodup_nil
  | cons x xs ih =>
    have outRest : after ∉ xs := fun h => out (List.mem_cons_of_mem x h)
    refine List.nodup_cons.mpr ⟨fun again => ?_, ih chain.2.2 outRest⟩
    -- a second visit starts a shorter chain from the same node to the same end
    obtain ⟨front, back, rfl⟩ := List.append_of_mem again
    have second := (chain_append.mp chain.2.2).2
    have equal := chain.unique second outRest
      (fun h => outRest (List.mem_append_right _ (List.mem_cons_of_mem x h)))
    have lengths := congrArg List.length equal
    simp only [List.length_append, List.length_cons] at lengths
    omega

/-- A node at the end of a list without repetition is not among the nodes before it. -/
theorem last_fresh {a : α} (nodup : (xs ++ [a]).Nodup) : a ∉ xs :=
  fun again => nodup.disjoint again (by simp)

/-- Cutting a middle part out of a chain and joining its neighbours leaves a chain. -/
theorem Chain.cut [DecidableEq α] {a b : α} {cut : List α}
    (chain : Chain prev next before (xs ++ [a] ++ cut ++ b :: ys) after)
    (nodup : (xs ++ [a] ++ cut ++ b :: ys).Nodup) :
    Chain (Function.update prev b a) (Function.update next a b) before (xs ++ [a] ++ b :: ys)
      after := by
  have parts := chain_append.mp chain
  have front := (chain_append.mp parts.1).1
  have freshA : a ∉ xs := last_fresh nodup.of_append_left.of_append_left
  have freshB : b ∉ ys := (List.nodup_cons.mp nodup.of_append_right).1
  have apart : ∀ y ∈ xs ++ [a], y ∉ b :: ys := fun y hy =>
    nodup.disjoint (List.mem_append_left _ hy)
  rw [chain_append]
  constructor
  · refine (front.update_last freshA b).congr fun y hy => ⟨?_, rfl⟩
    have other : y ≠ b := fun same => apart y hy (by simp [same])
    exact Function.update_of_ne other _ _
  · have last : (xs ++ [a]).getLastD before = a := by simp [List.getLastD_eq_getLast?]
    rw [last]
    refine (parts.2.update_first freshB a).congr fun y hy => ⟨rfl, ?_⟩
    exact Function.update_of_ne (ne_of_mem_of_not_mem hy (apart a (by simp))) _ _

/-- Appending a node behind the last one. -/
theorem Chain.snoc [DecidableEq α] {a new : α} (chain : Chain prev next before (xs ++ [a]) after)
    (nodup : (xs ++ [a]).Nodup) (fresh : new ∉ xs ++ [a]) :
    Chain (Function.update prev new a) (Function.update (Function.update next new after) a new)
      before (xs ++ [a] ++ [new]) after := by
  have apart : new ≠ a := fun same => fresh (by simp [same])
  rw [chain_append]
  constructor
  · refine (chain.update_last (last_fresh nodup) new).congr fun y hy => ?_
    have other : y ≠ new := ne_of_mem_of_not_mem hy fresh
    refine ⟨Function.update_of_ne other _ _, ?_⟩
    rw [Function.update_comm apart, Function.update_of_ne other]
  · refine ⟨by simp [List.getLastD_eq_getLast?], ?_, trivial⟩
    rw [Function.update_of_ne apart]
    simp

/-- Putting a node before the first one. -/
theorem Chain.cons [DecidableEq α] {a new : α} (chain : Chain prev next before (a :: xs) after)
    (nodup : (a :: xs).Nodup) (fresh : new ∉ a :: xs) :
    Chain (Function.update (Function.update prev new before) a new) (Function.update next new a)
      before (new :: a :: xs) after := by
  have apart : new ≠ a := fun same => fresh (by simp [same])
  refine ⟨?_, by simp, ?_⟩
  · rw [Function.update_of_ne apart, Function.update_self]
  · refine (chain.update_first (List.nodup_cons.mp nodup).1 new).congr fun y hy => ?_
    have other : y ≠ new := ne_of_mem_of_not_mem hy fresh
    refine ⟨?_, Function.update_of_ne other _ _⟩
    rw [Function.update_comm apart, Function.update_of_ne other]

end Linked
