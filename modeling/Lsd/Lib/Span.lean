import Mathlib

/-!
# Packings of spans

Spans of addresses that lie in a whole without overlapping. A span may be
replaced by spans inside it that do not overlap, which is how memory is divided;
what is lost by it is told by the total of the sizes.
-/

/-- Consecutive addresses. -/
structure Span where
  /-- The first. -/
  start : Nat
  /-- How many there are. -/
  size : Nat
deriving DecidableEq

namespace Span

/-- The address behind the last. -/
def stop (span : Span) : Nat := span.start + span.size

/-- One span ends before the other begins. -/
def Apart (first second : Span) : Prop := first.stop ≤ second.start ∨ second.stop ≤ first.start

/-- A span lies in another. -/
def Within (inner outer : Span) : Prop := outer.start ≤ inner.start ∧ inner.stop ≤ outer.stop

variable {first second inner outer whole old : Span} {spans new rest : List Span}

/-- Being apart has no order. -/
theorem Apart.symm (apart : Apart first second) : Apart second first := Or.symm apart

/-- What lies in a span is apart from what the span is apart from. -/
theorem Within.apart (within : inner.Within outer) (apart : Apart outer second) :
    Apart inner second := by
  unfold Apart Within at *
  omega

/-- Lying in a span is transitive. -/
theorem Within.trans (within : inner.Within old) (again : old.Within outer) :
    inner.Within outer := ⟨again.1.trans within.1, within.2.trans again.2⟩

/-- The spans lie in the whole, and no two of them overlap. -/
structure Packed (whole : Span) (spans : List Span) : Prop where
  /-- They lie in it. -/
  within : ∀ span ∈ spans, span.Within whole
  /-- They are apart. -/
  apart : spans.Pairwise Apart

/-- The order of the spans does not matter. -/
theorem Packed.perm (packed : Packed whole spans) (same : spans.Perm new) : Packed whole new where
  within span member := packed.within span (same.mem_iff.mpr member)
  apart := (same.pairwise_iff fun apart => apart.symm).mp packed.apart

/-- Spans may be left out. -/
theorem Packed.tail (packed : Packed whole (old :: rest)) : Packed whole rest where
  within span member := packed.within span (List.mem_cons_of_mem old member)
  apart := (List.pairwise_cons.mp packed.apart).2

/-- A span may be replaced by spans inside it that are apart. -/
theorem Packed.replace (packed : Packed whole (old :: rest))
    (inside : ∀ span ∈ new, span.Within old) (apart : new.Pairwise Apart) :
    Packed whole (new ++ rest) where
  within span member := by
    rcases List.mem_append.mp member with fresh | kept
    · exact (inside span fresh).trans (packed.within old List.mem_cons_self)
    · exact packed.within span (List.mem_cons_of_mem old kept)
  apart := by
    obtain ⟨others, rest⟩ := List.pairwise_cons.mp packed.apart
    exact List.pairwise_append.mpr ⟨apart, rest, fun span fresh other kept =>
      (inside span fresh).apart (others other kept)⟩

/-- The sizes together. -/
def total (spans : List Span) : Nat := (spans.map size).sum

/-- The first size is added to the others. -/
@[simp] theorem total_cons : total (first :: rest) = first.size + total rest := rfl

/-- The sizes of two lists are added. -/
@[simp] theorem total_append : total (new ++ rest) = total new + total rest := by
  rw [total, List.map_append, List.sum_append]
  rfl

/-- The order does not matter. -/
theorem total_perm (same : spans.Perm new) : total spans = total new :=
  (same.map size).sum_eq

/-- What a span has behind one inside it. -/
def behind (outer inner : Span) : List Span :=
  if inner.stop = outer.stop then [] else [⟨inner.stop, outer.stop - inner.stop⟩]

/-- Nothing is behind a span that ends with the outer one. -/
theorem behind_same (same : inner.stop = outer.stop) : outer.behind inner = [] := if_pos same

/-- A span is behind one that ends before the outer one. -/
theorem behind_more (more : inner.stop < outer.stop) :
    outer.behind inner = [⟨inner.stop, outer.stop - inner.stop⟩] := if_neg more.ne

/-- A span may be divided into one inside it and what is behind that. -/
theorem Packed.divide (packed : Packed whole (outer :: rest)) (within : inner.Within outer) :
    Packed whole (outer.behind inner ++ inner :: rest) := by
  have divided : Packed whole ((outer.behind inner ++ [inner]) ++ rest) := by
    unfold Within stop at within
    rw [behind]
    split
    · apply packed.replace
      · intro span member
        rw [List.mem_singleton.mp member]
        exact within
      · exact List.pairwise_singleton _ _
    · next more =>
      unfold stop at more
      apply packed.replace
      · intro span member
        rcases List.mem_cons.mp member with rfl | member
        · unfold Within stop
          simp only
          omega
        · rw [List.mem_singleton.mp member]
          exact within
      · apply List.pairwise_pair.mpr
        exact .inr (Nat.le_refl _)
  rwa [List.append_assoc] at divided

/-- What is lost in the division is in front of the inner span. -/
theorem total_behind (within : inner.Within outer) :
    total (outer.behind inner) + inner.size + (inner.start - outer.start) = outer.size := by
  unfold Within stop at within
  rw [behind]
  split
  · next same =>
    unfold stop at same
    simp only [total, List.map_nil, List.sum_nil]
    omega
  · simp only [total, List.map_cons, List.map_nil, List.sum_cons, List.sum_nil, stop]
    omega

end Span
