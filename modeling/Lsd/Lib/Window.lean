import Mathlib

/-!
# The first window of adjacent elements

A window of a list is a part of a given length whose consecutive elements are
adjacent and whose first element may start a window. `first` finds the earliest
one by looking at every position. `search` walks the list once, keeping the
start, the end and the length of the part it is building, and drops the part
when an element breaks it. `search_eq_first` proves that the walk misses nothing.
-/

namespace Window

variable {α : Type} {starts : α → Bool} {adjacent : α → α → Bool} {size : Nat}

/-- Whether a window begins at the front of the list. -/
def At (starts : α → Bool) (adjacent : α → α → Bool) (size : Nat) (list : List α) : Prop :=
  size ≤ list.length ∧ (list.head?.all starts) ∧
    (list.take size).IsChain (fun x y => adjacent x y)

instance (list : List α) : Decidable (At starts adjacent size list) :=
  inferInstanceAs (Decidable (_ ∧ _ ∧ _))

/-- The earliest window, with the elements before it and the elements after it. -/
def first (starts : α → Bool) (adjacent : α → α → Bool) (size : Nat) :
    List α → Option (List α × List α × List α)
  | [] => none
  | x :: xs =>
    if At starts adjacent size (x :: xs) then
      some ([], (x :: xs).take size, (x :: xs).drop size)
    else (first starts adjacent size xs).map fun (pre, window, post) => (x :: pre, window, post)

/-- What `first` finds is a part of the list, of the right length, unbroken and well started. -/
theorem first_sound {list pre window post : List α}
    (found : first starts adjacent size list = some (pre, window, post)) :
    list = pre ++ window ++ post ∧ window.length = size ∧
      window.IsChain (fun x y => adjacent x y) ∧ window.head?.all starts := by
  induction list generalizing pre with
  | nil => simp [first] at found
  | cons x xs ih =>
    unfold first at found
    split at found
    · rename_i here
      simp only [Option.some.injEq, Prod.mk.injEq] at found
      obtain ⟨rfl, rfl, rfl⟩ := found
      refine ⟨by simp, List.length_take_of_le here.1, here.2.2, ?_⟩
      cases size with
      | zero => rfl
      | succ size => simpa using here.2.1
    · cases rest : first starts adjacent size xs with
      | none => simp [rest] at found
      | some parts =>
        simp only [rest, Option.map_some, Option.some.injEq, Prod.mk.injEq] at found
        obtain ⟨rfl, rfl, rfl⟩ := found
        obtain ⟨whole, facts⟩ := ih rest
        exact ⟨by simp [whole], facts⟩

/-- No window begins before the one that `first` finds. -/
theorem first_earliest {list pre window post : List α}
    (found : first starts adjacent size list = some (pre, window, post)) {other rest : List α}
    (parts : list = other ++ rest) (here : At starts adjacent size rest) :
    pre.length ≤ other.length := by
  induction list generalizing pre other with
  | nil => simp [first] at found
  | cons x xs ih =>
    unfold first at found
    split at found
    · simp only [Option.some.injEq, Prod.mk.injEq] at found
      obtain ⟨rfl, -⟩ := found
      exact Nat.zero_le _
    · rename_i none
      cases other with
      | nil => exact absurd (parts ▸ here) none
      | cons y other =>
        obtain ⟨rfl, tail⟩ := List.cons_eq_cons.mp parts
        obtain ⟨⟨before, window', post'⟩, later, same⟩ := Option.map_eq_some_iff.mp found
        simp only [Prod.mk.injEq] at same
        obtain ⟨rfl, rfl, rfl⟩ := same
        exact Nat.succ_le_succ (ih later tail)

/-- `first` finds nothing exactly when no position begins a window. -/
theorem first_eq_none {list : List α} (positive : 0 < size) :
    first starts adjacent size list = none ↔
      ∀ pre rest, list = pre ++ rest → ¬ At starts adjacent size rest := by
  induction list with
  | nil =>
    simp only [first, true_iff]
    rintro pre rest parts ⟨long, -⟩
    obtain ⟨rfl, rfl⟩ := List.append_eq_nil_iff.mp parts.symm
    simp at long
    omega
  | cons x xs ih =>
    unfold first
    split
    · rename_i here
      simp only [reduceCtorEq, false_iff]
      exact fun none => none [] (x :: xs) rfl here
    · rename_i here
      rw [Option.map_eq_none_iff, ih]
      constructor
      · intro absent pre rest parts
        cases pre with
        | nil =>
          rw [List.nil_append] at parts
          exact parts ▸ here
        | cons y pre =>
          obtain ⟨rfl, tail⟩ := List.cons_eq_cons.mp parts
          exact absent pre rest tail
      · intro absent pre rest parts
        exact absent (x :: pre) rest (by simp [parts])

/-- Behind elements that no window can begin at, the first window is that of the rest. -/
theorem first_behind {run rest : List α}
    (blocked : ∀ pre post, run = pre ++ post → post ≠ [] →
      ¬ At starts adjacent size (post ++ rest)) :
    first starts adjacent size (run ++ rest) =
      (first starts adjacent size rest).map fun (pre, window, post) =>
        (run ++ pre, window, post) := by
  induction run with
  | nil => simp
  | cons x run ih =>
    have here := blocked [] (x :: run) rfl (by simp)
    rw [List.cons_append] at here
    rw [List.cons_append, first, if_neg here,
      ih fun pre post parts => blocked (x :: pre) post (by simp [parts]), Option.map_map]
    rfl

/-- Elements that no window can begin at are skipped. -/
theorem first_skip {run rest : List α}
    (blocked : ∀ pre post, run = pre ++ post → post ≠ [] →
      ¬ At starts adjacent size (post ++ rest)) :
    (first starts adjacent size (run ++ rest)).map (·.2.1) =
      (first starts adjacent size rest).map (·.2.1) := by
  rw [first_behind blocked, Option.map_map]
  rfl

/-- One walk over the rest of a list. `base` starts the part being built, `current` ends it and
`count` is its length. -/
def search (starts : α → Bool) (adjacent : α → α → Bool) (size : Nat) (base current : α)
    (count : Nat) : List α → Option (α × α)
  | [] => if count = size then some (base, current) else none
  | next :: rest =>
    if count = size then some (base, current)
    else if adjacent current next && starts base then
      search starts adjacent size base next (count + 1) rest
    else search starts adjacent size next next 1 rest

/-- A part that holds an element is never a window of length zero. -/
theorem search_zero {base current : α} {count : Nat} {rest : List α} (positive : 0 < count) :
    search starts adjacent 0 base current count rest = none := by
  induction rest generalizing base current count with
  | nil => rw [search, if_neg (by omega)]
  | cons next rest ih =>
    rw [search, if_neg (by omega), ih (by omega), ih (by omega), ite_self]

/-- The part that the walk is building. -/
structure Building (starts : α → Bool) (adjacent : α → α → Bool) (size : Nat)
    (base current : α) (run : List α) : Prop where
  /-- It begins at the base. -/
  head : run.head? = some base
  /-- It ends at the current element. -/
  last : run.getLast? = some current
  /-- Its elements are adjacent. -/
  unbroken : run.IsChain (fun x y => adjacent x y)
  /-- It has grown only from an element that may start a window. -/
  started : 2 ≤ run.length → starts base
  /-- It is no longer than the window sought. -/
  short : run.length ≤ size

namespace Building

variable {base current next : α} {run rest : List α}

/-- One element is a part being built. -/
theorem single (wide : 2 ≤ size) : Building starts adjacent size next next [next] :=
  ⟨rfl, rfl, List.IsChain.singleton _, fun two => absurd two (by simp), by simp; omega⟩

/-- A part that is still short grows by an adjacent element. -/
theorem extend (part : Building starts adjacent size base current run)
    (grow : (adjacent current next && starts base) = true) (more : run.length ≠ size) :
    Building starts adjacent size base next (run ++ [next]) := by
  rw [Bool.and_eq_true] at grow
  have nonempty : run ≠ [] := fun empty => by simpa [empty] using part.head
  refine ⟨?_, by simp, ?_, fun _ => grow.2, ?_⟩
  · rw [List.head?_append_of_ne_nil _ nonempty, part.head]
  · refine part.unbroken.append (List.IsChain.singleton _) fun x hx y hy => ?_
    rw [part.last, Option.mem_some_iff] at hx
    rw [List.head?_cons, Option.mem_some_iff] at hy
    exact hx ▸ hy ▸ grow.1
  · have := part.short
    simp only [List.length_append, List.length_singleton]
    omega

/-- No window begins inside a part that the next element breaks. -/
theorem blocked (part : Building starts adjacent size base current run)
    (stuck : (adjacent current next && starts base) = false) (more : run.length ≠ size)
    (pre post : List α) (parts : run = pre ++ post) (nonempty : post ≠ []) :
    ¬ At starts adjacent size (post ++ next :: rest) := by
  rintro ⟨-, head, unbroken⟩
  have short := part.short
  have length := congrArg List.length parts
  rw [List.length_append] at length
  -- the window reaches past the part, so it holds the step from `current` to `next`
  have cut : (post ++ next :: rest).take size =
      post ++ next :: rest.take (size - post.length - 1) := by
    rw [List.take_append, List.take_of_length_le (by omega),
      show size - post.length = (size - post.length - 1) + 1 by omega, List.take_succ_cons]
    simp
  rw [cut, List.isChain_append] at unbroken
  have last : post.getLast? = some current := by
    rw [← part.last, parts, List.getLast?_append_of_ne_nil _ nonempty]
  have step : adjacent current next = true := unbroken.2.2 current last next rfl
  rw [step, Bool.true_and] at stuck
  -- so the base may not start a window, and the part is the base alone
  have single : run.length < 2 := by
    by_contra two
    rw [part.started (by omega)] at stuck
    contradiction
  have whole : pre = [] := by
    cases pre with
    | nil => rfl
    | cons y pre =>
      have := List.length_pos_iff.mpr nonempty
      simp only [List.length_cons] at length
      omega
  subst whole
  rw [List.nil_append] at parts
  rw [List.head?_append_of_ne_nil _ nonempty, ← parts, part.head] at head
  simp [stuck] at head

end Building

/-- The walk ends with the earliest window, whose two ends it returns. -/
theorem search_eq_first {base current : α} {run rest : List α} (wide : 2 ≤ size)
    (part : Building starts adjacent size base current run) :
    search starts adjacent size base current run.length rest =
      (first starts adjacent size (run ++ rest)).map
        fun found => (found.2.1.headD base, found.2.1.getLastD base) := by
  -- the result is read off the window alone
  suffices key : search starts adjacent size base current run.length rest =
      ((first starts adjacent size (run ++ rest)).map (·.2.1)).bind
        fun window => window.head?.bind fun b => window.getLast?.map fun c => (b, c) by
    rw [key]
    cases found : first starts adjacent size (run ++ rest) with
    | none => rfl
    | some parts =>
      have length := (first_sound found).2.1
      have nonempty : parts.2.1 ≠ [] := by
        intro empty
        rw [empty, List.length_nil] at length
        omega
      obtain ⟨x, window, same⟩ := List.exists_cons_of_ne_nil nonempty
      simp [same, List.getLast?_cons]
  have done : ∀ {base current : α} {run rest : List α},
      Building starts adjacent size base current run → run.length = size →
      ((first starts adjacent size (run ++ rest)).map (·.2.1)).bind
        (fun window => window.head?.bind fun b => window.getLast?.map fun c => (b, c)) =
      some (base, current) := by
    intro base current run rest part full
    have nonempty : run ≠ [] := fun empty => by simpa [empty] using part.head
    have here : At starts adjacent size (run ++ rest) := by
      refine ⟨by simp; omega, ?_, ?_⟩
      · rw [List.head?_append_of_ne_nil _ nonempty, part.head]
        simpa using part.started (by omega)
      · rw [List.take_append_of_le_length (by omega), List.take_of_length_le (by omega)]
        exact part.unbroken
    obtain ⟨x, xs, same⟩ := List.exists_cons_of_ne_nil
      (List.append_ne_nil_of_left_ne_nil nonempty rest)
    have whole : (x :: xs).take size = run := by rw [← same, ← full, List.take_left]
    rw [same] at here ⊢
    rw [first, if_pos here, whole]
    simp [part.head, part.last]
  induction rest generalizing base current run with
  | nil =>
    rw [search]
    split
    · rename_i full
      exact (done part full).symm
    · rename_i more
      have absent : first starts adjacent size (run ++ []) = none := by
        rw [first_eq_none (by omega)]
        rintro pre rest parts ⟨long, -⟩
        have short := part.short
        have length := congrArg List.length parts
        simp only [List.append_nil, List.length_append] at length
        omega
      rw [absent]
      rfl
  | cons next rest ih =>
    rw [search]
    split
    · rename_i full
      exact (done part full).symm
    · rename_i more
      split
      · rename_i grow
        have step := ih (part.extend grow more)
        rw [List.length_append, List.length_singleton, List.append_assoc] at step
        exact step
      · rename_i stuck
        rw [first_skip (part.blocked (by simpa using stuck) more)]
        exact ih (Building.single wide)

end Window
