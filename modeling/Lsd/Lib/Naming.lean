import Mathlib

/-!
# Naming the elements of a list

An array whose elements move is followed by naming them: a list of names runs
along the array, and a function gives the element of each name. Changing,
removing and adding an element are then changes of the function at one name.
-/

namespace Naming

variable {ι α : Type} {element : ι → Option α} {names : List ι} {values : List α}
  {name : ι} {i : Nat}

/-- The values are the elements of the names, in order. -/
def Lists (element : ι → Option α) (names : List ι) (values : List α) : Prop :=
  names.map element = values.map some

/-- There are as many names as values. -/
theorem Lists.length (lists : Lists element names values) : names.length = values.length := by
  have same := congrArg List.length lists
  rwa [List.length_map, List.length_map] at same

/-- The element of a name is the value at its position. -/
theorem Lists.get (lists : Lists element names values) (position : names[i]? = some name) :
    element name = values[i]? := by
  have same := congrArg (·[i]?) lists
  simp only [List.getElem?_map, position, Option.map_some] at same
  cases entry : values[i]? with
  | none => simp [entry] at same
  | some value => simpa [entry] using same

/-- A name stands at one position only. -/
theorem position_unique {j : Nat} (distinct : names.Nodup) (first : names[i]? = some name)
    (second : names[j]? = some name) : i = j := by
  obtain ⟨bound, same⟩ := List.getElem?_eq_some_iff.mp first
  obtain ⟨bound', same'⟩ := List.getElem?_eq_some_iff.mp second
  exact (distinct.getElem_inj_iff).mp (same.trans same'.symm)

variable [DecidableEq ι]

/-- Changing the element of a name changes the value at its position. -/
theorem Lists.update (lists : Lists element names values) (distinct : names.Nodup)
    (position : names[i]? = some name) (value : α) :
    Lists (Function.update element name (some value)) names (values.set i value) := by
  apply List.ext_getElem?
  intro k
  have same := congrArg (·[k]?) lists
  simp only [List.getElem?_map] at same
  rw [List.getElem?_map, List.getElem?_map, List.getElem?_set]
  have bound : i < values.length := lists.length ▸ (List.getElem?_eq_some_iff.mp position).1
  by_cases here : i = k
  · subst here
    simp [position, bound]
  · rw [if_neg here, ← same]
    cases other : names[k]? with
    | none => rfl
    | some found =>
      have apart : found ≠ name := fun eq => here (position_unique distinct position (eq ▸ other))
      rw [Option.map_some, Option.map_some, Function.update_of_ne apart]

/-- Changes at other names do not show. -/
theorem Lists.update_other (lists : Lists element names values) (absent : name ∉ names)
    (value : Option α) : Lists (Function.update element name value) names values := by
  rw [Lists, ← lists]
  exact List.map_congr_left fun found member =>
    Function.update_of_ne (ne_of_mem_of_not_mem member absent) _ _

/-- Removing a name removes the value at its position. -/
theorem Lists.erase (lists : Lists element names values) (distinct : names.Nodup)
    (position : names[i]? = some name) :
    Lists (Function.update element name none) (names.eraseIdx i) (values.eraseIdx i) := by
  have shorter : Lists element (names.eraseIdx i) (values.eraseIdx i) := by
    rw [Lists, ← List.eraseIdx_map, ← List.eraseIdx_map, lists]
  refine shorter.update_other (fun member => ?_) none
  obtain ⟨k, apart, found⟩ := List.mem_eraseIdx_iff_getElem?.mp member
  exact apart (position_unique distinct found position)

/-- A new name adds a value at the end. -/
theorem Lists.snoc (lists : Lists element names values) (fresh : name ∉ names) (value : α) :
    Lists (Function.update element name (some value)) (names ++ [name]) (values ++ [value]) := by
  rw [Lists, List.map_append, List.map_append, lists.update_other fresh]
  simp

/-- Any values can be given to distinct names. -/
theorem exists_lists (distinct : names.Nodup) (length : names.length = values.length) :
    ∃ element : ι → Option α, Lists element names values ∧ ∀ name ∉ names, element name = none := by
  refine ⟨fun name => if name ∈ names then values[names.idxOf name]? else none, ?_,
    fun name absent => if_neg absent⟩
  apply List.ext_getElem?
  intro k
  rw [List.getElem?_map, List.getElem?_map]
  by_cases bound : k < names.length
  · rw [List.getElem?_eq_getElem bound, List.getElem?_eq_getElem (length ▸ bound), Option.map_some,
      Option.map_some, if_pos (List.getElem_mem bound), distinct.idxOf_getElem,
      List.getElem?_eq_getElem (length ▸ bound)]
  · rw [List.getElem?_eq_none (by omega), List.getElem?_eq_none (by omega)]
    rfl

end Naming
