import Mathlib

/-!
# Radix trees over tables

A tree of a given height is made of tables of slots. A slot is empty, holds a
value, or refers to a table of the height below. Tables belong to one shared
store, so a tree is well formed only when no table is reached by two paths. An
edit along a path changes one slot of one table and the tables that the path
passes; the rules here say what the edit leaves alone and what it makes of the
whole tree.
-/

namespace Radix

variable {ι α : Type}

/-- What a slot of a table holds. -/
inductive Slot (ι α : Type) where
  /-- Nothing. -/
  | empty
  /-- A value. -/
  | leaf (value : α)
  /-- A table of the height below. -/
  | branch (child : ι)
  /-- Something that no well-formed table holds. -/
  | bad

/-- The tables that a slot reaches. -/
def Slot.under (tables : ι → Set ι) : Slot ι α → Set ι
  | .branch child => tables child
  | _ => ∅

/-- A slot that may stand in a well-formed table. -/
def Slot.Sound (below : ι → Prop) : Slot ι α → Prop
  | .branch child => below child
  | .bad => False
  | _ => True

/-- The slots of all tables of a store. -/
abbrev Store (ι α : Type) : Type := ι → Nat → Slot ι α

section Trees

variable (store : Store ι α) (width : Nat)

/-- The tables that a table of some height reaches, itself included. -/
def tables : Nat → ι → Set ι
  | 0, _ => ∅
  | height + 1, table =>
    {page | page = table ∨ ∃ index < width, page ∈ (store table index).under (tables height)}

/-- The tables that some slots of a table reach, and the table itself. -/
def footprint (indices : Set Nat) (height : Nat) (table : ι) : Set ι :=
  {page | page = table ∨ ∃ index ∈ indices,
    page ∈ (store table index).under (tables store width height)}

/-- Some slots of a table, with all that they reach: every slot is sound, none leads back to the
table, and no two reach a common table. -/
structure Limbs (indices : Set Nat) (below : ι → Prop) (reached : ι → Set ι) (table : ι) :
    Prop where
  /-- Every slot is sound. -/
  sound : ∀ index ∈ indices, (store table index).Sound below
  /-- No slot leads back. -/
  acyclic : ∀ index ∈ indices, table ∉ (store table index).under reached
  /-- Different slots reach different tables. -/
  apart : ∀ index ∈ indices, ∀ other ∈ indices, index ≠ other →
    Disjoint ((store table index).under reached) ((store table other).under reached)

/-- A well-formed tree: all slots of its tables are sound and no table is shared. -/
def Tree : Nat → ι → Prop
  | 0, _ => False
  | height + 1, table =>
    Limbs store (Set.Iio width) (Tree height) (tables store width height) table

/-- The value that a walk ends at, with the height of the table that holds it. A path names the
index to take at each height. -/
def find (path : Nat → Nat) : Nat → ι → Option (Nat × α)
  | 0, _ => none
  | height + 1, table =>
    match store table (path (height + 1)) with
    | .leaf value => some (height + 1, value)
    | .branch child => find path height child
    | _ => none

end Trees

variable {store later : Store ι α} {width height : Nat} {table : ι} {path : Nat → Nat}

/-- A table reaches itself. -/
theorem mem_tables_self : table ∈ tables store width (height + 1) table := .inl rfl

/-- A table reaches what its slots reach. -/
theorem under_subset {index : Nat} (bound : index < width) :
    (store table index).under (tables store width height) ⊆
      tables store width (height + 1) table := fun _ member => .inr ⟨index, bound, member⟩

/-- Slots that reach the same tables the same way are sound together. -/
theorem Slot.Sound.mono {slot : Slot ι α} {below other : ι → Prop} (sound : slot.Sound below)
    (implied : ∀ child, slot = .branch child → below child → other child) : slot.Sound other := by
  cases slot with
  | empty => trivial
  | leaf value => trivial
  | branch child => exact implied child rfl sound
  | bad => exact sound

/-- What a slot reaches depends on its own child only. -/
theorem Slot.under_congr {slot : Slot ι α} {few many : ι → Set ι}
    (same : ∀ child, slot = .branch child → few child = many child) :
    slot.under few = slot.under many := by
  cases slot with
  | empty => rfl
  | leaf value => rfl
  | branch child => exact same child rfl
  | bad => rfl

/-- A branch reaches what its child reaches. -/
@[simp] theorem Slot.under_branch (reached : ι → Set ι) (child : ι) :
    (Slot.branch child : Slot ι α).under reached = reached child := rfl

/-- Two stores agree on a set of tables. -/
def Agree (width : Nat) (pages : Set ι) (store later : Store ι α) : Prop :=
  ∀ page ∈ pages, ∀ index < width, later page index = store page index

/-- Stores that agree on more tables agree on fewer. -/
theorem Agree.mono {few many : Set ι} (agree : Agree width many store later)
    (subset : few ⊆ many) : Agree width few store later := fun page member =>
  agree page (subset member)

/-- A tree reaches the same tables in a store that agrees on them. -/
theorem Agree.tables_eq (agree : Agree width (tables store width height table) store later) :
    tables later width height table = tables store width height table := by
  induction height generalizing table with
  | zero => rfl
  | succ height ih =>
    ext page
    refine or_congr_right (exists_congr fun index => and_congr_right fun bound => ?_)
    rw [agree table mem_tables_self index bound]
    rw [Slot.under_congr fun child branch => ih (agree.mono fun other member => ?_)]
    refine .inr ⟨index, bound, ?_⟩
    rw [branch]
    exact member

/-- What a slot reaches is the same in a store that agrees on it. -/
theorem Agree.under_eq {slot : Slot ι α}
    (agree : Agree width (slot.under (tables store width height)) store later) :
    slot.under (tables later width height) = slot.under (tables store width height) :=
  Slot.under_congr fun _ branch => Agree.tables_eq (by simpa [branch] using agree)

/-- A tree stays well formed in a store that agrees on its tables. -/
theorem Agree.tree (agree : Agree width (tables store width height table) store later)
    (tree : Tree store width height table) : Tree later width height table := by
  induction height generalizing table with
  | zero => exact tree
  | succ height ih =>
    have here : ∀ index ∈ Set.Iio width, later table index = store table index :=
      fun index bound => agree table mem_tables_self index bound
    have below : ∀ index ∈ Set.Iio width,
        Agree width ((store table index).under (tables store width height)) store later :=
      fun index bound => agree.mono (under_subset bound)
    have under : ∀ index ∈ Set.Iio width, (later table index).under (tables later width height) =
        (store table index).under (tables store width height) := fun index bound => by
      rw [here index bound, (below index bound).under_eq]
    refine ⟨fun index bound => ?_, fun index bound => ?_, fun index bound other small => ?_⟩
    · rw [here index bound]
      exact (tree.sound index bound).mono fun child branch =>
        ih (by simpa [branch] using below index bound)
    · rw [under index bound]
      exact tree.acyclic index bound
    · rw [under index bound, under other small]
      exact tree.apart index bound other small

/-- A sound slot stays sound in a store that agrees on what it reaches. -/
theorem Agree.sound {slot : Slot ι α}
    (agree : Agree width (slot.under (tables store width height)) store later)
    (sound : slot.Sound (Tree store width height)) : slot.Sound (Tree later width height) :=
  sound.mono fun _ branch => Agree.tree (by simpa [branch] using agree)

/-- A walk ends the same way in a store that agrees on the tables it can pass. -/
theorem Agree.find_eq (agree : Agree width (tables store width height table) store later)
    (narrow : ∀ height, path height < width) :
    find later path height table = find store path height table := by
  induction height generalizing table with
  | zero => rfl
  | succ height ih =>
    rw [find, find, agree table mem_tables_self _ (narrow _)]
    cases slot : store table (path (height + 1)) with
    | empty => rfl
    | leaf value => rfl
    | bad => rfl
    | branch child =>
      refine ih (agree.mono fun page member => .inr ⟨_, narrow (height + 1), ?_⟩)
      rw [slot]
      exact member

/-- A walk through a slot that was kept ends the same way in a store that agrees on what the slot
reaches. -/
theorem Agree.find_slot
    (agree : Agree width ((store table (path (height + 1))).under (tables store width height)) store
      later)
    (here : later table (path (height + 1)) = store table (path (height + 1)))
    (narrow : ∀ height, path height < width) :
    find later path (height + 1) table = find store path (height + 1) table := by
  rw [find, find, here]
  cases slot : store table (path (height + 1)) with
  | empty => rfl
  | leaf value => rfl
  | bad => rfl
  | branch child =>
    rw [slot] at agree
    exact agree.find_eq narrow

/-- A walk through a slot that leads nowhere ends without a value. -/
theorem find_empty (empty : store table (path (height + 1)) = .empty) :
    find store path (height + 1) table = none := by
  rw [find, empty]

/-- A walk through a leaf ends there. -/
theorem find_leaf {value : α} (leaf : store table (path (height + 1)) = .leaf value) :
    find store path (height + 1) table = some (height + 1, value) := by
  rw [find, leaf]

/-- A walk through a branch goes on below. -/
theorem find_branch {child : ι} (branch : store table (path (height + 1)) = .branch child) :
    find store path (height + 1) table = find store path height child := by
  rw [find, branch]

/-- The value found lies at some height of the walk. -/
theorem find_le {high : Nat} {value : α}
    (found : find store path height table = some (high, value)) :
    high ≤ height := by
  induction height generalizing table with
  | zero => simp [find] at found
  | succ height ih =>
    rw [find] at found
    split at found
    · obtain ⟨rfl, -⟩ : height + 1 = high ∧ _ := by simpa using found
      exact Nat.le_refl _
    · exact (ih found).trans (Nat.le_succ _)
    · cases found

/-- The value found lies at a height above zero. -/
theorem one_le_of_find {high : Nat} {value : α}
    (found : find store path height table = some (high, value)) : 1 ≤ high := by
  induction height generalizing table with
  | zero => simp [find] at found
  | succ height ih =>
    rw [find] at found
    split at found
    · obtain ⟨rfl, -⟩ : height + 1 = high ∧ _ := by simpa using found
      exact Nat.succ_pos height
    · exact ih found
    · cases found

/-- The tables that a walk down to a height lacks on its way. -/
def missing (store : Store ι α) (path : Nat → Nat) (target : Nat) : Nat → ι → Nat
  | 0, _ => 0
  | height + 1, table =>
    if height + 1 ≤ target then 0
    else
      match store table (path (height + 1)) with
      | .branch child => missing store path target height child
      | _ => height + 1 - target

/-- A walk lacks at most one table for each height above its target. -/
theorem missing_le {target : Nat} : missing store path target height table ≤ height - target := by
  induction height generalizing table with
  | zero => exact Nat.zero_le _
  | succ height ih =>
    rw [missing]
    split
    · exact Nat.zero_le _
    · split
      · exact ih.trans (by omega)
      · exact Nat.le_refl _

/-- Above its target a walk through a branch lacks what it lacks below. -/
theorem missing_branch {target : Nat} {child : ι} (above : target ≤ height)
    (branch : store table (path (height + 1)) = .branch child) :
    missing store path target (height + 1) table = missing store path target height child := by
  rw [missing, if_neg (by omega), branch]

/-- A walk through a slot that is no branch lacks a table for each height below. -/
theorem missing_above {target : Nat} (above : target ≤ height)
    (nowhere : ∀ child, store table (path (height + 1)) ≠ .branch child) :
    missing store path target (height + 1) table = height + 1 - target := by
  rw [missing, if_neg (by omega)]
  split
  · next child branch => exact absurd branch (nowhere child)
  · rfl

/-- Fewer slots are separate as well. -/
theorem Limbs.mono {few many : Set Nat} {below : ι → Prop} {reached : ι → Set ι}
    (limbs : Limbs store many below reached table) (subset : few ⊆ many) :
    Limbs store few below reached table :=
  ⟨fun index member => limbs.sound index (subset member),
    fun index member => limbs.acyclic index (subset member),
    fun index member other also => limbs.apart index (subset member) other (subset also)⟩

/-- Some slots of a table are unaffected by a change elsewhere. -/
theorem Limbs.agree {indices : Set Nat}
    (limbs : Limbs store indices (Tree store width height) (tables store width height) table)
    (here : ∀ index ∈ indices, later table index = store table index)
    (below : ∀ index ∈ indices,
      Agree width ((store table index).under (tables store width height)) store later) :
    Limbs later indices (Tree later width height) (tables later width height) table := by
  have under : ∀ index ∈ indices, (later table index).under (tables later width height) =
      (store table index).under (tables store width height) := fun index member => by
    rw [here index member, (below index member).under_eq]
  refine ⟨fun index member => ?_, fun index member => ?_, fun index member other also => ?_⟩
  · rw [here index member]
    exact (below index member).sound (limbs.sound index member)
  · rw [under index member]
    exact limbs.acyclic index member
  · rw [under index member, under other also]
    exact limbs.apart index member other also

/-- Slots that lead nowhere are separate. -/
theorem Limbs.of_empty {indices : Set Nat} {below : ι → Prop} {reached : ι → Set ι}
    (empty : ∀ index ∈ indices, store table index = .empty) :
    Limbs store indices below reached table := by
  have nothing : ∀ index ∈ indices, (store table index).under reached = ∅ :=
    fun index member => by rw [empty index member]; rfl
  refine ⟨fun index member => ?_, fun index member => ?_, fun index member other _ _ => ?_⟩
  · rw [empty index member]
    trivial
  · rw [nothing index member]
    exact Set.notMem_empty table
  · rw [nothing index member]
    exact Set.empty_disjoint _

/-- A table whose slots lead nowhere reaches itself only. -/
theorem footprint_of_empty {indices : Set Nat}
    (empty : ∀ index ∈ indices, store table index = .empty) :
    footprint store width indices height table = {table} := by
  ext page
  refine ⟨?_, fun same => .inl same⟩
  rintro (same | ⟨index, member, reached⟩)
  · exact same
  · rw [empty index member] at reached
    exact reached.elim

/-- A slot that leads nowhere can be added to separate slots. -/
theorem Limbs.insert_empty {indices : Set Nat} {index : Nat} {below : ι → Prop}
    {reached : ι → Set ι}
    (limbs : Limbs store indices below reached table) (empty : store table index = .empty) :
    Limbs store (insert index indices) below reached table := by
  have nothing : (store table index).under reached = ∅ := by rw [empty]; rfl
  constructor
  · rintro other (rfl | member)
    · rw [empty]
      trivial
    · exact limbs.sound other member
  · rintro other (rfl | member)
    · rw [nothing]
      exact Set.notMem_empty table
    · exact limbs.acyclic other member
  · rintro first (rfl | inside) second (rfl | also) apart
    · exact absurd rfl apart
    · rw [nothing]
      exact Set.empty_disjoint _
    · rw [nothing]
      exact Set.disjoint_empty _
    · exact limbs.apart first inside second also apart

/-- A slot that leads nowhere adds nothing to what separate slots reach. -/
theorem footprint_insert_empty {indices : Set Nat} {index : Nat}
    (empty : store table index = .empty) :
    footprint store width (insert index indices) height table =
      footprint store width indices height table := by
  ext page
  constructor
  · rintro (same | ⟨other, rfl | member, reached⟩)
    · exact .inl same
    · rw [empty] at reached
      exact reached.elim
    · exact .inr ⟨other, member, reached⟩
  · rintro (same | ⟨other, member, reached⟩)
    · exact .inl same
    · exact .inr ⟨other, .inr member, reached⟩

/-- Whether a path takes the same way as another at the heights from `target` to `height`. -/
def SamePath (target height : Nat) (path other : Nat → Nat) : Prop :=
  ∀ level, target ≤ level → level ≤ height → other level = path level

/-- Taking the same way is symmetric. -/
theorem SamePath.symm {target height : Nat} {path other : Nat → Nat}
    (same : SamePath target height path other) : SamePath target height other path :=
  fun level low high => (same level low high).symm

/-- Taking the same way is transitive. -/
theorem SamePath.trans {target height : Nat} {path other third : Nat → Nat}
    (left : SamePath target height path other) (right : SamePath target height other third) :
    SamePath target height path third := fun level low high =>
  (right level low high).trans (left level low high)

/-- A walk that takes the same way down to the height of a value finds it too. -/
theorem find_samePath {target high : Nat} {value : α} {other : Nat → Nat}
    (same : SamePath target height path other) (low : target ≤ high)
    (found : find store path height table = some (high, value)) :
    find store other height table = some (high, value) := by
  induction height generalizing table with
  | zero => simp [find] at found
  | succ height ih =>
    have first : other (height + 1) = path (height + 1) :=
      same (height + 1) (low.trans (find_le found)) (Nat.le_refl _)
    have rest : SamePath target height path other := fun level bottom top =>
      same level bottom (top.trans (Nat.le_succ _))
    rw [find] at found ⊢
    rw [first]
    split at found
    · exact found
    · exact ih rest found
    · cases found

/-- An edit of what lies under one slot of a table, along a path. `pages` are the tables that were
in use before, `fresh` are the ones that the edit took, and `content` is what the path ends at
afterwards. -/
structure Edited (width : Nat) (path : Nat → Nat) (target : Nat) (content : Option (Nat × α))
    (pages fresh : Set ι) (height : Nat) (table : ι) (store later : Store ι α) : Prop where
  /-- Tables in use that the slot does not reach are left alone. -/
  elsewhere : Agree width
    (pages \ (insert table ((store table (path (height + 1))).under (tables store width height))))
    store later
  /-- The other slots of the table are left alone. -/
  beside : ∀ index < width, index ≠ path (height + 1) → later table index = store table index
  /-- The slot is sound again. -/
  sound : (later table (path (height + 1))).Sound (Tree later width height)
  /-- The slot reaches what it reached before, and fresh tables. -/
  under : (later table (path (height + 1))).under (tables later width height) ⊆
    (store table (path (height + 1))).under (tables store width height) ∪ fresh
  /-- Walks along the path find the content, other walks through the slot end as before. -/
  found : ∀ other, (∀ level, other level < width) → other (height + 1) = path (height + 1) →
    (SamePath target (height + 1) path other → find later other (height + 1) table = content) ∧
    (¬ SamePath target (height + 1) path other →
      find later other (height + 1) table = find store other (height + 1) table)

section Edits

variable {target : Nat} {content : Option (Nat × α)} {pages fresh : Set ι}

/-- Slots beside the edited one reach tables that the edit left alone. -/
theorem Edited.agree_beside {indices : Set Nat}
    (edited : Edited width path target content pages fresh height table store later)
    (limbs : Limbs store indices (Tree store width height) (tables store width height) table)
    (here : path (height + 1) ∈ indices)
    (inUse : ∀ index ∈ indices, (store table index).under (tables store width height) ⊆ pages)
    {index : Nat} (member : index ∈ indices) (other : index ≠ path (height + 1)) :
    Agree width ((store table index).under (tables store width height)) store later := by
  refine edited.elsewhere.mono fun page reached => ⟨inUse index member reached, ?_⟩
  rintro (same | under)
  · exact limbs.acyclic index member (same ▸ reached)
  · exact Set.disjoint_left.mp (limbs.apart index member _ here other) reached under

/-- After an edit the slots of a table are again separate from each other. -/
theorem Edited.limbs {indices : Set Nat}
    (edited : Edited width path target content pages fresh height table store later)
    (limbs : Limbs store indices (Tree store width height) (tables store width height) table)
    (bound : ∀ index ∈ indices, index < width) (here : path (height + 1) ∈ indices)
    (inUse : ∀ index ∈ indices, (store table index).under (tables store width height) ⊆ pages)
    (member : table ∈ pages) (unused : Disjoint fresh pages) :
    Limbs later indices (Tree later width height) (tables later width height) table := by
  have beside : ∀ index ∈ indices, index ≠ path (height + 1) →
      (later table index).under (tables later width height) =
        (store table index).under (tables store width height) := fun index inside other => by
    rw [edited.beside index (bound index inside) other,
      (edited.agree_beside limbs here inUse inside other).under_eq]
  have separate : ∀ index ∈ indices, index ≠ path (height + 1) →
      Disjoint ((later table index).under (tables later width height))
        ((later table (path (height + 1))).under (tables later width height)) := by
    intro index inside other
    rw [beside index inside other]
    refine (Disjoint.union_right (limbs.apart index inside _ here other) ?_).mono_right edited.under
    exact (unused.mono_right (inUse index inside)).symm
  refine ⟨fun index inside => ?_, fun index inside => ?_, fun index inside other also apart => ?_⟩
  · by_cases same : index = path (height + 1)
    · rw [same]
      exact edited.sound
    · rw [edited.beside index (bound index inside) same]
      exact (edited.agree_beside limbs here inUse inside same).sound (limbs.sound index inside)
  · by_cases same : index = path (height + 1)
    · rw [same]
      intro back
      rcases edited.under back with old | new
      · exact limbs.acyclic _ here old
      · exact Set.disjoint_left.mp unused new member
    · rw [beside index inside same]
      exact limbs.acyclic index inside
  · by_cases first : index = path (height + 1)
    · have second : other ≠ path (height + 1) := fun same => apart (first.trans same.symm)
      rw [first]
      exact (separate other also second).symm
    · by_cases second : other = path (height + 1)
      · rw [second]
        exact separate index inside first
      · rw [beside index inside first, beside other also second]
        exact limbs.apart index inside other also apart

/-- After an edit a walk through another slot of the table ends as before. -/
theorem Edited.find_beside {indices : Set Nat} {other : Nat → Nat}
    (edited : Edited width path target content pages fresh height table store later)
    (limbs : Limbs store indices (Tree store width height) (tables store width height) table)
    (here : path (height + 1) ∈ indices)
    (inUse : ∀ index ∈ indices, (store table index).under (tables store width height) ⊆ pages)
    (narrow : ∀ level, other level < width) (inside : other (height + 1) ∈ indices)
    (apart : other (height + 1) ≠ path (height + 1)) :
    find later other (height + 1) table = find store other (height + 1) table := by
  have agree := edited.agree_beside limbs here inUse inside apart
  exact agree.find_slot (edited.beside _ (narrow _) apart) narrow

/-- What an edit does to every walk that begins at one of the slots. -/
theorem Edited.find_eq {indices : Set Nat} {other : Nat → Nat}
    (edited : Edited width path target content pages fresh height table store later)
    (limbs : Limbs store indices (Tree store width height) (tables store width height) table)
    (here : path (height + 1) ∈ indices)
    (inUse : ∀ index ∈ indices, (store table index).under (tables store width height) ⊆ pages)
    (narrow : ∀ level, other level < width) (inside : other (height + 1) ∈ indices)
    (reach : target ≤ height + 1) :
    (SamePath target (height + 1) path other → find later other (height + 1) table = content) ∧
    (¬ SamePath target (height + 1) path other →
      find later other (height + 1) table = find store other (height + 1) table) := by
  by_cases first : other (height + 1) = path (height + 1)
  · exact edited.found other narrow first
  · refine ⟨fun same => absurd (same (height + 1) reach (Nat.le_refl _)) first, fun _ => ?_⟩
    exact edited.find_beside limbs here inUse narrow inside first

/-- The tables that some slots reach after an edit are the ones before it, and fresh ones. -/
theorem Edited.under_subset {indices : Set Nat} {index : Nat}
    (edited : Edited width path target content pages fresh height table store later)
    (limbs : Limbs store indices (Tree store width height) (tables store width height) table)
    (bound : ∀ index ∈ indices, index < width) (here : path (height + 1) ∈ indices)
    (inUse : ∀ index ∈ indices, (store table index).under (tables store width height) ⊆ pages)
    (member : index ∈ indices) :
    (later table index).under (tables later width height) ⊆
      (store table index).under (tables store width height) ∪ fresh := by
  by_cases same : index = path (height + 1)
  · rw [same]
    exact edited.under
  · rw [edited.beside index (bound index member) same,
      (edited.agree_beside limbs here inUse member same).under_eq]
    exact Set.subset_union_left

/-- Writing a slot that reaches no table, at the height where the path ends, is an edit. -/
theorem Edited.write (slot : Slot ι α) (reaches : ∀ reached : ι → Set ι, slot.under reached = ∅)
    (sound : ∀ below : ι → Prop, slot.Sound below)
    (here : later table (path (height + 1)) = slot)
    (beside : ∀ index < width, index ≠ path (height + 1) → later table index = store table index)
    (elsewhere : Agree width (pages \ {table}) store later)
    (ends : ∀ other, other (height + 1) = path (height + 1) →
      find later other (height + 1) table = content) :
    Edited width path (height + 1) content pages fresh height table store later := by
  refine ⟨elsewhere.mono fun page ⟨used, out⟩ =>
    ⟨used, fun same => out (.inl same)⟩, beside, ?_, ?_,
    fun other _ first => ⟨fun _ => ends other first, fun apart => ?_⟩⟩
  · rw [here]
    exact sound _
  · rw [here, reaches]
    exact Set.empty_subset _
  · refine absurd (fun level low high => ?_) apart
    rw [Nat.le_antisymm high low, first]

/-- An edit adds fresh tables only to what the slots of the table reach. -/
theorem Edited.footprint_subset {indices : Set Nat}
    (edited : Edited width path target content pages fresh height table store later)
    (limbs : Limbs store indices (Tree store width height) (tables store width height) table)
    (bound : ∀ index ∈ indices, index < width) (here : path (height + 1) ∈ indices)
    (inUse : footprint store width indices height table ⊆ pages) :
    footprint later width indices height table ⊆
      footprint store width indices height table ∪ fresh := by
  rintro page (same | ⟨index, member, reached⟩)
  · exact .inl (.inl same)
  · have below : ∀ index ∈ indices,
        (store table index).under (tables store width height) ⊆ pages :=
      fun index member page reached => inUse (.inr ⟨index, member, reached⟩)
    rcases edited.under_subset limbs bound here below member reached with old | new
    · exact .inl (.inr ⟨index, member, old⟩)
    · exact .inr new

/-- A table that an edit did not touch keeps its slots and all that they reach. -/
theorem Agree.limbs {indices : Set Nat}
    (agree : Agree width (footprint store width indices height table) store later)
    (bound : ∀ index ∈ indices, index < width)
    (limbs : Limbs store indices (Tree store width height) (tables store width height) table) :
    Limbs later indices (Tree later width height) (tables later width height) table ∧
      footprint later width indices height table = footprint store width indices height table ∧
      ∀ path, (∀ level, path level < width) → path (height + 1) ∈ indices →
        find later path (height + 1) table = find store path (height + 1) table := by
  have here : ∀ index ∈ indices, later table index = store table index :=
    fun index member => agree table (.inl rfl) index (bound index member)
  have below : ∀ index ∈ indices,
      Agree width ((store table index).under (tables store width height)) store later :=
    fun index member => agree.mono fun page reached => .inr ⟨index, member, reached⟩
  refine ⟨limbs.agree here below, ?_, fun path narrow inside =>
    (below _ inside).find_slot (here _ inside) narrow⟩
  ext page
  refine or_congr_right (exists_congr fun index => and_congr_right fun member => ?_)
  rw [here index member, (below index member).under_eq]

/-- An edit below a table leaves the table itself alone. -/
theorem Edited.above {child : ι}
    (edited : Edited width path target content pages fresh height child store later)
    (acyclic : table ∉ tables store width (height + 1) child) (member : table ∈ pages)
    (narrow : ∀ level, path level < width) :
    ∀ index < width, later table index = store table index := by
  refine edited.elsewhere table ⟨member, ?_⟩
  rintro (same | under)
  · exact acyclic (same ▸ mem_tables_self)
  · exact acyclic (Radix.under_subset (narrow _) under)

/-- An edit of a whole table below is an edit of the slot that leads to it. -/
theorem Edited.descend {child : ι}
    (edited : Edited width path target content pages fresh height child store later)
    (branch : store table (path (height + 2)) = .branch child)
    (tree : Tree store width (height + 1) child)
    (inUse : tables store width (height + 1) child ⊆ pages)
    (acyclic : table ∉ tables store width (height + 1) child) (member : table ∈ pages)
    (unused : Disjoint fresh pages) (narrow : ∀ level, path level < width)
    (reach : target ≤ height + 1) :
    Edited width path target content pages fresh (height + 1) table store later := by
  have bound : ∀ index ∈ Set.Iio width, index < width := fun _ small => small
  have here : path (height + 1) ∈ Set.Iio width := narrow _
  have limbs : Limbs store (Set.Iio width) (Tree store width height) (tables store width height)
      child := tree
  have within : ∀ index ∈ Set.Iio width,
      (store child index).under (tables store width height) ⊆ pages :=
    fun index small => (Radix.under_subset small).trans inUse
  have kept := edited.above acyclic member narrow
  have slot : later table (path (height + 2)) = .branch child := by
    rw [kept _ (narrow _), branch]
  refine ⟨?_, fun index small _ => kept index small, ?_, ?_, fun other small first => ?_⟩
  · refine edited.elsewhere.mono fun page ⟨used, out⟩ => ⟨used, fun inside => out (.inr ?_)⟩
    rw [branch]
    rcases inside with same | under
    · exact same ▸ mem_tables_self
    · exact Radix.under_subset here under
  · rw [slot]
    exact edited.limbs limbs bound here within (inUse mem_tables_self) unused
  · rw [slot, branch]
    rintro page (same | ⟨index, small, reached⟩)
    · exact .inl (same ▸ mem_tables_self)
    · rcases edited.under_subset limbs bound here within small reached with old | new
      · exact .inl (Radix.under_subset small old)
      · exact .inr new
  · have below := edited.find_eq limbs here within small (small (height + 1)) reach
    have split : SamePath target (height + 2) path other ↔
        SamePath target (height + 1) path other := by
      refine ⟨fun same level low high => same level low (by omega), fun same level low high => ?_⟩
      by_cases top : level = height + 2
      · rw [top, first]
      · exact same level low (by omega)
    have after : find later other (height + 2) table = find later other (height + 1) child :=
      find_branch (by rw [first, slot])
    have before : find store other (height + 2) table = find store other (height + 1) child :=
      find_branch (by rw [first, branch])
    rw [after, before, split]
    exact below

/-- A table whose slots are all empty is a tree that reaches itself only. -/
theorem blank_tree (blank : ∀ index < width, store table index = .empty) :
    Tree store width (height + 1) table ∧ tables store width (height + 1) table = {table} :=
  ⟨Limbs.of_empty blank, footprint_of_empty blank⟩

/-- An edit below a blank table that was just attached to an empty slot is an edit of that slot. -/
theorem Edited.attach {child : ι} {middle : Store ι α}
    (edited : Edited width path target content (insert child pages) fresh height child middle later)
    (empty : store table (path (height + 2)) = .empty)
    (blank : ∀ index < width, middle child index = .empty)
    (attached : middle table (path (height + 2)) = .branch child)
    (kept : ∀ page ∈ pages, ∀ index < width, page ≠ table ∨ index ≠ path (height + 2) →
      middle page index = store page index)
    (new : child ∉ pages) (member : table ∈ pages) (unused : Disjoint fresh (insert child pages))
    (narrow : ∀ level, path level < width) (reach : target ≤ height + 1) :
    Edited width path target content pages (insert child fresh) (height + 1) table store later := by
  obtain ⟨tree, alone⟩ : Tree middle width (height + 1) child ∧
      tables middle width (height + 1) child = {child} := blank_tree blank
  have acyclic : table ∉ tables middle width (height + 1) child := by
    rw [alone]
    rintro rfl
    exact new member
  have inUse : tables middle width (height + 1) child ⊆ insert child pages := by
    rw [alone]
    exact Set.singleton_subset_iff.mpr (Set.mem_insert _ _)
  have whole := edited.descend attached tree inUse acyclic (Set.mem_insert_of_mem _ member) unused
    narrow reach
  refine ⟨fun page ⟨used, out⟩ index small => ?_, fun index small apart => ?_, whole.sound, ?_,
    fun other small first => ?_⟩
  · have apart : page ≠ table := fun same => out (.inl same)
    rw [whole.elsewhere page ⟨Set.mem_insert_of_mem _ used, ?_⟩ index small]
    · exact kept page used index small (.inl apart)
    · rw [attached, Slot.under_branch, alone]
      rintro (same | same)
      · exact apart same
      · exact new (same ▸ used)
  · rw [whole.beside index small apart]
    exact kept table member index small (.inr apart)
  · refine whole.under.trans ?_
    rw [attached, Slot.under_branch, alone, empty]
    rintro page (same | taken)
    · exact .inr (.inl same)
    · exact .inr (.inr taken)
  · obtain ⟨along, across⟩ := whole.found other small first
    refine ⟨along, fun apart => ?_⟩
    have before : find middle other (height + 2) table = find middle other (height + 1) child :=
      find_branch (by rw [first, attached])
    rw [across apart, before, find_empty (blank _ (small _)), find_empty (by rw [first, empty])]

/-- The slot that a path takes still reaches all tables that it reached, and reaches the fresh
ones. -/
def Grown (width : Nat) (path : Nat → Nat) (fresh : Set ι) (height : Nat) (table : ι)
    (store later : Store ι α) : Prop :=
  (store table (path (height + 1))).under (tables store width height) ∪ fresh ⊆
    (later table (path (height + 1))).under (tables later width height)

/-- A slot of a lowest table reaches no table. -/
theorem Grown.lowest : Grown width path (∅ : Set ι) 0 table store later := by
  have none : ∀ slot : Slot ι α, slot.under (tables store width 0) = ∅ := by
    intro slot
    cases slot <;> rfl
  rw [Grown, none, Set.union_empty]
  exact Set.empty_subset _

/-- An edit of a table that only adds tables under its slot only adds tables under the slot that
leads to the table. -/
theorem Grown.descend {child : ι} (grown : Grown width path fresh height child store later)
    (edited : Edited width path target content pages fresh height child store later)
    (branch : store table (path (height + 2)) = .branch child)
    (tree : Tree store width (height + 1) child)
    (inUse : tables store width (height + 1) child ⊆ pages)
    (acyclic : table ∉ tables store width (height + 1) child) (member : table ∈ pages)
    (narrow : ∀ level, path level < width) :
    Grown width path fresh (height + 1) table store later := by
  have here : path (height + 1) ∈ Set.Iio width := narrow _
  have within : ∀ index ∈ Set.Iio width,
      (store child index).under (tables store width height) ⊆ pages :=
    fun index small => (Radix.under_subset small).trans inUse
  have slot : later table (path (height + 2)) = .branch child := by
    rw [edited.above acyclic member narrow _ (narrow _), branch]
  rw [Grown, slot, branch]
  rintro page ((same | ⟨index, small, reached⟩) | new)
  · exact .inl same
  · by_cases first : index = path (height + 1)
    · exact .inr ⟨index, small, first ▸ grown (.inl (first ▸ reached))⟩
    · refine .inr ⟨index, small, ?_⟩
      rw [edited.beside index small first,
        (edited.agree_beside tree here within small first).under_eq]
      exact reached
  · exact .inr ⟨_, here, grown (.inr new)⟩

/-- A blank table that was attached to an empty slot, and tables that were added below it, are
reached through that slot. -/
theorem Grown.attach {child : ι} {middle : Store ι α}
    (grown : Grown width path fresh height child middle later)
    (edited : Edited width path target content (insert child pages) fresh height child middle later)
    (empty : store table (path (height + 2)) = .empty)
    (blank : ∀ index < width, middle child index = .empty)
    (attached : middle table (path (height + 2)) = .branch child)
    (new : child ∉ pages) (member : table ∈ pages) (narrow : ∀ level, path level < width) :
    Grown width path (insert child fresh) (height + 1) table store later := by
  obtain ⟨tree, alone⟩ : Tree middle width (height + 1) child ∧
      tables middle width (height + 1) child = {child} := blank_tree blank
  have acyclic : table ∉ tables middle width (height + 1) child := by
    rw [alone]
    rintro rfl
    exact new member
  have inUse : tables middle width (height + 1) child ⊆ insert child pages := by
    rw [alone]
    exact Set.singleton_subset_iff.mpr (Set.mem_insert _ _)
  have whole := grown.descend edited attached tree inUse acyclic (Set.mem_insert_of_mem _ member)
    narrow
  rw [Grown, attached, Slot.under_branch, alone, Set.singleton_union] at whole
  rw [Grown, empty]
  rintro page (none | taken)
  · exact none.elim
  · exact whole taken

/-- An edit that only adds tables under its slot only adds tables to what the slots of the table
reach. -/
theorem Grown.footprint_subset {indices : Set Nat}
    (grown : Grown width path fresh height table store later)
    (edited : Edited width path target content pages fresh height table store later)
    (limbs : Limbs store indices (Tree store width height) (tables store width height) table)
    (bound : ∀ index ∈ indices, index < width) (here : path (height + 1) ∈ indices)
    (inUse : ∀ index ∈ indices, (store table index).under (tables store width height) ⊆ pages) :
    footprint store width indices height table ∪ fresh ⊆
      footprint later width indices height table := by
  rintro page ((same | ⟨index, member, reached⟩) | new)
  · exact .inl same
  · by_cases first : index = path (height + 1)
    · exact .inr ⟨index, member, first ▸ grown (.inl (first ▸ reached))⟩
    · refine .inr ⟨index, member, ?_⟩
      rw [edited.beside index (bound index member) first,
        (edited.agree_beside limbs here inUse member first).under_eq]
      exact reached
  · exact .inr ⟨_, here, grown (.inr new)⟩

end Edits

end Radix
