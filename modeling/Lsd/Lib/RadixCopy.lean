import Lsd.Lib.Radix

/-!
# Copies of radix trees

Some slots of a table are copied into another table, with fresh tables for all
that they reach. A copy of a slot that reaches no table is a write; a copy of a
branch is a copy of all slots of its child into a fresh table that is attached;
copies of different slots follow each other. In the end walks through the copy
find what walks through the source found, and share no table with it.
-/

namespace Radix

variable {ι α : Type} {store later : Store ι α} {width height : Nat} {table : ι} {path : Nat → Nat}

/-- The tables that a slot reaches, counted. -/
def Slot.count (tables : ι → Nat) : Slot ι α → Nat
  | .branch child => tables child + 1
  | _ => 0

/-- The tables that some slots of a table reach, counted. -/
def branches (store : Store ι α) (width : Nat) : Nat → ι → List Nat → Nat
  | 0, _, _ => 0
  | height + 1, table, indices => (indices.map fun index =>
      (store table index).count fun child =>
        branches store width height child (List.range width)).sum

/-- Some slots of a table that can be copied into another table. -/
structure Copyable (store : Store ι α) (width : Nat) (indices : Set Nat) (pages : Set ι)
    (height : Nat) (source copy : ι) : Prop where
  /-- The slots are separate. -/
  limbs : Limbs store indices (Tree store width height) (tables store width height) source
  /-- The indices are inside the table. -/
  bound : ∀ index ∈ indices, index < width
  /-- The table is in use. -/
  sourceUsed : source ∈ pages
  /-- So is the other one. -/
  copyUsed : copy ∈ pages
  /-- They are different. -/
  apart : source ≠ copy
  /-- What the slots reach is in use. -/
  used : ∀ index ∈ indices, (store source index).under (tables store width height) ⊆ pages
  /-- The slots do not reach the other table. -/
  outside : ∀ index ∈ indices, copy ∉ (store source index).under (tables store width height)

/-- Some slots of a table were copied into another table, with fresh tables below. -/
structure Copied (width : Nat) (indices : Set Nat) (pages fresh : Set ι) (height : Nat)
    (source copy : ι) (store later : Store ι α) : Prop where
  /-- Tables in use are left alone. -/
  kept : Agree width (pages \ {copy}) store later
  /-- So are the other slots of the copy. -/
  beside : ∀ index < width, index ∉ indices → later copy index = store copy index
  /-- The slots of the copy are separate. -/
  limbs : Limbs later indices (Tree later width height) (tables later width height) copy
  /-- They reach fresh tables only. -/
  under : ∀ index ∈ indices, (later copy index).under (tables later width height) ⊆ fresh
  /-- Walks through the copy end where walks through the source ended. -/
  copied : ∀ path, (∀ level, path level < width) → path (height + 1) ∈ indices →
    find later path (height + 1) copy = find store path (height + 1) source
  /-- What was not empty is not empty. -/
  filled : ∀ index ∈ indices, store source index ≠ .empty → later copy index ≠ .empty

section Copies

variable {indices : Set Nat} {pages fresh : Set ι} {source copy : ι}

/-- What the slots reach lies outside the copy. -/
theorem Copyable.within
    (ready : Copyable store width indices pages height source copy) {index : Nat}
    (member : index ∈ indices) :
    (store source index).under (tables store width height) ⊆ pages \ {copy} :=
  fun _ reached => ⟨ready.used index member reached, fun same =>
    ready.outside index member (same ▸ reached)⟩

/-- The source lies outside the copy. -/
theorem Copyable.source_within (ready : Copyable store width indices pages height source copy) :
    source ∈ pages \ {copy} := ⟨ready.sourceUsed, ready.apart⟩

/-- Slots can still be copied after tables in use were left alone. -/
theorem Copyable.agree {more : Set ι}
    (ready : Copyable store width indices pages height source copy)
    (kept : Agree width (pages \ {copy}) store later) (subset : pages ⊆ more) :
    Copyable later width indices more height source copy := by
  have here : ∀ index ∈ indices, later source index = store source index := fun index member =>
    kept source ready.source_within index (ready.bound index member)
  have below : ∀ index ∈ indices,
      Agree width ((store source index).under (tables store width height)) store later :=
    fun index member => kept.mono (ready.within member)
  have under : ∀ index ∈ indices, (later source index).under (tables later width height) =
      (store source index).under (tables store width height) := fun index member => by
    rw [here index member, (below index member).under_eq]
  refine ⟨ready.limbs.agree here below, ready.bound, subset ready.sourceUsed, subset ready.copyUsed,
    ready.apart, fun index member => ?_, fun index member => ?_⟩
  · rw [under index member]
    exact (ready.used index member).trans subset
  · rw [under index member]
    exact ready.outside index member

/-- Fewer slots can be copied as well. -/
theorem Copyable.mono {many : Set Nat} (ready : Copyable store width many pages height source copy)
    (subset : indices ⊆ many) : Copyable store width indices pages height source copy :=
  ⟨ready.limbs.mono subset, fun index member => ready.bound index (subset member), ready.sourceUsed,
    ready.copyUsed, ready.apart, fun index member => ready.used index (subset member),
    fun index member => ready.outside index (subset member)⟩

/-- Walks through the source end the same after tables in use were left alone. -/
theorem Copyable.find_eq (ready : Copyable store width indices pages height source copy)
    (kept : Agree width (pages \ {copy}) store later) (narrow : ∀ level, path level < width)
    (inside : path (height + 1) ∈ indices) :
    find later path (height + 1) source = find store path (height + 1) source :=
  (kept.mono (ready.within inside)).find_slot (kept source ready.source_within _ (narrow _)) narrow

/-- A count of tables is the same in a store that agrees on them. -/
theorem Agree.branches_eq {list : List Nat} (bound : ∀ index ∈ list, index < width)
    (here : ∀ index ∈ list, later table index = store table index)
    (agree : ∀ index ∈ list,
      Agree width ((store table index).under (tables store width height)) store later) :
    branches later width (height + 1) table list =
      branches store width (height + 1) table list := by
  induction height generalizing table list with
  | zero =>
    rw [branches, branches]
    refine congrArg List.sum (List.map_congr_left fun index member => ?_)
    rw [here index member]
    cases store table index <;> rfl
  | succ height ih =>
    rw [branches, branches]
    refine congrArg List.sum (List.map_congr_left fun index member => ?_)
    rw [here index member]
    have below := agree index member
    cases slot : store table index with
    | empty => rfl
    | leaf value => rfl
    | bad => rfl
    | branch child =>
      rw [slot, Slot.under_branch] at below
      have small : ∀ next ∈ List.range width, next < width :=
        fun _ inside => List.mem_range.mp inside
      rw [Slot.count, Slot.count, ih small (fun next inside =>
        below child mem_tables_self next (small next inside))
        fun next inside => below.mono (under_subset (small next inside))]

/-- The table that a slot leads to can be copied into a new table as a whole. -/
theorem Copyable.below {index : Nat} {child new : ι}
    (ready : Copyable store width {index} pages (height + 1) source copy)
    (original : store source index = .branch child)
    (kept : Agree width (pages \ {copy}) store later)
    (outside : new ∉ pages) :
    Copyable later width (Set.Iio width) (insert new pages) height child new ∧
      branches later width (height + 1) child (List.range width) =
        branches store width (height + 1) child (List.range width) := by
  have within := ready.within rfl
  have tree := ready.limbs.sound index rfl
  rw [original] at tree
  rw [original, Slot.under_branch] at within
  have agree : Agree width (tables store width (height + 1) child) store later := kept.mono within
  have used : tables later width (height + 1) child ⊆ pages := by
    rw [agree.tables_eq]
    exact fun page reached => (within reached).1
  have member : child ∈ pages := used mem_tables_self
  refine ⟨⟨agree.tree tree, fun _ small => small, .inr member, .inl rfl,
    fun same => outside (same ▸ member), fun next small page reached => ?_,
    fun next small reached => ?_⟩, ?_⟩
  · exact .inr (used (under_subset small reached))
  · exact outside (used (under_subset small reached))
  · have small : ∀ next ∈ List.range width, next < width := fun _ inside => List.mem_range.mp inside
    exact Agree.branches_eq small (fun next inside => agree child mem_tables_self next
      (small next inside)) fun next inside => agree.mono (under_subset (small next inside))

/-- Nothing is copied by changing nothing. -/
theorem Copied.refl : Copied width ∅ pages ∅ height source copy store store :=
  ⟨fun _ _ _ _ => rfl, fun _ _ _ => rfl, ⟨fun _ => False.elim, fun _ => False.elim,
    fun _ => False.elim⟩, fun _ => False.elim, fun _ _ => False.elim, fun _ => False.elim⟩

/-- Copies of different slots, one after the other. -/
theorem Copied.append {more : Set Nat} {taken : Set ι} {middle : Store ι α}
    (first : Copied width indices pages fresh height source copy store middle)
    (second : Copied width more (pages ∪ fresh) taken height source copy middle later)
    (ready : Copyable store width (indices ∪ more) pages height source copy)
    (different : Disjoint indices more) (unused : Disjoint fresh pages)
    (untaken : Disjoint taken (pages ∪ fresh)) :
    Copied width (indices ∪ more) pages (fresh ∪ taken) height source copy store later := by
  have outside : copy ∉ fresh := fun inside => Set.disjoint_left.mp unused inside ready.copyUsed
  have here : ∀ index ∈ indices, later copy index = middle copy index := fun index member =>
    second.beside index (ready.bound index (.inl member)) (Set.disjoint_left.mp different member)
  have below : ∀ index ∈ indices,
      Agree width ((middle copy index).under (tables middle width height)) middle later := by
    refine fun index member => second.kept.mono fun page reached => ?_
    have new := first.under index member reached
    exact ⟨.inr new, fun same => outside (same ▸ new)⟩
  have under : ∀ index ∈ indices, (later copy index).under (tables later width height) ⊆ fresh :=
    fun index member => by
      rw [here index member, (below index member).under_eq]
      exact first.under index member
  have limbs := first.limbs.agree here below
  have separate : ∀ index ∈ indices, ∀ other ∈ more,
      Disjoint ((later copy index).under (tables later width height))
        ((later copy other).under (tables later width height)) := by
    intro index member other also
    have far : Disjoint fresh taken := (untaken.mono_right Set.subset_union_right).symm
    exact far.mono (under index member) (second.under other also)
  refine ⟨?kept, ?beside, ⟨?sound, ?acyclic, ?apart⟩, ?under, ?copied, ?filled⟩
  case kept =>
    intro page inside index bound
    rw [second.kept page ⟨.inl inside.1, inside.2⟩ index bound, first.kept page inside index bound]
  case beside =>
    intro index bound out
    rw [second.beside index bound fun also => out (.inr also),
      first.beside index bound fun member => out (.inl member)]
  case sound =>
    rintro index (member | also)
    · exact limbs.sound index member
    · exact second.limbs.sound index also
  case acyclic =>
    rintro index (member | also)
    · exact limbs.acyclic index member
    · exact second.limbs.acyclic index also
  case apart =>
    rintro index (member | also) other (first' | second') distinct
    · exact limbs.apart index member other first' distinct
    · exact separate index member other second'
    · exact (separate other first' index also).symm
    · exact second.limbs.apart index also other second' distinct
  case under =>
    rintro index (member | also)
    · exact (under index member).trans Set.subset_union_left
    · exact (second.under index also).trans Set.subset_union_right
  case copied =>
    rintro path narrow (member | also)
    · rw [(below _ member).find_slot (here _ member) narrow, first.copied path narrow member]
    · rw [second.copied path narrow also,
        (ready.mono Set.subset_union_right).find_eq first.kept narrow also]
  case filled =>
    rintro index (member | also) some
    · rw [here index member]
      exact first.filled index member some
    · refine second.filled index also ?_
      rwa [first.kept source ready.source_within index (ready.bound index (.inr also))]

/-- A slot that reaches no table is copied by writing it. -/
theorem Copied.write {index : Nat} (slot : Slot ι α) (here : later copy index = slot)
    (original : store source index = slot)
    (reaches : ∀ tables : ι → Set ι, slot.under tables = ∅)
    (sound : ∀ below : ι → Prop, slot.Sound below)
    (kept : Agree width (pages \ {copy}) store later)
    (beside : ∀ other < width, other ≠ index → later copy other = store copy other) :
    Copied width {index} pages ∅ height source copy store later := by
  refine ⟨kept, beside, ⟨?_, ?_, ?_⟩, ?_, ?_, ?_⟩
  · rintro other rfl
    rw [here]
    exact sound _
  · rintro other rfl
    rw [here, reaches]
    exact Set.notMem_empty copy
  · rintro first rfl second rfl distinct
    exact absurd rfl distinct
  · rintro other rfl
    rw [here, reaches]
  · intro path narrow same
    rw [find, find, Set.mem_singleton_iff.mp same, here, original]
    cases slot with
    | empty => rfl
    | leaf value => rfl
    | bad => rfl
    | branch child =>
      have none : (Set.univ : Set ι) = ∅ := reaches fun _ => Set.univ
      exact (none ▸ Set.mem_univ child : child ∈ (∅ : Set ι)).elim
  · rintro other rfl some
    rwa [here, ← original]

/-- A branch is copied by copying all slots of its child into a fresh table. -/
theorem Copied.attach {index : Nat} {old new : ι} {middle : Store ι α}
    (below : Copied width (Set.Iio width) (insert new pages) fresh height old new middle later)
    (ready : Copyable store width {index} pages (height + 1) source copy)
    (original : store source index = .branch old) (attached : middle copy index = .branch new)
    (outside : new ∉ pages) (unused : Disjoint fresh (insert new pages))
    (kept : Agree width (pages \ {copy}) store middle)
    (beside : ∀ other < width, other ≠ index → middle copy other = store copy other) :
    Copied width {index} pages (insert new fresh) (height + 1) source copy store later := by
  have bound : index < width := ready.bound index rfl
  have different : copy ≠ new := fun same => outside (same ▸ ready.copyUsed)
  have same : ∀ other < width, later copy other = middle copy other :=
    below.kept copy ⟨.inr ready.copyUsed, different⟩
  have slot : later copy index = .branch new := by rw [same index bound, attached]
  have reached : tables later width (height + 1) new ⊆ insert new fresh := by
    rintro page (self | ⟨next, small, inside⟩)
    · exact .inl self
    · exact .inr (below.under next small inside)
  refine ⟨fun page inside other small => ?_, fun other small apart => ?_, ⟨?_, ?_, ?_⟩, ?_, ?_, ?_⟩
  · have far : page ≠ new := fun clash => outside (clash ▸ inside.1)
    rw [below.kept page ⟨.inr inside.1, far⟩ other small, kept page inside other small]
  · rw [same other small, beside other small apart]
  · rintro other rfl
    rw [slot]
    exact below.limbs
  · rintro other rfl inside
    rw [slot] at inside
    rcases reached inside with clash | taken
    · exact different clash
    · exact Set.disjoint_left.mp unused taken (.inr ready.copyUsed)
  · rintro first rfl second rfl distinct
    exact absurd rfl distinct
  · rintro other rfl
    rw [slot]
    exact reached
  · intro path narrow here
    have first := Set.mem_singleton_iff.mp here
    have within := ready.within rfl
    rw [original, Slot.under_branch] at within
    have after : find later path (height + 2) copy = find later path (height + 1) new :=
      find_branch (by rw [first, slot])
    have before : find store path (height + 2) source = find store path (height + 1) old :=
      find_branch (by rw [first, original])
    rw [after, below.copied path narrow (narrow _), before]
    exact (kept.mono within).find_eq narrow
  · rintro other rfl _ empty
    rw [slot] at empty
    cases empty

end Copies

end Radix
