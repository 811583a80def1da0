import Lsd.Lib.Transition
import Lsd.Verif.Cloning
import Lsd.Verif.Unmapping

/-!
# A cloned table range is independent

Two roots whose trees share no table do not see each other's changes: a call of
`map` or `unmap` through one of them keeps the trees apart and leaves every walk
through the other as it was. `clone_table_range` makes two such roots that agree
on the range.
-/

namespace Lsd

open Program Radix Transition

/-- A call of `map` or `unmap`. -/
inductive TableCall where
  /-- `map`. -/
  | map (virt : VirtualAddress) (phys : PhysicalAddress) (target : PageLevel) (flags : PageFlags)
  /-- `unmap`. -/
  | unmap (virt : VirtualAddress) (target : PageLevel)

namespace TableCall

/-- The address that a call is about. -/
def virt : TableCall → VirtualAddress
  | .map virt _ _ _ => virt
  | .unmap virt _ => virt

/-- The level of the page that a call is about. -/
def target : TableCall → PageLevel
  | .map _ _ target _ => target
  | .unmap _ target => target

/-- The call through a root table. -/
def run (hhdm root : UInt64) (level : PageLevel) : TableCall → Kernel Pmm Unit
  | .map virt phys target flags => Lsd.map hhdm root virt phys level target flags
  | .unmap virt target => do
    let _ ← Lsd.unmap hhdm root virt level target
    pure ()

/-- What a caller promises: a level of the tree, and for `map` flags of a leaf. -/
def Valid (level : PageLevel) (call : TableCall) : Prop :=
  (1 ≤ call.target.asUsize ∧ call.target.asUsize ≤ level.asUsize) ∧
    match call with
    | .map _ _ _ flags => flags.Maps
    | .unmap _ _ => True

end TableCall

/-- Two root tables, each with some entries in use, whose trees share no table. -/
structure TwoTrees (hhdm : UInt64) (memory : Memory) (height : Nat) (first : Set Nat) (src : UInt64)
    (second : Set Nat) (dest : UInt64) : Prop where
  /-- The first root is a page. -/
  srcAligned : src % 4096 = 0
  /-- So is the second root. -/
  destAligned : dest % 4096 = 0
  /-- The entries of the first root lead to trees. -/
  left : PageLimbs hhdm memory first height src
  /-- So do the entries of the second root. -/
  right : PageLimbs hhdm memory second height dest
  /-- No table is reached from both. -/
  apart : Disjoint (footprint (slots hhdm memory) 512 first height src)
    (footprint (slots hhdm memory) 512 second height dest)

/-- The tables of both trees. -/
def bothTrees (hhdm : UInt64) (memory : Memory) (height : Nat) (first : Set Nat) (src : UInt64)
    (second : Set Nat) (dest : UInt64) : Set UInt64 :=
  footprint (slots hhdm memory) 512 first height src ∪
    footprint (slots hhdm memory) 512 second height dest

section Separate

variable {hhdm src dest : UInt64} {height : Nat} {first second : Set Nat} {level : PageLevel}

/-- The roots can be named in either order. -/
theorem TwoTrees.symm {memory : Memory}
    (trees : TwoTrees hhdm memory height first src second dest) :
    TwoTrees hhdm memory height second dest first src :=
  ⟨trees.destAligned, trees.srcAligned, trees.right, trees.left, trees.apart.symm⟩

/-- Walks through the second root end. -/
theorem TwoTrees.translate_right {s : Pmm} {other : VirtualAddress}
    (trees : TwoTrees hhdm s.memory height first src second dest)
    (at_height : level.asUsize = height + 1) (inside : other.path (height + 1) ∈ second) :
    translate hhdm level dest s other =
      .ok (resultOf other (leafOf hhdm s.memory (height + 1) dest other)) := by
  rw [translate_limb at_height (trees.right.sound _ inside), at_height]

/-- The tables of both trees are pages. -/
theorem TwoTrees.pagesAligned {memory : Memory} (mapAligned : hhdm % 4096 = 0)
    (trees : TwoTrees hhdm memory height first src second dest) :
    ∀ page ∈ bothTrees hhdm memory height first src second dest, page % 4096 = 0 := by
  rintro page ((same | ⟨index, -, inside⟩) | (same | ⟨index, -, inside⟩))
  · exact same ▸ trees.srcAligned
  · exact reached_aligned mapAligned inside
  · exact same ▸ trees.destAligned
  · exact reached_aligned mapAligned inside

/-- An edit through the first root keeps the trees apart, and every walk through the second. -/
theorem TwoTrees.edit {old new : Memory} {virt : VirtualAddress} {target : PageLevel}
    {content : Option (Nat × PageEntry)} {fresh : Set UInt64}
    (trees : TwoTrees hhdm old height first src second dest)
    (firstBound : ∀ index ∈ first, index < 512) (secondBound : ∀ index ∈ second, index < 512)
    (here : virt.path (height + 1) ∈ first)
    (unused : Disjoint fresh (bothTrees hhdm old height first src second dest))
    (edits : Edits hhdm virt target content (bothTrees hhdm old height first src second dest) fresh
      height src old new) :
    TwoTrees hhdm new height first src second dest ∧
      ∀ other : VirtualAddress, other.path (height + 1) ∈ second →
        leafOf hhdm new (height + 1) dest other = leafOf hhdm old (height + 1) dest other := by
  have below : ∀ index ∈ first, reached hhdm old height src index ⊆
      bothTrees hhdm old height first src second dest :=
    fun index member page inside => .inl (.inr ⟨index, member, inside⟩)
  -- nothing that the second root reaches is edited
  have agree : Agree 512 (footprint (slots hhdm old) 512 second height dest) (slots hhdm old)
      (slots hhdm new) := by
    refine edits.elsewhere.mono fun page inside => ⟨.inr inside, fun edited => ?_⟩
    refine Set.disjoint_left.mp trees.apart ?_ inside
    exact edited.imp id fun reached => ⟨_, here, reached⟩
  obtain ⟨right, same, walks⟩ := agree.limbs secondBound trees.right
  refine ⟨⟨trees.srcAligned, trees.destAligned,
    edits.limbs trees.left firstBound here below (.inl (.inl rfl)) unused, right, ?_⟩,
    fun other inside => walks _ other.path_lt inside⟩
  rw [same]
  refine (Disjoint.union_left trees.apart (unused.mono_right Set.subset_union_right)).mono_left ?_
  exact edits.footprint_subset trees.left firstBound here Set.subset_union_left

/-- A call through the first root keeps the trees apart, and every walk through the second. -/
theorem TwoTrees.call {s s' : Pmm} {call : TableCall} {result : Except Stop Unit}
    (mapAligned : hhdm % 4096 = 0) (at_height : level.asUsize = height + 1)
    (trees : TwoTrees hhdm s.memory height first src second dest)
    (firstBound : ∀ index ∈ first, index < 512) (secondBound : ∀ index ∈ second, index < 512)
    (valid : call.Valid level) (here : call.virt.path (height + 1) ∈ first)
    (supplied : Supplies hhdm (height + 1 - call.target.asUsize)
      (bothTrees hhdm s.memory height first src second dest) s)
    (ran : (call.run hhdm src level).run s = (result, s')) :
    TwoTrees hhdm s'.memory height first src second dest ∧
      ∀ other : VirtualAddress, other.path (height + 1) ∈ second →
        leafOf hhdm s'.memory (height + 1) dest other =
          leafOf hhdm s.memory (height + 1) dest other := by
  have enough : height < walkLimit := by
    have := level.asUsize_le
    rw [walkLimit]
    omega
  have pagesAligned := trees.pagesAligned mapAligned
  have limbs := trees.left.mono (Set.singleton_subset_iff.mpr here)
  have member : src ∈ bothTrees hhdm s.memory height first src second dest := .inl (.inl rfl)
  have inUse : reached hhdm s.memory height src (call.virt.path (height + 1)) ⊆
      bothTrees hhdm s.memory height first src second dest :=
    fun page inside => .inl (.inr ⟨_, here, inside⟩)
  obtain ⟨⟨positive, reach⟩, maps⟩ := valid
  rw [at_height] at reach
  cases call with
  | map virt phys target flags =>
    by_cases covered : Covered hhdm s.memory (height + 1) src virt target
    · obtain ⟨message, stopped⟩ := mapLoop_covered at_height enough (limbs.sound _ rfl) covered
      obtain ⟨-, rfl⟩ := Prod.mk.inj (stopped.symm.trans ran)
      exact ⟨trees, fun _ _ => rfl⟩
    · obtain ⟨_, fresh, done, unused, edits⟩ := mapLoop_edits phys mapAligned maps positive
        at_height enough reach limbs pagesAligned member inUse supplied covered
      obtain ⟨-, rfl⟩ := Prod.mk.inj (done.symm.trans ran)
      exact trees.edit firstBound secondBound here unused edits
  | unmap virt target =>
    by_cases found : ∃ entry, leafOf hhdm s.memory (height + 1) src virt =
        some (target.asUsize, entry)
    · obtain ⟨entry, found⟩ := found
      obtain ⟨_, done, unmapped⟩ :=
        unmapLoop_edits positive at_height enough reach limbs pagesAligned
        member inUse found
      obtain ⟨-, rfl⟩ := Prod.mk.inj ((Prog.run_bind_ok done).symm.trans ran)
      exact trees.edit firstBound secondBound here (Set.empty_disjoint _) unmapped.edits
    · obtain ⟨message, stopped⟩ := unmapLoop_refused at_height enough (limbs.sound _ rfl)
        fun entry same => found ⟨entry, same⟩
      obtain ⟨-, rfl⟩ := Prod.mk.inj ((Prog.run_bind_stop stopped).symm.trans ran)
      exact ⟨trees, fun _ _ => rfl⟩

/-- Every call of a run through the first root is valid, on an address of its range, with frames
outside both trees. -/
def TableCall.Through (hhdm : UInt64) (level : PageLevel) (first : Set Nat) (src : UInt64)
    (second : Set Nat) (dest : UInt64) (range : Set Nat) (s : Pmm) (call : TableCall) (s' : Pmm) :
    Prop :=
  call.Valid level ∧ (call.virt.index level).toNat ∈ range ∧
    Supplies hhdm (level.asUsize - call.target.asUsize)
      (bothTrees hhdm s.memory (level.asUsize - 1) first src second dest) s ∧
    ∃ result, (call.run hhdm src level).run s = (result, s')

/-- A run of calls through the first root keeps the trees apart, and every walk through the
second. -/
theorem TwoTrees.run {s s' : Pmm} {labels : List TableCall} {range : Set Nat}
    (mapAligned : hhdm % 4096 = 0) (at_height : level.asUsize = height + 1)
    (trees : TwoTrees hhdm s.memory height first src second dest)
    (firstBound : ∀ index ∈ first, index < 512) (secondBound : ∀ index ∈ second, index < 512)
    (within : range ⊆ first)
    (run : Run (TableCall.Through hhdm level first src second dest range) s labels s') :
    TwoTrees hhdm s'.memory height first src second dest ∧
      ∀ other : VirtualAddress, other.path (height + 1) ∈ second →
        leafOf hhdm s'.memory (height + 1) dest other =
          leafOf hhdm s.memory (height + 1) dest other := by
  induction run with
  | nil => exact ⟨trees, fun _ _ => rfl⟩
  | snoc _ step ih =>
    obtain ⟨valid, inside, supplied, result, ran⟩ := step
    obtain ⟨middle, walks⟩ := ih
    rw [VirtualAddress.toNat_index _ at_height] at inside
    rw [at_height] at supplied
    obtain ⟨later, same⟩ := middle.call mapAligned at_height firstBound secondBound valid
      (within inside) supplied ran
    exact ⟨later, fun other also => (same other also).trans (walks other also)⟩

end Separate

section Clone

variable {hhdm src dest : UInt64} {level : PageLevel} {s : Pmm}

/-- A clone of a range of a tree. Both roots go to the same places in the range; no table of the
source has changed, nor any entry of the destination outside the range; the two share no table. So
later calls through one root never change where an address of the range goes through the other. -/
theorem clone_independent (start stop : Nat) (mapAligned : hhdm % 4096 = 0)
    (positive : 1 ≤ level.asUsize)
    (tree : PageTree hhdm s.memory level.asUsize src) (destAligned : dest % 4096 = 0)
    (outside : dest ∉ tables (slots hhdm s.memory) 512 level.asUsize src) (within : stop ≤ 512)
    (supplied : Supplies hhdm (branches (slots hhdm s.memory) 512 level.asUsize src
        (List.range' start (stop - start)))
      (insert dest (tables (slots hhdm s.memory) 512 level.asUsize src)) s) :
    ∃ s', (cloneTableRange hhdm src dest start stop).run s = (.ok (), s') ∧
      (∀ virt : VirtualAddress, (virt.index level).toNat ∈ Set.Ico start stop →
        translate hhdm level dest s' virt = translate hhdm level src s' virt) ∧
      Kept (tables (slots hhdm s.memory) 512 level.asUsize src) s.memory s'.memory ∧
      (∀ index < 512, index ∉ Set.Ico start stop →
        s'.memory (wordOf dest index) = s.memory (wordOf dest index)) ∧
      Disjoint (tables (slots hhdm s'.memory) 512 level.asUsize src)
        (footprint (slots hhdm s'.memory) 512 (Set.Ico start stop) (level.asUsize - 1) dest) ∧
      (∀ labels last, Run (TableCall.Through hhdm level (Set.Iio 512) src (Set.Ico start stop) dest
          (Set.Ico start stop)) s' labels last →
        ∀ virt : VirtualAddress, (virt.index level).toNat ∈ Set.Ico start stop →
          translate hhdm level dest last virt = translate hhdm level dest s' virt) ∧
      (∀ labels last, Run (TableCall.Through hhdm level (Set.Ico start stop) dest (Set.Iio 512) src
          (Set.Ico start stop)) s' labels last →
        ∀ virt : VirtualAddress, translate hhdm level src last virt =
          translate hhdm level src s' virt) := by
  obtain ⟨height, at_height⟩ : ∃ height, level.asUsize = height + 1 :=
    ⟨level.asUsize - 1, by omega⟩
  have whole := tree.tree
  rw [at_height] at whole supplied outside
  have small : ∀ index ∈ Set.Ico start stop, index < 512 := fun index inside =>
    inside.2.trans_le within
  have all : ∀ index ∈ Set.Iio 512, index < 512 := fun _ bound => bound
  have range : {index | index ∈ List.range' start (stop - start)} = Set.Ico start stop := by
    ext index
    rw [Set.mem_ofPred_eq, List.mem_range'_1, Set.mem_Ico]
    omega
  -- the call itself
  have ready : Copyable (slots hhdm s.memory) 512 (Set.Ico start stop)
      (insert dest (tables (slots hhdm s.memory) 512 (height + 1) src)) height src dest := by
    refine ⟨Limbs.mono whole small, small, .inr mem_tables_self, .inl rfl, ?_,
      fun index inside => (under_subset (small index inside)).trans (Set.subset_insert _ _),
      fun index inside reached => outside (under_subset (small index inside) reached)⟩
    exact fun same => outside (same ▸ mem_tables_self)
  have deep : height ≤ walkLimit := by
    have := level.asUsize_le
    rw [walkLimit]
    omega
  have pagesAligned : ∀ page ∈ insert dest (tables (slots hhdm s.memory) 512 (height + 1) src),
      page % 4096 = 0 :=
    Set.forall_mem_insert.mpr ⟨destAligned, fun page => tables_aligned mapAligned tree.aligned⟩
  obtain ⟨s', fresh, ran, cloned⟩ := cloneIndices_clones (supplies_source hhdm) mapAligned deep
    List.nodup_range' s _ 0 pagesAligned (range.symm ▸ ready) supplied
  have copied := cloned.copied
  rw [range] at copied
  have kept : Kept (tables (slots hhdm s.memory) 512 (height + 1) src) s.memory s'.memory :=
    cloned.kept.mono fun page inside => ⟨.inr inside, fun same => outside (same ▸ inside)⟩
  -- the two trees that it leaves
  have left : PageTree hhdm s'.memory level.asUsize src := by
    refine ⟨tree.aligned, ?_⟩
    rw [at_height]
    exact kept.agree.tree whole
  have trees : TwoTrees hhdm s'.memory height (Set.Iio 512) src (Set.Ico start stop) dest := by
    have later := left.tree
    rw [at_height] at later
    refine ⟨tree.aligned, destAligned, later, copied.limbs, ?_⟩
    have same : footprint (slots hhdm s'.memory) 512 (Set.Iio 512) height src =
        tables (slots hhdm s.memory) 512 (height + 1) src := kept.agree.tables_eq
    rw [same]
    refine Set.disjoint_left.mpr fun page inside other => ?_
    rcases other with clash | ⟨index, member, reached⟩
    · exact outside (clash ▸ inside)
    · exact Set.disjoint_left.mp cloned.unused (copied.under index member reached) (.inr inside)
  refine ⟨s', ran, fun virt inside => ?_, at_height ▸ kept, fun index bound out => ?_, ?_,
    fun labels last run virt inside => ?_, fun labels last run virt => ?_⟩
  · rw [VirtualAddress.toNat_index _ at_height] at inside
    rw [trees.translate_right at_height inside,
      trees.symm.translate_right at_height (virt.path_lt _)]
    have source : leafOf hhdm s'.memory (height + 1) src virt =
        leafOf hhdm s.memory (height + 1) src virt := kept.agree.find_eq virt.path_lt
    rw [source, leafOf, copied.copied _ virt.path_lt inside, leafOf]
  · refine cloned.beside index bound fun listed => out ?_
    rw [← range]
    exact listed
  · rw [at_height]
    exact trees.apart
  · rw [VirtualAddress.toNat_index _ at_height] at inside
    obtain ⟨later, walks⟩ := trees.run mapAligned at_height all small small run
    rw [later.translate_right at_height inside, trees.translate_right at_height inside,
      walks virt inside]
  · obtain ⟨later, walks⟩ := trees.symm.run mapAligned at_height small all subset_rfl run
    rw [later.translate_right at_height (virt.path_lt _),
      trees.symm.translate_right at_height (virt.path_lt _), walks virt (virt.path_lt _)]

end Clone

section Shapes

variable {ι α : Type} {store : Store ι α} {width height : Nat} {table child : ι}

/-- A table without branches is a tree that reaches itself only. -/
theorem plain_tree (plain : ∀ index < width, ∀ child, store table index ≠ .branch child)
    (whole : ∀ index < width, store table index ≠ .bad) :
    Tree store width (height + 1) table ∧ tables store width (height + 1) table = {table} := by
  have nothing : ∀ index < width, (store table index).under (tables store width height) = ∅ := by
    intro index bound
    cases slot : store table index with
    | branch child => exact absurd slot (plain index bound child)
    | bad => exact absurd slot (whole index bound)
    | leaf value => rfl
    | empty => rfl
  constructor
  · constructor
    case sound =>
      intro index bound
      cases slot : store table index with
      | branch child => exact absurd slot (plain index bound child)
      | bad => exact absurd slot (whole index bound)
      | leaf value => trivial
      | empty => trivial
    case acyclic =>
      intro index bound
      rw [nothing index bound]
      exact Set.notMem_empty _
    case apart =>
      intro index bound other _ _
      rw [nothing index bound]
      exact Set.empty_disjoint _
  · ext page
    constructor
    · rintro (same | ⟨index, bound, reached⟩)
      · exact same
      · rw [nothing index bound] at reached
        exact reached.elim
    · exact .inl

/-- A table with one branch, to a tree that does not lead back, and no other slot in use is a
tree. -/
theorem single_tree {index : Nat} (bound : index < width)
    (branch : store table index = .branch child)
    (others : ∀ other < width, other ≠ index → store table other = .empty)
    (tree : Tree store width (height + 1) child)
    (out : table ∉ tables store width (height + 1) child) :
    Tree store width (height + 2) table ∧
      tables store width (height + 2) table =
        insert table (tables store width (height + 1) child) := by
  have below : (store table index).under (tables store width (height + 1)) =
      tables store width (height + 1) child := by
    rw [branch]
    rfl
  have nothing : ∀ other < width, other ≠ index →
      (store table other).under (tables store width (height + 1)) = ∅ := by
    intro other small apart
    rw [others other small apart]
    rfl
  constructor
  · constructor
    case sound =>
      intro other small
      by_cases same : other = index
      · rw [same, branch]
        exact tree
      · rw [others other small same]
        trivial
    case acyclic =>
      intro other small
      by_cases same : other = index
      · rwa [same, below]
      · rw [nothing other small same]
        exact Set.notMem_empty _
    case apart =>
      intro first small second small' distinct
      by_cases same : first = index
      · rw [nothing second small' fun also => distinct (same.trans also.symm)]
        exact Set.disjoint_empty _
      · rw [nothing first small same]
        exact Set.empty_disjoint _
  · ext page
    constructor
    · rintro (same | ⟨other, small, reached⟩)
      · exact .inl same
      · by_cases same : other = index
        · rw [same, below] at reached
          exact .inr reached
        · rw [nothing other small same] at reached
          exact reached.elim
    · rintro (same | reached)
      · exact .inl same
      · exact .inr ⟨index, bound, below.symm ▸ reached⟩

end Shapes

section Sample

open FreeList (sampleMap sampleFrame pair)

/-- A page of the sample map that is the lower table of the sample tree. -/
def lowerPage : UInt64 := samplePage + 0x2000

/-- The entry of a branch to it. -/
def lowerBranch : PageEntry := (PageEntry.setPpn 0 ((lowerPage - sampleMap) >>> 12)).setValid true

/-- A root table whose last entry leads to a table whose last entry is a leaf. -/
def sampleTree : Pmm :=
  { pair with
    memory := (pair.memory.store (wordOf samplePage 511) lowerBranch).store (wordOf lowerPage 511)
      (leafEntry 0x600000 .read) }

/-- The last entry of the root leads to the lower table. -/
theorem sampleTree_branch : slots sampleMap sampleTree.memory samplePage 511 =
    .branch lowerPage := by
  have other : slots sampleMap sampleTree.memory samplePage 511 =
      slots sampleMap (pair.memory.store (wordOf samplePage 511) lowerBranch) samplePage 511 :=
    slots_store_ne (by decide) (by decide) (by decide) (by decide) (.inl (by decide))
  have leads : PageEntry.table sampleMap lowerBranch = lowerPage := by decide
  rw [other, slots_store, slot_branch (by decide), leads]

/-- The last entry of the lower table is a leaf. -/
theorem sampleTree_leaf :
    slots sampleMap sampleTree.memory lowerPage 511 = .leaf (leafEntry 0x600000 .read) := by
  have maps : PageFlags.read.Maps := rfl
  exact slots_store.trans (slot_leaf (isLeaf_leafEntry _ maps))

/-- The other entries are empty. -/
theorem sampleTree_empty {page : UInt64} {index : Nat}
    (either : page = samplePage ∨ page = lowerPage)
    (bound : index < 512) (other : index ≠ 511) :
    slots sampleMap sampleTree.memory page index = .empty := by
  have aligned : page % 4096 = 0 := by rcases either with rfl | rfl <;> decide
  have out : page ∉ [sampleFrame, sampleFrame + 4096] := by rcases either with rfl | rfl <;> decide
  have lower : slots sampleMap sampleTree.memory page index =
      slots sampleMap (pair.memory.store (wordOf samplePage 511) lowerBranch) page index :=
    slots_store_ne (by decide) aligned (by decide) bound (.inr other)
  have upper : slots sampleMap (pair.memory.store (wordOf samplePage 511) lowerBranch) page index =
      slots sampleMap pair.memory page index :=
    slots_store_ne (by decide) aligned (by decide) bound (.inr other)
  rw [lower, upper, slots, pair_zeroed aligned bound out, slot_zero]

/-- The sample tree has its two tables. -/
theorem sampleTree_tree : Tree (slots sampleMap sampleTree.memory) 512 3 samplePage ∧
    tables (slots sampleMap sampleTree.memory) 512 3 samplePage = {samplePage, lowerPage} := by
  obtain ⟨below, alone⟩ : Tree (slots sampleMap sampleTree.memory) 512 2 lowerPage ∧
      tables (slots sampleMap sampleTree.memory) 512 2 lowerPage = {lowerPage} := by
    apply plain_tree
    · intro index bound child
      by_cases last : index = 511
      · rw [last, sampleTree_leaf]
        simp
      · rw [sampleTree_empty (.inr rfl) bound last]
        simp
    · intro index bound
      by_cases last : index = 511
      · rw [last, sampleTree_leaf]
        simp
      · rw [sampleTree_empty (.inr rfl) bound last]
        simp
  have out : samplePage ∉ tables (slots sampleMap sampleTree.memory) 512 2 lowerPage := by
    rw [alone, Set.mem_singleton_iff]
    decide
  obtain ⟨tree, whole⟩ := single_tree (by decide) sampleTree_branch
    (fun other bound apart => sampleTree_empty (.inl rfl) bound apart) below out
  exact ⟨tree, whole.trans (by rw [alone])⟩

/-- A clone of the last entry of the sample tree needs one table. -/
theorem sampleTree_branches :
    branches (slots sampleMap sampleTree.memory) 512 3 samplePage [511] = 1 := by
  have below : branches (slots sampleMap sampleTree.memory) 512 2 lowerPage
      (List.range 512) = 0 := by
    refine List.sum_eq_zero fun count counted => ?_
    obtain ⟨index, inside, rfl⟩ := List.mem_map.mp counted
    by_cases last : index = 511
    · rw [last, sampleTree_leaf]
      rfl
    · rw [sampleTree_empty (.inr rfl) (List.mem_range.mp inside) last]
      rfl
  rw [branches, List.map_singleton, List.sum_singleton, sampleTree_branch, Slot.count, below]

/-- The list of the sample supplies a table outside the tree and the second root. -/
theorem sampleTree_supplies :
    Supplies sampleMap 1 {samplePage + 4096, samplePage, lowerPage} sampleTree := by
  have aligned : ∀ page ∈ ({samplePage + 4096, samplePage, lowerPage} : Set UInt64),
      page % 4096 = 0 := by
    rintro page (rfl | rfl | rfl) <;> decide
  have frames : ∀ node ∈ [sampleFrame, sampleFrame + 4096],
      sampleMap ≤ node ∧ (node - sampleMap).toNat < 2 ^ 56 := by
    intro node member
    rcases List.mem_pair.mp member with rfl | rfl <;> decide
  have apart : ∀ node ∈ [sampleFrame, sampleFrame + 4096],
      node ∉ ({samplePage + 4096, samplePage, lowerPage} : Set UInt64) := by
    intro node member
    simp only [Set.mem_insert_iff, Set.mem_singleton_iff, not_or]
    rcases List.mem_pair.mp member with rfl | rfl <;> decide
  have supplied : Supplies sampleMap 1 {samplePage + 4096, samplePage, lowerPage} pair :=
    supplies_of_holds FreeList.pair_holds (by decide) aligned apart frames
  have upper : ChangedWithin ({samplePage + 4096, samplePage, lowerPage} : Set UInt64) pair.memory
      (pair.memory.store (wordOf samplePage 511) lowerBranch) :=
    ChangedWithin.store _ (.inr (.inl rfl)) (by decide) _
  exact (supplied.write upper).write (ChangedWithin.store _ (.inr (.inr rfl)) (by decide) _)

/-- The last entry of the sample tree is cloned, with its table. When a page of a gigabyte is then
mapped over it through the clone, the source still translates as before. -/
theorem clone_independent_sample :
    ∃ s last, (cloneTableRange sampleMap samplePage (samplePage + 4096) 511 512).run sampleTree =
        (.ok (), s) ∧
      translate sampleMap .level3 (samplePage + 4096) s 0xffffffffffe00123 =
        translate sampleMap .level3 samplePage s 0xffffffffffe00123 ∧
      (map sampleMap (samplePage + 4096) 0xffffffffc0000000 0x40000000 .level3
        .level3 .read).run s =
        (.ok (), last) ∧
      translate sampleMap .level3 samplePage last 0xffffffffffe00123 =
        translate sampleMap .level3 samplePage s 0xffffffffffe00123 := by
  obtain ⟨tree, whole⟩ := sampleTree_tree
  have source : PageTree sampleMap sampleTree.memory PageLevel.level3.asUsize samplePage :=
    ⟨by decide, tree⟩
  have outside : samplePage + 4096 ∉ tables (slots sampleMap sampleTree.memory) 512
      PageLevel.level3.asUsize samplePage := by
    change samplePage + 4096 ∉ tables (slots sampleMap sampleTree.memory) 512 3 samplePage
    rw [whole, Set.mem_insert_iff, Set.mem_singleton_iff]
    decide
  have supplied : Supplies sampleMap (branches (slots sampleMap sampleTree.memory) 512
      PageLevel.level3.asUsize samplePage (List.range' 511 (512 - 511)))
      (insert (samplePage + 4096) (tables (slots sampleMap sampleTree.memory) 512
        PageLevel.level3.asUsize samplePage)) sampleTree := by
    change Supplies sampleMap (branches (slots sampleMap sampleTree.memory) 512 3 samplePage [511])
      (insert (samplePage + 4096) (tables (slots sampleMap sampleTree.memory) 512 3 samplePage)) _
    rw [sampleTree_branches, whole]
    exact sampleTree_supplies
  obtain ⟨s, ran, same, -, -, -, -, through⟩ := clone_independent (s := sampleTree) 511 512
    (by decide) (by decide) source (by decide) outside (Nat.le_refl 512) supplied
  have member : (511 : Nat) ∈ Set.Ico 511 512 := ⟨Nat.le_refl _, Nat.lt_succ_self _⟩
  have top : (VirtualAddress.index 0xffffffffffe00123 .level3).toNat = 511 := rfl
  have inside : (VirtualAddress.index 0xffffffffc0000000 .level3).toNat = 511 := rfl
  let call : TableCall := .map 0xffffffffc0000000 0x40000000 .level3 .read
  have maps : PageFlags.read.Maps := rfl
  have valid : call.Valid .level3 := ⟨⟨by decide, by decide⟩, maps⟩
  obtain ⟨last, mapped⟩ : ∃ last, (map sampleMap (samplePage + 4096) 0xffffffffc0000000 0x40000000
      .level3 .level3 .read).run s = (.ok (), last) := ⟨_, mapLoop_target rfl rfl⟩
  have step : TableCall.Through sampleMap .level3 (Set.Ico 511 512)
    (samplePage + 4096) (Set.Iio 512)
      samplePage (Set.Ico 511 512) s call last := ⟨valid, inside.symm ▸ member, .zero, _, mapped⟩
  exact ⟨s, last, ran, same _ (top.symm ▸ member), mapped,
    through [call] last (.snoc (.nil s) step) _⟩

/-- The root of the sample holds no entry: a tree of its own, from which the second root is not
reached. A page without `READ`, `WRITE` and `EXECUTE` that is mapped through the clone at the place
of the source root is a branch to it, and the next page is written into the source. -/
theorem clone_shared_by_branch :
    PageTree sampleMap pair.memory 3 samplePage ∧
      samplePage + 4096 ∉ tables (slots sampleMap pair.memory) 512 3 samplePage ∧
      pair.Holds [sampleFrame, sampleFrame + 4096] ∧
      ∃ s s₁ s₂, (cloneTableRange sampleMap samplePage (samplePage + 4096) 511 512).run pair =
          (.ok (), s) ∧
        (map sampleMap (samplePage + 4096) 0xffffffffc0000000
          (samplePage - sampleMap) .level3 .level2
          noFlags).run s = (.ok (), s₁) ∧
        (map sampleMap (samplePage + 4096) 0xffffffffc01ff000 0x600000 .level3
          .level1 .read).run s₁ =
          (.ok (), s₂) ∧
        translate sampleMap .level3 samplePage s 0xffffffffc0000123 =
          .ok (.error "Table not found") ∧
        translate sampleMap .level3 samplePage s₂ 0xffffffffc0000123 = .ok (.ok 0x123) := by
  obtain ⟨tree, alone, -⟩ := pair_tree
  refine ⟨tree, ?_, FreeList.pair_holds, _, _, _, rfl, rfl, rfl, rfl, rfl⟩
  rw [alone, Set.mem_singleton_iff]
  decide

end Sample

end Lsd
