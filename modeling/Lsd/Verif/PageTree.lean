import Lsd.Lib.Radix
import Lsd.Verif.EntryBits

/-!
# Page tables as radix trees

A page of memory is read as a table of a radix tree: an entry of zero is an empty
slot, a leaf holds itself, a branch refers to its table, and any other word is
bad. The walk of `virt_to_phys` is the walk of that tree along the level indices
of the address.
-/

namespace Lsd

open Program Radix

/-- What an entry stands for in a tree. -/
def PageEntry.slot (hhdm : UInt64) (entry : PageEntry) : Slot UInt64 PageEntry :=
  if entry = 0 then .empty
  else if entry.isLeaf then .leaf entry
  else if entry.isBranch then .branch (entry.table hhdm)
  else .bad

/-- Memory as a store of tables. -/
def slots (hhdm : UInt64) (memory : Memory) : Store UInt64 PageEntry := fun page index =>
  PageEntry.slot hhdm (memory (wordOf page index))

/-- A page-table tree with its root at a height: every valid entry is a leaf, or a branch above
height one; every other entry is zero; no table is reached twice. -/
structure PageTree (hhdm : UInt64) (memory : Memory) (height : Nat) (root : UInt64) : Prop where
  /-- The root is a page. -/
  aligned : root % 4096 = 0
  /-- Its tables form a tree. -/
  tree : Tree (slots hhdm memory) 512 height root

/-- Some entries of a table, with the trees that they lead to. -/
abbrev PageLimbs (hhdm : UInt64) (memory : Memory) (indices : Set Nat) (height : Nat)
    (table : UInt64) : Prop :=
  Limbs (slots hhdm memory) indices (Tree (slots hhdm memory) 512 height)
    (tables (slots hhdm memory) 512 height) table

/-- The tables that an entry leads to. -/
abbrev reached (hhdm : UInt64) (memory : Memory) (height : Nat) (table : UInt64) (index : Nat) :
    Set UInt64 :=
  (slots hhdm memory table index).under (tables (slots hhdm memory) 512 height)

/-- The number of bits of an address inside a page of a height. -/
def pageBits (height : Nat) : Nat := 12 + 9 * (height - 1)

/-- The index that an address takes at a height. -/
def VirtualAddress.path (virt : VirtualAddress) (height : Nat) : Nat :=
  virt.toNat / 2 ^ pageBits height % 512

/-- The leaf that an address comes to, with its height. -/
def leafOf (hhdm : UInt64) (memory : Memory) (height : Nat) (root : UInt64)
    (virt : VirtualAddress) : Option (Nat × PageEntry) :=
  find (slots hhdm memory) virt.path height root

/-- Whether a leaf above the target height already covers an address. -/
def Covered (hhdm : UInt64) (memory : Memory) (height : Nat) (root : UInt64)
    (virt : VirtualAddress) (target : PageLevel) : Prop :=
  ∃ high entry, leafOf hhdm memory height root virt = some (high, entry) ∧ target.asUsize < high

/-- What `virt_to_phys` returns for the leaf that an address came to. -/
def resultOf (virt : VirtualAddress) : Option (Nat × PageEntry) → Except String PhysicalAddress
  | some (height, entry) =>
    .ok ((entry.getPpn <<< 12) &&& ~~~(PageLevel.fromUsize height).mask |||
      virt &&& (PageLevel.fromUsize height).mask)
  | none => .error "Table not found"

section Levels

variable {level : PageLevel} {height : Nat}

/-- The height of a level is at most five. -/
theorem PageLevel.asUsize_le (level : PageLevel) : level.asUsize ≤ 5 := by
  cases level <;> decide

/-- A level is named by its height. -/
theorem PageLevel.fromUsize_asUsize (level : PageLevel) : .fromUsize level.asUsize = level := by
  cases level <;> rfl

/-- A height up to five names a level. -/
theorem PageLevel.asUsize_fromUsize {number : Nat} (short : number ≤ 5) :
    (PageLevel.fromUsize number).asUsize = number := by
  interval_cases number <;> rfl

/-- Levels with the same height are the same. -/
theorem PageLevel.asUsize_inj {other : PageLevel} (same : level.asUsize = other.asUsize) :
    level = other := by
  rw [← fromUsize_asUsize level, same, fromUsize_asUsize]

/-- Going below a level goes down by one. -/
theorem PageLevel.asUsize_below (at_height : level.asUsize = height + 1) :
    level.below.asUsize = height := by
  cases level <;> simp only [asUsize] at at_height <;>
    first
    | omega
    | (obtain rfl : height = _ := (Nat.succ_injective at_height).symm; rfl)

/-- The index of a level, as a number. -/
theorem VirtualAddress.toNat_index (virt : VirtualAddress)
    (at_height : level.asUsize = height + 1) :
    (virt.index level).toNat = virt.path (height + 1) := by
  rw [path, ← at_height]
  cases level with
  | pageOffset => simp [PageLevel.asUsize] at at_height
  | _ => exact toNat_getBits

/-- Indices stay inside a table. -/
theorem VirtualAddress.path_lt (virt : VirtualAddress) (height : Nat) : virt.path height < 512 :=
  Nat.mod_lt _ (by decide)

/-- The bounds check of a table passes. -/
theorem run_checkIndex {σ : Type} {length index : Nat} {s : σ} (bound : index < length) :
    (checkIndex length index).run s = (.ok (), s) := by
  rw [checkIndex, if_pos bound, Prog.run_pure]

/-- The mask of a level covers a page of that level. -/
theorem PageLevel.toNat_mask (at_height : level.asUsize = height + 1) :
    level.mask.toNat = 2 ^ pageBits (height + 1) - 1 := by
  rw [← at_height]
  cases level with
  | pageOffset => simp [asUsize] at at_height
  | _ => rfl

/-- The size of a page of a level. -/
theorem PageSize.toNat_bytes (at_height : level.asUsize = height + 1) :
    (PageSize.fromLevel level).bytes.toNat = 2 ^ pageBits (height + 1) := by
  rw [← at_height]
  cases level with
  | pageOffset => simp [PageLevel.asUsize] at at_height
  | _ => rfl

end Levels

section Slots

variable {hhdm : UInt64} {entry : PageEntry}

/-- Zero is an empty slot. -/
@[simp] theorem slot_zero : PageEntry.slot hhdm 0 = .empty := rfl

/-- A word that some flag is read from is not zero. -/
theorem ne_zero_of_valid (valid : entry.getValid = true) : entry ≠ 0 := by
  rintro rfl
  exact absurd valid (by decide)

/-- A leaf is valid. -/
theorem valid_of_isLeaf (leaf : entry.isLeaf = true) : entry.getValid = true := by
  rw [PageEntry.isLeaf, Bool.and_eq_true] at leaf
  exact leaf.1

/-- A branch is valid. -/
theorem valid_of_isBranch (branch : entry.isBranch = true) : entry.getValid = true := by
  rw [PageEntry.isBranch, Bool.and_eq_true] at branch
  exact branch.1

/-- No entry is a branch and a leaf. -/
theorem isLeaf_eq_false_of_isBranch (branch : entry.isBranch = true) : entry.isLeaf = false := by
  simp only [PageEntry.isBranch, Bool.and_eq_true, Bool.not_eq_true'] at branch
  simp [PageEntry.isLeaf, branch]

/-- No entry is a leaf and a branch. -/
theorem isBranch_eq_false_of_isLeaf (leaf : entry.isLeaf = true) : entry.isBranch = false := by
  by_contra branch
  rw [Bool.not_eq_false] at branch
  rw [isLeaf_eq_false_of_isBranch branch] at leaf
  contradiction

/-- The slot of a leaf. -/
theorem slot_leaf (leaf : entry.isLeaf = true) : PageEntry.slot hhdm entry = .leaf entry := by
  rw [PageEntry.slot, if_neg (ne_zero_of_valid (valid_of_isLeaf leaf)), if_pos leaf]

/-- The slot of a branch. -/
theorem slot_branch (branch : entry.isBranch = true) :
    PageEntry.slot hhdm entry = .branch (entry.table hhdm) := by
  rw [PageEntry.slot, if_neg (ne_zero_of_valid (valid_of_isBranch branch)),
    if_neg (by rw [isLeaf_eq_false_of_isBranch branch]; decide), if_pos branch]

/-- The entries that may stand in a tree: zero, a leaf, or a branch. -/
theorem sound_cases {below : UInt64 → Prop} (sound : (PageEntry.slot hhdm entry).Sound below) :
    entry = 0 ∨ entry.isLeaf = true ∨
      (entry.isBranch = true ∧ entry.isLeaf = false ∧ below (entry.table hhdm)) := by
  by_cases zero : entry = 0
  · exact .inl zero
  · by_cases leaf : entry.isLeaf = true
    · exact .inr (.inl leaf)
    · by_cases branch : entry.isBranch = true
      · rw [slot_branch branch] at sound
        exact .inr (.inr ⟨branch, isLeaf_eq_false_of_isBranch branch, sound⟩)
      · rw [PageEntry.slot, if_neg zero, if_neg leaf, if_neg branch] at sound
        exact sound.elim

/-- An entry that may stand in a tree is valid when it leads somewhere. -/
theorem valid_iff_of_sound {below : UInt64 → Prop}
    (sound : (PageEntry.slot hhdm entry).Sound below) :
    entry.getValid = true ↔ PageEntry.slot hhdm entry ≠ .empty := by
  rcases sound_cases sound with rfl | leaf | ⟨branch, -, -⟩
  · simp [slot_zero, PageEntry.getValid, getBit]
  · rw [slot_leaf leaf]
    simp [valid_of_isLeaf leaf]
  · rw [slot_branch branch]
    simp [valid_of_isBranch branch]

/-- What an entry leads to is reached through its table. -/
theorem mem_under_slot {tables : UInt64 → Set UInt64} {page : UInt64}
    (inside : page ∈ (PageEntry.slot hhdm entry).under tables) :
    page ∈ tables (entry.table hhdm) := by
  rw [PageEntry.slot] at inside
  split at inside
  · exact inside.elim
  · split at inside
    · exact inside.elim
    · split at inside
      · exact inside
      · exact inside.elim

/-- All tables of a tree with an aligned root are pages. -/
theorem tables_aligned (aligned : hhdm % 4096 = 0) {memory : Memory} {height : Nat}
    {root page : UInt64} (rootAligned : root % 4096 = 0)
    (member : page ∈ tables (slots hhdm memory) 512 height root) : page % 4096 = 0 := by
  induction height generalizing root with
  | zero => exact member.elim
  | succ height ih =>
    rcases member with rfl | ⟨index, -, inside⟩
    · exact rootAligned
    · exact ih (table_aligned aligned _) (mem_under_slot inside)

/-- All tables that an entry leads to are pages. -/
theorem reached_aligned (aligned : hhdm % 4096 = 0) {memory : Memory} {height index : Nat}
    {root page : UInt64} (inside : page ∈ reached hhdm memory height root index) :
    page % 4096 = 0 :=
  tables_aligned aligned (table_aligned aligned _) (mem_under_slot inside)

/-- Tables whose words are the same are the same tables. -/
theorem Kept.agree {pages : Set UInt64} {old new : Memory} (kept : Kept pages old new) :
    Agree 512 pages (slots hhdm old) (slots hhdm new) := fun page member index bound => by
  rw [slots, slots, kept page member index bound]

end Slots

section Walk

variable {hhdm : UInt64} {s : Pmm}

/-- The loop of `virt_to_phys` walks the tree under the entry that the address takes. -/
theorem walkLoop_run {virt : VirtualAddress} {steps height : Nat} {root : UInt64}
    {level : PageLevel}
    (sound : (slots hhdm s.memory root (virt.path (height + 1))).Sound
      (Tree (slots hhdm s.memory) 512 height))
    (at_height : level.asUsize = height + 1) (enough : height < steps) :
    (walkLoop hhdm virt steps root level).run s =
      (.ok (resultOf virt (leafOf hhdm s.memory (height + 1) root virt)), s) := by
  induction steps generalizing height root level with
  | zero => omega
  | succ steps ih =>
    have index : (virt.index level).toNat = virt.path (height + 1) := virt.toNat_index at_height
    have bound := virt.path_lt (height + 1)
    rw [walkLoop, index, Prog.run_bind_ok (run_checkIndex bound),
      Prog.run_bind_ok (Prog.run_read _ _), leafOf]
    rcases sound_cases sound with zero | leaf | ⟨branch, notLeaf, below⟩
    · have empty : slots hhdm s.memory root (virt.path (height + 1)) = .empty := by
        rw [slots, zero, slot_zero]
      rw [find_empty empty, zero]
      rfl
    · rw [find_leaf (show slots hhdm s.memory root _ = .leaf _ from slot_leaf leaf), if_pos leaf,
        Prog.run_pure, resultOf, ← at_height, PageLevel.fromUsize_asUsize]
    · rw [find_branch (show slots hhdm s.memory root _ = .branch _ from slot_branch branch),
        if_neg (by rw [notLeaf]; decide), if_pos branch]
      cases height with
      | zero => exact below.elim
      | succ height =>
        exact ih (below.sound _ (virt.path_lt _)) (PageLevel.asUsize_below at_height) (by omega)

end Walk

end Lsd
