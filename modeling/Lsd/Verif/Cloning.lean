import Lsd.Lib.RadixCopy
import Lsd.Verif.Mapping

/-!
# Cloning page tables

`clone_table_range` copies some entries of a table, with fresh tables below every
branch. Its loop takes the entries one at a time, so the whole call is a sequence
of copies of single entries, and the copy of a branch is a whole call below. What
it asks of the frame list is one frame outside the tables in use for each branch.
-/

namespace Lsd

open Program Radix

/-- What cloning some entries of a table leaves behind. -/
structure Cloned (hhdm : UInt64) (stock : Nat → Set UInt64 → Pmm → Prop) (indices : List Nat)
    (pages fresh : Set UInt64) (extra height : Nat) (src dest : UInt64) (s s' : Pmm) : Prop where
  /-- The tables it made were not in use. -/
  unused : Disjoint fresh pages
  /-- They are pages. -/
  aligned : ∀ page ∈ fresh, page % 4096 = 0
  /-- Tables in use keep their words. -/
  kept : Kept (pages \ {dest}) s.memory s'.memory
  /-- The destination keeps its other words. -/
  beside : ∀ index < 512, index ∉ indices →
    s'.memory (wordOf dest index) = s.memory (wordOf dest index)
  /-- The destination holds a copy. -/
  copied : Copied 512 {index | index ∈ indices} pages fresh height src dest (slots hhdm s.memory)
    (slots hhdm s'.memory)
  /-- Further frames are left. -/
  supplies : stock extra (pages ∪ fresh) s'

/-- A program that clones some entries of a table whenever enough frames are free. -/
def Clones (hhdm : UInt64) (stock : Nat → Set UInt64 → Pmm → Prop) (program : Kernel Pmm Unit)
    (indices : List Nat) (height : Nat) (src dest : UInt64) : Prop :=
  ∀ (s : Pmm) (pages : Set UInt64) (extra : Nat), (∀ page ∈ pages, page % 4096 = 0) →
    Copyable (slots hhdm s.memory) 512 {index | index ∈ indices} pages height src dest →
    stock (branches (slots hhdm s.memory) 512 (height + 1) src indices + extra) pages s →
    ∃ s' fresh, program.run s = (.ok (), s') ∧
      Cloned hhdm stock indices pages fresh extra height src dest s s'

section Entry

variable {hhdm : UInt64} {stock : Nat → Set UInt64 → Pmm → Prop}
    {recurse : UInt64 → UInt64 → Kernel Pmm Unit} {src dest : UInt64}
  {index height : Nat} {s : Pmm} {entry : PageEntry}

/-- An entry that is no branch is copied as it is. -/
theorem cloneEntry_copy (read : s.memory (wordOf src index) = entry)
    (notBranch : entry.isBranch = false) (plain : entry = 0 ∨ entry.isLeaf = true) :
    (cloneEntry hhdm recurse src dest index).run s =
      (.ok (), { s with memory := s.memory.store (wordOf dest index) entry }) := by
  rw [cloneEntry, Prog.run_bind_ok (Prog.run_read _ _), read, if_neg (by rw [notBranch]; decide)]
  by_cases leaf : entry.isLeaf = true
  · rw [if_pos leaf, Prog.run_update]
  · rw [if_neg leaf, Prog.run_update, plain.resolve_right leaf]

/-- A branch is copied with the page number of a claimed frame, and then its table. -/
theorem cloneEntry_branch (read : s.memory (wordOf src index) = entry)
    (branch : entry.isBranch = true) {frame : UInt64} {s' : Pmm}
    (claimed : (FreeList.claim hhdm).run
      { s with memory := s.memory.store (wordOf dest index) entry } = (.ok frame, s'))
    (written : s'.memory (wordOf dest index) = entry)
    (still : s'.memory.store (wordOf dest index) (entry.setPpn ((frame - hhdm) >>> 12))
      (wordOf src index) = entry) :
    (cloneEntry hhdm recurse src dest index).run s =
      (recurse (entry.table hhdm) frame).run { s' with
        memory := s'.memory.store (wordOf dest index)
          (entry.setPpn ((frame - hhdm) >>> 12)) } := by
  rw [cloneEntry, Prog.run_bind_ok (Prog.run_read _ _), read, if_pos branch,
    Prog.run_bind_ok (Prog.run_update _ _), Prog.run_bind_ok claimed,
    Prog.run_bind_ok (Prog.run_read _ _), written, Prog.run_bind_ok (Prog.run_update _ _),
    Prog.run_bind_ok (Prog.run_read _ _)]
  simp only [still]

/-- The indices of a list with one index. -/
theorem indices_singleton (index : Nat) : {other | other ∈ [index]} = ({index} : Set Nat) :=
  Set.ext fun _ => List.mem_singleton

/-- The indices of a whole table. -/
theorem indices_range : {index | index ∈ List.range 512} = Set.Iio 512 :=
  Set.ext fun _ => List.mem_range

/-- Copying an entry that is no branch clones it. -/
theorem cloned_copy {pages : Set UInt64} {extra : Nat} (source : FrameSource hhdm stock)
    (pagesAligned : ∀ page ∈ pages, page % 4096 = 0)
    (ready : Copyable (slots hhdm s.memory) 512 {index} pages height src dest)
    (read : s.memory (wordOf src index) = entry) (notBranch : entry.isBranch = false)
    (plain : entry = 0 ∨ entry.isLeaf = true) (supplied : stock extra pages s) :
    Cloned hhdm stock [index] pages ∅ extra height src dest s
      { s with memory := s.memory.store (wordOf dest index) entry } := by
  have bound : index < 512 := ready.bound index rfl
  have destAligned := pagesAligned dest ready.copyUsed
  have kept : Kept (pages \ {dest}) s.memory (s.memory.store (wordOf dest index) entry) :=
    Kept.store _ pagesAligned destAligned bound _
  have beside : ∀ other < 512, other ∉ [index] →
      s.memory.store (wordOf dest index) entry (wordOf dest other) =
        s.memory (wordOf dest other) := by
    intro other small out
    refine Function.update_of_ne (fun same => out (List.mem_singleton.mpr ?_)) _ _
    exact (wordOf_inj destAligned destAligned small bound same).2
  refine ⟨Set.empty_disjoint _, fun _ => False.elim, kept, beside, ?_, ?_⟩
  · rw [indices_singleton]
    have slot : PageEntry.slot hhdm entry = .empty ∨ PageEntry.slot hhdm entry = .leaf entry := by
      rcases plain with rfl | leaf
      · exact .inl slot_zero
      · exact .inr (slot_leaf leaf)
    refine Copied.write (PageEntry.slot hhdm entry) slots_store (by rw [slots, read])
      (fun tables => ?_) (fun below => ?_) kept.agree fun other small apart => ?_
    · rcases slot with same | same <;> rw [same] <;> rfl
    · rcases slot with same | same <;> rw [same] <;> trivial
    · exact slots_store_ne destAligned destAligned bound small (.inr apart)
  · rw [Set.union_empty]
    exact source.write supplied (ChangedWithin.store _ ready.copyUsed bound _)

/-- Copying a branch clones it, if the call below clones its table. -/
theorem cloned_branch {pages : Set UInt64} {extra lower : Nat} (source : FrameSource hhdm stock)
    (mapAligned : hhdm % 4096 = 0)
    (pagesAligned : ∀ page ∈ pages, page % 4096 = 0)
    (ready : Copyable (slots hhdm s.memory) 512 {index} pages (lower + 1) src dest)
    (read : s.memory (wordOf src index) = entry) (branch : entry.isBranch = true)
    (supplied : stock (branches (slots hhdm s.memory) 512 (lower + 2) src [index] + extra)
      pages s)
    (below : ∀ old new, Clones hhdm stock (recurse old new) (List.range 512) lower old new) :
    ∃ s' fresh, (cloneEntry hhdm recurse src dest index).run s = (.ok (), s') ∧
      Cloned hhdm stock [index] pages fresh extra (lower + 1) src dest s s' := by
  have bound : index < 512 := ready.bound index rfl
  have destAligned := pagesAligned dest ready.copyUsed
  have slot : slots hhdm s.memory src index = .branch (entry.table hhdm) := by
    rw [slots, read, slot_branch branch]
  have count : branches (slots hhdm s.memory) 512 (lower + 2) src [index] + extra =
      branches (slots hhdm s.memory) 512 (lower + 1) (entry.table hhdm) (List.range 512) + extra +
        1 := by
    rw [branches, List.map_singleton, List.sum_singleton, slot, Slot.count]
    omega
  rw [count] at supplied
  -- the frame claimed after the entry was written to the destination
  have writing : ChangedWithin pages s.memory (s.memory.store (wordOf dest index) entry) :=
    ChangedWithin.store _ ready.copyUsed bound _
  obtain ⟨frame, s₁, claimed, fresh, keptClaim, rest⟩ := source.next supplied writing
  have written : s₁.memory (wordOf dest index) = entry := by
    rw [keptClaim dest ready.copyUsed index bound, Memory.store, Function.update_self]
  have kept : Kept (pages \ {dest}) s.memory (s₁.memory.store (wordOf dest index)
      (entry.setPpn ((frame - hhdm) >>> 12))) :=
    ((Kept.store _ pagesAligned destAligned bound _).trans (keptClaim.mono Set.sdiff_subset)).trans
      (Kept.store _ pagesAligned destAligned bound _)
  have beside : ∀ other < 512, other ≠ index → s₁.memory.store (wordOf dest index)
      (entry.setPpn ((frame - hhdm) >>> 12)) (wordOf dest other) =
        s.memory (wordOf dest other) := by
    intro other small apart
    have distinct : wordOf dest other ≠ wordOf dest index := fun same =>
      apart (wordOf_inj destAligned destAligned small bound same).2
    rw [Memory.store, Function.update_of_ne distinct, keptClaim dest ready.copyUsed other small,
      Memory.store, Function.update_of_ne distinct]
  have attached : slots hhdm (s₁.memory.store (wordOf dest index)
      (entry.setPpn ((frame - hhdm) >>> 12))) dest index = .branch frame := by
    rw [slots_store, slot_branch ((isBranch_setPpn _).trans branch),
      table_setPpn mapAligned fresh.aligned fresh.short]
  obtain ⟨ready', same⟩ := ready.below slot kept.agree fresh.outside
  rw [← same] at rest
  rw [← indices_range] at ready'
  rw [cloneEntry_branch read branch claimed written
    ((kept src ready.source_within index bound).trans read)]
  obtain ⟨s', taken, ran, cloned⟩ := below (entry.table hhdm) frame { s₁ with
    memory := s₁.memory.store (wordOf dest index) (entry.setPpn ((frame - hhdm) >>> 12)) }
    (insert frame pages) extra (Set.forall_mem_insert.mpr ⟨fresh.aligned, pagesAligned⟩) ready'
    (source.write rest (ChangedWithin.store _ (.inr ready.copyUsed) bound _))
  have different : dest ≠ frame := fun clash => fresh.outside (clash ▸ ready.copyUsed)
  have copied := cloned.copied
  rw [indices_range] at copied
  refine ⟨s', insert frame taken, ran, ⟨?_, Set.forall_mem_insert.mpr ⟨fresh.aligned,
    cloned.aligned⟩, ?_, fun other small out => ?_, ?_, ?_⟩⟩
  · refine Set.disjoint_left.mpr fun page inside used => ?_
    rcases inside with rfl | inside
    · exact fresh.outside used
    · exact Set.disjoint_left.mp cloned.unused inside (.inr used)
  · refine kept.trans (cloned.kept.mono fun page inside => ⟨.inr inside.1, ?_⟩)
    exact fun clash => fresh.outside (clash ▸ inside.1)
  · rw [cloned.kept dest ⟨.inr ready.copyUsed, different⟩ other small]
    exact beside other small fun clash => out (List.mem_singleton.mpr clash)
  · rw [indices_singleton]
    refine copied.attach ready slot attached fresh.outside cloned.unused kept.agree
      fun other small apart => ?_
    exact congrArg (PageEntry.slot hhdm) (beside other small apart)
  · rw [Set.union_insert, ← Set.insert_union]
    exact cloned.supplies

/-- One round of the loop clones one entry, if its call below clones whole tables. -/
theorem cloneEntry_clones (source : FrameSource hhdm stock) (mapAligned : hhdm % 4096 = 0)
    (below : ∀ lower, height = lower + 1 → ∀ old new,
      Clones hhdm stock (recurse old new) (List.range 512) lower old new) :
    Clones hhdm stock (cloneEntry hhdm recurse src dest index) [index] height src dest := by
  intro s pages extra pagesAligned ready supplied
  rw [indices_singleton] at ready
  rcases sound_cases (ready.limbs.sound index rfl) with zero | leaf | ⟨branch, -, tree⟩
  · exact ⟨_, ∅, cloneEntry_copy zero rfl (.inl rfl), cloned_copy source pagesAligned ready zero rfl
      (.inl rfl) (source.mono supplied (Nat.le_add_left _ _))⟩
  · have notBranch := isBranch_eq_false_of_isLeaf leaf
    exact ⟨_, ∅, cloneEntry_copy rfl notBranch (.inr leaf),
      cloned_copy source pagesAligned ready rfl
      notBranch (.inr leaf) (source.mono supplied (Nat.le_add_left _ _))⟩
  · cases height with
    | zero => exact tree.elim
    | succ lower =>
      exact cloned_branch source mapAligned pagesAligned ready rfl branch supplied (below lower rfl)

end Entry

section Range

variable {hhdm : UInt64} {stock : Nat → Set UInt64 → Pmm → Prop} {src dest : UInt64} {height : Nat}

/-- A loop over different entries clones them all, if each round clones its own. -/
theorem clones_forM (source : FrameSource hhdm stock) {step : Nat → Kernel Pmm Unit}
    {indices : List Nat} (nodup : indices.Nodup)
    (each : ∀ index ∈ indices, Clones hhdm stock (step index) [index] height src dest) :
    Clones hhdm stock (indices.forM step) indices height src dest := by
  induction indices with
  | nil =>
    intro s pages extra pagesAligned ready supplied
    refine ⟨s, ∅, rfl, Set.empty_disjoint _, fun _ => False.elim, fun _ _ _ _ => rfl,
      fun _ _ _ => rfl, ?_, ?_⟩
    · have nothing : {index | index ∈ ([] : List Nat)} = ∅ := Set.ext fun _ => by simp
      rw [nothing]
      exact Copied.refl
    · rw [Set.union_empty]
      exact source.mono supplied (Nat.le_add_left _ _)
  | cons index rest ih =>
    intro s pages extra pagesAligned ready supplied
    obtain ⟨new, nodup⟩ := List.nodup_cons.mp nodup
    have split : {other | other ∈ index :: rest} = {index} ∪ {other | other ∈ rest} :=
      Set.ext fun _ => List.mem_cons
    have count : branches (slots hhdm s.memory) 512 (height + 1) src (index :: rest) + extra =
        branches (slots hhdm s.memory) 512 (height + 1) src [index] +
          (branches (slots hhdm s.memory) 512 (height + 1) src rest + extra) := by
      simp only [branches, List.map_cons, List.map_nil, List.sum_cons, List.sum_nil]
      omega
    rw [count] at supplied
    rw [split] at ready
    have left := ready.mono Set.subset_union_left
    rw [← indices_singleton] at left
    obtain ⟨s₁, fresh, ran, first⟩ := each index (List.mem_cons_self ..) s pages _ pagesAligned left
      supplied
    have others := (ready.mono Set.subset_union_right).agree first.kept.agree
      (Set.subset_union_left (t := fresh))
    have same : branches (slots hhdm s₁.memory) 512 (height + 1) src rest =
        branches (slots hhdm s.memory) 512 (height + 1) src rest := by
      refine Agree.branches_eq (fun next inside => ready.bound next (.inr inside))
        (fun next inside => ?_) fun next inside => ?_
      · exact first.kept.agree src ready.source_within next (ready.bound next (.inr inside))
      · exact first.kept.agree.mono (ready.within (.inr inside))
    obtain ⟨s₂, taken, ran', second⟩ := ih nodup
      (fun next inside => each next (List.mem_cons_of_mem _ inside)) s₁ (pages ∪ fresh) extra
      (fun page used => used.elim (pagesAligned page) (first.aligned page)) others
      (same ▸ first.supplies)
    have copied := first.copied
    rw [indices_singleton] at copied
    refine ⟨s₂, fresh ∪ taken, (Prog.run_bind_ok ran).trans ran', ?_, ?_, ?_, ?_, ?_, ?_⟩
    · exact first.unused.union_left (second.unused.mono_right Set.subset_union_left)
    · exact fun page inside => inside.elim (first.aligned page) (second.aligned page)
    · refine first.kept.trans (second.kept.mono fun page inside => ⟨.inl inside.1, inside.2⟩)
    · intro next small out
      rw [second.beside next small fun inside => out (List.mem_cons_of_mem _ inside),
        first.beside next small fun inside =>
          out (List.mem_singleton.mp inside ▸ List.mem_cons_self ..)]
    · rw [split]
      exact copied.append second.copied ready (Set.disjoint_singleton_left.mpr new) first.unused
        second.unused
    · rw [← Set.union_assoc]
      exact second.supplies

/-- `clone_table_range` clones the entries of its range, when it may go as deep as the tree. -/
theorem cloneIndices_clones (source : FrameSource hhdm stock) (mapAligned : hhdm % 4096 = 0)
    {depth : Nat} {indices : List Nat}
    (enough : height ≤ depth) (nodup : indices.Nodup) :
    Clones hhdm stock (cloneIndices hhdm depth src dest indices) indices height src dest := by
  induction depth generalizing height src dest indices with
  | zero =>
    refine clones_forM source nodup fun index _ =>
      cloneEntry_clones source mapAligned fun lower deep => ?_
    omega
  | succ depth ih =>
    refine clones_forM source nodup fun index _ =>
      cloneEntry_clones source mapAligned fun lower deep old new => ?_
    exact ih (by omega) List.nodup_range

end Range

end Lsd
