import Lsd.Verif.ArenaPages
import Lsd.Verif.FrameOwnership
import Lsd.Verif.HeapExtension

/-!
# Allocations and their frames

What `Vmm::alloc` has made of the tree and the frame list when it returns: every
page of the range leads to its frame, no other address goes elsewhere, and each
frame of the list is still there, is a frame of the allocation, or became a table.
In a run of frames `Vmm::alloc_constrained` maps each page to the frame behind its
own.
-/

namespace Lsd

open Program Radix

/-- A size has as many steps as whole frames for it. -/
theorem pageSteps_framesOf {size : UInt64} (short : size.toNat ≤ 2 ^ 57) :
    pageSteps (framesOf size * 4096) = pageSteps size := by
  have bytes : (4096 : UInt64).toNat = 4096 := rfl
  rw [pageSteps, UInt64.toNat_mul, toNat_framesOf, bytes, pageSteps]
  omega

/-- There are at most as many steps as pages. -/
theorem pageSteps_le (size : UInt64) : pageSteps size ≤ 2 ^ 52 := by
  have small := size.toNat_lt
  rw [pageSteps]
  omega

section Tree

variable {hhdm root base : UInt64} {first known : Set Nat} {height : Nat} {pages : Set UInt64}
  {old new start : Memory}

/-- Changes outside the tables leave a root in which every entry is known or blank alone. -/
theorem RootTree.kept (tree : RootTree hhdm known pages height root old)
    (kept : Kept pages old new) :
    RootTree hhdm known pages height root new ∧
      footprint (slots hhdm new) 512 known height root =
        footprint (slots hhdm old) 512 known height root ∧
      ∀ virt : VirtualAddress,
        leafOf hhdm new (height + 1) root virt = leafOf hhdm old (height + 1) root virt := by
  obtain ⟨rooted, same, walks⟩ := tree.rooted.kept (kept.mono tree.rooted.inUse)
  have word := fun index bound => kept root tree.rooted.member index bound
  refine ⟨⟨rooted, fun index bound out => word index bound ▸ tree.blank index bound out⟩, same,
    fun virt => ?_⟩
  by_cases inside : virt.path (height + 1) ∈ known
  · exact walks virt inside
  · have invalid := (isBlank_flags (tree.blank _ (virt.path_lt _) inside)).1
    rw [leafOf_invalid invalid, leafOf_invalid (word _ (virt.path_lt _) ▸ invalid)]

/-- Where every entry of the root was known or blank, each address goes where it was placed. -/
theorem Laid.leafOf_eq {stock : Nat → Set UInt64 → Pmm → Prop} {placed : List Placement}
    {data more : Set UInt64} {left : Nat} {p : Pmm}
    (laid : Laid hhdm stock start first height root placed pages data known left p)
    (tree : RootTree hhdm first more height root start) (virt : VirtualAddress) :
    leafOf hhdm p.memory (height + 1) root virt =
      Placement.leafAfter (height + 1) (leafOf hhdm start (height + 1) root) placed virt := by
  by_cases inside : virt.path (height + 1) ∈ known
  · exact laid.walks virt inside
  · have outside : virt.path (height + 1) ∉ first := fun member => inside (laid.more member)
    have invalid := (isBlank_flags (tree.blank _ (virt.path_lt _) outside)).1
    have word := laid.beside _ (virt.path_lt _) inside
    have apart : ∀ placement ∈ placed, ¬ placement.Covers (height + 1) virt := by
      intro placement member covers
      have top : virt.path (height + 1) = placement.page.path (height + 1) :=
        covers _ (Nat.le_succ_of_le (laid.below placement member)) (Nat.le_refl _)
      exact inside (top ▸ laid.tops placement member)
    rw [Placement.leafAfter_apart apart, leafOf_invalid invalid, leafOf_invalid (word ▸ invalid)]

end Tree

/-- What an allocation has made of a list and a tree: the frames that it claimed, where it placed
its pages, and the list that is left. -/
structure Allocated (hhdm : UInt64) (nodes : List UInt64) (height : Nat) (root base : UInt64)
    (flags : PageFlags) (claimed placed left : List UInt64) (known : Set Nat)
    (s s' : Pmm) : Prop where
  /-- The frames were in the list. -/
  listed : ∀ frame ∈ claimed, frame ∈ nodes
  /-- They differ. -/
  nodup : claimed.Nodup
  /-- The list is well formed. -/
  stock : Stock hhdm (pagesBeside left) s' left
  /-- It has the frames that it had before. -/
  remains : ∀ frame ∈ left, frame ∈ nodes
  /-- None of them was claimed. -/
  leftApart : ∀ frame ∈ left, frame ∉ claimed
  /-- The entries of the root are known or blank. -/
  tree : RootTree hhdm known (pagesBeside left) height root s'.memory
  /-- No frame of the allocation is a table. -/
  apart : ∀ frame ∈ claimed, frame ∉ footprint (slots hhdm s'.memory) 512 known height root
  /-- The other frames became tables. -/
  spent : ∀ frame ∈ nodes, frame ∈ left ∨ frame ∈ claimed ∨
    frame ∈ footprint (slots hhdm s'.memory) 512 known height root
  /-- The pages are placed. -/
  walks : ∀ virt : VirtualAddress, leafOf hhdm s'.memory (height + 1) root virt =
    Placement.leafAfter (height + 1) (leafOf hhdm s.memory (height + 1) root)
      (pagePlacements hhdm base flags placed) virt

/-- The tables that an allocation has made. -/
structure Drawn (hhdm : UInt64) (nodes : List UInt64) (height : Nat) (root : UInt64)
    (first known : Set Nat) (s s' : Pmm) : Prop where
  /-- They were frames of the list. -/
  made : footprint (slots hhdm s'.memory) 512 known height root ⊆
    footprint (slots hhdm s.memory) 512 first height root ∪ {frame | frame ∈ nodes}

section Allocated

variable {hhdm root base : UInt64} {given nodes claimed placed : List UInt64}
  {used extra data pages : Set UInt64} {start : Memory} {first known : Set Nat} {height : Nat}
  {flags : PageFlags} {s s' p q : Pmm} {level : PageLevel} {count : Nat}

/-- What the loop over the pages leaves is what the allocation has made. -/
theorem Spread.allocated
    (spread : Spread hhdm given
    (footprint (slots hhdm s.memory) 512 first height root ∪ extra) start
      first height root base flags placed {frame | frame ∈ claimed} p pages known)
    (beside : footprint (slots hhdm s.memory) 512 first height root ⊆ pagesBeside nodes)
    (tree : RootTree hhdm first (pagesBeside nodes) height root start)
    (walks : ∀ virt : VirtualAddress,
      leafOf hhdm start (height + 1) root virt = leafOf hhdm s.memory (height + 1) root virt)
    (split : ∀ frame, frame ∈ nodes ↔ frame ∈ given ∨ frame ∈ extra)
    (data : ∀ frame ∈ extra, frame ∈ claimed) (listed : ∀ frame ∈ claimed, frame ∈ nodes)
    (nodup : claimed.Nodup) :
    ∃ left, Allocated hhdm nodes height root base flags claimed placed left known s p ∧
      Drawn hhdm nodes height root first known s p := by
  obtain ⟨taken, left, parts, stock, -, inUse⟩ := spread.laid.supplies
  have given : ∀ frame, frame ∈ given ↔ frame ∈ taken ∨ frame ∈ left := by
    intro frame
    rw [parts, List.mem_append]
  have tables : footprint (slots hhdm p.memory) 512 known height root ⊆ pagesBeside left :=
    fun page table => ⟨spread.laid.pagesAligned page (spread.laid.rooted.inUse table),
      fun member => stock.apart page member (spread.laid.rooted.inUse table)⟩
  have drawn : Drawn hhdm nodes height root first known s p := by
    refine ⟨fun page table => ?_⟩
    have page := spread.laid.rooted.inUse table
    rw [inUse] at page
    rcases page with (old | more) | new
    · exact .inl old
    · exact .inr ((split _).mpr (.inr more))
    · exact .inr ((split _).mpr (.inl ((given _).mpr (.inl new))))
  refine ⟨left, ?_, drawn⟩
  constructor
  case listed => exact listed
  case nodup => exact nodup
  case stock => exact .beside stock.holds stock.inMap
  case remains =>
    exact fun frame member => (split frame).mpr (.inl ((given frame).mpr (.inr member)))
  case leftApart =>
    exact fun frame member old => stock.apart frame member (spread.laid.dataUsed old)
  case tree =>
    refine ⟨⟨spread.laid.rooted.bound, spread.laid.rooted.limbs, tables⟩, fun index bound out => ?_⟩
    rw [spread.laid.beside index bound out]
    exact tree.blank index bound fun member => out (spread.laid.more member)
  case apart => exact fun frame member => Set.disjoint_left.mp spread.laid.dataApart member
  case spent =>
    intro frame member
    rcases (split frame).mp member with inside | old
    · rcases (given frame).mp inside with gone | here
      · have page : frame ∈ pages := inUse ▸ .inr gone
        rcases spread.spent page with ((outside | old) | new) | table
        · exact absurd member (beside outside).2
        · exact .inr (.inl (data frame old))
        · exact .inr (.inl new)
        · exact .inr (.inr table)
      · exact .inl here
    · exact .inr (.inl (data frame old))
  case walks =>
    intro virt
    have before : leafOf hhdm start (height + 1) root = leafOf hhdm s.memory (height + 1) root :=
      funext walks
    rw [spread.laid.leafOf_eq tree virt, before]

/-- An allocation of a run of frames. The address that its loop carries may lie below the one that
it maps. -/
theorem allocPages_run {frames shift : UInt64}
    {page : PhysicalAddress → Nat → Kernel Pmm PhysicalAddress} {result : Option PhysicalAddress}
    (mapAligned : hhdm % 4096 = 0) (at_height : level.asUsize = height + 1) (tall : 1 ≤ height)
    (short : height ≤ 4) (maps : flags.Maps) (stock : Stock hhdm (pagesBeside nodes) s nodes)
    (tree : RootTree hhdm first (pagesBeside nodes) height root s.memory)
    (whole : frames.toNat = count) (limit : count ≤ 2 ^ 52)
    (round : ∀ value step, page value step = (do
      map hhdm root (base + UInt64.ofNat (step * 0x1000)) (value + shift) level .level1 flags
      pure (value + 4096)))
    (ran : (allocPages page hhdm frames true count).run s = (.ok result, s'))
    (remain : s.taken s' < nodes.length) :
    ∃ claim left known, result = some (claim - hhdm) ∧
      Allocated hhdm nodes height root base flags (framesFrom claim count).reverse
        (framesFrom (claim + shift) count).reverse left known s s' ∧
      Drawn hhdm nodes height root first known s s' := by
  rw [allocPages, claimFirst, if_pos rfl] at ran
  obtain ⟨found, s₁, asked, body⟩ := Prog.run_bind_eq_ok ran
  obtain ⟨outcome, s₂, searched, rest⟩ := Prog.run_bind_eq_ok asked
  obtain ⟨claim, s₃, checked, rest⟩ := Prog.run_bind_eq_ok rest
  obtain ⟨rfl, rfl⟩ := Machine.unwrap_eq_ok checked
  obtain ⟨same, rfl⟩ := Prod.mk.inj rest
  obtain rfl := Except.ok.inj same
  obtain ⟨last, s₄, looped, done⟩ := Prog.run_bind_eq_ok body
  obtain ⟨same, rfl⟩ := Prod.mk.inj done
  obtain rfl := Except.ok.inj same
  -- the claims of the whole call
  subst count
  obtain ⟨spent, few, more⟩ := run_shrinks at_height round looped
  have window : Shrunk frames.toNat s s₃ := claimWindow_shrinks searched
  have cost : spent ≤ 2 ^ 52 * 4 := few.trans (Nat.mul_le_mul limit short)
  have total := (window.trans more).taken (by omega)
  rw [total] at remain
  have leaves := leavesTail_of_ok stock (by omega) searched
  rcases FreeList.claimWindow_cases stock.holds leaves with failed | claimed
  · rw [FreeList.claimContinuous, failed] at searched
    cases searched
  · obtain ⟨head, later, pre, post, claimed, rfl, holds, links⟩ := claimed
    obtain ⟨same, rfl⟩ := Prod.mk.inj (claimed.symm.trans searched)
    obtain rfl := Except.ok.inj (Except.ok.inj same)
    let frames' := framesFrom head frames.toNat
    have reversed : ∀ frame, frame ∈ frames'.reverse ↔ frame ∈ frames' := fun _ => List.mem_reverse
    have listed : ∀ frame ∈ frames', frame ∈ pre ++ frames' ++ post := fun frame member =>
      List.mem_append_left _ (List.mem_append_right _ member)
    let tables := footprint (slots hhdm s.memory) 512 first height root
    have given : Stock hhdm (tables ∪ {frame | frame ∈ frames'}) later (pre ++ post) :=
      (stock.fewer tree.rooted.inUse).take holds
    obtain ⟨kept, reached, walks⟩ := tree.kept (stock.kept links)
    have data : {frame | frame ∈ frames'.reverse} ⊆ tables ∪ {frame | frame ∈ frames'} :=
      fun frame member => .inr ((reversed frame).mp member)
    have apart : Disjoint {frame | frame ∈ frames'.reverse}
        (footprint (slots hhdm later.memory) 512 first height root) :=
      Set.disjoint_left.mpr fun frame member table =>
        (kept.rooted.inUse table).2 (listed frame ((reversed frame).mp member))
    have rooted : Rooted hhdm first tables height root later.memory :=
      ⟨kept.rooted.bound, kept.rooted.limbs, reached.subset⟩
    have begun : Spread hhdm (pre ++ post) (tables ∪ {frame | frame ∈ frames'}) later.memory first
        height root base flags [] {frame | frame ∈ frames'.reverse} later
        (tables ∪ {frame | frame ∈ frames'}) first :=
      .begin (rooted.mono Set.subset_union_left) data apart given
    have ready : ∀ virt : VirtualAddress, virt.path (height + 1) ∈ first ∨
        PageEntry.isBlank (later.memory (wordOf root (virt.path (height + 1)))) =
          true := fun virt =>
      or_iff_not_imp_left.mpr (kept.blank _ (virt.path_lt _))
    obtain ⟨spent', few', more', spread⟩ :=
      run_spreads mapAligned at_height tall maps holds ready ⟨_, _, begun⟩ round looped
    have length : (pre ++ frames' ++ post).length = frames.toNat + (pre ++ post).length := by
      simp only [List.length_append, frames', framesFrom_length]
      omega
    have same : spent' = spent := by
      have cost' : spent' ≤ 2 ^ 52 * 4 := few'.trans (Nat.mul_le_mul limit short)
      rw [← more'.taken (by omega), more.taken (by omega)]
    change _ < (pre ++ frames' ++ post).length at remain
    obtain ⟨pages, known, spread⟩ := spread (by omega)
    have nodup : frames'.Nodup := by
      have whole := stock.holds.nodup
      rw [List.append_assoc] at whole
      exact (List.nodup_append.mp (List.nodup_append.mp whole).2.1).1
    have split : ∀ frame, frame ∈ pre ++ frames' ++ post ↔
        frame ∈ pre ++ post ∨ frame ∈ {frame | frame ∈ frames'} := by
      intro frame
      simp only [List.mem_append, Set.mem_ofPred_eq]
      tauto
    obtain ⟨left, allocated, drawn⟩ := spread.allocated tree.rooted.inUse kept walks
      split
      (fun frame member => (reversed frame).mpr member)
      (fun frame member => listed frame ((reversed frame).mp member)) (List.nodup_reverse.mpr nodup)
    exact ⟨head, left, known, rfl, allocated, drawn⟩

/-- An allocation that claims a frame for each page. -/
theorem allocPages_claims {frames : UInt64}
    {page : PhysicalAddress → Nat → Kernel Pmm PhysicalAddress} {result : Option PhysicalAddress}
    (mapAligned : hhdm % 4096 = 0) (at_height : level.asUsize = height + 1) (tall : 1 ≤ height)
    (short : height ≤ 4) (maps : flags.Maps) (stock : Stock hhdm (pagesBeside nodes) s nodes)
    (tree : RootTree hhdm first (pagesBeside nodes) height root s.memory) (limit : count ≤ 2 ^ 52)
    (round : ∀ value step, page value step = (do
      let phys ← claimNextFrame hhdm
      map hhdm root (base + UInt64.ofNat (step * 0x1000)) phys level .level1 flags
      pure phys))
    (ran : (allocPages page hhdm frames false count).run s = (.ok result, s'))
    (remain : s.taken s' < nodes.length) :
    ∃ claimed left known, claimed.length = count ∧
      Allocated hhdm nodes height root base flags claimed claimed left known s s' ∧
      Drawn hhdm nodes height root first known s s' := by
  obtain ⟨found, s₁, head, body⟩ := Prog.run_bind_eq_ok ran
  obtain ⟨-, rfl⟩ := Prod.mk.inj head
  obtain ⟨last, s₂, looped, done⟩ := Prog.run_bind_eq_ok body
  obtain ⟨-, rfl⟩ := Prod.mk.inj done
  let tables := footprint (slots hhdm s.memory) 512 first height root
  have beside : tables ∪ ∅ = tables := Set.union_empty _
  have begun : Spread hhdm nodes (tables ∪ ∅) s.memory first height root base flags [] ∅ s
      tables first := by
    rw [beside]
    exact .begin ⟨tree.rooted.bound, tree.rooted.limbs, subset_rfl⟩ (Set.empty_subset _)
      (Set.empty_disjoint _) (stock.fewer tree.rooted.inUse)
  have ready : ∀ virt : VirtualAddress, virt.path (height + 1) ∈ first ∨
      PageEntry.isBlank (s.memory (wordOf root (virt.path (height + 1)))) = true := fun virt =>
    or_iff_not_imp_left.mpr (tree.blank _ (virt.path_lt _))
  obtain ⟨claimed, length, spent, few, shrunk, spread⟩ :=
    claims_spread mapAligned at_height tall maps stock.holds ready ⟨_, _, begun⟩ round looped
  have cost : spent ≤ 2 ^ 52 * 5 := few.trans (Nat.mul_le_mul limit (by omega))
  rw [shrunk.taken (by omega)] at remain
  obtain ⟨⟨nodup, listed⟩, pages, known, spread⟩ := spread remain
  obtain ⟨left, allocated, drawn⟩ := spread.allocated tree.rooted.inUse tree (fun _ => rfl)
    (fun frame => by simp) (fun _ none => none.elim) (fun frame member => listed member) nodup
  exact ⟨claimed, left, known, length, allocated, drawn⟩

end Allocated

/-- The two ways to allocate from an arena. -/
inductive AllocCall (Strategy Layout : Type) where
  /-- `Vmm::alloc`. -/
  | alloc (size : UInt64) (strategy : Strategy)
  /-- `Vmm::alloc_constrained`. -/
  | allocConstrained (layout : Layout) (strategy : Strategy)

namespace AllocCall

variable {V Strategy Layout : Type} (vmm : Vmm V Strategy Layout) (platform : Platform V)

/-- The size that a call asks for. -/
def size : AllocCall Strategy Layout → UInt64
  | alloc size _ => size
  | allocConstrained layout _ => vmm.arena.layoutSize layout

/-- The range that a call asks the arena for. -/
def range : AllocCall Strategy Layout → Kernel V (Except String UInt64)
  | alloc size strategy => vmm.arena.alloc size strategy
  | allocConstrained layout strategy => vmm.arena.allocConstrained layout strategy

/-- Run a call. -/
def run (physicallyContiguous : Bool) (flags : PageFlags) : AllocCall Strategy Layout →
    Kernel (Machine V) (Except String (UInt64 × Option PhysicalAddress))
  | alloc size strategy => vmm.alloc platform size strategy physicallyContiguous flags
  | allocConstrained layout strategy =>
    vmm.allocConstrained platform layout strategy physicallyContiguous flags

/-- The distance from the address that the loop of a call carries to the one that it maps. -/
def shift : AllocCall Strategy Layout → UInt64
  | alloc _ _ => 0
  | allocConstrained _ _ => 4096

end AllocCall

/-- The ranges that an arena gives are no longer than an address space of some levels. -/
def Arena.InSpace {V Strategy Layout : Type} (arena : Arena V Strategy Layout)
    (levels : Nat) : Prop :=
  ∀ (size : UInt64) (strategy : Strategy) (v v' : V) (base : UInt64),
    (arena.alloc size strategy).run v = (.ok (.ok base), v') → size.toNat ≤ 4096 * 512 ^ levels

/-- A kernel whose root table and frame list are well formed. -/
structure ArenaReady {V : Type} (platform : Platform V) (s : Machine V) (nodes : List UInt64)
    (known : Set Nat) (height : Nat) : Prop where
  /-- The direct map begins at a page. -/
  mapAligned : platform.hhdmOffset % 4096 = 0
  /-- The root lies above some tables. -/
  levels : platform.levels = height + 1
  /-- There is a table below it. -/
  tall : 1 ≤ height
  /-- There are at most five levels. -/
  short : height ≤ 4
  /-- The frame list is well formed. -/
  stock : Stock platform.hhdmOffset (pagesBeside nodes) s.pmm nodes
  /-- So is the tree of the current table. -/
  tree : RootTree platform.hhdmOffset known (pagesBeside nodes) height
    (currentTable platform.hhdmOffset s.satp) s.pmm.memory

section Calls

variable {V Strategy Layout : Type} {vmm : Vmm V Strategy Layout} {platform : Platform V}
  {call : AllocCall Strategy Layout} {base : UInt64} {phys : Option PhysicalAddress}
  {contiguous : Bool} {flags : PageFlags} {s s' : Machine V} {nodes : List UInt64} {known : Set Nat}
  {height : Nat}

/-- The level of the root. -/
theorem ArenaReady.at_height (ready : ArenaReady platform s nodes known height) :
    (PageLevel.fromUsize platform.levels).asUsize = height + 1 := by
  have short := ready.short
  rw [PageLevel.asUsize_fromUsize (by rw [ready.levels]; omega), ready.levels]

/-- A call that returned a range took it from the arena and ran its loop. -/
theorem allocRange_eq_ok {range : Kernel V (Except String UInt64)} {frames bytes : UInt64}
    {page : PageLevel → UInt64 → UInt64 → PhysicalAddress → Nat → Kernel Pmm PhysicalAddress}
    (ran : (allocRange platform range frames bytes contiguous page).run s =
      (.ok (.ok (base, phys)), s')) :
    range.run s.arenas = (.ok (.ok base), s'.arenas) ∧
      (allocPages (page (.fromUsize platform.levels) (currentTable platform.hhdmOffset s.satp) base)
        platform.hhdmOffset frames contiguous (pageSteps bytes)).run s.pmm = (.ok phys, s'.pmm) ∧
      s'.satp = s.satp := by
  obtain ⟨result, s₁, asked, body⟩ := Prog.run_bind_eq_ok ran
  obtain ⟨given, same⟩ := onArenas_eq_ok asked
  cases result with
  | error reason =>
    obtain ⟨failed, -⟩ := Prod.mk.inj body
    nomatch failed
  | ok sectionData =>
    obtain ⟨satp, s₂, read, rest⟩ := Prog.run_bind_eq_ok body
    obtain ⟨found, rfl⟩ := Prod.mk.inj read
    obtain rfl := Except.ok.inj found
    obtain ⟨claimed, s₃, looped, done⟩ := Prog.run_bind_eq_ok rest
    obtain ⟨mapped, same'⟩ := Machine.onPmm_eq_ok looped
    obtain ⟨pair, rfl⟩ := Prod.mk.inj done
    obtain ⟨rfl, rfl⟩ := Prod.mk.inj (Except.ok.inj (Except.ok.inj pair))
    have arenas : s₃.arenas = s₁.arenas := by rw [same']
    have satp : s₁.satp = s.satp := by rw [same]
    have pmm : s₁.pmm = s.pmm := by rw [same]
    dsimp only at mapped
    rw [satp, pmm] at mapped
    exact ⟨arenas ▸ given, mapped, by rw [same', satp]⟩

/-- A size that has no more pages than the address space is no large number. -/
theorem ArenaReady.size_le {size : UInt64} (ready : ArenaReady platform s nodes known height)
    (fits : pageSteps size ≤ 512 ^ (height + 1)) : size.toNat ≤ 2 ^ 57 := by
  have deep : 512 ^ (height + 1) ≤ 512 ^ 5 :=
    Nat.pow_le_pow_right (by decide) (Nat.succ_le_succ ready.short)
  rw [pageSteps] at fits
  omega

/-- `Vmm::alloc`: its pages lead to the frames that it claimed, and the tables that it made are
frames of the list. -/
theorem Vmm.alloc_draws {size : UInt64} {strategy : Strategy}
    (ready : ArenaReady platform s nodes known height) (maps : flags.Maps)
    (fits : pageSteps size ≤ 512 ^ (height + 1))
    (ran : (vmm.alloc platform size strategy contiguous flags).run s = (.ok (.ok (base, phys)), s'))
    (remain : s.pmm.taken s'.pmm < nodes.length) :
    s'.satp = s.satp ∧ (vmm.arena.alloc size strategy).run s.arenas = (.ok (.ok base), s'.arenas) ∧
      ∃ claimed left later, claimed.length = pageSteps size ∧
        Allocated platform.hhdmOffset nodes height
          (currentTable platform.hhdmOffset s.satp) base flags
          claimed claimed left later s.pmm s'.pmm ∧
        (contiguous = true → ∃ claim, phys = some (claim - platform.hhdmOffset) ∧
          claimed = (framesFrom claim (pageSteps size)).reverse) ∧
        Drawn platform.hhdmOffset nodes height (currentTable platform.hhdmOffset s.satp) known later
          s.pmm s'.pmm := by
  rw [alloc] at ran
  obtain ⟨asked, looped, same⟩ := allocRange_eq_ok ran
  rw [pageSteps_framesOf (ready.size_le fits)] at looped
  refine ⟨same, asked, ?_⟩
  cases contiguous with
  | true =>
    obtain ⟨claim, left, later, result, allocated, drawn⟩ := @allocPages_run _ _ base nodes known
      height flags s.pmm s'.pmm _ _ (framesOf size) 0 _ _ ready.mapAligned ready.at_height
        ready.tall ready.short
      maps ready.stock ready.tree (toNat_framesOf size) (pageSteps_le size)
      (fun value step => by rw [UInt64.add_zero]; rfl) looped remain
    rw [UInt64.add_zero] at allocated
    exact ⟨_, left, later, by simp, allocated, fun _ => ⟨claim, result, rfl⟩, drawn⟩
  | false =>
    obtain ⟨claimed, left, later, length, allocated, drawn⟩ := allocPages_claims
      ready.mapAligned ready.at_height ready.tall ready.short maps ready.stock ready.tree
        (pageSteps_le size)
      (fun value step => rfl) looped remain
    exact ⟨claimed, left, later, length, allocated, fun other => absurd other Bool.false_ne_true,
      drawn⟩

/-- `Vmm::alloc_constrained` of frames that are claimed one by one. -/
theorem Vmm.allocConstrained_draws {layout : Layout} {strategy : Strategy}
    (ready : ArenaReady platform s nodes known height) (maps : flags.Maps)
    (ran : (vmm.allocConstrained platform layout strategy false flags).run s =
      (.ok (.ok (base, phys)), s'))
    (remain : s.pmm.taken s'.pmm < nodes.length) :
    s'.satp = s.satp ∧
      (vmm.arena.allocConstrained layout strategy).run s.arenas = (.ok (.ok base), s'.arenas) ∧
      ∃ claimed left later, claimed.length = pageSteps (vmm.arena.layoutSize layout) ∧
        Allocated platform.hhdmOffset nodes height
          (currentTable platform.hhdmOffset s.satp) base flags
          claimed claimed left later s.pmm s'.pmm ∧
        Drawn platform.hhdmOffset nodes height (currentTable platform.hhdmOffset s.satp) known later
          s.pmm s'.pmm := by
  rw [allocConstrained] at ran
  obtain ⟨asked, looped, same⟩ := allocRange_eq_ok ran
  exact ⟨same, asked, allocPages_claims ready.mapAligned ready.at_height ready.tall ready.short maps
    ready.stock ready.tree (pageSteps_le _) (fun value step => rfl) looped remain⟩

/-- A call whose range the address space has: its pages lead to the frames that it claimed, and the
tables that it made are frames of the list. A run of frames for `Vmm::alloc_constrained` is not
among these calls. -/
theorem AllocCall.draws (ready : ArenaReady platform s nodes known height) (maps : flags.Maps)
    (own : contiguous = true → call.shift = 0)
    (fits : pageSteps (call.size vmm) ≤ 512 ^ (height + 1))
    (ran : (call.run vmm platform contiguous flags).run s = (.ok (.ok (base, phys)), s'))
    (remain : s.pmm.taken s'.pmm < nodes.length) :
    s'.satp = s.satp ∧ (call.range vmm).run s.arenas = (.ok (.ok base), s'.arenas) ∧
      ∃ claimed left later, claimed.length = pageSteps (call.size vmm) ∧
        Allocated platform.hhdmOffset nodes height
          (currentTable platform.hhdmOffset s.satp) base flags
          claimed claimed left later s.pmm s'.pmm ∧
        Drawn platform.hhdmOffset nodes height (currentTable platform.hhdmOffset s.satp) known later
          s.pmm s'.pmm := by
  cases call with
  | alloc size strategy =>
    obtain ⟨same, asked, claimed, left, later, length, allocated, -, drawn⟩ :=
      Vmm.alloc_draws ready maps fits ran remain
    exact ⟨same, asked, claimed, left, later, length, allocated, drawn⟩
  | allocConstrained layout strategy =>
    cases contiguous with
    | true => exact absurd (own rfl) (by decide : (4096 : UInt64) ≠ 0)
    | false => exact Vmm.allocConstrained_draws ready maps ran remain

/-- `Vmm::alloc` of a range that its address space has: each page got a frame. -/
theorem Vmm.alloc_allocated {size : UInt64} {strategy : Strategy}
    (ready : ArenaReady platform s nodes known height)
    (inSpace : vmm.arena.InSpace platform.levels) (maps : flags.Maps)
    (ran : (vmm.alloc platform size strategy contiguous flags).run s = (.ok (.ok (base, phys)), s'))
    (remain : s.pmm.taken s'.pmm < nodes.length) :
    pageSteps size ≤ 512 ^ (height + 1) ∧ s'.satp = s.satp ∧
      (vmm.arena.alloc size strategy).run s.arenas = (.ok (.ok base), s'.arenas) ∧
      ∃ claimed left later, claimed.length = pageSteps size ∧
        Allocated platform.hhdmOffset nodes height
          (currentTable platform.hhdmOffset s.satp) base flags
          claimed claimed left later s.pmm s'.pmm ∧
        (contiguous = true → ∃ claim, phys = some (claim - platform.hhdmOffset) ∧
          claimed = (framesFrom claim (pageSteps size)).reverse) := by
  -- what the arena gave is in the address space
  have fits : pageSteps size ≤ 512 ^ (height + 1) := by
    rw [alloc] at ran
    have space := inSpace _ _ _ _ _ (allocRange_eq_ok ran).1
    rw [ready.levels] at space
    rw [pageSteps]
    omega
  obtain ⟨same, asked, claimed, left, later, length, allocated, run, -⟩ :=
    Vmm.alloc_draws ready maps fits ran remain
  exact ⟨fits, same, asked, claimed, left, later, length, allocated, run⟩

/-- `Vmm::alloc_constrained` of a run of frames: each page got the frame behind its own. -/
theorem Vmm.allocConstrained_allocated {layout : Layout} {strategy : Strategy}
    (ready : ArenaReady platform s nodes known height) (maps : flags.Maps)
    (ran : (vmm.allocConstrained platform layout strategy true flags).run s =
      (.ok (.ok (base, phys)), s'))
    (remain : s.pmm.taken s'.pmm < nodes.length) :
    s'.satp = s.satp ∧ ∃ claim left later, phys = some (claim - platform.hhdmOffset) ∧
      Allocated platform.hhdmOffset nodes height
        (currentTable platform.hhdmOffset s.satp) base flags
        (framesFrom claim (pageSteps (vmm.arena.layoutSize layout))).reverse
        (framesFrom (claim + 4096) (pageSteps (vmm.arena.layoutSize layout))).reverse
          left later s.pmm
        s'.pmm := by
  rw [allocConstrained] at ran
  obtain ⟨-, looped, same⟩ := allocRange_eq_ok ran
  obtain ⟨claim, left, later, result, allocated, -⟩ := allocPages_run ready.mapAligned
    ready.at_height ready.tall ready.short maps ready.stock ready.tree (toNat_framesOf _)
    (pageSteps_le _) (fun value step => rfl) looped remain
  exact ⟨same, claim, left, later, result, allocated⟩

end Calls

section Contiguous

variable {hhdm root base claim phys : UInt64} {level : PageLevel}
    {nodes claimed placed left : List UInt64}
  {known : Set Nat} {height count : Nat} {flags : PageFlags} {s s' : Pmm} {virt : VirtualAddress}

/-- A range goes to the physical addresses from one on, and its pages to a run of frames that were
taken out of the list. -/
structure MapsRun (hhdm : UInt64) (level : PageLevel) (root base : UInt64) (phys : PhysicalAddress)
    (size : UInt64) (s s' : Pmm) : Prop where
  /-- Each address goes where it lies in the range. -/
  goes : ∀ offset < size.toNat, translate hhdm level root s' (base + UInt64.ofNat offset) =
    .ok (.ok (phys + UInt64.ofNat offset))
  /-- Each page goes to a frame of the run, which was claimed. -/
  claimed : ∀ step < pageSteps size, ∃ frame ∈ framesFrom (phys + hhdm) (pageSteps size),
    translate hhdm level root s' (pageAt base step) = .ok (.ok (frame - hhdm)) ∧
      frame ∈ s.entries ∧ frame ∉ s'.entries

/-- Where the leaf of a small page sends an address. -/
theorem resultOf_small (phys : PhysicalAddress) (flags : PageFlags) (virt : VirtualAddress) :
    resultOf virt (some (1, leafEntry phys flags)) =
      .ok ((leafEntry phys flags).getPpn <<< 12 + virt % 4096) := by
  have at_height : PageLevel.level1.asUsize = 0 + 1 := rfl
  have aligned : ((leafEntry phys flags).getPpn <<< 12) %
      (PageSize.fromLevel .level1).bytes = 0 := by
    apply UInt64.toNat_inj.mp
    rw [UInt64.toNat_mod, toNat_leafEntry_page, PageSize.toNat_bytes at_height]
    exact Nat.mul_mod_left _ _
  exact congrArg Except.ok (page_or_offset at_height aligned)

/-- An address of a page of an aligned range, and its offset in the page. -/
theorem pageAt_offset (aligned : base % 4096 = 0) {offset : Nat} (short : offset < 2 ^ 64) :
    SamePath 1 height (pageAt base (offset / 4096)).path
        (VirtualAddress.path (base + UInt64.ofNat offset)) ∧
      UInt64.ofNat (offset / 4096 * 0x1000) + (base + UInt64.ofNat offset) % 4096 =
        UInt64.ofNat offset := by
  have page : base.toNat % 4096 = 0 := congrArg UInt64.toNat aligned
  have bytes : (4096 : UInt64).toNat = 4096 := rfl
  constructor
  · apply samePath_of_page
    rw [page_pageAt, UInt64.toNat_add, UInt64.toNat_ofNat']
    omega
  · apply UInt64.toNat_inj.mp
    rw [UInt64.toNat_add, UInt64.toNat_mod, UInt64.toNat_add, UInt64.toNat_ofNat',
      UInt64.toNat_ofNat', bytes]
    omega

/-- The physical address of a frame in the direct map is a page. -/
theorem IsFrame.physical {frame : UInt64} (isFrame : IsFrame frame) (mapAligned : hhdm % 4096 = 0)
    (above : hhdm ≤ frame) : (frame - hhdm).toNat % 4096 = 0 := by
  have page : frame.toNat % 4096 = 0 := congrArg UInt64.toNat isFrame.aligned
  have start : hhdm.toNat % 4096 = 0 := congrArg UInt64.toNat mapAligned
  have number := UInt64.le_iff_toNat_le.mp above
  rw [UInt64.toNat_sub_of_le _ _ above]
  omega

/-- The address of a frame of the list is a page, and short. -/
theorem Stock.physical {pages : Set UInt64} {frame : UInt64} (stock : Stock hhdm pages s nodes)
    (mapAligned : hhdm % 4096 = 0) (member : frame ∈ nodes) :
    (frame - hhdm).toNat % 4096 = 0 ∧ (frame - hhdm).toNat < 2 ^ 56 := by
  obtain ⟨above, short⟩ := stock.inMap frame member
  exact ⟨(stock.holds.frames frame member).physical mapAligned above, short⟩

/-- Where each page went to its own frame of a run, the range goes to the run. -/
theorem Allocated.mapsRun {size : UInt64} (mapAligned : hhdm % 4096 = 0)
    (at_height : level.asUsize = height + 1) (short : height ≤ 4) (maps : flags.Maps)
    (stock : Stock hhdm (pagesBeside nodes) s nodes) (aligned : base % 4096 = 0)
    (fits : pageSteps size ≤ 512 ^ (height + 1))
    (allocated : Allocated hhdm nodes height root base flags
    (framesFrom claim (pageSteps size)).reverse
      (framesFrom claim (pageSteps size)).reverse left known s s') :
    MapsRun hhdm level root base (claim - hhdm) size s s' := by
  have goes : ∀ offset < 2 ^ 64, offset / 4096 < pageSteps size →
      translate hhdm level root s' (base + UInt64.ofNat offset) =
        .ok (.ok (claim - hhdm + UInt64.ofNat offset)) := by
    intro offset small bound
    obtain ⟨along, inside⟩ := @pageAt_offset base (height + 1) aligned offset small
    obtain ⟨newer, parts⟩ := reverse_framesFrom_at claim bound
    have length : (framesFrom claim (pageSteps size)).reverse.length ≤ 512 ^ (height + 1) := by
      rw [List.length_reverse, framesFrom_length]
      exact fits
    have older : (framesFrom claim (offset / 4096)).reverse.length = offset / 4096 := by simp
    have member : claim + UInt64.ofNat (offset / 4096 * 0x1000) ∈ nodes := by
      apply allocated.listed
      rw [parts]
      exact List.mem_append_right _ List.mem_cons_self
    obtain ⟨page, fits⟩ := stock.physical mapAligned member
    rw [allocated.tree.translate_eq at_height, allocated.walks,
      leafAfter_page (by omega) length parts (older.symm ▸ along), resultOf_small,
      (leafEntry_spec maps page fits).2, ← inside]
    congr 2
    grind
  refine ⟨fun offset bound => goes offset (bound.trans size.toNat_lt) ?_, fun step bound => ?_⟩
  · rw [pageSteps]
    omega
  · have steps := pageSteps_le size
    have place := goes (step * 0x1000) (by omega) (by omega)
    obtain ⟨newer, parts⟩ := reverse_framesFrom_at claim bound
    have member : claim + UInt64.ofNat (step * 0x1000) ∈
        (framesFrom claim (pageSteps size)).reverse := by
      rw [parts]
      exact List.mem_append_right _ List.mem_cons_self
    have run : claim - hhdm + hhdm = claim := by grind
    refine ⟨claim + UInt64.ofNat (step * 0x1000), ?_, ?_, ?_, ?_⟩
    · rw [run]
      exact List.mem_reverse.mp member
    · rw [pageAt, place]
      congr 2
      grind
    · rw [stock.holds.entries]
      exact allocated.listed _ member
    · rw [allocated.stock.holds.entries]
      exact fun old => allocated.leftApart _ old member

/-- Where each page went to the frame behind its own, the last page does not go to the run. -/
theorem Allocated.misses {size : UInt64} (mapAligned : hhdm % 4096 = 0)
    (at_height : level.asUsize = height + 1)
    (stock : Stock hhdm (pagesBeside nodes) s nodes) (aligned : base % 4096 = 0) (sized : 0 < size)
    (allocated : Allocated hhdm nodes height root base flags
    (framesFrom claim (pageSteps size)).reverse
      (framesFrom (claim + 4096) (pageSteps size)).reverse left known s s') :
    ¬ MapsRun hhdm level root base (claim - hhdm) size s s' := by
  intro run
  have positive : 0 < size.toNat := UInt64.lt_iff_toNat_lt.mp sized
  obtain ⟨last, whole⟩ : ∃ last, pageSteps size = last + 1 :=
    ⟨pageSteps size - 1, by rw [pageSteps]; omega⟩
  have inside : last * 0x1000 < size.toNat := by
    rw [pageSteps] at whole
    omega
  have found := run.goes _ inside
  have small : last * 0x1000 < 2 ^ 64 := inside.trans size.toNat_lt
  obtain ⟨along, offset⟩ := @pageAt_offset base (height + 1) aligned _ small
  have step : last * 0x1000 / 4096 = last := Nat.mul_div_cancel last (by decide)
  rw [step] at along offset
  have older : (framesFrom (claim + 4096) last).reverse.length = last := by simp
  have member : claim + UInt64.ofNat (last * 0x1000) ∈ nodes := by
    apply allocated.listed
    rw [whole, reverse_framesFrom_succ]
    exact List.mem_cons_self
  obtain ⟨page, short⟩ := stock.physical mapAligned member
  have next : claim + 4096 + UInt64.ofNat (last * 0x1000) - hhdm =
      claim + UInt64.ofNat (last * 0x1000) - hhdm + 4096 := by grind
  have goes : claim - hhdm + UInt64.ofNat (last * 0x1000) =
      claim + UInt64.ofNat (last * 0x1000) - hhdm := by grind
  have start : (base + UInt64.ofNat (last * 0x1000)) % 4096 = 0 := by grind
  rw [allocated.tree.translate_eq at_height, allocated.walks, whole, reverse_framesFrom_succ,
    leafAfter_last (older.symm ▸ along), resultOf_small, next, goes, start,
      UInt64.add_zero] at found
  have same := congrArg UInt64.toNat (Except.ok.inj (Except.ok.inj found))
  have bytes : (4096 : UInt64).toNat = 4096 := rfl
  rw [toNat_leafEntry_page, UInt64.toNat_add, bytes] at same
  omega

end Contiguous

section Calls

variable {V Strategy Layout : Type} {vmm : Vmm V Strategy Layout} {platform : Platform V}
  {call : AllocCall Strategy Layout} {base phys : UInt64} {flags : PageFlags} {s s' : Machine V}
  {nodes : List UInt64} {known : Set Nat} {height : Nat}

/-- A physically contiguous allocation maps its range to the frames that it reports exactly when it
is one of `Vmm::alloc`; `Vmm::alloc_constrained` maps each page to the frame behind its own. -/
theorem contiguous_iff (ready : ArenaReady platform s nodes known height)
    (inSpace : vmm.arena.InSpace platform.levels) (maps : flags.Maps) (aligned : base % 4096 = 0)
    (positive : 0 < call.size vmm)
    (ran : (call.run vmm platform true flags).run s = (.ok (.ok (base, some phys)), s'))
    (remain : s.pmm.taken s'.pmm < nodes.length) :
    MapsRun platform.hhdmOffset (.fromUsize platform.levels)
        (currentTable platform.hhdmOffset s'.satp) base phys (call.size vmm) s.pmm s'.pmm ↔
      ∃ size strategy, call = .alloc size strategy := by
  cases call with
  | alloc size strategy =>
    refine ⟨fun _ => ⟨size, strategy, rfl⟩, fun _ => ?_⟩
    obtain ⟨fits, same, -, claimed, left, later, -, allocated, run⟩ :=
      Vmm.alloc_allocated ready inSpace maps ran remain
    obtain ⟨claim, reported, rfl⟩ := run rfl
    obtain rfl := Option.some.inj reported
    rw [same]
    exact allocated.mapsRun ready.mapAligned ready.at_height ready.short maps
      ready.stock aligned fits
  | allocConstrained layout strategy =>
    obtain ⟨same, claim, left, later, reported, allocated⟩ :=
      Vmm.allocConstrained_allocated ready maps ran remain
    obtain rfl := Option.some.inj reported
    constructor
    · intro run
      rw [same] at run
      exact absurd run
        (allocated.misses ready.mapAligned ready.at_height ready.stock aligned positive)
    · rintro ⟨size, strategy, other⟩
      nomatch other

end Calls

section Sample

open FreeList (sampleMap)

/-- An arena that gives two pages. -/
def pairVmm : Vmm UInt64 Unit UInt64 where
  arena := {
    alloc := fun size _ => pure (if size = 0x2000 then .ok 0x40000000 else .error "no memory")
    free := fun _ _ => pure ()
    layoutSize := id
    allocConstrained := fun size _ =>
      pure (if size = 0x2000 then .ok 0x40000000 else .error "no memory")
    freeConstrained := fun _ _ => pure () }

/-- Its ranges are short. -/
theorem pairVmm_inSpace : pairVmm.arena.InSpace 3 := by
  intro size strategy v v' base served
  have outcome : ((.ok (if size = 0x2000 then .ok 0x40000000 else .error "no memory"), v) :
      Except Stop (Except String UInt64) × UInt64) = (.ok (.ok base), v') := served
  split at outcome
  · next page =>
    subst page
    decide
  · nomatch outcome

/-- A machine whose table is empty, with five frames in its list. -/
theorem heapMachine_ready :
    ArenaReady (pagePlatform sampleMap) (heapMachine sampleMap) (heapNodes sampleMap) ∅ 2 where
  mapAligned := by decide
  levels := rfl
  tall := by decide
  short := by decide
  stock := heapMachine_stock (.inr rfl)
  tree := heapMachine_tree (.inr rfl) (by decide) (by decide)

/-- Two pages in a run. -/
theorem contiguous_pair : ∃ s', (pairVmm.alloc (pagePlatform sampleMap) 0x2000 () true .read).run
      (heapMachine sampleMap) = (.ok (.ok (0x40000000, some 0x80000000)), s') ∧
    MapsRun sampleMap (.fromUsize 3) (currentTable sampleMap s'.satp) 0x40000000 0x80000000 0x2000
      (heapMachine sampleMap).pmm s'.pmm := by
  let outcome := (pairVmm.alloc (pagePlatform sampleMap) 0x2000 () true .read).run
    (heapMachine sampleMap)
  have ran : outcome = (.ok (.ok (0x40000000, some 0x80000000)), outcome.2) :=
    Prod.ext (by decide +kernel) rfl
  have remain : (heapMachine sampleMap).pmm.taken outcome.2.pmm < (heapNodes sampleMap).length := by
    decide +kernel
  have whole := @contiguous_iff UInt64 Unit UInt64 pairVmm (pagePlatform sampleMap)
    (.alloc 0x2000 ())
    0x40000000 0x80000000 .read (heapMachine sampleMap) outcome.2 (heapNodes sampleMap) ∅ 2
    heapMachine_ready pairVmm_inSpace rfl (by decide) (by decide) ran remain
  exact ⟨outcome.2, ran, whole.mpr ⟨_, _, rfl⟩⟩

/-- A run of two pages of `Vmm::alloc_constrained` does not go to the frames that it reports: its
second page goes to a frame that has become a table. -/
theorem constrained_misses :
    ArenaReady (pagePlatform sampleMap) (heapMachine sampleMap) (heapNodes sampleMap) ∅ 2 ∧ ∃ s',
    (pairVmm.allocConstrained (pagePlatform sampleMap) 0x2000 () true .read).run
        (heapMachine sampleMap) = (.ok (.ok (0x40000000, some 0x80000000)), s') ∧
      translate sampleMap (.fromUsize 3) (currentTable sampleMap s'.satp) s'.pmm 0x40000000 =
        .ok (.ok 0x80001000) ∧
      translate sampleMap (.fromUsize 3) (currentTable sampleMap s'.satp) s'.pmm 0x40001000 =
        .ok (.ok 0x80002000) ∧
      ¬ MapsRun sampleMap (.fromUsize 3)
        (currentTable sampleMap s'.satp) 0x40000000 0x80000000 0x2000
        (heapMachine sampleMap).pmm s'.pmm := by
  let outcome := (pairVmm.allocConstrained (pagePlatform sampleMap) 0x2000 () true .read).run
    (heapMachine sampleMap)
  have ran : outcome = (.ok (.ok (0x40000000, some 0x80000000)), outcome.2) :=
    Prod.ext (by decide +kernel) rfl
  have first : translate sampleMap (.fromUsize 3) (currentTable sampleMap outcome.2.satp)
      outcome.2.pmm 0x40000000 = .ok (.ok 0x80001000) := by decide +kernel
  refine ⟨heapMachine_ready, outcome.2, ran, first, by decide +kernel, fun run => ?_⟩
  have start := run.goes 0 (by decide)
  have goes : (.ok (.ok 0x80001000) : Except Stop (Except String PhysicalAddress)) =
      .ok (.ok 0x80000000) := first.symm.trans start
  exact absurd goes (by decide)

end Sample

end Lsd
