import Lsd.Lib.Transition
import Lsd.Verif.ArenaFree

/-!
# Allocations that live together

Runs of the functions of `Vmm` on one table, in any order: ranges are allocated, and
each is freed at some time or not. The arena counts bytes and the tables count
pages, so two ranges that it gives may lie on one page. As long as they do not, every
live range keeps its pages and its frames, whatever is allocated and freed beside it.
-/

namespace Lsd

open Program Radix

namespace AllocCall

variable {V Strategy Layout : Type} (vmm : Vmm V Strategy Layout) (platform : Platform V)

/-- The function of the arena that takes back what a call got. -/
def giveBack (base : UInt64) : AllocCall Strategy Layout → Kernel V Unit
  | alloc size _ => vmm.arena.free base size
  | allocConstrained layout _ => vmm.arena.freeConstrained base (vmm.arena.layoutSize layout)

/-- The function that frees what a call allocated. -/
def free (base : UInt64) : AllocCall Strategy Layout → Kernel (Machine V) Unit
  | alloc size _ => vmm.free platform base size
  | allocConstrained layout _ => vmm.freeConstrained platform base (vmm.arena.layoutSize layout)

/-- Both of them give the range back, and then free its pages. -/
theorem free_eq (base : UInt64) (call : AllocCall Strategy Layout) :
    call.free vmm platform base = (do
      onArenas (call.giveBack vmm base)
      Vmm.freePages platform base (call.size vmm)) := by
  cases call <;> rfl

end AllocCall

/-- An allocation that was not freed yet. -/
structure Lease (Strategy Layout : Type) where
  /-- The call that made it. -/
  call : AllocCall Strategy Layout
  /-- The address that the call returned. -/
  base : UInt64
  /-- The flags of its pages. -/
  flags : PageFlags

/-- A machine with the allocations that live on its table. -/
structure Leasing (V Strategy Layout : Type) where
  /-- The machine. -/
  machine : Machine V
  /-- The allocations, the latest first. -/
  leases : List (Lease Strategy Layout)

/-- The calls of a run. -/
inductive ArenaOp (Strategy Layout : Type) where
  /-- A call of `Vmm::alloc` or `Vmm::alloc_constrained`. -/
  | alloc (call : AllocCall Strategy Layout) (physicallyContiguous : Bool) (flags : PageFlags)
  /-- A call of `Vmm::free` or `Vmm::free_constrained`. -/
  | free (lease : Lease Strategy Layout)

namespace Lease

variable {V Strategy Layout : Type} (vmm : Vmm V Strategy Layout) (platform : Platform V)
  (lease : Lease Strategy Layout)

/-- An address lies in one of the pages that the call mapped. -/
def Covers (height : Nat) (virt : VirtualAddress) : Prop :=
  ∃ step < pageSteps (lease.call.size vmm),
    SamePath 1 (height + 1) (pageAt lease.base step).path virt.path

/-- An allocation is placed where it disturbs no other one. -/
structure Placed (height : Nat) (leases : List (Lease Strategy Layout)) : Prop where
  /-- The range has no more pages than its size. -/
  whole : lease.base.toNat % 4096 + (lease.call.size vmm).toNat ≤
    pageSteps (lease.call.size vmm) * 4096
  /-- The address space has that many pages. -/
  inSpace : pageSteps (lease.call.size vmm) ≤ 512 ^ (height + 1)
  /-- None of them is a page of a live allocation. -/
  apart : ∀ other ∈ leases, ∀ virt, lease.Covers vmm height virt → ¬ other.Covers vmm height virt

/-- Where a byte of an allocation goes. -/
def byteGoes (offset : Nat) (s : Machine V) : Except Stop (Except String PhysicalAddress) :=
  translate platform.hhdmOffset (.fromUsize platform.levels)
    (currentTable platform.hhdmOffset s.satp) s.pmm (lease.base + UInt64.ofNat offset)

/-- Two allocations share no page, neither one of addresses nor one of memory. -/
def Beside (height : Nat) (s : Machine V) (other : Lease Strategy Layout) : Prop :=
  (∀ virt, lease.Covers vmm height virt → ¬ other.Covers vmm height virt) ∧
    ∀ first < (lease.call.size vmm).toNat, ∀ second < (other.call.size vmm).toNat,
      ∀ phys phys', lease.byteGoes platform first s = .ok (.ok phys) →
        other.byteGoes platform second s = .ok (.ok phys') → phys / 4096 ≠ phys' / 4096

end Lease

/-- A call that returns. What is allocated has a size and an access, and what is freed was allocated
before, and not freed since. -/
inductive Leasing.Next {V Strategy Layout : Type} (vmm : Vmm V Strategy Layout)
    (platform : Platform V) (before : Leasing V Strategy Layout) :
    ArenaOp Strategy Layout → Leasing V Strategy Layout → Prop
  /-- The call returned a range. -/
  | allocated {call : AllocCall Strategy Layout} {physicallyContiguous : Bool} {flags : PageFlags}
      {base : UInt64} {phys : Option PhysicalAddress} {machine : Machine V} :
      0 < call.size vmm → flags.Maps →
      (call.run vmm platform physicallyContiguous flags).run before.machine =
        (.ok (.ok (base, phys)), machine) →
      Next vmm platform before (.alloc call physicallyContiguous flags)
        ⟨machine, ⟨call, base, flags⟩ :: before.leases⟩
  /-- The arena had no range. -/
  | refused {call : AllocCall Strategy Layout} {physicallyContiguous : Bool} {flags : PageFlags}
      {reason : String} {machine : Machine V} :
      (call.run vmm platform physicallyContiguous flags).run before.machine =
        (.ok (.error reason), machine) →
      Next vmm platform before (.alloc call physicallyContiguous flags) ⟨machine, before.leases⟩
  /-- An allocation was freed. -/
  | freed {lease : Lease Strategy Layout} {pre post : List (Lease Strategy Layout)}
      {machine : Machine V} :
      before.leases = pre ++ lease :: post →
      (lease.call.free vmm platform lease.base).run before.machine = (.ok (), machine) →
      Next vmm platform before (.free lease) ⟨machine, pre ++ post⟩

/-- A call that disturbs no live allocation: a range lies on pages of its own, it is no run of
frames of `Vmm::alloc_constrained`, which maps the wrong frames, and a frame is left in the list. -/
def Leasing.Careful {V Strategy Layout : Type} (vmm : Vmm V Strategy Layout)
    (platform : Platform V) (height : Nat) (before : Leasing V Strategy Layout)
    (op : ArenaOp Strategy Layout) (after : Leasing V Strategy Layout) : Prop :=
  Leasing.Next vmm platform before op after ∧
    match op with
    | .alloc call physicallyContiguous _ =>
      (physicallyContiguous = true → call.shift = 0) ∧
        before.machine.pmm.taken after.machine.pmm < before.machine.pmm.entries.length ∧
          ∀ lease, after.leases = lease :: before.leases → lease.Placed vmm height before.leases
    | .free _ => True

/-- An allocation and its frames, the one of its last page first. -/
structure LiveRange (Strategy Layout : Type) where
  /-- The allocation. -/
  lease : Lease Strategy Layout
  /-- Its frames. -/
  frames : List UInt64

/-- The frames of all allocations. -/
def liveFrames {Strategy Layout : Type} (ranges : List (LiveRange Strategy Layout)) : List UInt64 :=
  ranges.flatMap LiveRange.frames

/-- The tree and the list while allocations live: each page of them leads to a frame of its own. -/
structure Leased {V Strategy Layout : Type} (vmm : Vmm V Strategy Layout) (hhdm : UInt64)
    (height : Nat) (root : UInt64) (ranges : List (LiveRange Strategy Layout)) (left : List UInt64)
    (known : Set Nat) (p : Pmm) : Prop where
  /-- The list is well formed. -/
  stock : Stock hhdm (pagesBeside left) p left
  /-- The entries of the root are known or blank. -/
  tree : RootTree hhdm known (pagesBeside left) height root p.memory
  /-- The frames of the allocations are frames. -/
  frames : ∀ frame ∈ liveFrames ranges, IsFrame frame
  /-- They lie in the direct map. -/
  inMap : ∀ frame ∈ liveFrames ranges, hhdm ≤ frame ∧ (frame - hhdm).toNat < 2 ^ 56
  /-- They differ. -/
  nodup : (liveFrames ranges).Nodup
  /-- None of them is free. -/
  leftApart : ∀ frame ∈ left, frame ∉ liveFrames ranges
  /-- None is a table. -/
  apart : ∀ frame ∈ liveFrames ranges, frame ∉ footprint (slots hhdm p.memory) 512 known height root
  /-- Every page has a frame. -/
  paged : ∀ range ∈ ranges, range.frames.length = pageSteps (range.lease.call.size vmm)
  /-- The address space has that many pages. -/
  fits : ∀ range ∈ ranges, range.frames.length ≤ 512 ^ (height + 1)
  /-- The pages lie under the whole range. -/
  whole : ∀ range ∈ ranges, range.lease.base.toNat % 4096 + (range.lease.call.size vmm).toNat ≤
    pageSteps (range.lease.call.size vmm) * 4096
  /-- They have a permission. -/
  maps : ∀ range ∈ ranges, range.lease.flags.Maps
  /-- Each leads to its frame. -/
  leads : ∀ range ∈ ranges, ∀ newer frame older, range.frames = newer ++ frame :: older →
    ∀ virt : VirtualAddress,
      SamePath 1 (height + 1) (pageAt range.lease.base older.length).path virt.path →
        leafOf hhdm p.memory (height + 1) root virt =
          some (1, leafEntry (frame - hhdm) range.lease.flags)

section Leased

variable {V Strategy Layout : Type} {vmm : Vmm V Strategy Layout} {hhdm root base : UInt64}
  {height : Nat} {nodes left later claimed : List UInt64} {known more : Set Nat} {p q : Pmm}
  {ranges pre post : List (LiveRange Strategy Layout)} {range other : LiveRange Strategy Layout}
  {call : AllocCall Strategy Layout} {flags : PageFlags} {virt : VirtualAddress} {level : PageLevel}

/-- The frames of an allocation are frames of the allocations. -/
theorem mem_liveFrames {frame : UInt64} (member : range ∈ ranges) (inside : frame ∈ range.frames) :
    frame ∈ liveFrames ranges := List.mem_flatMap.mpr ⟨range, member, inside⟩

/-- Before the first call. -/
theorem Leased.start (stock : Stock hhdm (pagesBeside nodes) p nodes)
    (tree : RootTree hhdm known (pagesBeside nodes) height root p.memory) :
    Leased vmm hhdm height root [] nodes known p := by
  constructor
  case stock => exact stock
  case tree => exact tree
  case nodup => exact List.nodup_nil
  case leftApart => exact fun _ _ => List.not_mem_nil
  all_goals exact fun _ member => absurd member List.not_mem_nil

/-- A byte of an allocation lies in one of its pages. -/
theorem Lease.covers_byte {lease : Lease Strategy Layout}
    (whole : lease.base.toNat % 4096 + (lease.call.size vmm).toNat ≤
      pageSteps (lease.call.size vmm) * 4096)
    {offset : Nat} (bound : offset < (lease.call.size vmm).toNat) :
    lease.Covers vmm height (lease.base + UInt64.ofNat offset) := by
  refine ⟨(lease.base.toNat % 4096 + offset) / 4096, by omega, samePath_of_page ?_⟩
  have base := lease.base.toNat_lt
  have small := (lease.call.size vmm).toNat_lt
  rw [page_pageAt, UInt64.toNat_add, UInt64.toNat_ofNat']
  omega

/-- Ranges that begin at pages of the address space and share no byte share no page. -/
theorem Lease.placed {lease : Lease Strategy Layout} {leases : List (Lease Strategy Layout)}
    (short : height ≤ 4) (aligned : lease.base % 4096 = 0)
    (inSpace : lease.base.toNat + (lease.call.size vmm).toNat ≤ 4096 * 512 ^ (height + 1))
    (others : ∀ other ∈ leases, other.base % 4096 = 0 ∧
      other.base.toNat + (other.call.size vmm).toNat ≤ 4096 * 512 ^ (height + 1) ∧
      (other.base.toNat + (other.call.size vmm).toNat ≤ lease.base.toNat ∨
        lease.base.toNat + (lease.call.size vmm).toNat ≤ other.base.toNat)) :
    lease.Placed vmm height leases := by
  have start : lease.base.toNat % 4096 = 0 := congrArg UInt64.toNat aligned
  have deep : 512 ^ (height + 1) ≤ 512 ^ 5 :=
    Nat.pow_le_pow_right (by decide) (Nat.succ_le_succ short)
  constructor
  case whole =>
    rw [pageSteps]
    omega
  case inSpace =>
    rw [pageSteps]
    omega
  case apart =>
    rintro other member virt ⟨step, bound, along⟩ ⟨step', bound', along'⟩
    obtain ⟨aligned', inSpace', disjoint⟩ := others other member
    have start' : other.base.toNat % 4096 = 0 := congrArg UInt64.toNat aligned'
    have pages := page_eq_of_samePath (along.trans along'.symm)
    rw [pageSteps] at bound bound'
    rw [page_pageAt, page_pageAt, Nat.mod_eq_of_lt (by omega), Nat.mod_eq_of_lt (by omega),
      Nat.mod_eq_of_lt (by omega), Nat.mod_eq_of_lt (by omega)] at pages
    omega

/-- An address of a page of an allocation leads to the frame of the page. -/
theorem Leased.covered (leased : Leased vmm hhdm height root ranges left known p)
    (member : range ∈ ranges) (covers : range.lease.Covers vmm height virt) :
    ∃ frame ∈ range.frames, leafOf hhdm p.memory (height + 1) root virt =
      some (1, leafEntry (frame - hhdm) range.lease.flags) := by
  obtain ⟨step, bound, along⟩ := covers
  rw [← leased.paged range member] at bound
  -- the frame of the page has the frames of the pages before it behind it
  have split := List.take_append_drop (range.frames.length - (step + 1)) range.frames
  have length : (range.frames.drop (range.frames.length - (step + 1))).length = step + 1 := by
    rw [List.length_drop]
    omega
  obtain ⟨frame, older, rest⟩ := List.exists_cons_of_length_eq_add_one length
  rw [rest] at split length
  have older' : older.length = step := by simpa using length
  refine ⟨frame, ?_, leased.leads range member _ frame older split.symm virt (older' ▸ along)⟩
  rw [← split]
  exact List.mem_append_right _ List.mem_cons_self

/-- The page of a frame of an allocation. -/
theorem Leased.page (leased : Leased vmm hhdm height root ranges left known p)
    (mapAligned : hhdm % 4096 = 0) (member : range ∈ ranges) {frame : UInt64}
    (inside : frame ∈ range.frames) : (frame - hhdm).toNat % 4096 = 0 ∧
      (leafEntry (frame - hhdm) range.lease.flags).getPpn <<< 12 = frame - hhdm := by
  have listed := mem_liveFrames member inside
  obtain ⟨above, short⟩ := leased.inMap frame listed
  have page := (leased.frames frame listed).physical mapAligned above
  exact ⟨page, (leafEntry_spec (leased.maps range member) page short).2⟩

/-- An address of a page of an allocation goes to the frame of the page. -/
theorem Leased.goes (leased : Leased vmm hhdm height root ranges left known p)
    (mapAligned : hhdm % 4096 = 0) (at_height : level.asUsize = height + 1)
    (member : range ∈ ranges) (covers : range.lease.Covers vmm height virt) :
    ∃ frame ∈ range.frames,
      translate hhdm level root p virt = .ok (.ok (frame - hhdm + virt % 4096)) := by
  obtain ⟨frame, inside, leaf⟩ := leased.covered member covers
  refine ⟨frame, inside, ?_⟩
  rw [leased.tree.translate_eq at_height, leaf, resultOf_small,
    (leased.page mapAligned member inside).2]

/-- Allocations with frames of their own have pages of their own. -/
theorem Leased.beside (leased : Leased vmm hhdm height root ranges left known p)
    (mapAligned : hhdm % 4096 = 0) (member : range ∈ ranges) (listed : other ∈ ranges)
    (apart : ∀ frame ∈ range.frames, frame ∉ other.frames)
    (covers : range.lease.Covers vmm height virt) : ¬ other.lease.Covers vmm height virt := by
  intro both
  obtain ⟨frame, inside, leaf⟩ := leased.covered member covers
  obtain ⟨frame', inside', leaf'⟩ := leased.covered listed both
  rw [leaf] at leaf'
  obtain ⟨-, same⟩ := Prod.mk.inj (Option.some.inj leaf')
  have first := (leased.page mapAligned member inside).2
  rw [same, (leased.page mapAligned listed inside').2] at first
  have equal : frame' = frame := by grind
  exact apart frame inside (equal ▸ inside')

/-- Each of several allocations has frames of its own. -/
theorem Leased.pairwise (leased : Leased vmm hhdm height root ranges left known p) :
    ranges.Pairwise fun range other => ∀ frame ∈ range.frames, frame ∉ other.frames :=
  (List.nodup_flatMap.mp leased.nodup).2.imp fun disjoint _ inside listed => disjoint inside listed

/-- A range is allocated on pages of its own: the other allocations stay as they are. -/
theorem Leased.allocated (leased : Leased vmm hhdm height root ranges left known p)
    (allocated : Allocated hhdm left height root base flags claimed claimed later more p q)
    (drawn : Drawn hhdm left height root known more p q) (maps : flags.Maps) (short : height ≤ 4)
    (length : claimed.length = pageSteps (call.size vmm))
    (placed : Lease.Placed vmm ⟨call, base, flags⟩ height (ranges.map LiveRange.lease)) :
    Leased vmm hhdm height root (⟨⟨call, base, flags⟩, claimed⟩ :: ranges) later more q ∧
      ∀ range ∈ ranges, ∀ virt, range.lease.Covers vmm height virt →
        leafOf hhdm q.memory (height + 1) root virt =
          leafOf hhdm p.memory (height + 1) root virt := by
  have fits : claimed.length ≤ 512 ^ (height + 1) := length ▸ placed.inSpace
  -- no page of another allocation is placed again
  have still : ∀ range ∈ ranges, ∀ virt, range.lease.Covers vmm height virt →
      leafOf hhdm q.memory (height + 1) root virt =
        leafOf hhdm p.memory (height + 1) root virt := by
    intro range member virt covers
    rw [allocated.walks]
    refine leafAfter_beside fun step bound along => ?_
    rw [length] at bound
    exact placed.apart _ (List.mem_map_of_mem member) virt ⟨step, bound, along⟩ covers
  have split : ∀ frame, frame ∈ liveFrames (⟨⟨call, base, flags⟩, claimed⟩ :: ranges) ↔
      frame ∈ claimed ∨ frame ∈ liveFrames ranges := by
    intro frame
    rw [liveFrames, List.flatMap_cons, List.mem_append]
    rfl
  have fresh : ∀ frame ∈ liveFrames ranges, frame ∉ left := fun frame live free =>
    leased.leftApart frame free live
  refine ⟨?_, still⟩
  constructor
  case stock => exact allocated.stock
  case tree => exact allocated.tree
  case frames =>
    intro frame member
    rcases (split frame).mp member with new | old
    · exact leased.stock.holds.frames frame (allocated.listed frame new)
    · exact leased.frames frame old
  case inMap =>
    intro frame member
    rcases (split frame).mp member with new | old
    · exact leased.stock.inMap frame (allocated.listed frame new)
    · exact leased.inMap frame old
  case nodup =>
    rw [liveFrames, List.flatMap_cons]
    refine List.nodup_append.mpr ⟨allocated.nodup, leased.nodup, ?_⟩
    rintro frame new _ old rfl
    exact fresh frame old (allocated.listed frame new)
  case leftApart =>
    intro frame free member
    rcases (split frame).mp member with new | old
    · exact allocated.leftApart frame free new
    · exact fresh frame old (allocated.remains frame free)
  case apart =>
    intro frame member table
    rcases (split frame).mp member with new | old
    · exact allocated.apart frame new table
    · rcases drawn.made table with before | listed
      · exact leased.apart frame old before
      · exact fresh frame old listed
  case paged => exact List.forall_mem_cons.mpr ⟨length, leased.paged⟩
  case fits => exact List.forall_mem_cons.mpr ⟨fits, leased.fits⟩
  case whole => exact List.forall_mem_cons.mpr ⟨placed.whole, leased.whole⟩
  case maps => exact List.forall_mem_cons.mpr ⟨maps, leased.maps⟩
  case leads =>
    refine List.forall_mem_cons.mpr ⟨fun newer frame older parts virt along => ?_,
      fun range member newer frame older parts virt along => ?_⟩
    · rw [allocated.walks]
      exact leafAfter_page (Nat.succ_le_succ short) fits parts along
    · have bound : older.length < range.frames.length := by
        rw [parts, List.length_append, List.length_cons]
        omega
      rw [leased.paged range member] at bound
      rw [still range member virt ⟨_, bound, along⟩]
      exact leased.leads range member newer frame older parts virt along

/-- An allocation that lives can be freed. -/
theorem Leased.lent (leased : Leased vmm hhdm height root ranges left known p)
    (member : range ∈ ranges) :
    Lent hhdm height root range.lease.base range.lease.flags range.frames left known p where
  fits := leased.fits range member
  stock := leased.stock
  tree := leased.tree
  frames _ inside := leased.frames _ (mem_liveFrames member inside)
  inMap _ inside := leased.inMap _ (mem_liveFrames member inside)
  nodup := (List.nodup_flatMap.mp leased.nodup).1 range member
  leftApart _ free inside := leased.leftApart _ free (mem_liveFrames member inside)
  apart _ inside := leased.apart _ (mem_liveFrames member inside)
  leads := leased.leads range member

/-- An allocation is freed: the others stay as they are. -/
theorem Leased.freed (leased : Leased vmm hhdm height root (pre ++ range :: post) left known p)
    (mapAligned : hhdm % 4096 = 0)
    (freed : Freed hhdm height root range.lease.base left range.frames known p q) :
    Leased vmm hhdm height root (pre ++ post) (range.frames ++ left) known q ∧
      ∀ other ∈ pre ++ post, ∀ virt, other.lease.Covers vmm height virt →
        leafOf hhdm q.memory (height + 1) root virt =
          leafOf hhdm p.memory (height + 1) root virt := by
  have member : range ∈ pre ++ range :: post := List.mem_append_right _ List.mem_cons_self
  have fewer : (pre ++ post).Sublist (pre ++ range :: post) :=
    (List.sublist_cons_self range post).append_left pre
  -- the frames are those of the range and those of the others
  have parts : (liveFrames (pre ++ range :: post)).Perm
      (range.frames ++ liveFrames (pre ++ post)) := List.perm_middle.flatMap_right _
  have listed : ∀ frame ∈ liveFrames (pre ++ post), frame ∈ liveFrames (pre ++ range :: post) :=
    fun frame inside => parts.mem_iff.mpr (List.mem_append_right _ inside)
  obtain ⟨-, nodup, disjoint⟩ := List.nodup_append.mp (parts.nodup_iff.mp leased.nodup)
  have still : ∀ other ∈ pre ++ post, ∀ virt, other.lease.Covers vmm height virt →
      leafOf hhdm q.memory (height + 1) root virt =
        leafOf hhdm p.memory (height + 1) root virt := by
    intro other rest virt covers
    refine freed.still virt fun step bound along => ?_
    rw [leased.paged range member] at bound
    refine leased.beside mapAligned (fewer.subset rest) member (fun frame own inside => ?_) covers
      ⟨step, bound, along⟩
    exact disjoint frame inside frame (mem_liveFrames rest own) rfl
  refine ⟨?_, still⟩
  constructor
  case stock => exact .beside freed.stock.holds freed.stock.inMap
  case tree =>
    refine ⟨⟨freed.tree.rooted.bound, freed.tree.rooted.limbs, fun page table => ?_⟩,
      freed.tree.blank⟩
    rw [freed.tables] at table
    refine ⟨freed.stock.pagesAligned page table, fun free => ?_⟩
    exact freed.stock.apart page free table
  case frames => exact fun frame inside => leased.frames frame (listed frame inside)
  case inMap => exact fun frame inside => leased.inMap frame (listed frame inside)
  case nodup => exact nodup
  case leftApart =>
    intro frame free live
    rcases List.mem_append.mp free with back | rest
    · exact disjoint frame back frame live rfl
    · exact leased.leftApart frame rest (listed frame live)
  case apart =>
    intro frame live
    rw [freed.tables]
    exact leased.apart frame (listed frame live)
  case paged => exact fun other rest => leased.paged other (fewer.subset rest)
  case fits => exact fun other rest => leased.fits other (fewer.subset rest)
  case whole => exact fun other rest => leased.whole other (fewer.subset rest)
  case maps => exact fun other rest => leased.maps other (fewer.subset rest)
  case leads =>
    intro other rest newer frame older parts virt along
    have bound : older.length < other.frames.length := by
      rw [parts, List.length_append, List.length_cons]
      omega
    rw [leased.paged other (fewer.subset rest)] at bound
    rw [still other rest virt ⟨_, bound, along⟩]
    exact leased.leads other (fewer.subset rest) newer frame older parts virt along

end Leased

section Runs

variable {V Strategy Layout : Type} {vmm : Vmm V Strategy Layout} {platform : Platform V}
  {call : AllocCall Strategy Layout} {contiguous : Bool} {flags : PageFlags} {reason : String}
  {s s' : Machine V} {nodes : List UInt64} {known : Set Nat} {height : Nat}
  {before after : Leasing V Strategy Layout} {op : ArenaOp Strategy Layout}

/-- A call for which the arena had no range has changed the arena only. -/
theorem allocRange_eq_error {range : Kernel V (Except String UInt64)} {frames bytes : UInt64}
    {page : PageLevel → UInt64 → UInt64 → PhysicalAddress → Nat → Kernel Pmm PhysicalAddress}
    (ran : (allocRange platform range frames bytes contiguous page).run s =
      (.ok (.error reason), s')) : s'.pmm = s.pmm ∧ s'.satp = s.satp := by
  obtain ⟨result, s₁, asked, body⟩ := Prog.run_bind_eq_ok ran
  obtain ⟨-, kept⟩ := onArenas_eq_ok asked
  cases result with
  | error =>
    obtain ⟨-, rfl⟩ := Prod.mk.inj body
    rw [kept]
    exact ⟨rfl, rfl⟩
  | ok sectionData =>
    obtain ⟨satp, s₂, read, rest⟩ := Prog.run_bind_eq_ok body
    obtain ⟨claimed, s₃, looped, done⟩ := Prog.run_bind_eq_ok rest
    cases done

/-- So it is for both calls. -/
theorem AllocCall.refused
    (ran : (call.run vmm platform contiguous flags).run s = (.ok (.error reason), s')) :
    s'.pmm = s.pmm ∧ s'.satp = s.satp := by
  cases call with
  | alloc size strategy =>
    rw [AllocCall.run, Vmm.alloc] at ran
    exact allocRange_eq_error ran
  | allocConstrained layout strategy =>
    rw [AllocCall.run, Vmm.allocConstrained] at ran
    exact allocRange_eq_error ran

/-- A call that freed a range has run its loop on the memory. -/
theorem AllocCall.free_eq_ok {base : UInt64}
    (ran : (call.free vmm platform base).run s = (.ok (), s')) :
    s'.satp = s.satp ∧ ((List.range (pageSteps (call.size vmm))).forM (freePage platform.hhdmOffset
      (.fromUsize platform.levels) (currentTable platform.hhdmOffset s.satp) base)).run s.pmm =
        (.ok (), s'.pmm) := by
  rw [AllocCall.free_eq] at ran
  obtain ⟨⟨⟩, s₁, asked, pages⟩ := Prog.run_bind_eq_ok ran
  obtain ⟨-, kept⟩ := onArenas_eq_ok asked
  obtain ⟨satp, s₂, read, looped⟩ := Prog.run_bind_eq_ok pages
  obtain ⟨found, rfl⟩ := Prod.mk.inj read
  obtain rfl := Except.ok.inj found
  obtain ⟨freed, same⟩ := Machine.onPmm_eq_ok looped
  have memory : s₁.pmm = s.pmm := by rw [kept]
  have table : s₁.satp = s.satp := by rw [kept]
  dsimp only at freed
  rw [memory, table] at freed
  exact ⟨by rw [same, table], freed⟩

/-- A machine on whose table allocations live, each of them with frames of its own. -/
structure Leasing.Kept (vmm : Vmm V Strategy Layout) (platform : Platform V) (height : Nat)
    (root : UInt64) (state : Leasing V Strategy Layout) : Prop where
  /-- The table is the one of the first call. -/
  table : currentTable platform.hhdmOffset state.machine.satp = root
  /-- Each allocation has its frames. -/
  leased : ∃ ranges left known, ranges.map LiveRange.lease = state.leases ∧
    Leased vmm platform.hhdmOffset height root ranges left known state.machine.pmm

/-- A call keeps the frames of the allocations, and the bytes of those that live on go where they
went. -/
theorem Leasing.Kept.step {root : UInt64} (ready : ArenaReady platform s nodes known height)
    (kept : Leasing.Kept vmm platform height root before)
    (careful : Leasing.Careful vmm platform height before op after) :
    Leasing.Kept vmm platform height root after ∧
      ∀ lease ∈ before.leases, lease ∈ after.leases → ∀ offset < (lease.call.size vmm).toNat,
        lease.byteGoes platform offset after.machine =
          lease.byteGoes platform offset before.machine := by
  obtain ⟨table, ranges, left, more, same, leased⟩ := kept
  obtain ⟨next, careful⟩ := careful
  -- an allocation whose pages come to the same leaves goes where it went
  have goes : ∀ (machine : Machine V) (others : List (LiveRange Strategy Layout)) left' more',
      currentTable platform.hhdmOffset machine.satp = root →
      Leased vmm platform.hhdmOffset height root others left' more' machine.pmm →
      ∀ range ∈ ranges, (∀ virt, range.lease.Covers vmm height virt →
        leafOf platform.hhdmOffset machine.pmm.memory (height + 1) root virt =
          leafOf platform.hhdmOffset before.machine.pmm.memory (height + 1) root virt) →
        ∀ offset < (range.lease.call.size vmm).toNat,
          range.lease.byteGoes platform offset machine =
            range.lease.byteGoes platform offset before.machine := by
    intro machine others left' more' table' later range member still offset bound
    rw [Lease.byteGoes, Lease.byteGoes, table, table',
      later.tree.translate_eq ready.at_height, leased.tree.translate_eq ready.at_height,
      still _ (Lease.covers_byte (leased.whole range member) bound)]
  cases next with
  | allocated sized maps ran =>
    obtain ⟨own, remain, placed⟩ := careful
    have now : ArenaReady platform before.machine left more height :=
      ⟨ready.mapAligned, ready.levels, ready.tall, ready.short, leased.stock, table ▸ leased.tree⟩
    rw [leased.stock.holds.entries] at remain
    have placed := placed _ rfl
    obtain ⟨satp, -, claimed, left', more', length, allocated, drawn⟩ :=
      AllocCall.draws now maps own placed.inSpace ran remain
    rw [table] at allocated drawn
    rw [← same] at placed
    obtain ⟨later, still⟩ := leased.allocated allocated drawn maps ready.short length placed
    have table' := (congrArg (currentTable platform.hhdmOffset) satp).trans table
    refine ⟨⟨table', _, left', more', congrArg _ same, later⟩, fun lease listed _ => ?_⟩
    rw [← same] at listed
    obtain ⟨range, member, rfl⟩ := List.mem_map.mp listed
    exact goes _ _ left' more' table' later range member (still range member)
  | refused ran =>
    obtain ⟨memory, satp⟩ := AllocCall.refused ran
    have table' := (congrArg (currentTable platform.hhdmOffset) satp).trans table
    refine ⟨⟨table', ranges, left, more, same, memory ▸ leased⟩, fun lease listed _ offset _ => ?_⟩
    rw [Lease.byteGoes, Lease.byteGoes]
    dsimp only
    rw [memory, satp]
  | freed split ran =>
    rw [split] at same
    obtain ⟨pre, rest, rfl, rfl, others⟩ := List.map_eq_append_iff.mp same
    obtain ⟨range, post, rfl, rfl, rfl⟩ := List.map_eq_cons_iff.mp others
    have member : range ∈ pre ++ range :: post := List.mem_append_right _ List.mem_cons_self
    obtain ⟨satp, looped⟩ := AllocCall.free_eq_ok ran
    obtain ⟨q, returned, freed⟩ := (leased.lent member).freePages ready.mapAligned ready.at_height
      ready.short (leased.maps range member)
    rw [leased.paged range member, ← table, looped] at returned
    obtain rfl := (Prod.mk.inj returned).2
    obtain ⟨later, still⟩ := leased.freed ready.mapAligned freed
    have table' := (congrArg (currentTable platform.hhdmOffset) satp).trans table
    refine ⟨⟨table', pre ++ post, _, _, List.map_append, later⟩, fun lease _ listed => ?_⟩
    dsimp only at listed
    rw [← List.map_append] at listed
    obtain ⟨other, rest, rfl⟩ := List.mem_map.mp listed
    have fewer : (pre ++ post).Sublist (pre ++ range :: post) :=
      (List.sublist_cons_self range post).append_left pre
    exact goes _ _ _ _ table' later other (fewer.subset rest) (still other rest)

/-- Each byte of an allocation is mapped. -/
theorem Leasing.Kept.mapped {root : UInt64} (ready : ArenaReady platform s nodes known height)
    (kept : Leasing.Kept vmm platform height root before) :
    ∀ lease ∈ before.leases, ∀ offset < (lease.call.size vmm).toNat,
      ∃ phys, lease.byteGoes platform offset before.machine = .ok (.ok phys) := by
  obtain ⟨table, ranges, left, more, same, leased⟩ := kept
  intro lease listed offset bound
  rw [← same] at listed
  obtain ⟨range, member, rfl⟩ := List.mem_map.mp listed
  obtain ⟨frame, -, goes⟩ := leased.goes ready.mapAligned ready.at_height member
    (Lease.covers_byte (leased.whole range member) bound)
  rw [Lease.byteGoes, table]
  exact ⟨_, goes⟩

/-- No two allocations share a page. -/
theorem Leasing.Kept.beside {root : UInt64} (ready : ArenaReady platform s nodes known height)
    (kept : Leasing.Kept vmm platform height root before) :
    before.leases.Pairwise (Lease.Beside vmm platform · height before.machine) := by
  obtain ⟨table, ranges, left, more, same, leased⟩ := kept
  rw [← same, List.pairwise_map]
  refine leased.pairwise.imp_of_mem fun {range other} member listed apart => ⟨fun virt covers =>
    leased.beside ready.mapAligned member listed apart covers, ?_⟩
  intro first bound second bound' phys phys' goes goes' equal
  obtain ⟨frame, inside, found⟩ := leased.goes ready.mapAligned ready.at_height member
    (Lease.covers_byte (leased.whole range member) bound)
  obtain ⟨frame', inside', found'⟩ := leased.goes ready.mapAligned ready.at_height listed
    (Lease.covers_byte (leased.whole other listed) bound')
  rw [Lease.byteGoes, table] at goes goes'
  obtain rfl := Except.ok.inj (Except.ok.inj (goes.symm.trans found))
  obtain rfl := Except.ok.inj (Except.ok.inj (goes'.symm.trans found'))
  -- both are the physical address of a frame and an offset in it
  have page := (leased.page ready.mapAligned member inside).1
  have page' := (leased.page ready.mapAligned listed inside').1
  have short := (leased.inMap frame (mem_liveFrames member inside)).2
  have short' := (leased.inMap frame' (mem_liveFrames listed inside')).2
  have numbers := congrArg UInt64.toNat equal
  rw [UInt64.toNat_div, UInt64.toNat_div, UInt64.toNat_add, UInt64.toNat_add, UInt64.toNat_mod,
    UInt64.toNat_mod] at numbers
  change (_ + _ % 4096) % _ / 4096 = (_ + _ % 4096) % _ / 4096 at numbers
  have place : frame - platform.hhdmOffset = frame' - platform.hhdmOffset := by
    apply UInt64.toNat_inj.mp
    omega
  have equal : frame = frame' := by grind
  exact apart frame inside (equal ▸ inside')

/-- In every run whose calls each allocate a range on pages of its own, the bytes of the live
allocations are mapped, no two of these share a page, and no call changes where a byte of another
allocation goes. -/
theorem leases_undisturbed (ready : ArenaReady platform s nodes known height)
    (reachable : Transition.Reachable (· = (⟨s, []⟩ : Leasing V Strategy Layout))
      (Leasing.Careful vmm platform height) before) :
    (∀ lease ∈ before.leases, ∀ offset < (lease.call.size vmm).toNat,
      ∃ phys, lease.byteGoes platform offset before.machine = .ok (.ok phys)) ∧
    before.leases.Pairwise (Lease.Beside vmm platform · height before.machine) ∧
    ∀ op after, Leasing.Careful vmm platform height before op after →
      ∀ lease ∈ before.leases, lease ∈ after.leases → ∀ offset < (lease.call.size vmm).toNat,
        lease.byteGoes platform offset after.machine =
          lease.byteGoes platform offset before.machine := by
  have kept : Leasing.Kept vmm platform height (currentTable platform.hhdmOffset s.satp)
      before := by
    apply reachable.invariant
    · rintro _ rfl
      exact ⟨rfl, [], nodes, known, rfl, .start ready.stock ready.tree⟩
    · exact fun _ _ _ kept careful => (kept.step ready careful).1
  exact ⟨kept.mapped ready, kept.beside ready, fun _ _ careful => (kept.step ready careful).2⟩

end Runs

section Sample

open FreeList (sampleMap)

/-- An arena that gives one range behind the other, of any number of bytes. -/
def rowVmm : Vmm UInt64 Unit UInt64 where
  arena := {
    alloc := fun size _ => do
      let base ← Prog.read id
      Prog.update (· + size)
      pure (.ok base)
    free := fun _ _ => pure ()
    layoutSize := id
    allocConstrained := fun size _ => do
      let base ← Prog.read id
      Prog.update (· + size)
      pure (.ok base)
    freeConstrained := fun _ _ => pure () }

/-- A machine whose table is empty. Its arena begins at a page. -/
def rowMachine : Machine UInt64 := { heapMachine sampleMap with arenas := 0x40000000 }

/-- It has five frames in its list. -/
theorem rowMachine_ready :
    ArenaReady (pagePlatform sampleMap) rowMachine (heapNodes sampleMap) ∅ 2 where
  mapAligned := by decide
  levels := rfl
  tall := by decide
  short := by decide
  stock := heapMachine_ready.stock
  tree := heapMachine_ready.tree

/-- The allocations of a size, one behind the other. -/
def rowLease (size base : UInt64) : Lease Unit UInt64 := ⟨.alloc size (), base, .read⟩

/-- A run with a result. -/
theorem run_eq {α σ : Type} {ran : α × σ} {result : α} (outcome : ran.1 = result) :
    ran = (result, ran.2) := by rw [← outcome]

/-- The machine allocates two pages one by one, and frees the first. -/
theorem rowMachine_runs : ∃ s₁ s₂ s₃,
    (rowVmm.alloc (pagePlatform sampleMap) 0x1000 () false .read).run rowMachine =
        (.ok (.ok (0x40000000, none)), s₁) ∧
      rowMachine.pmm.taken s₁.pmm < rowMachine.pmm.entries.length ∧
      (rowVmm.alloc (pagePlatform sampleMap) 0x1000 () false .read).run s₁ =
        (.ok (.ok (0x40001000, none)), s₂) ∧
      s₁.pmm.taken s₂.pmm < s₁.pmm.entries.length ∧
      (rowVmm.free (pagePlatform sampleMap) 0x40000000 0x1000).run s₂ = (.ok (), s₃) := by
  let first := (rowVmm.alloc (pagePlatform sampleMap) 0x1000 () false .read).run rowMachine
  let second := (rowVmm.alloc (pagePlatform sampleMap) 0x1000 () false .read).run first.2
  let third := (rowVmm.free (pagePlatform sampleMap) 0x40000000 0x1000).run second.2
  have ran : first = (.ok (.ok (0x40000000, none)), first.2) := run_eq (by decide +kernel)
  have again : second = (.ok (.ok (0x40001000, none)), second.2) := run_eq (by decide +kernel)
  have freed : third = (.ok (), third.2) := run_eq (by decide +kernel)
  have remain : rowMachine.pmm.taken first.2.pmm < rowMachine.pmm.entries.length := by
    decide +kernel
  have remain' : first.2.pmm.taken second.2.pmm < first.2.pmm.entries.length := by decide +kernel
  exact ⟨first.2, second.2, third.2, ran, remain, again, remain', freed⟩

/-- The machine allocates two bytes one by one, and the second call moves the first byte. -/
theorem rowMachine_moves : ∃ s₁ s₂,
    (rowVmm.alloc (pagePlatform sampleMap) 1 () false .read).run rowMachine =
        (.ok (.ok (0x40000000, none)), s₁) ∧
      (rowVmm.alloc (pagePlatform sampleMap) 1 () false .read).run s₁ =
        (.ok (.ok (0x40000001, none)), s₂) ∧
      (rowLease 1 0x40000000).byteGoes (pagePlatform sampleMap) 0 s₁ = .ok (.ok 0x80000000) ∧
      (rowLease 1 0x40000000).byteGoes (pagePlatform sampleMap) 0 s₂ = .ok (.ok 0x80003000) := by
  let first := (rowVmm.alloc (pagePlatform sampleMap) 1 () false .read).run rowMachine
  let second := (rowVmm.alloc (pagePlatform sampleMap) 1 () false .read).run first.2
  have ran : first = (.ok (.ok (0x40000000, none)), first.2) := run_eq (by decide +kernel)
  have again : second = (.ok (.ok (0x40000001, none)), second.2) := run_eq (by decide +kernel)
  have before : (rowLease 1 0x40000000).byteGoes (pagePlatform sampleMap) 0 first.2 =
      .ok (.ok 0x80000000) := by decide +kernel
  have after : (rowLease 1 0x40000000).byteGoes (pagePlatform sampleMap) 0 second.2 =
      .ok (.ok 0x80003000) := by decide +kernel
  exact ⟨first.2, second.2, ran, again, before, after⟩

variable {size base : UInt64} {s s' : Machine UInt64} {leases : List (Lease Unit UInt64)}

/-- An allocation is a step of a run. -/
theorem rowLease_next (sized : 0 < size)
    (ran : (rowVmm.alloc (pagePlatform sampleMap) size () false .read).run s =
      (.ok (.ok (base, none)), s')) :
    Leasing.Next rowVmm (pagePlatform sampleMap) ⟨s, leases⟩ (.alloc (.alloc size ()) false .read)
      ⟨s', rowLease size base :: leases⟩ :=
  .allocated sized rfl ran

/-- It is a careful one when it is placed on pages of its own. -/
theorem rowLease_careful (sized : 0 < size)
    (ran : (rowVmm.alloc (pagePlatform sampleMap) size () false .read).run s =
      (.ok (.ok (base, none)), s'))
    (remain : s.pmm.taken s'.pmm < s.pmm.entries.length)
    (placed : (rowLease size base).Placed rowVmm 2 leases) :
    Leasing.Careful rowVmm (pagePlatform sampleMap) 2 ⟨s, leases⟩
      (.alloc (.alloc size ()) false .read) ⟨s', rowLease size base :: leases⟩ := by
  refine ⟨rowLease_next sized ran, fun contiguous => absurd contiguous Bool.false_ne_true, remain,
    fun lease same => ?_⟩
  obtain rfl := (List.cons.inj same).1
  exact placed

/-- Two pages are allocated one by one, and the first is freed: the second is mapped, and stays
where it is. -/
theorem leases_undisturbed_row : ∃ s₁ s₂ s₃,
    Leasing.Next rowVmm (pagePlatform sampleMap) ⟨rowMachine, []⟩
        (.alloc (.alloc 0x1000 ()) false .read) ⟨s₁, [rowLease 0x1000 0x40000000]⟩ ∧
      Leasing.Next rowVmm (pagePlatform sampleMap) ⟨s₁, [rowLease 0x1000 0x40000000]⟩
        (.alloc (.alloc 0x1000 ()) false .read)
        ⟨s₂, [rowLease 0x1000 0x40001000, rowLease 0x1000 0x40000000]⟩ ∧
      Leasing.Next rowVmm (pagePlatform sampleMap)
        ⟨s₂, [rowLease 0x1000 0x40001000, rowLease 0x1000 0x40000000]⟩
        (.free (rowLease 0x1000 0x40000000)) ⟨s₃, [rowLease 0x1000 0x40001000]⟩ ∧
      ∀ offset < 0x1000, ∃ phys,
        (rowLease 0x1000 0x40001000).byteGoes (pagePlatform sampleMap) offset s₂ =
          .ok (.ok phys) ∧
        (rowLease 0x1000 0x40001000).byteGoes (pagePlatform sampleMap) offset s₃ =
          .ok (.ok phys) := by
  obtain ⟨s₁, s₂, s₃, ran, remain, again, remain', freed⟩ := rowMachine_runs
  have begun : Transition.Reachable (· = (⟨rowMachine, []⟩ : Leasing UInt64 Unit UInt64))
      (Leasing.Careful rowVmm (pagePlatform sampleMap) 2) ⟨rowMachine, []⟩ := .start rfl
  have one : (rowLease 0x1000 0x40000000).Placed rowVmm 2 [] := by
    refine Lease.placed (by decide) (by decide) (by decide) fun _ member => ?_
    exact absurd member List.not_mem_nil
  have two : (rowLease 0x1000 0x40001000).Placed rowVmm 2 [rowLease 0x1000 0x40000000] := by
    refine Lease.placed (by decide) (by decide) (by decide) (List.forall_mem_singleton.mpr ?_)
    exact ⟨by decide, by decide, by decide⟩
  have first := rowLease_careful (by decide) ran remain one
  have second := rowLease_careful (by decide) again remain' two
  have last : Leasing.Next rowVmm (pagePlatform sampleMap)
      ⟨s₂, [rowLease 0x1000 0x40001000, rowLease 0x1000 0x40000000]⟩
      (.free (rowLease 0x1000 0x40000000)) ⟨s₃, [rowLease 0x1000 0x40001000]⟩ :=
    @Leasing.Next.freed _ _ _ _ _ _ _ [rowLease 0x1000 0x40001000] [] _ rfl freed
  obtain ⟨mapped, -, kept⟩ :=
    leases_undisturbed rowMachine_ready ((begun.next _ first).next _ second)
  refine ⟨s₁, s₂, s₃, first.1, second.1, last, fun offset bound => ?_⟩
  obtain ⟨phys, goes⟩ := mapped (rowLease 0x1000 0x40001000) List.mem_cons_self offset bound
  have same := kept _ _ ⟨last, trivial⟩ (rowLease 0x1000 0x40001000) List.mem_cons_self
    List.mem_cons_self offset bound
  exact ⟨phys, goes, same.trans goes⟩

/-- Two bytes are allocated, which lie on one page: the second call moves the first byte to another
frame. -/
theorem leases_share_page :
    ArenaReady (pagePlatform sampleMap) rowMachine (heapNodes sampleMap) ∅ 2 ∧ ∃ s₁ s₂,
      Leasing.Next rowVmm (pagePlatform sampleMap) ⟨rowMachine, []⟩
          (.alloc (.alloc 1 ()) false .read) ⟨s₁, [rowLease 1 0x40000000]⟩ ∧
        Leasing.Next rowVmm (pagePlatform sampleMap) ⟨s₁, [rowLease 1 0x40000000]⟩
          (.alloc (.alloc 1 ()) false .read) ⟨s₂, [rowLease 1 0x40000001, rowLease 1 0x40000000]⟩ ∧
        (rowLease 1 0x40000000).byteGoes (pagePlatform sampleMap) 0 s₁ = .ok (.ok 0x80000000) ∧
        (rowLease 1 0x40000000).byteGoes (pagePlatform sampleMap) 0 s₂ = .ok (.ok 0x80003000) := by
  obtain ⟨s₁, s₂, ran, again, before, after⟩ := rowMachine_moves
  exact ⟨rowMachine_ready, s₁, s₂, rowLease_next (by decide) ran, rowLease_next (by decide) again,
    before, after⟩

end Sample

end Lsd
