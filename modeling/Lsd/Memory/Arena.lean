import Lsd.Userspace

/-!
# Memory from the arenas

`Vmm` of `memory::vmm`: an arena gives addresses, and the frame list gives the
frames that their pages are mapped to, one frame at a time or one run of frames
for all pages. The arena itself is that of the vmem crate.
-/

namespace Lsd

open Program

/-- `vmem::Vmem` with its calls on the arenas, for its own kinds of strategies and layouts. -/
structure Arena (V Strategy Layout : Type) where
  /-- `Vmem::alloc`. -/
  alloc : (size : UInt64) → Strategy → Kernel V (Except String UInt64)
  /-- `Vmem::free`. -/
  free : (base size : UInt64) → Kernel V Unit
  /-- `Layout::size`. -/
  layoutSize : Layout → UInt64
  /-- `Vmem::alloc_constrained`. -/
  allocConstrained : Layout → Strategy → Kernel V (Except String UInt64)
  /-- `Vmem::free_constrained`. -/
  freeConstrained : (base size : UInt64) → Kernel V Unit

/-- `Vmm`. -/
structure Vmm (V Strategy Layout : Type) where
  /-- The arena that it wraps. -/
  arena : Arena V Strategy Layout

/-- The frames that hold a size. -/
def framesOf (size : UInt64) : UInt64 := size / 4096 + if size % 4096 ≠ 0 then 1 else 0

/-- The number of offsets in `(0..size).step_by(4096)`. -/
def pageSteps (size : UInt64) : Nat := (size.toNat + 4095) / 4096

/-- The frames for a size are as many as its steps. -/
theorem toNat_framesOf (size : UInt64) : (framesOf size).toNat = pageSteps size := by
  have small := size.toNat_lt
  have rest : (size % 4096 ≠ 0) = (size.toNat % 4096 ≠ 0) := by
    rw [ne_eq, ne_eq, ← UInt64.toNat_inj, UInt64.toNat_mod]
    rfl
  rw [framesOf, pageSteps, UInt64.toNat_add, UInt64.toNat_div]
  simp only [rest]
  split
  · change (_ / 4096 + 1) % 2 ^ 64 = _
    omega
  · change (_ / 4096 + 0) % 2 ^ 64 = _
    omega

/-- The frames of a physically contiguous request, if it is one. -/
def claimFirst (hhdm frames : UInt64) (physicallyContiguous : Bool) :
    Kernel Pmm (Option PhysicalAddress) :=
  if physicallyContiguous then do
    let result ← FreeList.claimContinuous hhdm frames
    let claim ← unwrap result
    pure (some (claim - hhdm))
  else pure none

/-- A frame for the next page, where the request is not for one run of frames. -/
def claimNextFrame (hhdm : UInt64) : Kernel Pmm PhysicalAddress := do
  let claim ← FreeList.claim hhdm
  pure (claim - hhdm)

/-- One round of the loop of `Vmm::alloc`: in a run of frames the address goes up after the page is
mapped. -/
def allocPage (hhdm : UInt64) (level : PageLevel) (table base : UInt64) (flags : PageFlags)
    (physicallyContiguous : Bool) (claimPhys : PhysicalAddress) (step : Nat) :
    Kernel Pmm PhysicalAddress :=
  if physicallyContiguous then do
    map hhdm table (base + UInt64.ofNat (step * 0x1000)) claimPhys level .level1 flags
    pure (claimPhys + 4096)
  else do
    let claimPhys ← claimNextFrame hhdm
    map hhdm table (base + UInt64.ofNat (step * 0x1000)) claimPhys level .level1 flags
    pure claimPhys

/-- One round of the loop of `Vmm::alloc_constrained`: in a run of frames the address goes up before
the page is mapped. -/
def constrainedPage (hhdm : UInt64) (level : PageLevel) (table base : UInt64) (flags : PageFlags)
    (physicallyContiguous : Bool) (claimPhys : PhysicalAddress) (step : Nat) :
    Kernel Pmm PhysicalAddress :=
  if physicallyContiguous then do
    let claimPhys := claimPhys + 4096
    map hhdm table (base + UInt64.ofNat (step * 0x1000)) claimPhys level .level1 flags
    pure claimPhys
  else do
    let claimPhys ← claimNextFrame hhdm
    map hhdm table (base + UInt64.ofNat (step * 0x1000)) claimPhys level .level1 flags
    pure claimPhys

/-- The loop over the pages of a range, with the physical address that it carries. -/
def allocPages (page : PhysicalAddress → Nat → Kernel Pmm PhysicalAddress) (hhdm frames : UInt64)
    (physicallyContiguous : Bool) (count : Nat) : Kernel Pmm (Option PhysicalAddress) := do
  let first ← claimFirst hhdm frames physicallyContiguous
  let _ ← (List.range count).foldlM page (first.getD 0)
  pure first

/-- One round of the loop of `Vmm::free`. -/
def freePage (hhdm : UInt64) (level : PageLevel) (table base : UInt64) (step : Nat) :
    Kernel Pmm Unit := do
  let phys ← unmap hhdm table (base + UInt64.ofNat (step * 0x1000)) level .level1
  FreeList.pull hhdm (phys + hhdm)

section Alloc

variable {V : Type} (platform : Platform V)

/-- What the two functions that allocate share: a range of the arena, the frames for it, and a loop
over the offsets below `bytes` with the function's own rounds. No round changes `satp`, so the
current table is read once. -/
def allocRange (range : Kernel V (Except String UInt64)) (frames bytes : UInt64)
    (physicallyContiguous : Bool)
    (page : PageLevel → (table base : UInt64) → PhysicalAddress → Nat →
    Kernel Pmm PhysicalAddress) :
    Kernel (Machine V) (Except String (UInt64 × Option PhysicalAddress)) := do
  let result ← onArenas range
  match result with
  | .error reason => pure (.error reason)
  | .ok sectionData => do
    let satp ← Prog.read (·.satp)
    let level := PageLevel.fromUsize platform.levels
    let claimPhys ← onPmm (allocPages
      (page level (currentTable platform.hhdmOffset satp) sectionData) platform.hhdmOffset frames
      physicallyContiguous (pageSteps bytes))
    pure (.ok (sectionData, claimPhys))

end Alloc

namespace Vmm

variable {V Strategy Layout : Type} (vmm : Vmm V Strategy Layout) (platform : Platform V)

/-- `Vmm::alloc`: its loop runs over the size rounded up to whole frames. -/
def alloc (size : UInt64) (strategy : Strategy) (physicallyContiguous : Bool) (flags : PageFlags) :
    Kernel (Machine V) (Except String (UInt64 × Option PhysicalAddress)) :=
  let frames := framesOf size
  allocRange platform (vmm.arena.alloc size strategy) frames (frames * 4096) physicallyContiguous
    fun level table base =>
      allocPage platform.hhdmOffset level table base flags physicallyContiguous

/-- `Vmm::alloc_constrained`: its loop runs over the size of the layout. -/
def allocConstrained (layout : Layout) (strategy : Strategy) (physicallyContiguous : Bool)
    (flags : PageFlags) : Kernel (Machine V) (Except String (UInt64 × Option PhysicalAddress)) :=
  let size := vmm.arena.layoutSize layout
  allocRange platform (vmm.arena.allocConstrained layout strategy) (framesOf size) size
    physicallyContiguous fun level table base =>
      constrainedPage platform.hhdmOffset level table base flags physicallyContiguous

/-- The loop of `Vmm::free` and `Vmm::free_constrained`. -/
def freePages (base size : UInt64) : Kernel (Machine V) Unit := do
  let satp ← Prog.read (·.satp)
  let level := PageLevel.fromUsize platform.levels
  onPmm ((List.range (pageSteps size)).forM
    (freePage platform.hhdmOffset level (currentTable platform.hhdmOffset satp) base))

/-- `Vmm::free`. -/
def free (base size : UInt64) : Kernel (Machine V) Unit := do
  onArenas (vmm.arena.free base size)
  freePages platform base size

/-- `Vmm::free_constrained`. -/
def freeConstrained (base size : UInt64) : Kernel (Machine V) Unit := do
  onArenas (vmm.arena.freeConstrained base size)
  freePages platform base size

end Vmm

end Lsd
