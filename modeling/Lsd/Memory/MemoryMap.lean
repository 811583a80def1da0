import Lsd.Memory.Pmm

/-!
# The memory map

`pmm::init`: the frames of the usable entries of the boot loader's memory map
become the frame list, the first one by `FreeList::init` and every other one by
`FreeList::push`. The flag that tells the first frame is carried through both
loops.
-/

namespace Lsd

open Program

/-- `limine::MemoryKind`. The other kinds are told apart by their number only. -/
inductive MemoryKind where
  | usable
  | other (number : UInt64)
deriving DecidableEq, Repr

/-- An entry of `limine::MemoryMap`. -/
structure MemoryEntry where
  /-- `base`, a physical address. -/
  base : UInt64
  /-- `size`, in bytes. -/
  size : UInt64
  /-- `kind`. -/
  kind : MemoryKind
deriving DecidableEq, Repr

/-- The number of offsets in `(0..entry.size).step_by(4096)`. -/
def MemoryEntry.frames (entry : MemoryEntry) : Nat := (entry.size.toNat + 4095) / 4096

namespace FreeList

/-- The body of the inner loop of `pmm::init`; the new value of `uninit` is returned. -/
def initFrame (hhdm : UInt64) (uninit : Bool) (new : UInt64) : Kernel Pmm Bool :=
  if uninit then do
    init new
    pure false
  else do
    push hhdm new
    pure uninit

/-- The body of the outer loop of `pmm::init`. -/
def initEntry (hhdm : UInt64) (uninit : Bool) (entry : MemoryEntry) : Kernel Pmm Bool :=
  if entry.kind = .usable then do
    let base := entry.base + hhdm
    (List.range entry.frames).foldlM (fun uninit step =>
      initFrame hhdm uninit (base + UInt64.ofNat (step * 4096))) uninit
  else pure uninit

/-- `pmm::init`. -/
def initMap (hhdm : UInt64) (map : List MemoryEntry) : Kernel Pmm Unit := do
  let _ ← map.foldlM (initEntry hhdm) true
  pure ()

end FreeList

end Lsd
