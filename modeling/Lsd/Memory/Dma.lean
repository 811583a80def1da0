import Lsd.Memory.PageTable

/-!
# Bytes of memory and DMA regions

Single bytes of the memory of words, and `memory::dma`: a region is a run of
frames that are claimed for it. It is known by its physical address to a device
and by an address in the direct map to the kernel, and is never given back.
-/

namespace Lsd

open Program

/-- The byte at an address. -/
def byteAt (memory : Memory) (address : UInt64) : UInt8 :=
  (memory (address - address % 8) >>> (address % 8 * 8)).toUInt8

/-- A word with one byte replaced. -/
def setByte (word : UInt64) (offset : Nat) (byte : UInt8) : UInt64 :=
  setBits (8 * offset + 7) (8 * offset) word byte.toUInt64

/-- Memory after one byte is stored. -/
def Memory.storeByte (memory : Memory) (address : UInt64) (byte : UInt8) : Memory :=
  let place := address - address % 8
  memory.store place (setByte (memory place) (address % 8).toNat byte)

/-- Write a byte through a pointer. -/
def storeByte (address : UInt64) (byte : UInt8) : Kernel Pmm Unit :=
  Prog.update fun s => { s with memory := s.memory.storeByte address byte }

/-- `DmaRegion`. -/
structure DmaRegion where
  /-- Where a device finds it. -/
  phys : PhysicalAddress
  /-- Where the kernel finds it. -/
  virt : UInt64
  /-- Its bytes. -/
  size : UInt64
deriving DecidableEq

namespace DmaRegion

/-- The frames that hold a number of bytes. -/
def frames (size : UInt64) : UInt64 :=
  if size % 4096 ≠ 0 then size / 4096 + 1 else size / 4096

/-- The zeroes that a loop writes from an address on. -/
def zero (base : UInt64) (count : Nat) : Kernel Pmm Unit :=
  (List.range count).forM fun i => storeByte (base + UInt64.ofNat i) 0

/-- `DmaRegion::new_many` of bytes. -/
def newMany (hhdm nElements : UInt64) : Kernel Pmm DmaRegion := do
  let result ← FreeList.claimContinuous hhdm (frames nElements)
  let alloc ← unwrap result
  let virt ← unwrapSome (if alloc = 0 then none else some alloc)
  pure ⟨alloc - hhdm, virt, nElements⟩

/-- `DmaRegion::new_raw` of a type of a size. -/
def newRaw (hhdm size : UInt64) (zeroed : Bool) : Kernel Pmm DmaRegion := do
  let result ← FreeList.claimContinuous hhdm (frames size)
  let alloc ← unwrap result
  Prog.only (zeroed = true) (zero alloc size.toNat)
  let virt ← unwrapSome (if alloc = 0 then none else some alloc)
  pure ⟨alloc - hhdm, virt, size⟩

end DmaRegion

end Lsd
