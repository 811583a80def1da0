import Lsd.Memory.Address
import Lsd.Lib.Script

/-!
# Split virtqueues

`drivers::virtio::splitqueue`: the free list of descriptors, the descriptor
table, and the two rings that the driver and the device share. `push` and `pop`
are taken apart into their accesses to the rings, since the device acts between
them. The regions are memory of their own, so each is a list of its elements.
-/

namespace Lsd

open Program

/-- `SplitVirtqueueError`. -/
inductive SplitVirtqueueError where
  | memoryAllocationError | notPowerOfTwo | tooLarge
deriving DecidableEq, Repr

/-- `DescriptorFlags`. -/
abbrev DescriptorFlags : Type := UInt16

/-- `DescriptorFlags::NONE`. -/
def DescriptorFlags.none : DescriptorFlags := 0

/-- `DescriptorFlags::WRITE`. -/
def DescriptorFlags.write : DescriptorFlags := 2

/-- `VirtqueueDescriptor`. -/
structure VirtqueueDescriptor where
  /-- The physical address of the buffer. -/
  address : UInt64
  /-- Its length. -/
  length : UInt32
  /-- Its flags. -/
  flags : DescriptorFlags
  /-- The descriptor that follows it. -/
  next : UInt16
deriving DecidableEq, Inhabited

/-- `VirtqueueAvailable`. -/
structure VirtqueueAvailable where
  /-- The entries that were ever made available. -/
  index : UInt16
  /-- The ring. -/
  ring : List UInt16
deriving DecidableEq

/-- `VirtqueueUsedElement`. -/
structure VirtqueueUsedElement where
  /-- The descriptor that the device has used. -/
  startIndex : UInt32
  /-- What it has written. -/
  length : UInt32
deriving DecidableEq

/-- `VirtqueueUsed`. -/
structure VirtqueueUsed where
  /-- The elements that were ever used. -/
  index : UInt16
  /-- The ring. -/
  ring : List VirtqueueUsedElement
deriving DecidableEq

/-- `SplitVirtqueue`, with its three regions. -/
structure SplitVirtqueue where
  /-- The number of descriptors. -/
  queueSize : Nat
  /-- The descriptors that are free, front first. -/
  freelist : List UInt16
  /-- The descriptor table. -/
  descriptors : List VirtqueueDescriptor
  /-- The ring of the driver. -/
  available : VirtqueueAvailable
  /-- The ring of the device. -/
  used : VirtqueueUsed
  /-- `UsedQueue::last_seen`. -/
  lastSeen : UInt16
deriving DecidableEq

namespace SplitVirtqueue

/-- `SplitVirtqueue::new`, when the regions can be claimed. -/
def new (queueSize : Nat) : Except SplitVirtqueueError SplitVirtqueue :=
  if !isPowerOfTwo queueSize then .error .notPowerOfTwo
  else if queueSize ≤ 32768 then
    .ok {
      queueSize := queueSize
      freelist := (List.range queueSize).map UInt16.ofNat
      descriptors := List.replicate queueSize ⟨0, 0, 0, 0⟩
      available := ⟨0, List.replicate queueSize 0⟩
      used := ⟨0, List.replicate queueSize ⟨0, 0⟩⟩
      lastSeen := 0 }
  else .error .tooLarge

/-- `SplitVirtqueue::alloc_descriptor`. -/
def allocDescriptor : Kernel SplitVirtqueue (Option UInt16) := do
  let self ← Prog.read id
  match self.freelist.getLast? with
  | some index => do
    Prog.update fun self => { self with freelist := self.freelist.dropLast }
    pure (some index)
  | none => pure none

/-- `SplitVirtqueue::free_descriptor`. -/
def freeDescriptor (index : UInt16) : Kernel SplitVirtqueue Unit :=
  Prog.update fun self => { self with freelist := self.freelist ++ [index] }

/-- An index into a region, checked. -/
def checked {σ : Type} (length index : Nat) : Kernel σ Nat :=
  if index < length then pure index
  else Prog.stop (.panic s!"index out of bounds: the len is {length} but the index is {index}")

/-- The remainder by a number, checked. -/
def remainder {σ : Type} (number divisor : Nat) : Kernel σ Nat :=
  if divisor = 0 then
    Prog.stop (.panic "attempt to calculate the remainder with a divisor of zero")
  else pure (number % divisor)

/-- `DescriptorQueue::write`. -/
def writeDescriptor (index : UInt16) (descriptor : VirtqueueDescriptor) :
    Kernel SplitVirtqueue Unit := do
  let self ← Prog.read id
  let place ← checked self.descriptors.length index.toNat
  Prog.update fun self => { self with descriptors := self.descriptors.set place descriptor }

/-- `DescriptorQueue::read`. -/
def readDescriptor (index : UInt16) : Kernel SplitVirtqueue VirtqueueDescriptor := do
  let self ← Prog.read id
  let place ← checked self.descriptors.length index.toNat
  pure self.descriptors[place]!

open Script (one)

/-- `AvailableQueue::push` before its write to the ring: the counter, and the place for the
entry. -/
def pushPlace : Kernel SplitVirtqueue (UInt16 × Nat) := do
  let self ← Prog.read id
  let length := self.available.ring.length
  let place ← remainder self.available.index.toNat (UInt16.ofNat length).toNat
  let place ← checked length place
  pure (self.available.index, place)

/-- The write of `AvailableQueue::push` to the ring. -/
def storeAvailable (place : Nat) (index : UInt16) : Kernel SplitVirtqueue Unit :=
  Prog.update fun self =>
    { self with available := { self.available with ring := self.available.ring.set place index } }

/-- The write of `AvailableQueue::push` to the counter. -/
def publishAvailable (queueIndex : UInt16) : Kernel SplitVirtqueue Unit :=
  Prog.update fun self =>
    { self with available := { self.available with index := queueIndex + 1 } }

/-- `AvailableQueue::push`. -/
def push (index : UInt16) : Script Stop SplitVirtqueue Unit := do
  let (queueIndex, place) ← one pushPlace
  one (storeAvailable place index)
  one (publishAvailable queueIndex)

/-- The read of `UsedQueue::pop` from the ring, and the count in `last_seen`, which only the driver
sees. -/
def takeUsed : Kernel SplitVirtqueue (Option VirtqueueUsedElement) := do
  let self ← Prog.read id
  let place ← remainder self.lastSeen.toNat self.used.ring.length
  let place ← checked self.used.ring.length place
  Prog.update fun self => { self with lastSeen := self.lastSeen + 1 }
  pure self.used.ring[place]?

/-- `UsedQueue::pop`. -/
def pop : Script Stop SplitVirtqueue (Option VirtqueueUsedElement) := do
  let new ← one (Prog.read fun self => self.lastSeen != self.used.index)
  if new then one takeUsed else pure none

end SplitVirtqueue

end Lsd
