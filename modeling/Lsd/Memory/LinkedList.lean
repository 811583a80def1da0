import Lsd.Memory.Address

/-!
# The kernel heap

`memory::linked_list`: the free regions form a list whose nodes live in the
regions themselves, the size in the first word and the link in the second. A
region that serves an allocation is taken out, and what is left behind it is put
back at the front of the list. Nothing is put back for what is left before it.
-/

namespace Lsd

open Program

/-- `Layout`. -/
structure Layout where
  /-- The bytes that are asked for. -/
  size : Nat
  /-- What their address is a multiple of. -/
  align : Nat
  /-- The alignment is a power of two. -/
  power : isPowerOfTwo align = true
  /-- The size fits the address space when it is rounded up to the alignment. -/
  fits : size + align ≤ 2 ^ 63
deriving DecidableEq

namespace Layout

/-- `Layout::from_size_align`. -/
def fromSizeAlign (size align : Nat) : Option Layout :=
  if fine : isPowerOfTwo align = true ∧ size + align ≤ 2 ^ 63 then
    some ⟨size, align, fine.1, fine.2⟩
  else none

/-- `Layout::align_to`. -/
def alignTo (layout : Layout) (align : Nat) : Option Layout :=
  fromSizeAlign layout.size (max layout.align align)

/-- The size of `Layout::pad_to_align`, which rounds up to the alignment. -/
def paddedSize (layout : Layout) : Nat :=
  (layout.size + layout.align - 1) / layout.align * layout.align

end Layout

/-- `align_up`. -/
def alignUp (addr align : UInt64) : UInt64 := (addr + align - 1) &&& ~~~(align - 1)

/-- `LinkedListAllocator`, and the memory that holds its nodes. -/
structure LinkedListAllocator where
  /-- The first node, or null. -/
  head : UInt64
  /-- Memory. -/
  memory : Memory

namespace LinkedListAllocator

/-- `size_of::<ListNode>()`. -/
def nodeSize : UInt64 := 16

/-- `align_of::<ListNode>()`. -/
def nodeAlign : UInt64 := 8

/-- The size of a node. -/
def regionSize (self : LinkedListAllocator) (node : UInt64) : UInt64 := self.memory node

/-- The link of a node, or of the head, which stands for null. -/
def next (self : LinkedListAllocator) (node : UInt64) : UInt64 :=
  if node = 0 then self.head else self.memory (node + 8)

/-- Assign the link of a node, or of the head. -/
def setNext (self : LinkedListAllocator) (node value : UInt64) : LinkedListAllocator :=
  if node = 0 then { self with head := value }
  else { self with memory := self.memory.store (node + 8) value }

/-- `ListNode::end_addr`. -/
def endAddr (self : LinkedListAllocator) (node : UInt64) : UInt64 := node + self.regionSize node

/-- `add_free_region`. -/
def addFreeRegion (addr size : UInt64) : Kernel LinkedListAllocator Unit :=
  if alignUp addr nodeAlign ≠ addr then
    Prog.stop (.panic ("assertion `left == right` failed\n  left: " ++
      toString (alignUp addr nodeAlign) ++ "\n right: " ++ toString addr))
  else if size < nodeSize then
    Prog.stop (.panic "assertion failed: size >= mem::size_of::<ListNode>()")
  else if addr = 0 then Prog.stop .nullAccess
  else Prog.update fun self =>
    { head := addr, memory := (self.memory.store addr size).store (addr + 8) self.head }

/-- `LinkedListAllocator::init`. -/
def init (heapStart heapSize : UInt64) : Kernel LinkedListAllocator Unit :=
  addFreeRegion heapStart heapSize

/-- `alloc_from_region`. -/
def allocFromRegion (self : LinkedListAllocator) (region size align : UInt64) : Option UInt64 :=
  let allocStart := alignUp region align
  if allocStart.toNat + size.toNat < 2 ^ 64 then
    let allocEnd := allocStart + size
    if self.endAddr region < allocEnd then none
    else
      let excessSize := self.endAddr region - allocEnd
      if 0 < excessSize && excessSize < nodeSize then none else some allocStart
  else none

/-- The loop of `find_region`, with the rounds it may take. -/
def findLoop (size align : UInt64) :
    Nat → UInt64 → Kernel LinkedListAllocator (Option (UInt64 × UInt64))
  | 0, _ => Prog.stop .unfinished
  | rounds + 1, current => do
    let self ← Prog.read id
    let region := self.next current
    if region = 0 then pure none
    else
      match self.allocFromRegion region size align with
      | some allocStart => do
        let next := self.next region
        Prog.update fun self => self.setNext region 0
        Prog.update fun self => self.setNext current 0
        Prog.update fun self => self.setNext current next
        pure (some (region, allocStart))
      | none => findLoop size align rounds region

/-- More rounds than there are nodes. -/
def findLimit : Nat := 2 ^ 64 + 1

/-- `find_region`. -/
def findRegion (size align : UInt64) :
    Kernel LinkedListAllocator (Option (UInt64 × UInt64)) :=
  findLoop size align findLimit 0

/-- `size_align`, unless the alignment cannot be adjusted. -/
def adjusted (layout : Layout) : Option (UInt64 × UInt64) :=
  (layout.alignTo nodeAlign.toNat).map fun layout =>
    (UInt64.ofNat (max layout.paddedSize nodeSize.toNat), UInt64.ofNat layout.align)

/-- `size_align`. -/
def sizeAlign (layout : Layout) : Kernel LinkedListAllocator (UInt64 × UInt64) :=
  match adjusted layout with
  | some pair => pure pair
  | none => Prog.stop (.panic "adjusting alignment failed: LayoutError")

/-- A difference that must not be negative. -/
def difference (left right : UInt64) : Kernel LinkedListAllocator UInt64 :=
  if left < right then Prog.stop (.panic "attempt to subtract with overflow")
  else pure (left - right)

/-- A sum that must not exceed a word. -/
def checkedAdd (left right : UInt64) : Kernel LinkedListAllocator UInt64 :=
  if left.toNat + right.toNat < 2 ^ 64 then pure (left + right) else Prog.stop (.panic "overflow")

/-- `GlobalAlloc::alloc`. -/
def alloc (layout : Layout) : Kernel LinkedListAllocator UInt64 := do
  let (size, align) ← sizeAlign layout
  let found ← findRegion size align
  match found with
  | some (region, allocStart) => do
    let allocEnd ← checkedAdd allocStart size
    let regionEnd ← Prog.read fun self => self.endAddr region
    let excessSize ← difference regionEnd allocEnd
    Prog.only (0 < excessSize) (addFreeRegion allocEnd excessSize)
    pure allocStart
  | none => pure 0

/-- `GlobalAlloc::dealloc`. -/
def dealloc (ptr : UInt64) (layout : Layout) : Kernel LinkedListAllocator Unit := do
  let (size, _) ← sizeAlign layout
  addFreeRegion ptr size

end LinkedListAllocator

end Lsd
