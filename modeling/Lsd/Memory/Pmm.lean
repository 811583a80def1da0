import Lsd.Memory.Address

/-!
# The physical frame list

`memory::pmm`: free frames form a doubly linked list whose links live in the
frames themselves, `prev` in the first word of a frame and `next` in the second.
The definitions follow the source statement by statement, its fallback for a bad
`next` link included. Reading or writing through a null pointer stops the kernel.
-/

namespace Lsd

open Program

/-- `FreeList`. -/
structure FreeList where
  /-- First entry. -/
  head : UInt64
  /-- Last entry. -/
  tail : UInt64
  /-- Number of entries. -/
  len : UInt64
deriving DecidableEq, Repr

/-- `FreeList::null`. -/
def FreeList.null : FreeList := ⟨0, 0, 0⟩

/-- `REGION_LIST` and the memory that holds its entries. -/
structure Pmm where
  /-- `REGION_LIST`. -/
  regionList : FreeList
  /-- Physical memory. -/
  memory : Memory

/-- Size of a `FreeListEntry`, which is aligned to a page. -/
def entrySize : UInt64 := 4096

/-- `(*entry).prev` read from memory. -/
def prevOf (memory : Memory) (entry : UInt64) : UInt64 := memory entry

/-- `(*entry).next` read from memory. -/
def nextOf (memory : Memory) (entry : UInt64) : UInt64 := memory (entry + 8)

/-- Dereference an entry pointer. -/
def deref (entry : UInt64) : Kernel Pmm Unit :=
  if entry = 0 then Prog.stop .nullAccess else pure ()

/-- Read `(*entry).prev`. -/
def loadPrev (entry : UInt64) : Kernel Pmm UInt64 := do
  deref entry
  Prog.read fun s => prevOf s.memory entry

/-- Read `(*entry).next`. -/
def loadNext (entry : UInt64) : Kernel Pmm UInt64 := do
  deref entry
  Prog.read fun s => nextOf s.memory entry

/-- Write `(*entry).prev`. -/
def storePrev (entry value : UInt64) : Kernel Pmm Unit := do
  deref entry
  Prog.update fun s => { s with memory := s.memory.store entry value }

/-- Write `(*entry).next`. -/
def storeNext (entry value : UInt64) : Kernel Pmm Unit := do
  deref entry
  Prog.update fun s => { s with memory := s.memory.store (entry + 8) value }

/-- Assign the fields of the list. -/
def assign (change : FreeList → FreeList) : Kernel Pmm Unit :=
  Prog.update fun s => { s with regionList := change s.regionList }

namespace FreeList

/-- `FreeList::init`: no check, the entry is written and becomes the whole list. -/
def init (new : UInt64) : Kernel Pmm Unit := do
  storePrev new 0
  storeNext new 0
  assign fun _ => ⟨new, new, 1⟩

/-- The test that `push` and `pull` make of a new entry. -/
def checkEntry (hhdm new : UInt64) (below : String) : Kernel Pmm Unit :=
  if new < hhdm then Prog.stop (.panic below)
  else if new % entrySize ≠ 0 then Prog.stop (.panic "Bad alignment for entry")
  else pure ()

/-- `FreeList::push`: append an entry to the end of the list. -/
def push (hhdm new : UInt64) : Kernel Pmm Unit := do
  checkEntry hhdm new "Attempt to push entry below HHDM"
  storeNext new 0
  let tail ← Prog.read (·.regionList.tail)
  storePrev new tail
  storeNext tail new
  assign fun self => { self with tail := new, len := self.len + 1 }

/-- `FreeList::pull`: put an entry at the start of the list. -/
def pull (hhdm new : UInt64) : Kernel Pmm Unit := do
  checkEntry hhdm new "Attempt to pull entry below HHDM"
  storePrev new 0
  let head ← Prog.read (·.regionList.head)
  storeNext new head
  storePrev head new
  assign fun self => { self with head := new, len := self.len + 1 }

/-- The next entry that `claim` continues with. A link below the direct map is taken as invalid
and replaced by the entry one frame above the old head. -/
def claimNext (hhdm ogHead : UInt64) : Kernel Pmm UInt64 := do
  let nextEntry ← loadNext ogHead
  if nextEntry < hhdm then do
    storeNext ogHead (ogHead + entrySize)
    loadNext ogHead
  else pure nextEntry

/-- `FreeList::claim`: take the first entry. -/
def claim (hhdm : UInt64) : Kernel Pmm UInt64 := do
  let ogHead ← Prog.read (·.regionList.head)
  let nextEntry ← claimNext hhdm ogHead
  storePrev nextEntry 0
  assign fun self => { self with head := nextEntry, len := self.len - 1 }
  pure ogHead

/-- The search loop of `claim_continuous` and `claim_aligned`: `remaining` iterations are left,
`base` starts the section being built, `current` ends it. `mayStart` is the test of the base
that the aligned variant adds. -/
def scan (frames : UInt64) (mayStart : UInt64 → Bool) :
    Nat → UInt64 → UInt64 → UInt64 → Kernel Pmm (Option (UInt64 × UInt64))
  | 0, _, _, _ => pure none
  | remaining + 1, base, current, contiguousFrames =>
    if contiguousFrames = frames then pure (some (base, current))
    else do
      let next ← loadNext current
      if current + 0x1000 == next && mayStart base then
        scan frames mayStart remaining base next (contiguousFrames + 1)
      else scan frames mayStart remaining next next 1

/-- The success branch of both searches: take the section from `base` to `current` out. -/
def unlink (frames base current : UInt64) : Kernel Pmm Unit := do
  let previous ← loadPrev base
  let next ← loadNext current
  if previous = 0 then do
    assign fun self => { self with head := next }
    storePrev next 0
  else do
    storeNext previous next
    storePrev next previous
  assign fun self => { self with len := self.len - frames }

/-- The common body of `claim_continuous` and `claim_aligned`. -/
def claimWindow (hhdm frames : UInt64) (mayStart : UInt64 → Bool) :
    Kernel Pmm (Except String UInt64) :=
  if frames = 1 then do
    let frame ← claim hhdm
    pure (.ok frame)
  else do
    let self ← Prog.read (·.regionList)
    let found ← scan frames mayStart self.len.toNat self.head self.head 1
    match found with
    | some (base, current) => do
      unlink frames base current
      pure (.ok base)
    | none =>
      let len := self.len
      pure (.error s!"Couldnt find contiguous frames out of {len} frames")

/-- `FreeList::claim_continuous`. -/
def claimContinuous (hhdm frames : UInt64) : Kernel Pmm (Except String UInt64) :=
  claimWindow hhdm frames fun _ => true

end FreeList

/-- `vmm::PageSize`. -/
inductive PageSize where
  | none | small | medium | large | huge | colossal
deriving DecidableEq, Repr

/-- The discriminants of `PageSize`. -/
def PageSize.bytes : PageSize → UInt64
  | .none => 0
  | .small => 0x1000
  | .medium => 0x200000
  | .large => 0x40000000
  | .huge => 0x8000000000
  | .colossal => 0x1000000000000

/-- `FreeList::claim_aligned`. -/
def FreeList.claimAligned (hhdm frames : UInt64) (align : PageSize) :
    Kernel Pmm (Except String UInt64) :=
  claimWindow hhdm frames fun base => base &&& (align.bytes - 1) == 0

end Lsd
