import Lsd.Arch.Syscalls

/-!
# The arenas of kernel addresses

The part of `init` that gives addresses to `LOWER_HALF` and `HIGHER_HALF`. The
arenas themselves are those of the vmem crate.
-/

namespace Lsd

open Program

/-- The two arenas. -/
inductive Half where
  /-- `LOWER_HALF`. -/
  | lower
  /-- `HIGHER_HALF`. -/
  | higher
deriving DecidableEq, Repr

/-- The vmem crate on the two arenas; `V` is their state. -/
structure Halves (V : Type) where
  /-- `Vmem::add` of a range. -/
  add : (half : Half) → (base size : UInt64) → Kernel V (Except String Unit)

/-- What `init` reads and writes while it fills the arenas. -/
structure Boot (V : Type) where
  /-- Physical memory. -/
  memory : Memory
  /-- The `satp` register. -/
  satp : Satp
  /-- The arenas. -/
  arenas : V

variable {V : Type} (halves : Halves V)

/-- `Vmm::add` with its result unwrapped. -/
def addRange (half : Half) (base size : UInt64) : Kernel (Boot V) Unit := do
  let result ← (halves.add half base size).within (·.arenas) fun s arenas =>
    { s with arenas := arenas }
  unwrap result id

/-- One round of the loop over the upper half of the root table. -/
def seedSlot (hhdm : UInt64) (levels index : Nat) : Kernel (Boot V) Unit := do
  let entry : PageEntry ← Prog.read fun s => s.memory (wordOf (currentTable hhdm s.satp) index)
  let levels := PageLevel.fromUsize levels
  let vaddr := VirtualAddress.setIndex 0xffffffffffffffff levels (UInt64.ofNat index)
  Prog.only (!entry.getValid) (addRange halves .higher vaddr levels.asPageSize.bytes)

/-- The end of `init`, where the arenas get their addresses. -/
def seedHalves (hhdm hhdmStart : UInt64) (levels : Nat) : Kernel (Boot V) Unit := do
  addRange halves .lower 0x1000 (hhdmStart - 0x1001)
  (List.range' 256 256).forM (seedSlot halves hhdm levels)

end Lsd
