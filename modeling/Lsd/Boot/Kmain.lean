import Lsd.Boot.CoreInit
import Lsd.Userspace

/-!
# Booting

What `kmain` and `core_main` hand out before the first thread runs: the block of
thread-local data and the interrupt stack of each hart, a root table and a stack
for each secondary core, and the programs. What the compiled code keeps on the
stack of a hart is not modelled.
-/

namespace Lsd

open Program

/-- The frames that `init_tls` claims for a number of bytes. -/
def tlsFrames (tdataSize : UInt64) : UInt64 :=
  tdataSize / 4096 + if tdataSize &&& 0xfff ≠ 0 then 1 else 0

/-- `init_tls`: the thread-local data of the kernel is copied to frames of the hart. -/
def initTls (hhdm : UInt64) (tdata : List UInt8) : Kernel Pmm UInt64 := do
  let result ← FreeList.claimContinuous hhdm (tlsFrames (UInt64.ofNat tdata.length))
  let tlsBase ← unwrap result
  (List.range tdata.length).forM fun offset =>
    storeByte (tlsBase + UInt64.ofNat offset) (tdata.getD offset 0)
  pure tlsBase

/-- The part of `traps::init` that claims the interrupt stack: its top is returned. -/
def intStack (hhdm : UInt64) : Kernel Pmm UInt64 := do
  let result ← FreeList.claimContinuous hhdm 0x20
  let base ← unwrap result
  pure (base + 0x20 * 0x1000)

/-- What a hart makes for itself, in `init` or in `core_main`: its thread-local data, its interrupt
stack, and its number in the `HART_ID` of the thread-local data, at the offset that the linker gave
it. -/
def initHart (hhdm : UInt64) (tdata : List UInt8) (hartIdOffset : Nat) (hartId : UInt64) :
    Kernel Pmm (UInt64 × UInt64) := do
  let tlsBase ← initTls hhdm tdata
  let intStackTop ← intStack hhdm
  Prog.update fun s =>
    { s with memory := s.memory.store (tlsBase + UInt64.ofNat hartIdOffset) hartId }
  pure (tlsBase, intStackTop)

/-- What a round of `smp_init` makes for its core: the `satp` and the stack. -/
def startCore (hhdm : UInt64) (satp : Satp) : Kernel Pmm (Satp × UInt64) := do
  let newSatp ← newWithUpperhalf hhdm satp
  let result ← FreeList.claimContinuous hhdm 0x80
  let sp ← unwrap result
  pure (coreSatp hhdm satp newSatp, sp)

/-- A step of booting. -/
inductive BootStep where
  /-- What a hart makes for itself. -/
  | hart (tdata : List UInt8) (hartIdOffset : Nat) (hartId : UInt64)
  /-- A round of `smp_init`. -/
  | core
  /-- `load` of a program. -/
  | program (bytes : List UInt8)

/-- What a step of booting hands out. -/
inductive BootValue where
  /-- The thread pointer, and the top of the interrupt stack. -/
  | hart (tlsBase intStackTop : UInt64)
  /-- What a core starts with. -/
  | core (satp : Satp) (sp : UInt64)
  /-- The number of a task. -/
  | program (taskId : UInt64)
deriving DecidableEq

variable {V : Type} (platform : Platform V) (loader : Loader V)

/-- A step of booting. -/
def bootStep : BootStep → Kernel (Machine V) BootValue
  | .hart tdata hartIdOffset hartId => do
    let made ← onPmm (initHart platform.hhdmOffset tdata hartIdOffset hartId)
    pure (.hart made.1 made.2)
  | .core => do
    let satp ← Prog.read fun s : Machine V => s.satp
    let made ← onPmm (startCore platform.hhdmOffset satp)
    pure (.core made.1 made.2)
  | .program bytes => do
    let id ← load platform loader bytes
    pure (.program id)

/-- Steps of booting, one after the other. -/
def boot : List BootStep → Kernel (Machine V) (List BootValue)
  | [] => pure []
  | step :: rest => do
    let value ← bootStep platform loader step
    let values ← boot rest
    pure (value :: values)

/-- `start_tasks`: the current task of the queue is loaded, which enters user mode on its table. -/
def startTasks : Kernel (Machine V) Unit := do
  lockRead
  let task ← TaskQueue.currentTask
  unlockRead
  print "Jumping to userspace\n"
  Prog.update fun s => { s with satp := task.taskTable, frame := task.trapFrame }

end Lsd
