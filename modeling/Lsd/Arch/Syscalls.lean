import Lsd.Memory.Dma
import Lsd.Traps.Task

/-!
# System calls

`arch::riscv::syscalls`, the serial port of `uart` and the dispatch of
`traps::trap_handler`. A call finds its number and its arguments in the trap
frame and leaves its result there.
-/

namespace Lsd

open Program

/-- `vmem::Vmem`, the arena crate: what the kernel asks of the arena at an address. -/
structure Vmem (V : Type) where
  /-- `Vmem::alloc` of a size with `AllocStrategy::NextFit`. -/
  alloc : (arena size : UInt64) → Kernel V (Except String UInt64)

/-- What the kernel finds on the machine it starts on. -/
structure Platform (V : Type) where
  /-- `HHDM_OFFSET`. -/
  hhdmOffset : UInt64
  /-- `LEVELS`. -/
  levels : Nat
  /-- The arenas. -/
  vmem : Vmem V

variable {V : Type} (platform : Platform V)

/-- Code on memory and the frame list. -/
def onPmm {α : Type} (program : Kernel Pmm α) : Kernel (Machine V) α :=
  program.within (·.pmm) fun s pmm => { s with pmm := pmm }

/-- `Vmem::alloc` with its result unwrapped. -/
def allocFrom (arena size : UInt64) : Kernel (Machine V) UInt64 := do
  let result ← (platform.vmem.alloc arena size).within (·.arenas) fun s arenas =>
    { s with arenas := arenas }
  unwrap result id

/-- Write a byte to the serial port. -/
def putByte (byte : UInt8) : Kernel (Machine V) Unit :=
  Prog.update fun s => { s with uart := s.uart ++ [byte] }

/-- `print!`: one byte of each character is written. -/
def print (text : String) : Kernel (Machine V) Unit :=
  text.toList.forM fun character => putByte (UInt8.ofNat character.toNat)

/-- Assign the registers of the trap frame. -/
def setFrame (change : TrapFrame → TrapFrame) : Kernel (Machine V) Unit :=
  Prog.update fun s => { s with frame := change s.frame }

/-- The registers with their names, as the debug format lists them. -/
def GeneralRegisters.fields (registers : GeneralRegisters) : List (String × UInt64) :=
  [("ra", registers.ra), ("sp", registers.sp), ("gp", registers.gp), ("tp", registers.tp),
    ("t0", registers.t0), ("t1", registers.t1), ("t2", registers.t2), ("s0", registers.s0),
    ("s1", registers.s1), ("a0", registers.a0), ("a1", registers.a1), ("a2", registers.a2),
    ("a3", registers.a3), ("a4", registers.a4), ("a5", registers.a5), ("a6", registers.a6),
    ("a7", registers.a7), ("s2", registers.s2), ("s3", registers.s3), ("s4", registers.s4),
    ("s5", registers.s5), ("s6", registers.s6), ("s7", registers.s7), ("s8", registers.s8),
    ("s9", registers.s9), ("s10", registers.s10), ("s11", registers.s11), ("t3", registers.t3),
    ("t4", registers.t4), ("t5", registers.t5), ("t6", registers.t6)]

/-- The debug format of a trap frame. -/
def TrapFrame.debug (frame : TrapFrame) : String :=
  let sepc := hex frame.sepc
  let registers := String.join (frame.registers.fields.map fun field =>
    "        " ++ field.1 ++ ": " ++ hex field.2 ++ ",\n")
  "TrapFrame \x7b\n    sepc: " ++ sepc ++
    ",\n    registers: GeneralRegisters \x7b\n" ++ registers ++
    "    \x7d,\n\x7d"

/-- The panic on an unknown call. -/
def unrecognized (what : String) (call : UInt64) : Kernel (Machine V) Unit := do
  let frame ← Prog.read (·.frame)
  Prog.stop (.panic
    ("Unrecognized " ++ what ++ " " ++ hex call ++ " trapframe: \n" ++ frame.debug))

/-- `INPUT_AWAIT_LIST.lock()`. -/
def lockAwaitList : Kernel (Machine V) Unit := do
  let lock ← Prog.read (·.inputAwaitList)
  if lock.locked then Prog.stop .deadlock
  else Prog.update fun s => { s with inputAwaitList := { s.inputAwaitList with locked := true } }

/-- Drop the guard of the list. -/
def unlockAwaitList : Kernel (Machine V) Unit :=
  Prog.update fun s => { s with inputAwaitList := { s.inputAwaitList with locked := false } }

/-- Change the list behind its lock. -/
def setAwaitList (change : List UInt64 → List UInt64) : Kernel (Machine V) Unit :=
  Prog.update fun s =>
    { s with inputAwaitList := { s.inputAwaitList with value := change s.inputAwaitList.value } }

/-- `kernel_io` subcall 1: print a string of the task. -/
def printString : Kernel (Machine V) Unit := do
  let frame ← Prog.read (·.frame)
  let satp ← Prog.read (·.satp)
  let result ← onPmm (virtToPhys platform.hhdmOffset platform.levels satp frame.registers.a2)
  let phys ← unwrap result
  let ptr := phys + platform.hhdmOffset
  (List.range frame.registers.a3.toNat).forM fun i => do
    let memory ← Prog.read (·.pmm.memory)
    putByte (byteAt memory (ptr + UInt64.ofNat i))

/-- `kernel_io` subcall 2: take input. -/
def takeInput : Kernel (Machine V) Unit := do
  lockAwaitList
  lockRead
  let task ← TaskQueue.currentTask
  setAwaitList fun list => list ++ [task.taskId]
  unlockRead
  unlockAwaitList
  lockWrite
  TaskQueue.currentTaskMut fun current => { current with waitingOn := .charIn }
  unlockWrite
  advanceTask

/-- `kernel_io`. -/
def kernelIo : Kernel (Machine V) Unit := do
  let frame ← Prog.read (·.frame)
  match frame.registers.a1 with
  | 1 => printString platform
  | 2 => takeInput
  | subcall => unrecognized "io subcall" subcall

/-- `kernel_task` subcall 1: extend the heap. -/
def extendHeap : Kernel (Machine V) Unit := do
  let frame ← Prog.read (·.frame)
  let bytes := frame.registers.a2
  let frames := bytes / 0x1000 + if 0 < bytes % 0x1000 then 1 else 0
  lockRead
  let curTask ← TaskQueue.currentTask
  let vaddr ← allocFrom platform curTask.vmm (frames * 0x1000)
  setFrame (·.setA0 vaddr)
  let table := curTask.taskTable.getPpn <<< 12
  print "extending heap on current task\n"
  let stop := vaddr + frames * 0x1000
  let count := if vaddr < stop then ((stop - vaddr).toNat + 0xfff) / 0x1000 else 0
  (List.range count).forM fun i => do
    let virt := vaddr + UInt64.ofNat (i * 0x1000)
    let line := "Test with vaddr " ++ hex virt ++ "\n"
    print line
    let claimed ← onPmm (FreeList.claim platform.hhdmOffset)
    let phys := claimed - platform.hhdmOffset
    print line
    let flags := (PageFlags.read.union .write).union .user
    print line
    onPmm (map platform.hhdmOffset table virt phys (.fromUsize platform.levels) .level1 flags)
    print line
  print "extending heap on current task\n"
  unlockRead

/-- `kernel_task` subcall 2: spawn a thread. -/
def spawnThread : Kernel (Machine V) Unit := do
  updateCurrent
  lockWrite
  let curTask ← TaskQueue.currentTask
  setFrame (·.setA0 0)
  let threadId ← allocFrom platform curTask.threadManager 1
  let taskClone := { curTask with
    threadId := threadId
    trapFrame := (curTask.trapFrame.setA0 curTask.taskId).setA1 threadId }
  unlockWrite
  newTask taskClone

/-- `kernel_task` subcall 3: drop the current thread. -/
def dropCurrent : Kernel (Machine V) Unit := do
  lockRead
  let self ← taskQueue
  let index := self.curTaskIdx
  unlockRead
  advanceTask
  dropTask index

/-- `kernel_task` subcall 4: end the program. -/
def endProgram : Kernel (Machine V) Unit := do
  lockRead
  let current ← TaskQueue.currentTask
  let id := current.taskId
  unlockRead
  advanceTask
  lockWrite
  let write ← taskQueue
  write.queue.reverse.zipIdx.forM fun (entry, index) =>
    if entry.taskId = id then
      if entry.threadId = 0 then fullDropTask (UInt64.ofNat index)
      else dropTask (UInt64.ofNat index)
    else pure ()
  unlockWrite

/-- `kernel_task`. -/
def kernelTask : Kernel (Machine V) Unit := do
  let frame ← Prog.read (·.frame)
  match frame.registers.a1 with
  | 0 => advanceTask
  | 1 => extendHeap platform
  | 2 => spawnThread platform
  | 3 => dropCurrent
  | 4 => endProgram
  | subcall => unrecognized "task subcall" subcall

/-- `syscall_core`. -/
def syscallCore : Kernel (Machine V) Unit := do
  let frame ← Prog.read (·.frame)
  match frame.registers.a0 with
  | 0 => kernelIo platform
  | 1 => kernelTask platform
  | call => unrecognized "syscall root" call

/-- What `uart_handler` does to a task it finds on the list. -/
def TaskData.wake (input : UInt8) (task : TaskData) : TaskData :=
  if task.waitingOn = .charIn then
    { task with trapFrame := task.trapFrame.setA0 input.toUInt64, waitingOn := .none }
  else task

/-- `uart_handler`, with the byte that the data register holds. -/
def uartHandler (input : UInt8) : Kernel (Machine V) Unit := do
  lockAwaitList
  let list ← Prog.read (·.inputAwaitList.value)
  list.forM fun entryId => do
    lockWrite
    TaskQueue.findTaskMut entryId (·.wake input)
      (.panic "called `Option::unwrap()` on a `None` value")
    unlockWrite
  setAwaitList fun _ => []
  unlockAwaitList

end Lsd
