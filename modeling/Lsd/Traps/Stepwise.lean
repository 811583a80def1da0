import Lsd.Lib.Script
import Lsd.Traps.Handler

/-!
# The trap handler step by step

An interrupt can be taken between two steps of the kernel, so what is held and
what is enabled matters there too. Here the handler and what it calls are taken
apart into their accesses to the machine. Done without a break they are the
programs of the handler.
-/

namespace Lsd

open Program

variable {V : Type}

/-- The queue with its lock, the list of the waiters with its lock, and `sstatus`. -/
def Machine.guarded (s : Machine V) : RwLock TaskQueue × Mutex (List UInt64) × UInt64 :=
  (s.currentUserTask, s.inputAwaitList, s.sstatus)

/-- What an external interrupt finds. -/
structure External (V : Type) where
  /-- The number of the claimed interrupt. -/
  claim : Option Nat
  /-- The numbers that `uart_handler` serves. -/
  serial : Nat → Bool
  /-- The byte in the data register of the serial port. -/
  input : UInt8
  /-- The handlers of the other numbers. -/
  others : Nat → Kernel (Machine V) Unit
  /-- They have nothing to do with the threads, and leave `sstatus` alone. -/
  apart : ∀ id, Prog.Keeps Machine.guarded (others id)

/-- The devices with the handlers of the external interrupts. -/
def External.devices (external : External V) : Devices V where
  claim := external.claim
  handlers := fun number id =>
    if external.serial number then uartHandler external.input else external.others id

/-- Kernel code taken apart into its accesses. -/
abbrev Steps (V α : Type) : Type := Script Stop (Machine V) α

namespace Stepwise

open Script (one)

/-- The loop of `TaskQueue::advance`. -/
def advanceLoop (start : UInt64) : Nat → Bool → Steps V Unit
  | 0, _ => .stopped .unfinished
  | steps + 1, sieSet => do
    one (setTaskQueue fun self => { self with curTaskIdx := self.curTaskIdx + 1 })
    one (setTaskQueue fun self =>
      if self.curTaskIdx.toNat = self.queue.length then { self with curTaskIdx := 0 } else self)
    let task ← one TaskQueue.currentTask
    if task.waitingOn = .none then
      if sieSet then one (TaskQueue.setStatus false false) else pure ()
    else do
      let self ← one taskQueue
      if self.curTaskIdx = start then do
        one (TaskQueue.setStatus true true)
        advanceLoop start steps true
      else advanceLoop start steps sieSet

-- `rounds` says how often the loop of `advance` is followed on a queue of some length
variable (rounds : Nat → Nat)

/-- `TaskQueue::advance`. -/
def advance : Steps V Unit := do
  let self ← one taskQueue
  advanceLoop self.curTaskIdx (rounds self.queue.length) false

/-- `update_current`. -/
def updateCurrent : Steps V Unit := do
  one lockWrite
  let frame ← one (Prog.read (·.frame))
  one (TaskQueue.currentTaskMut (·.withFrame frame))
  one unlockWrite

/-- `advance_task`. -/
def advanceTask : Steps V Unit := do
  one lockWrite
  let frame ← one (Prog.read (·.frame))
  one (TaskQueue.currentTaskMut (·.withFrame frame))
  advance rounds
  let newTask ← one TaskQueue.currentTask
  one (Prog.update fun s => { s with satp := newTask.taskTable })
  one (Prog.update fun s => { s with frame := newTask.trapFrame })
  one unlockWrite

/-- `new_task`. -/
def newTask (taskData : TaskData) : Steps V Unit := do
  one lockWrite
  one (TaskQueue.newTask taskData)
  one unlockWrite

/-- `drop_task`. -/
def dropTask (taskIndex : UInt64) : Steps V Unit := do
  one lockWrite
  let self ← one taskQueue
  Script.only (self.curTaskIdx = taskIndex) (advance rounds)
  one (TaskQueue.removeTask taskIndex.toNat)
  one (setTaskQueue fun self => { self with curTaskIdx := self.curTaskIdx - 1 })
  one unlockWrite

/-- `full_drop_task`. -/
def fullDropTask (taskIndex : UInt64) : Steps V Unit := dropTask rounds taskIndex

/-- `kernel_io` subcall 2: take input. -/
def takeInput : Steps V Unit := do
  one lockAwaitList
  one lockRead
  let task ← one TaskQueue.currentTask
  one (setAwaitList fun list => list ++ [task.taskId])
  one unlockRead
  one unlockAwaitList
  one lockWrite
  one (TaskQueue.currentTaskMut fun current => { current with waitingOn := .charIn })
  one unlockWrite
  advanceTask rounds

variable (platform : Platform V)

/-- `kernel_io`. -/
def kernelIo : Steps V Unit := do
  let frame ← one (Prog.read (·.frame))
  match frame.registers.a1 with
  | 1 => one (printString platform)
  | 2 => takeInput rounds
  | subcall => one (unrecognized "io subcall" subcall)

/-- `kernel_task` subcall 1: extend the heap. -/
def extendHeap : Steps V Unit := do
  let frame ← one (Prog.read (·.frame))
  let bytes := frame.registers.a2
  let frames := bytes / 0x1000 + if 0 < bytes % 0x1000 then 1 else 0
  one lockRead
  let curTask ← one TaskQueue.currentTask
  let vaddr ← one (allocFrom platform curTask.vmm (frames * 0x1000))
  one (setFrame (·.setA0 vaddr))
  let table := curTask.taskTable.getPpn <<< 12
  one (print "extending heap on current task\n")
  let stop := vaddr + frames * 0x1000
  let count := if vaddr < stop then ((stop - vaddr).toNat + 0xfff) / 0x1000 else 0
  (List.range count).forM fun i => do
    let virt := vaddr + UInt64.ofNat (i * 0x1000)
    let line := "Test with vaddr " ++ hex virt ++ "\n"
    one (print line)
    let claimed ← one (onPmm (FreeList.claim platform.hhdmOffset))
    let phys := claimed - platform.hhdmOffset
    one (print line)
    let flags := (PageFlags.read.union .write).union .user
    one (print line)
    one (onPmm
      (map platform.hhdmOffset table virt phys (.fromUsize platform.levels) .level1 flags))
    one (print line)
  one (print "extending heap on current task\n")
  one unlockRead

/-- `kernel_task` subcall 2: spawn a thread. -/
def spawnThread : Steps V Unit := do
  updateCurrent
  one lockWrite
  let curTask ← one TaskQueue.currentTask
  one (setFrame (·.setA0 0))
  let threadId ← one (allocFrom platform curTask.threadManager 1)
  let taskClone := { curTask with
    threadId := threadId
    trapFrame := (curTask.trapFrame.setA0 curTask.taskId).setA1 threadId }
  one unlockWrite
  newTask taskClone

/-- `kernel_task` subcall 3: drop the current thread. -/
def dropCurrent : Steps V Unit := do
  one lockRead
  let self ← one taskQueue
  let index := self.curTaskIdx
  one unlockRead
  advanceTask rounds
  dropTask rounds index

/-- `kernel_task` subcall 4: end the program. -/
def endProgram : Steps V Unit := do
  one lockRead
  let current ← one TaskQueue.currentTask
  let id := current.taskId
  one unlockRead
  advanceTask rounds
  one lockWrite
  let write ← one taskQueue
  write.queue.reverse.zipIdx.forM fun (entry, index) =>
    if entry.taskId = id then
      if entry.threadId = 0 then fullDropTask rounds (UInt64.ofNat index)
      else dropTask rounds (UInt64.ofNat index)
    else pure ()
  one unlockWrite

/-- `kernel_task`. -/
def kernelTask : Steps V Unit := do
  let frame ← one (Prog.read (·.frame))
  match frame.registers.a1 with
  | 0 => advanceTask rounds
  | 1 => extendHeap platform
  | 2 => spawnThread platform
  | 3 => dropCurrent rounds
  | 4 => endProgram rounds
  | subcall => one (unrecognized "task subcall" subcall)

/-- `syscall_core`. -/
def syscallCore : Steps V Unit := do
  let frame ← one (Prog.read (·.frame))
  match frame.registers.a0 with
  | 0 => kernelIo rounds platform
  | 1 => kernelTask rounds platform
  | call => one (unrecognized "syscall root" call)

/-- `uart_handler`. -/
def uartHandler (input : UInt8) : Steps V Unit := do
  one lockAwaitList
  let list ← one (Prog.read (·.inputAwaitList.value))
  list.forM fun entryId => do
    one lockWrite
    one (TaskQueue.findTaskMut entryId (·.wake input)
      (.panic "called `Option::unwrap()` on a `None` value"))
    one unlockWrite
  one (setAwaitList fun _ => [])
  one unlockAwaitList

/-- `handle_external`. -/
def handleExternal (external : External V) : Steps V Unit :=
  match external.claim with
  | none => one (Prog.stop (.panic "No claim available"))
  | some id => do
    one (checkIndex 64 id)
    if external.serial id then uartHandler external.input else one (external.others id)

/-- `trap_handler`. -/
def trapHandler (external : External V) (scause stval : UInt64) : Steps V Unit :=
  match Trap.fromCause scause with
  | .supervisorTimerInterrupt => advanceTask rounds
  | .storePageFault =>
    if stval = 0xffffffff90000000 then one (print "Failed to map UART, using HHDM UART\n")
    else one (Prog.stop .unfinished)
  | .supervisorExternalInterrupt => handleExternal external
  | .userModeEnvironmentCall => do
    one (setFrame fun regs => { regs with sepc := regs.sepc + 4 })
    syscallCore rounds platform
  | .breakpoint => do
    one lockWrite
    one (TaskQueue.currentTaskMut fun curTask => { curTask with waitingOn := .breakpoint })
    one unlockWrite
    advanceTask rounds
  | _ => one (Prog.stop .unfinished)

/-- The steps of the loop make up the loop. -/
theorem whole_advanceLoop (start : UInt64) (steps : Nat) (sieSet : Bool) :
    (advanceLoop start steps sieSet : Steps V Unit).whole =
      TaskQueue.advanceLoop start steps sieSet := by
  induction steps generalizing sieSet with
  | zero => rfl
  | succ steps ih =>
    unfold advanceLoop TaskQueue.advanceLoop
    simp only [Script.whole_bind, Script.whole_one, Script.whole_ite, Script.whole_pure, ih]

/-- The steps of `advance` make up `advance`. -/
theorem whole_advance : (advance (· + 1) : Steps V Unit).whole = TaskQueue.advance := by
  unfold advance TaskQueue.advance
  simp only [Script.whole_bind, Script.whole_one, whole_advanceLoop]

/-- The steps of `advance_task` make up `advance_task`. -/
theorem whole_advanceTask : (advanceTask (· + 1) : Steps V Unit).whole = Lsd.advanceTask := by
  unfold advanceTask Lsd.advanceTask
  simp only [Script.whole_bind, Script.whole_one, whole_advance]

/-- The steps of `drop_task` make up `drop_task`. -/
theorem whole_dropTask (taskIndex : UInt64) :
    (dropTask (· + 1) taskIndex : Steps V Unit).whole = Lsd.dropTask taskIndex := by
  unfold dropTask Lsd.dropTask
  simp only [Script.whole_bind, Script.whole_one, Script.whole_only, whole_advance]

/-- The steps of the take-input call make up the call. -/
theorem whole_takeInput : (takeInput (· + 1) : Steps V Unit).whole = Lsd.takeInput := by
  unfold takeInput Lsd.takeInput
  simp only [Script.whole_bind, Script.whole_one, whole_advanceTask]

/-- The steps of the heap call make up the call. -/
theorem whole_extendHeap : (extendHeap platform).whole = Lsd.extendHeap platform := by
  unfold extendHeap Lsd.extendHeap
  simp only [Script.whole_bind, Script.whole_one, Script.whole_forM]

/-- The steps of the spawn call make up the call. -/
theorem whole_spawnThread : (spawnThread platform).whole = Lsd.spawnThread platform := by
  unfold spawnThread Lsd.spawnThread updateCurrent Lsd.updateCurrent newTask Lsd.newTask
  simp only [Script.whole_bind, Script.whole_one]

/-- The steps of the drop call make up the call. -/
theorem whole_dropCurrent : (dropCurrent (· + 1) : Steps V Unit).whole = Lsd.dropCurrent := by
  unfold dropCurrent Lsd.dropCurrent
  simp only [Script.whole_bind, Script.whole_one, whole_advanceTask, whole_dropTask]

/-- The steps of the end call make up the call. -/
theorem whole_endProgram : (endProgram (· + 1) : Steps V Unit).whole = Lsd.endProgram := by
  unfold endProgram Lsd.endProgram fullDropTask Lsd.fullDropTask
  simp only [Script.whole_bind, Script.whole_one, Script.whole_forM, Script.whole_ite,
    Script.whole_pure, whole_advanceTask, whole_dropTask]

/-- The steps of the calls for input make up these calls. -/
theorem whole_kernelIo : (kernelIo (· + 1) platform).whole = Lsd.kernelIo platform := by
  unfold kernelIo Lsd.kernelIo
  rw [Script.whole_bind, Script.whole_one]
  congr 1
  funext frame
  split
  · exact (Script.whole_one _).trans (by simp only [*])
  · exact whole_takeInput.trans (by simp only [*])
  · exact (Script.whole_one _).trans (by simp only [*])

/-- The steps of the calls for tasks make up these calls. -/
theorem whole_kernelTask : (kernelTask (· + 1) platform).whole = Lsd.kernelTask platform := by
  unfold kernelTask Lsd.kernelTask
  rw [Script.whole_bind, Script.whole_one]
  congr 1
  funext frame
  split
  · exact whole_advanceTask.trans (by simp only [*])
  · exact (whole_extendHeap platform).trans (by simp only [*])
  · exact (whole_spawnThread platform).trans (by simp only [*])
  · exact whole_dropCurrent.trans (by simp only [*])
  · exact whole_endProgram.trans (by simp only [*])
  · exact (Script.whole_one _).trans (by simp only [*])

/-- The steps of `syscall_core` make up `syscall_core`. -/
theorem whole_syscallCore : (syscallCore (· + 1) platform).whole = Lsd.syscallCore platform := by
  unfold syscallCore Lsd.syscallCore
  rw [Script.whole_bind, Script.whole_one]
  congr 1
  funext frame
  split
  · exact (whole_kernelIo platform).trans (by simp only [*])
  · exact (whole_kernelTask platform).trans (by simp only [*])
  · exact (Script.whole_one _).trans (by simp only [*])

/-- The steps of `uart_handler` make up `uart_handler`. -/
theorem whole_uartHandler (input : UInt8) :
    (uartHandler input : Steps V Unit).whole = Lsd.uartHandler input := by
  unfold uartHandler Lsd.uartHandler
  simp only [Script.whole_bind, Script.whole_one, Script.whole_forM]

/-- The steps of `handle_external` make up `handle_external`. -/
theorem whole_handleExternal (external : External V) :
    (handleExternal external).whole = Lsd.handleExternal external.devices := by
  unfold handleExternal Lsd.handleExternal
  cases claimed : external.claim with
  | none => simp only [External.devices, claimed, Script.whole_one]
  | some id =>
    simp only [External.devices, claimed, Script.whole_bind, Script.whole_one, Script.whole_ite,
      whole_uartHandler]

/-- The steps of `trap_handler`, with the loop of `advance` followed for a round and one more
position, make up `trap_handler`. -/
theorem whole_trapHandler (external : External V) (scause stval : UInt64) :
    (trapHandler (· + 1) platform external scause stval).whole =
      Lsd.trapHandler platform external.devices scause stval := by
  unfold trapHandler Lsd.trapHandler
  split
  · simp only [*, whole_advanceTask]
  · simp only [*, Script.whole_ite, Script.whole_one]
  · simp only [*, whole_handleExternal]
  · simp only [*, Script.whole_bind, Script.whole_one, whole_syscallCore]
  · simp only [*, Script.whole_bind, Script.whole_one, whole_advanceTask]
  · exact (Script.whole_one _).trans (by simp only [*])

end Stepwise

end Lsd
