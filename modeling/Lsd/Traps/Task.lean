import Lsd.Memory.Vmm

/-!
# Tasks and their queue

`traps::TrapFrame` and `traps::task`: a hart that runs one thread at a time, the
queue of the saved threads behind its lock, and the moves between them. The
thread that runs is told three times: by the index into the queue, by the trap
frame on the interrupt stack and by `satp`.
-/

namespace Lsd

open Program

/-- `GeneralRegisters`. -/
structure GeneralRegisters where
  (ra sp gp tp t0 t1 t2 s0 s1 a0 a1 a2 a3 a4 a5 a6 a7 s2 s3 s4 s5 s6 s7 s8 s9 s10 s11 t3 t4 t5 t6 :
    UInt64)
deriving DecidableEq, Inhabited

/-- `TrapFrame`. -/
structure TrapFrame where
  /-- Where the thread goes on. -/
  sepc : UInt64
  /-- Its registers. -/
  registers : GeneralRegisters
deriving DecidableEq, Inhabited

/-- A frame with another `a0`. -/
def TrapFrame.setA0 (frame : TrapFrame) (value : UInt64) : TrapFrame :=
  { frame with registers := { frame.registers with a0 := value } }

/-- A frame with another `a1`. -/
def TrapFrame.setA1 (frame : TrapFrame) (value : UInt64) : TrapFrame :=
  { frame with registers := { frame.registers with a1 := value } }

/-- `Privilege`. -/
inductive Privilege where
  | root | superUser | user | guest
deriving DecidableEq

/-- `WaitSrc`. -/
inductive WaitSrc where
  | none | charIn | breakpoint
deriving DecidableEq

/-- `TaskData`. -/
structure TaskData where
  /-- The registers of the thread while it does not run. -/
  trapFrame : TrapFrame
  /-- The task the thread belongs to. -/
  taskId : UInt64
  /-- The `satp` of its address space. -/
  taskTable : Satp
  /-- Its privilege. -/
  privilege : Privilege
  /-- What it waits on. -/
  waitingOn : WaitSrc
  /-- Its number in the task. -/
  threadId : UInt64
  /-- The arena of the task's thread numbers. -/
  threadManager : UInt64
  /-- The arena of the task's addresses. -/
  vmm : UInt64
deriving DecidableEq

/-- A thread with another trap frame. -/
def TaskData.withFrame (task : TaskData) (frame : TrapFrame) : TaskData :=
  { task with trapFrame := frame }

/-- `TaskQueue`. -/
structure TaskQueue where
  /-- The threads. -/
  queue : List TaskData
  /-- Where the current thread is. -/
  curTaskIdx : UInt64
deriving DecidableEq

/-- `spin::RwLock`: a value with the guards that are out on it. -/
structure RwLock (α : Type) where
  /-- The value behind the lock. -/
  value : α
  /-- Read guards. -/
  readers : Nat
  /-- Whether a write guard is out. -/
  writer : Bool

/-- A lock without guards. -/
def RwLock.free {α : Type} (value : α) : RwLock α := ⟨value, 0, false⟩

/-- `spin::Mutex`: a value and whether its guard is out. -/
structure Mutex (α : Type) where
  /-- The value behind the lock. -/
  value : α
  /-- Whether the guard is out. -/
  locked : Bool

/-- A mutex whose guard is not out. -/
def Mutex.free {α : Type} (value : α) : Mutex α := ⟨value, false⟩

/-- The hart and what the kernel keeps in memory; `V` is the state of the arenas. -/
structure Machine (V : Type) where
  /-- Memory and the frame list. -/
  pmm : Pmm
  /-- The arenas of thread numbers and addresses. -/
  arenas : V
  /-- `CURRENT_USER_TASK`. -/
  currentUserTask : RwLock TaskQueue
  /-- `INPUT_AWAIT_LIST`. -/
  inputAwaitList : Mutex (List UInt64)
  /-- The trap frame on the interrupt stack: what a return to user mode restores. -/
  frame : TrapFrame
  /-- The `satp` register. -/
  satp : Satp
  /-- The `sstatus` register. -/
  sstatus : UInt64
  /-- What was written to the data register of the serial port. -/
  uart : List UInt8

variable {V : Type}

/-- `CURRENT_USER_TASK.write()`. -/
def lockWrite : Kernel (Machine V) Unit := do
  let lock ← Prog.read (·.currentUserTask)
  if lock.writer || lock.readers != 0 then Prog.stop .deadlock
  else Prog.update fun s => { s with currentUserTask := { s.currentUserTask with writer := true } }

/-- Drop the write guard. -/
def unlockWrite : Kernel (Machine V) Unit :=
  Prog.update fun s => { s with currentUserTask := { s.currentUserTask with writer := false } }

/-- `CURRENT_USER_TASK.read()`. -/
def lockRead : Kernel (Machine V) Unit := do
  let lock ← Prog.read (·.currentUserTask)
  if lock.writer then Prog.stop .deadlock
  else Prog.update fun s =>
    { s with currentUserTask :=
    { s.currentUserTask with readers := s.currentUserTask.readers + 1 } }

/-- Drop a read guard. -/
def unlockRead : Kernel (Machine V) Unit :=
  Prog.update fun s =>
    { s with currentUserTask :=
    { s.currentUserTask with readers := s.currentUserTask.readers - 1 } }

/-- The queue behind the lock. -/
def taskQueue : Kernel (Machine V) TaskQueue := Prog.read (·.currentUserTask.value)

/-- Change the queue behind the lock. -/
def setTaskQueue (change : TaskQueue → TaskQueue) : Kernel (Machine V) Unit :=
  Prog.update fun s =>
    { s with currentUserTask := { s.currentUserTask with value := change s.currentUserTask.value } }

/-- `Vec::swap_remove`, once the index is in range: the last element takes the place. -/
def swapRemove {α : Type} (elements : List α) (index : Nat) : List α :=
  match elements.getLast? with
  | some last => (elements.set index last).dropLast
  | none => []

/-- The number of entries that `Vec` can hold: an entry has 312 bytes and a vector at most
`isize::MAX`. -/
def queueLimit : Nat := (2 ^ 63 - 1) / 312

namespace TaskQueue

/-- `TaskQueue::current_task`. -/
def currentTask : Kernel (Machine V) TaskData := do
  let self ← taskQueue
  let index := self.curTaskIdx.toNat
  let length := self.queue.length
  match self.queue[index]? with
  | some task => pure task
  | none =>
    Prog.stop (.panic s!"index out of bounds: the len is {length} but the index is {index}")

/-- `TaskQueue::current_task_mut`, and the write through it. -/
def currentTaskMut (change : TaskData → TaskData) : Kernel (Machine V) Unit := do
  let task ← currentTask
  setTaskQueue fun self => { self with queue := self.queue.set self.curTaskIdx.toNat (change task) }

/-- Write the interrupt enable and the previous privilege into `sstatus`. -/
def setStatus (sie spp : Bool) : Kernel (Machine V) Unit :=
  Prog.update fun s => { s with sstatus := setBit 8 (setBit 1 s.sstatus sie) spp }

/-- The loop of `TaskQueue::advance`. -/
def advanceLoop (start : UInt64) : Nat → Bool → Kernel (Machine V) Unit
  | 0, _ => Prog.stop .unfinished
  | steps + 1, sieSet => do
    setTaskQueue fun self => { self with curTaskIdx := self.curTaskIdx + 1 }
    setTaskQueue fun self =>
      if self.curTaskIdx.toNat = self.queue.length then { self with curTaskIdx := 0 } else self
    let task ← currentTask
    if task.waitingOn = .none then
      if sieSet then setStatus false false else pure ()
    else do
      let self ← taskQueue
      if self.curTaskIdx = start then do
        setStatus true true
        advanceLoop start steps true
      else advanceLoop start steps sieSet

/-- `TaskQueue::advance`. The lock is held, so a round in which no entry can run changes nothing
and the loop has no end after it. -/
def advance : Kernel (Machine V) Unit := do
  let self ← taskQueue
  advanceLoop self.curTaskIdx (self.queue.length + 1) false

/-- `TaskQueue::new_task`. -/
def newTask (taskData : TaskData) : Kernel (Machine V) Unit := do
  let self ← taskQueue
  if self.queue.length < queueLimit then
    setTaskQueue fun self => { self with queue := self.queue ++ [taskData] }
  else Prog.stop (.panic "capacity overflow")

/-- `TaskQueue::find_task_mut`, and the write through it. -/
def findTaskMut (id : UInt64) (change : TaskData → TaskData) (missing : Stop) :
    Kernel (Machine V) Unit := do
  let self ← taskQueue
  match self.queue.findIdx? fun entry => entry.taskId = id with
  | some index => setTaskQueue fun self => { self with queue := self.queue.modify index change }
  | none => Prog.stop missing

/-- `Vec::swap_remove` on the queue. -/
def removeTask (index : Nat) : Kernel (Machine V) Unit := do
  let self ← taskQueue
  let length := self.queue.length
  if index < length then
    setTaskQueue fun self => { self with queue := swapRemove self.queue index }
  else
    Prog.stop (.panic s!"swap_remove index (is {index}) should be < len (is {length})")

end TaskQueue

/-- `update_current`. -/
def updateCurrent : Kernel (Machine V) Unit := do
  lockWrite
  let frame ← Prog.read (·.frame)
  TaskQueue.currentTaskMut (·.withFrame frame)
  unlockWrite

/-- `advance_task`. -/
def advanceTask : Kernel (Machine V) Unit := do
  lockWrite
  let frame ← Prog.read (·.frame)
  TaskQueue.currentTaskMut (·.withFrame frame)
  TaskQueue.advance
  let newTask ← TaskQueue.currentTask
  Prog.update fun s => { s with satp := newTask.taskTable }
  Prog.update fun s => { s with frame := newTask.trapFrame }
  unlockWrite

/-- `new_task`. -/
def newTask (taskData : TaskData) : Kernel (Machine V) Unit := do
  lockWrite
  TaskQueue.newTask taskData
  unlockWrite

/-- `drop_task`. -/
def dropTask (taskIndex : UInt64) : Kernel (Machine V) Unit := do
  lockWrite
  let self ← taskQueue
  Prog.only (self.curTaskIdx = taskIndex) TaskQueue.advance
  TaskQueue.removeTask taskIndex.toNat
  setTaskQueue fun self => { self with curTaskIdx := self.curTaskIdx - 1 }
  unlockWrite

/-- `full_drop_task`. -/
def fullDropTask (taskIndex : UInt64) : Kernel (Machine V) Unit := dropTask taskIndex

end Lsd
