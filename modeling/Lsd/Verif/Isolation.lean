import Lsd.Verif.BootRun
import Lsd.Verif.InterruptLocks
import Lsd.Verif.ThreadCalls

/-!
# Programs cannot disturb each other

After booting the threads of the programs run, trap and are switched, and the
handler is interrupted between its accesses. All the while the kernel writes to
its stacks: the shim puts the trap frame there, and the handler what the compiler
keeps there. Whatever happens, the hart runs on the table of some program, every
program keeps the address space that was made for it, and a frame of a program
changes only while a thread of that program runs on it. The heap call is left
out: it walks from the physical address of the root, where there is no table of
the task.
-/

namespace Lsd

open Program

variable {V : Type} {platform : Platform V} {loader : Loader V} {height extra : Nat}
  {pages : Set UInt64} {nodes : List UInt64} {s s' : Machine V}

/-- What decides about address spaces: memory, the queue and `satp`. -/
def Machine.spaces (s : Machine V) : Pmm × List TaskData × Satp := (s.pmm, s.tasks.queue, s.satp)

/-- A state in which every thread has one of some tables, one of them is in use, and some pages hold
what they held. -/
structure Spaced (tables : Set Satp) (pages : Set UInt64) (memory : Memory) (s : Machine V) :
    Prop where
  /-- Every thread has one of the tables. -/
  queue : ∀ task ∈ s.tasks.queue, task.taskTable ∈ tables
  /-- One of them is in use. -/
  satp : s.satp ∈ tables
  /-- The pages hold what they held. -/
  pages : Kept pages memory s.pmm.memory

/-- The trap is a call for more heap. -/
def Machine.CallsHeap (s : Machine V) (scause : UInt64) : Prop :=
  Trap.fromCause scause = .userModeEnvironmentCall ∧ s.frame.registers.a0 = 1 ∧
    s.frame.registers.a1 = 1

/-- A handler of another device leaves `satp` and some pages alone. -/
def External.Leaves (external : External V) (pages : Set UInt64) : Prop :=
  ∀ id s, ((external.others id).run s).2.satp = s.satp ∧
    Kept pages s.pmm.memory ((external.others id).run s).2.pmm.memory

/-- A script that keeps a state so. -/
abbrev Spaced.Stays {α : Type} (tables : Set Satp) (pages : Set UInt64) (memory : Memory)
    (script : Steps V α) : Prop :=
  Script.Preserves (Spaced tables pages memory) (fun _ => True) script

/-- The kernel has written to its stacks. The registers of the thread, which the shim saves there,
are the trap frame of the machine. -/
def Stacked (kernelStacks : Set UInt64) (s s' : Machine V) : Prop :=
  ∃ memory, ChangedWithin kernelStacks s.pmm.memory memory ∧
    s' = { s with pmm := { s.pmm with memory := memory } }

/-- A script that keeps a state so from here on, while the kernel writes to its stacks. -/
abbrev Spaced.Goes (tables : Set Satp) (pages kernelStacks : Set UInt64) (memory : Memory)
    (script : Steps V Unit) (s : Machine V) : Prop :=
  Script.SafeAmid (Stacked kernelStacks) (Spaced tables pages memory) script s

/-- Nothing was written. -/
theorem Stacked.refl (kernelStacks : Set UInt64) (s : Machine V) : Stacked kernelStacks s s :=
  ⟨s.pmm.memory, .refl _ _, rfl⟩

/-- The kernel goes on writing. -/
theorem Stacked.trans {kernelStacks : Set UInt64} {first second third : Machine V}
    (left : Stacked kernelStacks first second) (right : Stacked kernelStacks second third) :
    Stacked kernelStacks first third := by
  obtain ⟨between, changed, rfl⟩ := left
  obtain ⟨memory, changed', rfl⟩ := right
  exact ⟨memory, changed.trans changed', rfl⟩

section Handler

variable {tables : Set Satp} {kernelStacks : Set UInt64} {memory : Memory}

/-- The same queue, `satp` and memory. -/
theorem Spaced.same (spaced : Spaced tables pages memory s) (same : s'.spaces = s.spaces) :
    Spaced tables pages memory s' := by
  obtain ⟨memory_eq, rest⟩ := Prod.mk.inj same
  obtain ⟨queue_eq, satp_eq⟩ := Prod.mk.inj rest
  exact ⟨queue_eq ▸ spaced.queue, satp_eq ▸ spaced.satp, memory_eq ▸ spaced.pages⟩

/-- An access that has nothing to do with address spaces. -/
theorem Spaced.one_keeps {α : Type} {program : Kernel (Machine V) α}
    (keeps : Prog.Keeps Machine.spaces program) :
    Spaced.Stays tables pages memory (Script.one program) :=
  .one fun s spaced => ⟨spaced.same (keeps s), fun _ _ => trivial⟩

/-- Printing has nothing to do with address spaces. -/
theorem keeps_spaces_print (text : String) :
    Prog.Keeps Machine.spaces (print text : Kernel (Machine V) Unit) :=
  .forM fun _ _ => .update fun _ => rfl

/-- Nor has taking a value out of a result. -/
theorem keeps_spaces_unwrap {α : Type} (result : Except String α) {debug : String → String} :
    Prog.Keeps Machine.spaces (unwrap result debug : Kernel (Machine V) α) := by
  cases result with
  | ok value => exact .pure value
  | error message => exact .stop _

/-- Nor have the arenas. -/
theorem keeps_spaces_allocFrom (platform : Platform V) (arena size : UInt64) :
    Prog.Keeps Machine.spaces (allocFrom platform arena size) :=
  .bind (fun _ => rfl) fun result => keeps_spaces_unwrap result

/-- An unknown call changes nothing. -/
theorem keeps_spaces_unrecognized (what : String) (call : UInt64) :
    Prog.Keeps Machine.spaces (unrecognized what call : Kernel (Machine V) Unit) :=
  .bind (.read _) fun _ => .stop _

/-- The print call reads memory, and changes none. -/
theorem keeps_spaces_printString (platform : Platform V) :
    Prog.Keeps Machine.spaces (printString platform) := by
  intro s
  rw [Machine.printString_run]
  rfl

/-- Taking the lock of the queue for a change. -/
theorem keeps_spaces_lockWrite : Prog.Keeps Machine.spaces (lockWrite : Kernel (Machine V) Unit) :=
  .bind (.read _) fun _ => .ite (.stop _) (.update fun _ => rfl)

/-- Taking it for a look. -/
theorem keeps_spaces_lockRead : Prog.Keeps Machine.spaces (lockRead : Kernel (Machine V) Unit) :=
  .bind (.read _) fun _ => .ite (.stop _) (.update fun _ => rfl)

/-- Taking the lock of the list. -/
theorem keeps_spaces_lockAwaitList :
    Prog.Keeps Machine.spaces (lockAwaitList : Kernel (Machine V) Unit) :=
  .bind (.read _) fun _ => .ite (.stop _) (.update fun _ => rfl)

/-- A change of an element keeps what holds of every element, when it keeps it of each. -/
theorem forall_mem_modify {α : Type} {P : α → Prop} {elements : List α} {change : α → α}
    (all : ∀ element ∈ elements, P element) (kept : ∀ element, P element → P (change element))
    (index : Nat) : ∀ element ∈ elements.modify index change, P element := by
  intro element member
  obtain ⟨place, found⟩ := List.mem_iff_getElem?.mp member
  rw [List.getElem?_modify] at found
  obtain ⟨old, entry, rfl⟩ := Option.map_eq_some_iff.mp found
  have holds := all old (List.mem_of_getElem? entry)
  split
  · exact kept old holds
  · exact holds

namespace Spaced

/-- Another queue of threads with the tables. -/
theorem setTasks (spaced : Spaced tables pages memory s) {q : TaskQueue}
    (inside : ∀ task ∈ q.queue, task.taskTable ∈ tables) :
    Spaced tables pages memory (s.setTasks q) := ⟨inside, spaced.satp, spaced.pages⟩

/-- A change of anything else. -/
theorem update {change : Machine V → Machine V} (same : ∀ s, (change s).spaces = s.spaces) :
    Stays tables pages memory
      (Script.one (Prog.update change : Kernel (Machine V) Unit)) :=
  one_keeps (.update same)

/-- The current task has one of the tables. -/
theorem currentTask : Script.Preserves (Spaced tables pages memory)
    (fun task => task.taskTable ∈ tables)
    (Script.one (TaskQueue.currentTask : Kernel (Machine V) TaskData)) := by
  apply Script.Preserves.one
  intro s spaced
  refine ⟨spaced.same (currentTask_keeps s), fun task returned => ?_⟩
  obtain ⟨entry, -⟩ := currentTask_eq_ok (Prod.ext returned rfl)
  exact spaced.queue task (List.mem_of_getElem? entry)

/-- A change of the index leaves the threads. -/
theorem setIndex {change : TaskQueue → TaskQueue} (same : ∀ q, (change q).queue = q.queue) :
    Stays tables pages memory
      (Script.one (setTaskQueue change : Kernel (Machine V) Unit)) := by
  apply one_keeps
  intro s
  exact congrArg (fun queue => (s.pmm, queue, s.satp)) (same s.tasks)

/-- A change of the current task that leaves its table alone. -/
theorem currentTaskMut {change : TaskData → TaskData}
    (same : ∀ task, (change task).taskTable = task.taskTable) :
    Stays tables pages memory
      (Script.one (TaskQueue.currentTaskMut change : Kernel (Machine V) Unit)) := by
  apply Script.Preserves.one
  intro s spaced
  refine ⟨?_, fun _ _ => trivial⟩
  cases entry : s.tasks.queue[s.cur]? with
  | none =>
    obtain ⟨reason, stops⟩ := currentTask_missing entry
    rw [TaskQueue.currentTaskMut, Prog.run_bind_stop stops]
    exact spaced
  | some task =>
    rw [TaskQueue.currentTaskMut_run s change entry]
    exact spaced.setTasks (forall_mem_modify spaced.queue (fun task inside => same task ▸ inside) _)

/-- A thread is removed. -/
theorem removeTask (index : Nat) : Stays tables pages memory
    (Script.one (TaskQueue.removeTask index : Kernel (Machine V) Unit)) := by
  apply Script.Preserves.one
  intro s spaced
  refine ⟨?_, fun _ _ => trivial⟩
  rw [TaskQueue.removeTask, Prog.run_bind_ok (taskQueue_run s)]
  by_cases bound : index < s.tasks.queue.length
  · rw [if_pos bound, setTaskQueue_run]
    refine spaced.setTasks fun task member => spaced.queue task ?_
    exact List.mem_of_mem_eraseIdx ((swapRemove_perm bound).mem_iff.mp member)
  · rw [if_neg bound]
    exact spaced

/-- A thread with one of the tables is added. -/
theorem pushTask {task : TaskData} (inside : task.taskTable ∈ tables) :
    Stays tables pages memory
      (Script.one (TaskQueue.newTask task : Kernel (Machine V) Unit)) := by
  apply Script.Preserves.one
  intro s spaced
  refine ⟨?_, fun _ _ => trivial⟩
  rw [TaskQueue.newTask, Prog.run_bind_ok (taskQueue_run s)]
  by_cases room : s.tasks.queue.length < queueLimit
  · rw [if_pos room, setTaskQueue_run]
    refine spaced.setTasks fun other member => ?_
    rcases List.mem_append.mp member with old | new
    · exact spaced.queue other old
    · exact List.mem_singleton.mp new ▸ inside
  · rw [if_neg room]
    exact spaced

/-- A thread that was waiting is woken. -/
theorem wake (id : UInt64) (input : UInt8) (missing : Stop) :
    Stays tables pages memory
      (Script.one (TaskQueue.findTaskMut id (·.wake input) missing : Kernel (Machine V) Unit)) := by
  apply Script.Preserves.one
  intro s spaced
  refine ⟨?_, fun _ _ => trivial⟩
  rw [TaskQueue.findTaskMut, Prog.run_bind_ok (taskQueue_run s)]
  cases s.tasks.queue.findIdx? fun entry => entry.taskId = id with
  | none => exact spaced
  | some index =>
    refine spaced.setTasks (forall_mem_modify spaced.queue (fun task inside => ?_) index)
    rw [TaskData.wake]
    split
    · exact inside
    · exact inside

/-- The loop of `advance` moves the index. -/
theorem advanceLoop (start : UInt64) (steps : Nat) (sieSet : Bool) :
    Stays tables pages memory
      (Stepwise.advanceLoop start steps sieSet : Steps V Unit) := by
  have status : ∀ sie spp, Stays tables pages memory
      (Script.one (TaskQueue.setStatus sie spp : Kernel (Machine V) Unit)) :=
    fun _ _ => update fun _ => rfl
  induction steps generalizing sieSet with
  | zero => exact .stopped _
  | succ steps ih =>
    unfold Stepwise.advanceLoop
    refine .bind (setIndex fun _ => rfl) fun _ _ => .bind (setIndex fun q => ?_) fun _ _ =>
      .bind currentTask fun task _ => .ite (.ite (status _ _) (.pure trivial)) ?_
    · split <;> rfl
    · refine .bind (one_keeps (.read _)) fun _ _ => .ite ?_ (ih _)
      exact .bind (status _ _) fun _ _ => ih _

variable (rounds : Nat → Nat)

/-- `advance` moves the index. -/
theorem advance : Stays tables pages memory
    (Stepwise.advance rounds : Steps V Unit) :=
  .bind (one_keeps (.read _)) fun _ _ => advanceLoop _ _ _

/-- The registers are saved. -/
theorem updateCurrent : Stays tables pages memory
    (Stepwise.updateCurrent : Steps V Unit) :=
  .bind (one_keeps keeps_spaces_lockWrite) fun _ _ => .bind (one_keeps (.read _)) fun _ _ =>
    .bind (currentTaskMut fun _ => rfl) fun _ _ => update fun _ => rfl

/-- One of the tables is brought into use. -/
theorem setSatp {satp : Satp} (inside : satp ∈ tables) :
    Stays tables pages memory
      (Script.one (Prog.update fun s => { s with satp := satp } : Kernel (Machine V) Unit)) :=
  .one fun _ spaced => ⟨⟨spaced.queue, inside, spaced.pages⟩, fun _ _ => trivial⟩

/-- A switch brings the table of another thread into use. -/
theorem advanceTask : Stays tables pages memory
    (Stepwise.advanceTask rounds : Steps V Unit) :=
  .bind (one_keeps keeps_spaces_lockWrite) fun _ _ => .bind (one_keeps (.read _)) fun _ _ =>
    .bind (currentTaskMut fun _ => rfl) fun _ _ => .bind (advance rounds) fun _ _ =>
    .bind currentTask fun _ inside => .bind (setSatp inside) fun _ _ =>
    .bind (update fun _ => rfl) fun _ _ => update fun _ => rfl

/-- A thread with one of the tables is added, under the lock. -/
theorem newTask {task : TaskData} (inside : task.taskTable ∈ tables) :
    Stays tables pages memory
      (Stepwise.newTask task : Steps V Unit) :=
  .bind (one_keeps keeps_spaces_lockWrite) fun _ _ => .bind (pushTask inside) fun _ _ =>
    update fun _ => rfl

/-- A thread is removed, under the lock. -/
theorem dropTask (index : UInt64) : Stays tables pages memory
    (Stepwise.dropTask rounds index : Steps V Unit) :=
  .bind (one_keeps keeps_spaces_lockWrite) fun _ _ => .bind (one_keeps (.read _)) fun _ _ =>
    .bind (.ite (advance rounds) (.pure trivial)) fun _ _ => .bind (removeTask _) fun _ _ =>
    .bind (setIndex fun _ => rfl) fun _ _ => update fun _ => rfl

/-- The take-input call. -/
theorem takeInput : Stays tables pages memory
    (Stepwise.takeInput rounds : Steps V Unit) :=
  .bind (one_keeps keeps_spaces_lockAwaitList) fun _ _ =>
    .bind (one_keeps keeps_spaces_lockRead) fun _ _ => .bind currentTask fun _ _ =>
    .bind (update fun _ => rfl) fun _ _ => .bind (update fun _ => rfl) fun _ _ =>
    .bind (update fun _ => rfl) fun _ _ => .bind (one_keeps keeps_spaces_lockWrite) fun _ _ =>
    .bind (currentTaskMut fun _ => rfl) fun _ _ => .bind (update fun _ => rfl) fun _ _ =>
    advanceTask rounds

/-- The spawn call: the new thread has the table of the old one. -/
theorem spawnThread : Stays tables pages memory
    (Stepwise.spawnThread platform) :=
  .bind updateCurrent fun _ _ => .bind (one_keeps keeps_spaces_lockWrite) fun _ _ =>
    .bind currentTask fun _ inside => .bind (update fun _ => rfl) fun _ _ =>
    .bind (one_keeps (keeps_spaces_allocFrom _ _ _)) fun _ _ =>
      .bind (update fun _ => rfl) fun _ _ =>
    newTask inside

/-- The drop call. -/
theorem dropCurrent : Stays tables pages memory
    (Stepwise.dropCurrent rounds : Steps V Unit) :=
  .bind (one_keeps keeps_spaces_lockRead) fun _ _ => .bind (one_keeps (.read _)) fun _ _ =>
    .bind (update fun _ => rfl) fun _ _ => .bind (advanceTask rounds) fun _ _ => dropTask rounds _

/-- The end call. -/
theorem endProgram : Stays tables pages memory
    (Stepwise.endProgram rounds : Steps V Unit) := by
  refine .bind (one_keeps keeps_spaces_lockRead) fun _ _ => .bind currentTask fun _ _ =>
    .bind (update fun _ => rfl) fun _ _ => .bind (advanceTask rounds) fun _ _ =>
    .bind (one_keeps keeps_spaces_lockWrite) fun _ _ => .bind (one_keeps (.read _)) fun write _ =>
    .bind (.forM fun entry _ => ?_) fun _ _ => update fun _ => rfl
  exact .ite (.ite (dropTask rounds _) (dropTask rounds _)) (.pure trivial)

/-- The serial handler. -/
theorem uartHandler (input : UInt8) : Stays tables pages memory
    (Stepwise.uartHandler input : Steps V Unit) := by
  refine .bind (one_keeps keeps_spaces_lockAwaitList) fun _ _ =>
    .bind (one_keeps (.read _)) fun _ _ =>
    .bind (.forM fun id _ => ?_) fun _ _ => .bind (update fun _ => rfl) fun _ _ =>
      update fun _ => rfl
  exact .bind (one_keeps keeps_spaces_lockWrite) fun _ _ => .bind (wake _ _ _) fun _ _ =>
    update fun _ => rfl

/-- The external interrupts, when the other handlers leave the pages alone. -/
theorem handleExternal {external : External V} (leaves : external.Leaves pages) :
    Stays tables pages memory
      (Stepwise.handleExternal external) := by
  unfold Stepwise.handleExternal
  cases external.claim with
  | none => exact one_keeps (.stop _)
  | some id =>
    have checked : Prog.Keeps Machine.spaces (checkIndex 64 id : Kernel (Machine V) Unit) :=
      .ite (.pure ()) (.stop _)
    refine .bind (one_keeps checked) fun _ _ => .ite (uartHandler _) (.one ?_)
    intro s spaced
    obtain ⟨satp, kept⟩ := leaves id s
    have queue := congrArg (fun guarded => guarded.1.value.queue) (external.apart id s)
    exact ⟨⟨queue ▸ spaced.queue, satp ▸ spaced.satp, spaced.pages.trans kept⟩, fun _ _ => trivial⟩

/-- The calls for input. -/
theorem kernelIo : Stays tables pages memory (Stepwise.kernelIo rounds platform) := by
  refine .bind (one_keeps (.read _)) fun frame _ => ?_
  split
  · exact one_keeps (keeps_spaces_printString platform)
  · exact takeInput rounds
  · exact one_keeps (keeps_spaces_unrecognized _ _)

/-- Writing to the stacks keeps a state so, when they lie beside the pages. -/
theorem stacked (still : ∀ old new, ChangedWithin kernelStacks old new → Kept pages old new)
    (spaced : Spaced tables pages memory s) (stacked : Stacked kernelStacks s s') :
    Spaced tables pages memory s' := by
  obtain ⟨later, changed, rfl⟩ := stacked
  exact ⟨spaced.queue, spaced.satp, spaced.pages.trans (still _ _ changed)⟩

section Goes

variable (still : ∀ old new, ChangedWithin kernelStacks old new → Kept pages old new)
include still

/-- Reading the trap frame. -/
theorem readFrame (spaced : Spaced tables pages memory s) {rest : TrapFrame → Steps V Unit}
    (goesOn : ∀ later : Machine V, Spaced tables pages memory later → later.frame = s.frame →
      Goes tables pages kernelStacks memory (rest s.frame) later) :
    Goes tables pages kernelStacks memory (.one (Prog.read (·.frame)) >>= rest) s := by
  apply Script.SafeAmid.oneThen
  intro later written
  have here := spaced.stacked still written
  refine ⟨here, fun frame read => ?_⟩
  obtain ⟨_, -, rfl⟩ := written
  obtain rfl := Except.ok.inj read
  exact goesOn _ here rfl

/-- What stays so goes on so. -/
theorem goes (spaced : Spaced tables pages memory s) {script : Steps V Unit}
    (stays : Stays tables pages memory script) : Goes tables pages kernelStacks memory script s :=
  stays.amid (fun _ _ written spaced => spaced.stacked still written) spaced

/-- The calls for tasks, but for that for more heap. -/
theorem kernelTask (spaced : Spaced tables pages memory s) (other : s.frame.registers.a1 ≠ 1) :
    Goes tables pages kernelStacks memory (Stepwise.kernelTask rounds platform) s := by
  unfold Stepwise.kernelTask
  apply spaced.readFrame still
  intro later here _
  split
  · exact here.goes still (advanceTask rounds)
  · next heap => exact absurd heap other
  · exact here.goes still spawnThread
  · exact here.goes still (dropCurrent rounds)
  · exact here.goes still (endProgram rounds)
  · exact here.goes still (one_keeps (keeps_spaces_unrecognized _ _))

/-- The system calls, but for that for more heap. -/
theorem syscallCore (spaced : Spaced tables pages memory s)
    (other : s.frame.registers.a0 = 1 → s.frame.registers.a1 ≠ 1) :
    Goes tables pages kernelStacks memory (Stepwise.syscallCore rounds platform) s := by
  unfold Stepwise.syscallCore
  apply spaced.readFrame still
  intro later here same
  split
  · exact here.goes still (kernelIo rounds)
  · next root => exact here.kernelTask rounds still (same ▸ other root)
  · exact here.goes still (one_keeps (keeps_spaces_unrecognized _ _))

/-- The handler, but for the call for more heap. -/
theorem trapHandler (spaced : Spaced tables pages memory s) {external : External V}
    (leaves : external.Leaves pages) {scause stval : UInt64} (other : ¬ s.CallsHeap scause) :
    Goes tables pages kernelStacks memory
      (Stepwise.trapHandler rounds platform external scause stval)
      s := by
  unfold Stepwise.trapHandler
  split
  · exact spaced.goes still (advanceTask rounds)
  · exact spaced.goes still (.ite (one_keeps (keeps_spaces_print _)) (one_keeps (.stop _)))
  · exact spaced.goes still (handleExternal leaves)
  · next call =>
    apply Script.SafeAmid.oneThen
    intro later written
    have entered : Spaced tables pages memory later.afterCall :=
      (spaced.stacked still written).same rfl
    have asked : later.frame = s.frame := by
      obtain ⟨_, -, rfl⟩ := written
      rfl
    refine ⟨entered, fun _ _ => entered.syscallCore rounds still fun root heap => other ?_⟩
    exact ⟨call, asked ▸ root, asked ▸ heap⟩
  · refine spaced.goes still (.bind (one_keeps keeps_spaces_lockWrite) fun _ _ => ?_)
    exact .bind (currentTaskMut fun _ => rfl) fun _ _ => .bind (update fun _ => rfl) fun _ _ =>
      advanceTask rounds
  · exact spaced.goes still (one_keeps (.stop _))

end Goes

end Spaced

end Handler

/-- The pages that user mode can reach through the table in `satp`. -/
def Machine.userPages (platform : Platform V) (height : Nat) (s : Machine V) : Set UInt64 :=
  {page | page % 4096 = 0 ∧ UserReaches platform.hhdmOffset (.fromUsize platform.levels) height
    (currentTable platform.hhdmOffset s.satp) s.pmm page}

namespace Hart

/-- The hart has entered the handler, and the handlers of other devices leave some pages alone. -/
def Entered (platform : Platform V) (pages : Set UInt64) (scause : UInt64) (hart : Hart V) : Prop :=
  ∃ rounds external stval, External.Leaves external pages ∧
    hart.handler = some (Stepwise.trapHandler rounds platform external scause stval)

/-- A move of a hart in which a thread writes only where it can reach, and the kernel, besides its
accesses, only to its stacks. A trap is no call for more heap, and the handlers of other devices
leave some pages alone. -/
def Bounded (platform : Platform V) (height : Nat) (pages kernelStacks : Set UInt64)
    (before : Hart V)
    (move : Move) (after : Hart V) : Prop :=
  ∃ machine : Machine V, Step platform before move ⟨machine, after.handler⟩ ∧
    match move with
    | .user => after.machine = machine ∧
        ChangedWithin (before.machine.userPages platform height) before.machine.pmm.memory
          machine.pmm.memory
    | .trap scause => after.machine = machine ∧
        ChangedWithin kernelStacks before.machine.pmm.memory machine.pmm.memory ∧
          ¬ before.machine.CallsHeap scause ∧ after.Entered platform pages scause
    | .interrupt scause => after.machine = machine ∧
        ChangedWithin kernelStacks before.machine.pmm.memory machine.pmm.memory ∧
          after.Entered platform pages scause
    | .kernel => Stacked kernelStacks machine after.machine
    | .sret => after.machine = machine

/-- A hart on the table of a program: some pages hold what they held for good, and the handler
leaves more of them alone, while the kernel writes to its stacks. -/
structure Isolated (tables : Set Satp) (fixed pages kernelStacks : Set UInt64) (memory : Memory)
    (hart : Hart V) : Prop where
  /-- The hart runs on one of the tables. -/
  spaced : Spaced tables fixed memory hart.machine
  /-- The handler goes on so. -/
  handler : ∀ script, hart.handler = some script →
    Spaced.Goes tables pages kernelStacks hart.machine.pmm.memory script hart.machine

variable {tables : Set Satp} {fixed kernelStacks : Set UInt64} {memory : Memory}
    {before after : Hart V}
  {move : Move} (still : ∀ old new, ChangedWithin kernelStacks old new → Kept pages old new)

include still

/-- A hart that has entered the handler. -/
theorem Isolated.enter (spaced : Spaced tables fixed memory after.machine) {scause : UInt64}
    (other : ¬ after.machine.CallsHeap scause) (entered : after.Entered platform pages scause) :
    Isolated tables fixed pages kernelStacks memory after := by
  obtain ⟨rounds, external, stval, leaves, entered⟩ := entered
  have here : Spaced tables pages after.machine.pmm.memory after.machine :=
    ⟨spaced.queue, spaced.satp, fun _ _ _ _ => rfl⟩
  refine ⟨spaced, fun script runs => ?_⟩
  obtain rfl := Option.some.inj (entered.symm.trans runs)
  exact here.trapHandler rounds still leaves other

/-- An access of the handler, after which the kernel may write to its stacks. -/
theorem Isolated.kernel {machine later written : Machine V} {script next : Steps V Unit}
    (isolated : Isolated tables fixed pages kernelStacks memory ⟨machine, some script⟩)
    (inside : fixed ⊆ pages) (stepped : script.step machine = some (next, later))
    (stacked : Stacked kernelStacks later written) :
    Isolated tables fixed pages kernelStacks memory ⟨written, some next⟩ ∧
      Kept pages machine.pmm.memory written.pmm.memory := by
  obtain ⟨between, goes⟩ := (isolated.handler script rfl).step (.refl kernelStacks machine) stepped
  have spaced := between.stacked still stacked
  have kept : Kept pages machine.pmm.memory written.pmm.memory := spaced.pages
  -- what is compared with the memory before may be compared with the memory after
  have moved : ∀ s : Machine V, Spaced tables pages machine.pmm.memory s →
      Spaced tables pages written.pmm.memory s := fun s spaced =>
    ⟨spaced.queue, spaced.satp, fun page member index small =>
      (spaced.pages page member index small).trans (kept page member index small).symm⟩
  refine ⟨⟨⟨spaced.queue, spaced.satp, ?_⟩, fun script runs => ?_⟩, kept⟩
  · exact isolated.spaced.pages.trans (kept.mono inside)
  · obtain rfl := Option.some.inj runs
    exact (goes.perturbed fun _ => stacked.trans).weaken moved

omit still in
/-- A timer or device interrupt is no call. -/
theorem not_callsHeap {machine : Machine V} {scause : UInt64}
    (source : scause = 0x8000000000000005 ∨ scause = 0x8000000000000009) :
    ¬ machine.CallsHeap scause := by
  rintro ⟨call, -⟩
  rcases source with rfl | rfl
  · exact absurd call (by decide)
  · exact absurd call (by decide)

/-- A move keeps a hart on the table of a program. A thread changes only pages that it can reach,
and the kernel none of the pages beside its stacks. -/
theorem Isolated.step (isolated : Isolated tables fixed pages kernelStacks memory before)
    (inside : fixed ⊆ pages) (aligned : ∀ page ∈ pages, page % 4096 = 0)
    (apart : Disjoint fixed (before.machine.userPages platform height))
    (bounded : Bounded platform height pages kernelStacks before move after) :
    Isolated tables fixed pages kernelStacks memory after ∧ ∀ page, page % 4096 = 0 →
      (move = .user → page ∉ before.machine.userPages platform height) →
        (move ≠ .user → page ∈ pages) →
          pageWords after.machine page = pageWords before.machine page := by
  obtain ⟨last, handler⟩ := after
  obtain ⟨moved, step, bound⟩ := bounded
  cases step with
  | user machine frame later =>
    obtain ⟨rfl, within⟩ := bound
    have kept : ∀ page, page % 4096 = 0 → page ∉ machine.userPages platform height →
        ∀ index < 512, later (wordOf page index) = machine.pmm.memory (wordOf page index) :=
      fun page whole out index small =>
        ChangedWithin.word within (fun _ reached => reached.1) whole small out
    refine ⟨⟨⟨isolated.spaced.queue, isolated.spaced.satp, ?_⟩, fun _ none => nomatch none⟩, ?_⟩
    · refine isolated.spaced.pages.trans fun page member index small => ?_
      exact kept page (aligned page (inside member)) (Set.disjoint_left.mp apart member) index small
    · exact fun page whole out _ => funext fun index => kept page whole (out rfl) index index.isLt
  | trap machine later rounds external scause stval =>
    obtain ⟨rfl, within, other, entered⟩ := bound
    have kept : Kept pages machine.pmm.memory later := still _ _ within
    have spaced : Spaced tables fixed memory
        { machine.enterTrap false with pmm := { machine.pmm with memory := later } } :=
      ⟨isolated.spaced.queue, isolated.spaced.satp, isolated.spaced.pages.trans (kept.mono inside)⟩
    refine ⟨.enter still spaced other entered, fun page _ _ member => ?_⟩
    exact pageWords_eq.mp kept page (member (by simp))
  | kernel stepped =>
    obtain ⟨later, kept⟩ := isolated.kernel still inside stepped bound
    exact ⟨later, fun page _ _ member => pageWords_eq.mp kept page (member (by simp))⟩
  | interrupt machine script frame later rounds external scause stval enabled source =>
    obtain ⟨rfl, within, entered⟩ := bound
    have kept : Kept pages machine.pmm.memory later := still _ _ within
    have spaced : Spaced tables fixed memory { machine.enterTrap true with
        frame := frame, pmm := { machine.pmm with memory := later } } :=
      ⟨isolated.spaced.queue, isolated.spaced.satp, isolated.spaced.pages.trans (kept.mono inside)⟩
    refine ⟨.enter still spaced (not_callsHeap source) entered, fun page _ _ member => ?_⟩
    exact pageWords_eq.mp kept page (member (by simp))
  | sret machine home =>
    obtain rfl := bound
    exact ⟨⟨isolated.spaced.same rfl, fun _ none => nomatch none⟩, fun _ _ _ _ => rfl⟩

end Hart

/-- The tables of the programs that were booted. -/
def programTables (handed : List Handed) : Set Satp :=
  {satp | ∃ given ∈ handed, ∃ loaded tables, given.holding = .program loaded tables ∧
    loaded.task.taskTable = satp}

/-- The pages that booting has given out. -/
def handedPages (handed : List Handed) : Set UInt64 :=
  {page | ∃ given ∈ handed, page ∈ given.holding.pages}

/-- Those that user mode is not to change. -/
def fixedPages (handed : List Handed) : Set UInt64 :=
  {page | ∃ given ∈ handed, page ∈ given.holding.fixed}

/-- The stacks of the kernel. -/
def stackPages (handed : List Handed) : Set UInt64 :=
  {page | ∃ given ∈ handed, page ∈ given.holding.kernelStacks}

/-- The pages beside the stacks of the kernel, which the kernel leaves alone. -/
abbrev keptPages (handed : List Handed) : Set UInt64 := handedPages handed \ stackPages handed

/-- The stacks lie beside what is not to change. -/
theorem Handed.Right.stacks_apart {start : Machine V} {given : Handed}
    (right : given.Right platform height start s) :
    Disjoint given.holding.fixed given.holding.kernelStacks := by
  obtain ⟨step, value, holding⟩ := given
  cases step with
  | hart tdata hartIdOffset hartId =>
    cases value with
    | hart tlsBase intStackTop =>
      cases holding with
      | hart data stack =>
        obtain ⟨-, -, -, -, apart, -⟩ := right
        exact Set.disjoint_right.mpr apart
      | core | program => exact right.elim
    | core | program => exact right.elim
  | core =>
    cases value with
    | core satp sp =>
      cases holding with
      | core root tables stack =>
        obtain ⟨-, -, apart, -⟩ := right
        exact Set.disjoint_right.mpr apart
      | hart | program => exact right.elim
    | hart | program => exact right.elim
  | program bytes =>
    cases value with
    | program id =>
      cases holding with
      | program => exact Set.disjoint_empty _
      | hart | core => exact right.elim
    | hart | core => exact right.elim

section Booted

variable {start : Machine V} {handed : List Handed}

/-- Pages of different steps differ. -/
theorem Booted.same (booted : Booted platform height start pages handed s) {first second : Handed}
    (member : first ∈ handed) (other : second ∈ handed) {page : UInt64}
    (inFirst : page ∈ first.holding.pages) (inSecond : page ∈ second.holding.pages) :
    first = second := by
  by_contra different
  have both : Std.Symm fun first second : Handed =>
      Disjoint first.holding.pages second.holding.pages := ⟨fun _ _ apart => apart.symm⟩
  exact Set.disjoint_left.mp (booted.apart.forall member other different) inFirst inSecond

/-- The pages that are not to change were given out, and none of them is on a stack. -/
theorem Booted.fixed_subset (booted : Booted platform height start pages handed s) :
    fixedPages handed ⊆ keptPages handed := by
  rintro page ⟨given, member, inside⟩
  have inPages := given.holding.fixed_subset inside
  refine ⟨⟨given, member, inPages⟩, ?_⟩
  rintro ⟨other, listed, stack⟩
  obtain rfl := booted.same member listed inPages (other.holding.kernelStacks_subset stack)
  exact Set.disjoint_left.mp (booted.right _ member).stacks_apart inside stack

/-- The pages that were given out begin at a page. -/
theorem Booted.handed_aligned (booted : Booted platform height start pages handed s) :
    ∀ page ∈ handedPages handed, page % 4096 = 0 :=
  fun page ⟨given, member, inside⟩ => booted.aligned given member page inside

/-- Writing to the stacks leaves the other pages alone. -/
theorem Booted.still (booted : Booted platform height start pages handed s) (old new : Memory)
    (changed : ChangedWithin (stackPages handed) old new) : Kept (keptPages handed) old new := by
  intro page member index small
  have kernelStacks : ∀ other ∈ stackPages handed, other % 4096 = 0 :=
    fun other ⟨given, listed, stack⟩ =>
    booted.aligned given listed other (given.holding.kernelStacks_subset stack)
  exact changed.word kernelStacks (booted.handed_aligned page member.1) small member.2

/-- What was booted is there as long as the pages that are not to change do not. -/
theorem Booted.kept (levels : (PageLevel.fromUsize platform.levels).asUsize = height + 1)
    (booted : Booted platform height start pages handed s)
    (kept : Kept (fixedPages handed) s.pmm.memory s'.pmm.memory) :
    Booted platform height start pages handed s' :=
  ⟨booted.apart, booted.fresh, booted.aligned, fun given member =>
    Handed.right_kept levels (kept.mono fun _ inside => ⟨given, member, inside⟩)
      (booted.right given member)⟩

/-- On the table of a program user mode reaches frames of the program only, none of which is a page
that is not to change. -/
theorem Booted.reach (booted : Booted platform height start pages handed s)
    (satp : s.satp ∈ programTables handed) {page : UInt64}
    (reached : page ∈ s.userPages platform height) :
    page ∉ fixedPages handed ∧ ∃ given ∈ handed, ∃ loaded tables,
      given.holding = .program loaded tables ∧ loaded.task.taskTable = s.satp ∧
        page ∈ loaded.frames := by
  obtain ⟨given, member, loaded, tables, holds, same⟩ := satp
  obtain ⟨aligned, user⟩ := reached
  rw [← same] at user
  obtain ⟨own, beside⟩ := (booted.right given member).reaches holds aligned user
  refine ⟨?_, given, member, loaded, tables, holds, same, own⟩
  rintro ⟨other, listed, inside⟩
  have mine : page ∈ given.holding.pages := by
    rw [holds]
    exact .inr own
  obtain rfl := booted.same listed member (other.holding.fixed_subset inside) mine
  rw [holds] at inside
  exact beside inside

/-- The first thread runs on the table of the current task. -/
theorem startTasks_eq_ok (ran : startTasks.run s = (.ok (), s')) :
    s'.pmm = s.pmm ∧ s'.tasks = s.tasks ∧
      ∃ task, s.tasks.queue[s.cur]? = some task ∧ s'.satp = task.taskTable := by
  obtain ⟨⟨⟩, locked, lock, afterLock⟩ := Prog.run_bind_eq_ok ran
  obtain rfl := lockRead_eq_ok lock
  obtain ⟨task, _, found, afterTask⟩ := Prog.run_bind_eq_ok afterLock
  obtain ⟨entry, same⟩ := currentTask_eq_ok found
  rw [same] at afterTask
  obtain ⟨⟨⟩, _, unlock, afterUnlock⟩ := Prog.run_bind_eq_ok afterTask
  obtain ⟨-, rfl⟩ := Prod.mk.inj unlock
  rw [Prog.run_bind_ok (Machine.print_run _ _)] at afterUnlock
  obtain ⟨-, rfl⟩ := Prod.mk.inj afterUnlock
  exact ⟨rfl, rfl, task, entry, rfl⟩

/-- A thread is started when the lock of the queue is free. -/
theorem startTasks_returns {task : TaskData} (entry : s.tasks.queue[s.cur]? = some task)
    (unlocked : s.currentUserTask.writer = false) :
    ∃ first, startTasks.run s = (.ok (), first) := by
  let held : Machine V := { s with
    currentUserTask := { s.currentUserTask with readers := s.currentUserTask.readers + 1 } }
  have lock : (lockRead : Kernel (Machine V) Unit).run s = (.ok (), held) := by
    rw [lockRead, Prog.run_bind_ok (Prog.run_read _ _), unlocked]
    rfl
  have unlock : ∃ later,
      (unlockRead : Kernel (Machine V) Unit).run held = (.ok (), later) := ⟨_, rfl⟩
  obtain ⟨later, unlock⟩ := unlock
  unfold startTasks
  rw [Prog.run_bind_ok lock, Prog.run_bind_ok (TaskQueue.currentTask_run (s := held) entry),
    Prog.run_bind_ok unlock, Prog.run_bind_ok (Machine.print_run _ _)]
  exact ⟨_, rfl⟩

/-- After booting, once tasks have been started, in every state that a run reaches the hart is on
the table of a program. -/
theorem Booted.isolated (levels : (PageLevel.fromUsize platform.levels).asUsize = height + 1)
    (booted : Booted platform height start pages handed s)
    (queued : s.tasks.queue = handed.flatMap (·.holding.tasks)) {first : Machine V}
    (started : startTasks.run s = (.ok (), first)) {hart : Hart V}
    (reachable : Transition.Reachable (· = (⟨first, none⟩ : Hart V))
      (Hart.Bounded platform height (keptPages handed) (stackPages handed)) hart) :
    hart.Isolated (programTables handed) (fixedPages handed) (keptPages handed) (stackPages handed)
      s.pmm.memory := by
  have tabled : ∀ task ∈ s.tasks.queue, task.taskTable ∈ programTables handed := by
    rw [queued]
    intro task member
    obtain ⟨given, listed, inside⟩ := List.mem_flatMap.mp member
    cases holds : given.holding with
    | program loaded tables =>
      rw [holds] at inside
      obtain rfl := List.mem_singleton.mp inside
      exact ⟨given, listed, loaded, tables, holds, rfl⟩
    | hart | core =>
      rw [holds] at inside
      cases inside
  obtain ⟨memory, tasks, task, entry, satp⟩ := startTasks_eq_ok started
  have aligned : ∀ page ∈ keptPages handed, page % 4096 = 0 :=
    fun page member => booted.handed_aligned page member.1
  apply reachable.invariant
  · rintro hart rfl
    refine ⟨⟨tasks ▸ tabled, ?_, memory ▸ fun _ _ _ _ => rfl⟩, fun script none => nomatch none⟩
    rw [satp]
    exact tabled task (List.mem_of_getElem? entry)
  · intro before move after isolated bounded
    have later := booted.kept levels isolated.spaced.pages
    have apart : Disjoint (fixedPages handed) (before.machine.userPages platform height) :=
      Set.disjoint_right.mpr fun page reached => (later.reach isolated.spaced.satp reached).1
    exact (isolated.step booted.still booted.fixed_subset aligned apart bounded).1

end Booted

/-- Whatever was booted, once the tasks are started, in every state that a run of threads, traps and
interrupts reaches the hart is on the table of a program, and every program has the address space
that was made for it, in which it reaches its own frames only. A thread changes a page that was
given out only if it is a frame of the program on whose table the thread runs, and the kernel only
if it is on one of the kernel's stacks. -/
theorem programs_isolated {spans : V → UInt64 → List (UInt64 × UInt64)}
    (served : SpanArenas loader platform.vmem spans) (wide : platform.hhdmOffset % 0x200000 = 0)
    (closed : KernelClosed platform.hhdmOffset height (currentTable platform.hhdmOffset s.satp)
      s.pmm.memory) {steps : List BootStep} {values : List BootValue} {first : Machine V}
    (followed : ∀ step ∈ steps, step.Followed loader)
    (ready : BootReady platform height pages nodes
      ((steps.map (·.cost loader height (rootCost platform.hhdmOffset height s))).sum + extra) s)
    (empty : s.tasks.queue = []) (ran : (boot platform loader steps).run s = (.ok values, s'))
    (started : startTasks.run s' = (.ok (), first)) :
    ∃ handed : List Handed, handed.map Handed.step = steps ∧ handed.map Handed.value = values ∧
      ∀ hart, Transition.Reachable (· = (⟨first, none⟩ : Hart V))
          (Hart.Bounded platform height (keptPages handed) (stackPages handed)) hart →
        hart.machine.satp ∈ programTables handed ∧
        (∀ given ∈ handed, given.Right platform height s hart.machine) ∧
        ∀ move after, Hart.Bounded platform height (keptPages handed) (stackPages handed) hart move
            after →
          ∀ page ∈ handedPages handed, pageWords after.machine page ≠ pageWords hart.machine page →
            (move ≠ .user ∧ page ∈ stackPages handed) ∨
              (move = .user ∧ ∃ given ∈ handed, ∃ loaded tables,
                given.holding = .program loaded tables ∧
                  loaded.task.taskTable = hart.machine.satp ∧ page ∈ loaded.frames) := by
  obtain ⟨handed, same, gave, booted, queued⟩ := ready.boots served wide closed followed ran
  rw [empty, List.nil_append] at queued
  refine ⟨handed, same, gave, fun hart reachable => ?_⟩
  have isolated := booted.isolated ready.levels queued started reachable
  have now := booted.kept ready.levels isolated.spaced.pages
  refine ⟨isolated.spaced.satp, now.right, ?_⟩
  intro move after bounded page member changed
  have aligned : ∀ page ∈ keptPages handed, page % 4096 = 0 :=
    fun page member => booted.handed_aligned page member.1
  have apart : Disjoint (fixedPages handed) (hart.machine.userPages platform height) :=
    Set.disjoint_right.mpr fun page reached => (now.reach isolated.spaced.satp reached).1
  obtain ⟨-, kept⟩ := isolated.step booted.still booted.fixed_subset aligned apart bounded
  have whole := booted.handed_aligned page member
  by_cases user : move = .user
  · have reached : page ∈ hart.machine.userPages platform height := by
      by_contra out
      exact changed (kept page whole (fun _ => out) (absurd user))
    exact .inr ⟨user, (now.reach isolated.spaced.satp reached).2⟩
  · have stack : page ∈ stackPages handed := by
      by_contra out
      exact changed (kept page whole (fun same => absurd same user) fun _ => ⟨member, out⟩)
    exact .inl ⟨user, stack⟩

/-- A timer interrupt of the thread, before which the thread and after which the shim has done
nothing. -/
theorem Hart.Bounded.timer {kernelStacks : Set UInt64} (machine : Machine V) :
    Hart.Bounded platform height pages kernelStacks ⟨machine, none⟩ (.trap 0x8000000000000005)
      ⟨machine.enterTrap false,
        some (Stepwise.trapHandler (· + 1) platform silence 0x8000000000000005 0)⟩ := by
  refine ⟨machine.enterTrap false, .trap machine machine.pmm.memory _ silence _ 0, rfl, .refl _ _,
    Hart.not_callsHeap (.inl rfl), (· + 1), silence, 0, fun _ _ => ⟨rfl, fun _ _ _ _ => rfl⟩, rfl⟩

/-- The program of the sample is started, and a timer interrupt is taken: the hart is still on the
table of the program, and what the program and the hart were given is there. -/
theorem programs_isolated_sample : ∃ (s' first : Machine SampleArenas) (handed : List Handed)
    (hart : Hart SampleArenas),
    startTasks.run s' = (.ok (), first) ∧ handed.map Handed.step = sampleSteps ∧
      hart.machine = first.enterTrap false ∧ hart.handler.isSome = true ∧
      hart.machine.satp ∈ programTables handed ∧
      ∀ given ∈ handed, given.Right loadPlatform 2 loadMachine hart.machine := by
  obtain ⟨_, _, _, s', task, ran, tasks, unlocked⟩ := sampleSteps_run
  have served : SpanArenas sampleLoader loadPlatform.vmem SampleArenas.spans :=
    sample_serving.toSpanArenas
  have wide : loadPlatform.hhdmOffset % 0x200000 = 0 := by decide
  have entry : s'.tasks.queue[s'.cur]? = some task := by
    rw [Machine.cur, tasks]
    rfl
  obtain ⟨first, started⟩ := startTasks_returns entry unlocked
  obtain ⟨handed, same, -, isolated⟩ := programs_isolated served wide loadMachine_closed
    sampleSteps_followed sampleSteps_ready rfl ran started
  have begun : Transition.Reachable (· = (⟨first, none⟩ : Hart SampleArenas))
      (Hart.Bounded loadPlatform 2 (keptPages handed) (stackPages handed)) ⟨first, none⟩ :=
        .start rfl
  obtain ⟨table, right, -⟩ := isolated _ (begun.next _ (Hart.Bounded.timer first))
  exact ⟨s', first, handed, _, started, same, rfl, rfl, table, right⟩

end Lsd
