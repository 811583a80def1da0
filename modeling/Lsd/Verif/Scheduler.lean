import Lsd.Lib.Cycle
import Lsd.Lib.Transition
import Lsd.Traps.Handler

/-!
# What the scheduler does

The threads of a machine are its queue with the registers of the running thread
filled in from the trap frame, since the saved copy of that thread is stale while
it runs. Seen so, a switch changes no thread at all: it only moves the index to
the next thread that can run.
-/

namespace Lsd

open Program

variable {V : Type} {s : Machine V} {q : TaskQueue} {task : TaskData} {i j : Nat}

/-- Whether the entry at an index can run. -/
def Runnable (queue : List TaskData) (index : Nat) : Prop :=
  ∃ task, queue[index]? = some task ∧ task.waitingOn = .none

/-- An entry that can run is in the queue. -/
theorem Runnable.lt {queue : List TaskData} (runs : Runnable queue i) : i < queue.length := by
  obtain ⟨task, entry, -⟩ := runs
  exact (List.getElem?_eq_some_iff.mp entry).1

/-- An entry can run whatever happens to another. -/
theorem Runnable.modify_ne {queue : List TaskData} {own : TaskData → TaskData}
    (runs : Runnable queue j) (other : j ≠ i) : Runnable (queue.modify i own) j := by
  obtain ⟨task, entry, free⟩ := runs
  exact ⟨task, by rw [List.getElem?_modify_ne _ _ other.symm, entry], free⟩

/-- An entry that does not start to wait can still run. -/
theorem Runnable.modify {queue : List TaskData} {own : TaskData → TaskData}
    (runs : Runnable queue i) (keeps : ∀ task, (own task).waitingOn = task.waitingOn) :
    Runnable (queue.modify i own) i := by
  obtain ⟨task, entry, free⟩ := runs
  exact ⟨own task, by rw [List.getElem?_modify_eq, entry]; rfl, (keeps task).trans free⟩

namespace Machine

/-- The queue behind its lock. -/
def tasks (s : Machine V) : TaskQueue := s.currentUserTask.value

/-- The index of the running thread. -/
def cur (s : Machine V) : Nat := s.tasks.curTaskIdx.toNat

/-- A machine with another queue behind the lock. -/
def setTasks (s : Machine V) (q : TaskQueue) : Machine V :=
  { s with currentUserTask := { s.currentUserTask with value := q } }

/-- A machine with the write guard out or not. -/
def setWriter (s : Machine V) (writer : Bool) : Machine V :=
  { s with currentUserTask := { s.currentUserTask with writer := writer } }

/-- The threads, with the registers of the running one filled in. -/
def contexts (s : Machine V) : List TaskData :=
  s.tasks.queue.modify s.cur (·.withFrame s.frame)

/-- The queue is the one that was set. -/
@[simp] theorem tasks_setTasks (s : Machine V) (q : TaskQueue) : (s.setTasks q).tasks = q := rfl

/-- The guard does not change the queue. -/
@[simp] theorem tasks_setWriter (s : Machine V) (writer : Bool) :
    (s.setWriter writer).tasks = s.tasks := rfl

/-- Setting the queue twice sets the last one. -/
@[simp] theorem setTasks_setTasks (s : Machine V) (q r : TaskQueue) :
    (s.setTasks q).setTasks r = s.setTasks r := rfl

/-- Neither lock is held. -/
structure Unlocked (s : Machine V) : Prop where
  /-- No guard of the queue is out. -/
  queue : s.currentUserTask = .free s.tasks
  /-- The guard of the list is not out. -/
  list : s.inputAwaitList = .free s.inputAwaitList.value

end Machine

/-- Another queue behind the lock holds no lock. -/
theorem Machine.Unlocked.setTasks (unlocked : s.Unlocked) (q : TaskQueue) :
    (s.setTasks q).Unlocked := by
  refine ⟨?_, unlocked.list⟩
  rw [Machine.setTasks, unlocked.queue]
  rfl

/-- The write lock is taken when no guard is out. -/
theorem lockWrite_run (free : s.currentUserTask = .free q) :
    lockWrite.run s = (.ok (), s.setWriter true) := by
  simp [lockWrite, Prog.run_bind, free, RwLock.free, Machine.setWriter]

/-- The write lock is given back. -/
theorem unlockWrite_run (s : Machine V) : unlockWrite.run s = (.ok (), s.setWriter false) := rfl

/-- A read guard is one more reader. -/
theorem lockRead_eq_ok {s' : Machine V} (ran : lockRead.run s = (.ok (), s')) :
    s' = { s with
      currentUserTask := { s.currentUserTask with readers := s.currentUserTask.readers + 1 } } := by
  cases guard : s.currentUserTask.writer with
  | true => simp [lockRead, Prog.run_bind, guard] at ran
  | false =>
    simp only [lockRead, Prog.run_bind, Prog.run_read, guard, Bool.false_eq_true, ↓reduceIte,
      Prog.run_update, Prod.mk.injEq, true_and] at ran
    rw [← ran, ← guard]

/-- A change of the queue. -/
theorem setTaskQueue_run (s : Machine V) (change : TaskQueue → TaskQueue) :
    (setTaskQueue change).run s = (.ok (), s.setTasks (change s.tasks)) := rfl

/-- The trap frame is changed. -/
theorem setFrame_run (s : Machine V) (change : TrapFrame → TrapFrame) :
    (setFrame change).run s = (.ok (), { s with frame := change s.frame }) := rfl

/-- The queue is read. -/
theorem taskQueue_run (s : Machine V) : taskQueue.run s = (.ok s.tasks, s) := rfl

/-- Replacing an element by its change is a change in place. -/
theorem set_eq_modify {α : Type} {elements : List α} {element : α} (change : α → α)
    (entry : elements[i]? = some element) :
    elements.set i (change element) = elements.modify i change := by
  apply List.ext_getElem?
  intro k
  rw [List.getElem?_set, List.getElem?_modify]
  obtain ⟨bound, rfl⟩ := List.getElem?_eq_some_iff.mp entry
  by_cases same : i = k
  · subst same
    simp [bound]
  · simp [same]

/-- Changes that agree on the element are the same change. -/
theorem modify_congr {α : Type} {elements : List α} {element : α} {change other : α → α}
    (entry : elements[i]? = some element) (agree : change element = other element) :
    elements.modify i change = elements.modify i other := by
  rw [← set_eq_modify change entry, ← set_eq_modify other entry, agree]

/-- A change in place does not touch what is appended. -/
theorem modify_append {α : Type} {elements : List α} {element : α} (change : α → α)
    (more : List α) (entry : elements[i]? = some element) :
    (elements ++ more).modify i change = elements.modify i change ++ more := by
  have bound := (List.getElem?_eq_some_iff.mp entry).1
  rw [← set_eq_modify change entry, ← List.set_append_left _ _ bound,
    set_eq_modify change (by rw [List.getElem?_append_left bound, entry])]

namespace TaskQueue

/-- The current entry is read. -/
theorem currentTask_run (entry : s.tasks.queue[s.cur]? = some task) :
    currentTask.run s = (.ok task, s) := by
  simp only [Machine.tasks, Machine.cur] at entry
  simp [currentTask, taskQueue, Prog.run_bind, entry]

/-- The current entry is changed. -/
theorem currentTaskMut_run (s : Machine V) (change : TaskData → TaskData)
    (entry : s.tasks.queue[s.cur]? = some task) : (currentTaskMut change).run s =
      (.ok (), s.setTasks { s.tasks with queue := s.tasks.queue.modify s.cur change }) := by
  rw [currentTaskMut, Prog.run_bind_ok (currentTask_run entry), setTaskQueue_run,
    ← set_eq_modify change entry]
  rfl

/-- A queue with another current index. -/
def atIndex (q : TaskQueue) (index : Nat) : TaskQueue :=
  { q with curTaskIdx := UInt64.ofNat index }

/-- The index that was set is read back. -/
theorem toNat_atIndex (q : TaskQueue) (small : i < q.queue.length)
    (size : q.queue.length ≤ queueLimit) :
    (q.atIndex i).curTaskIdx.toNat = i := by
  have limit : q.queue.length < 2 ^ 63 := Nat.lt_of_le_of_lt size (by decide)
  rw [atIndex, UInt64.toNat_ofNat', Nat.mod_eq_of_lt (by omega)]

/-- The index after a step of the loop. -/
theorem step_index (bound : q.curTaskIdx.toNat < q.queue.length)
    (size : q.queue.length ≤ queueLimit) :
    (if (q.curTaskIdx + 1).toNat = q.queue.length then { q with curTaskIdx := 0 }
      else { q with curTaskIdx := q.curTaskIdx + 1 } : TaskQueue) =
      q.atIndex ((q.curTaskIdx.toNat + 1) % q.queue.length) := by
  have limit : q.queue.length < 2 ^ 63 := Nat.lt_of_le_of_lt size (by decide)
  have number : (q.curTaskIdx + 1).toNat = q.curTaskIdx.toNat + 1 := by
    simp only [UInt64.toNat_add, UInt64.reduceToNat]
    omega
  rw [number, ← Cycle.succ_mod bound, atIndex]
  by_cases wraps : q.curTaskIdx.toNat + 1 = q.queue.length
  · rw [if_pos wraps, if_pos wraps]
    rfl
  · rw [if_neg wraps, if_neg wraps, ← number, UInt64.ofNat_toNat]

/-- The loop goes on from position to position until it meets the next entry that can run. -/
theorem advanceLoop_run {start : UInt64} {queue : List TaskData} {distance : Nat}
    (first : start.toNat < queue.length) (size : queue.length ≤ queueLimit)
    (round : distance ≤ queue.length)
    (met : Runnable queue ((start.toNat + distance) % queue.length))
    (skipped : ∀ before, 0 < before → before < distance →
      ¬ Runnable queue ((start.toNat + before) % queue.length)) :
    ∀ steps gone, gone < distance → distance ≤ gone + steps → ∀ s : Machine V,
      s.tasks.queue = queue → s.cur = (start.toNat + gone) % queue.length →
        (advanceLoop start steps false).run s =
          (.ok (), s.setTasks (s.tasks.atIndex ((start.toNat + distance) % queue.length))) := by
  intro steps
  induction steps with
  | zero => omega
  | succ steps ih =>
    rintro gone short enough s rfl position
    have bound : s.cur < s.tasks.queue.length := position ▸ Nat.mod_lt _ (by omega)
    have moved : (if (s.tasks.curTaskIdx + 1).toNat = s.tasks.queue.length
        then { s.tasks with curTaskIdx := 0 }
        else { s.tasks with curTaskIdx := s.tasks.curTaskIdx + 1 } : TaskQueue) =
        s.tasks.atIndex ((start.toNat + (gone + 1)) % s.tasks.queue.length) := by
      rw [step_index bound size, show s.tasks.curTaskIdx.toNat = s.cur from rfl, position,
        Nat.mod_add_mod, Nat.add_assoc]
    have inside : (start.toNat + (gone + 1)) % s.tasks.queue.length < s.tasks.queue.length :=
      Nat.mod_lt _ (by omega)
    rw [advanceLoop, Prog.run_bind_ok (setTaskQueue_run _ _),
      Prog.run_bind_ok (setTaskQueue_run _ _), Machine.setTasks_setTasks, Machine.tasks_setTasks,
      moved]
    have here : (s.setTasks (s.tasks.atIndex
        ((start.toNat + (gone + 1)) % s.tasks.queue.length))).cur =
        (start.toNat + (gone + 1)) % s.tasks.queue.length := toNat_atIndex _ inside size
    obtain ⟨task, entry⟩ : ∃ task, s.tasks.queue[
        (start.toNat + (gone + 1)) % s.tasks.queue.length]? = some task :=
      ⟨_, List.getElem?_eq_getElem inside⟩
    rw [Prog.run_bind_ok (currentTask_run (by rw [here]; exact entry))]
    by_cases last : gone + 1 = distance
    · obtain ⟨other, entry', ready⟩ := met
      obtain rfl : task = other := by
        rw [← last, entry] at entry'
        exact Option.some.inj entry'
      simp [ready, last]
    · have waits : task.waitingOn ≠ .none := fun ready =>
        skipped (gone + 1) (by omega) (by omega) ⟨task, entry, ready⟩
      have elsewhere : (s.tasks.atIndex
          ((start.toNat + (gone + 1)) % s.tasks.queue.length)).curTaskIdx ≠ start := fun same =>
        Cycle.mod_ne_start first (by omega) (by omega : gone + 1 < s.tasks.queue.length)
          (here.symm.trans (congrArg UInt64.toNat same))
      rw [Prog.run_ite, if_neg waits, Prog.run_bind_ok (taskQueue_run _),
        Machine.tasks_setTasks, Prog.run_ite, if_neg elsewhere,
        ih (gone + 1) (by omega) (by omega) (s.setTasks (s.tasks.atIndex _)) rfl here]
      rfl

/-- `advance` moves the index to the next entry that can run, and changes nothing else. -/
theorem advance_run (s : Machine V) (bound : s.cur < s.tasks.queue.length)
    (size : s.tasks.queue.length ≤ queueLimit)
    (next : Cycle.Next s.tasks.queue.length (Runnable s.tasks.queue) s.cur j) :
    advance.run s = (.ok (), s.setTasks (s.tasks.atIndex j)) := by
  obtain ⟨distance, positive, round, rfl, met, skipped⟩ := next
  rw [advance, Prog.run_bind_ok (taskQueue_run s)]
  exact advanceLoop_run bound size round met skipped _ 0 positive (by omega) s rfl
    (Nat.mod_eq_of_lt bound).symm

end TaskQueue

namespace Machine

/-- As many threads as entries. -/
@[simp] theorem length_contexts (s : Machine V) : s.contexts.length = s.tasks.queue.length :=
  List.length_modify ..

/-- The running thread has the registers of the trap frame. -/
theorem frame_of_current (current : s.contexts[s.cur]? = some task) : task.trapFrame = s.frame := by
  rw [contexts, List.getElem?_modify_eq] at current
  obtain ⟨saved, -, rfl⟩ := Option.map_eq_some_iff.mp current
  rfl

/-- A change of the running thread that keeps its registers shows in the threads. -/
theorem contexts_modify {change : TaskData → TaskData}
    (commutes : ∀ task frame, change (task.withFrame frame) = (change task).withFrame frame) :
    (s.setTasks { s.tasks with queue := s.tasks.queue.modify s.cur change }).contexts =
      s.contexts.modify s.cur change := by
  apply List.ext_getElem?
  intro k
  simp only [contexts, tasks_setTasks, cur]
  by_cases here : s.tasks.curTaskIdx.toNat = k
  · subst here
    simp only [List.getElem?_modify_eq, Option.map_eq_map, Option.map_map]
    exact congrArg (Option.map · _) (funext fun task => (commutes task s.frame).symm)
  · simp [List.getElem?_modify_ne, here]

/-- A change of the trap frame changes the registers of the running thread. -/
theorem contexts_setFrame (s : Machine V) (change : TrapFrame → TrapFrame) :
    Machine.contexts { s with frame := change s.frame } =
      s.contexts.modify s.cur fun task => task.withFrame (change task.trapFrame) := by
  apply List.ext_getElem?
  intro k
  simp only [contexts, tasks, cur]
  by_cases here : s.currentUserTask.value.curTaskIdx.toNat = k
  · subst here
    simp only [List.getElem?_modify_eq, Option.map_eq_map, Option.map_map]
    rfl
  · simp [List.getElem?_modify_ne, here]

/-- The machine in which a thread goes on. -/
def resume (s : Machine V) (index : Nat) (task : TaskData) : Machine V :=
  { s with
    currentUserTask := .free ⟨s.contexts, UInt64.ofNat index⟩
    satp := task.taskTable
    frame := task.trapFrame }

/-- The index of the thread that goes on. -/
theorem cur_resume (size : s.contexts.length ≤ queueLimit) (chosen : s.contexts[j]? = some task) :
    (s.resume j task).cur = j :=
  TaskQueue.toNat_atIndex ⟨s.contexts, 0⟩ (List.getElem?_eq_some_iff.mp chosen).1 size

/-- A switch changes no thread. -/
theorem contexts_resume (size : s.contexts.length ≤ queueLimit)
    (chosen : s.contexts[j]? = some task) : (s.resume j task).contexts = s.contexts := by
  rw [contexts, cur_resume size chosen]
  change s.contexts.modify j (·.withFrame task.trapFrame) = s.contexts
  rw [← set_eq_modify _ chosen]
  obtain ⟨bound, rfl⟩ := List.getElem?_eq_some_iff.mp chosen
  exact List.set_getElem_self bound

end Machine

/-- `advance_task` saves the running thread and goes on with the next that can run. -/
theorem advanceTask_run (unlocked : s.Unlocked) (bound : s.cur < s.contexts.length)
    (size : s.contexts.length ≤ queueLimit)
    (next : Cycle.Next s.contexts.length (Runnable s.contexts) s.cur j)
    (chosen : s.contexts[j]? = some task) :
    advanceTask.run s = (.ok (), s.resume j task) := by
  rw [s.length_contexts] at bound
  have entry : s.tasks.queue[s.cur]? = some _ := List.getElem?_eq_getElem bound
  let saved := (s.setWriter true).setTasks { s.tasks with queue := s.contexts }
  have stored : (TaskQueue.currentTaskMut (·.withFrame (s.setWriter true).frame)).run
    (s.setWriter true) =
      (.ok (), saved) := TaskQueue.currentTaskMut_run (s.setWriter true) _ entry
  have moved : TaskQueue.advance.run saved = (.ok (), saved.setTasks (saved.tasks.atIndex j)) :=
    TaskQueue.advance_run saved (by rwa [← s.length_contexts] at bound) size next
  have here : (saved.setTasks (saved.tasks.atIndex j)).cur = j := s.cur_resume size chosen
  have guards : s.currentUserTask.readers = 0 := by rw [unlocked.queue]; rfl
  rw [advanceTask, Prog.run_bind_ok (lockWrite_run unlocked.queue),
    Prog.run_bind_ok (Prog.run_read _ _), Prog.run_bind_ok stored, Prog.run_bind_ok moved,
    Prog.run_bind_ok (TaskQueue.currentTask_run (by rw [here]; exact chosen)),
    Prog.run_bind_ok (Prog.run_update _ _), Prog.run_bind_ok (Prog.run_update _ _),
    unlockWrite_run]
  simp only [Machine.resume, Machine.setWriter, Machine.setTasks, saved, guards, RwLock.free]
  rfl

namespace Machine

/-- What holds whenever the kernel is entered from user mode or returns to it. -/
structure Ready (s : Machine V) : Prop where
  /-- No lock is held. -/
  unlocked : s.Unlocked
  /-- The queue fits in memory. -/
  size : s.contexts.length ≤ queueLimit
  /-- The index names a thread that can run, and `satp` is its address space. -/
  current : ∃ task, s.contexts[s.cur]? = some task ∧ task.waitingOn = .none ∧
    task.taskTable = s.satp
  /-- The tasks that await input have a thread that waits on it. -/
  awaited : ∀ id ∈ s.inputAwaitList.value, ∃ task ∈ s.contexts,
    task.taskId = id ∧ task.waitingOn = .charIn

/-- Some thread other than the running one can run. -/
def OtherRuns (s : Machine V) : Prop := ∃ k, k ≠ s.cur ∧ Runnable s.contexts k

/-- A switch: the running thread takes a step of its own, the others keep everything, and the next
thread that can run goes on. -/
structure Switched (s : Machine V) (own : TaskData → TaskData) (s' : Machine V) : Prop where
  /-- Only the running thread changed. -/
  contexts : s'.contexts = s.contexts.modify s.cur own
  /-- Every thread is saved. -/
  saved : s'.tasks.queue = s'.contexts
  /-- The kernel is ready again. -/
  ready : s'.Ready
  /-- The thread that goes on is the next one. -/
  next : Cycle.Next s'.contexts.length (Runnable s'.contexts) s.cur s'.cur

/-- The index is in range. -/
theorem Ready.bound (ready : s.Ready) : s.cur < s.contexts.length := by
  obtain ⟨task, entry, -⟩ := ready.current
  exact (List.getElem?_eq_some_iff.mp entry).1

/-- A thread that can run is not one that waits. -/
theorem Ready.waiting_modify (ready : s.Ready) {own : TaskData → TaskData} {id : UInt64}
    (waiting : ∃ task ∈ s.contexts, task.taskId = id ∧ task.waitingOn = .charIn) :
    ∃ task ∈ s.contexts.modify s.cur own, task.taskId = id ∧ task.waitingOn = .charIn := by
  obtain ⟨task, member, same, waits⟩ := waiting
  obtain ⟨current, entry, runs, -⟩ := ready.current
  obtain ⟨k, position⟩ := List.mem_iff_getElem?.mp member
  have other : s.cur ≠ k := by
    rintro rfl
    rw [entry] at position
    rw [← Option.some.inj position, runs] at waits
    exact absurd waits (by decide)
  refine ⟨task, List.mem_iff_getElem?.mpr ⟨k, ?_⟩, same, waits⟩
  rw [List.getElem?_modify_ne _ _ other, position]

/-- A switch follows from a run of `advance_task` in a machine where the running thread has taken
its step. -/
theorem Ready.switched {own : TaskData → TaskData} {s₁ : Machine V} (ready : s.Ready)
    (unlocked : s₁.Unlocked) (cur : s₁.cur = s.cur)
    (contexts : s₁.contexts = s.contexts.modify s.cur own)
    (runs : ∃ k, Runnable s₁.contexts k)
    (awaited : ∀ id ∈ s₁.inputAwaitList.value, ∃ task ∈ s₁.contexts,
      task.taskId = id ∧ task.waitingOn = .charIn) :
    ∃ s', advanceTask.run s₁ = (.ok (), s') ∧ s.Switched own s' := by
  have length : s₁.contexts.length = s.contexts.length := by rw [contexts, List.length_modify]
  have size : s₁.contexts.length ≤ queueLimit := length ▸ ready.size
  have bound : s₁.cur < s₁.contexts.length := by rw [cur, length]; exact ready.bound
  obtain ⟨k, run⟩ := runs
  obtain ⟨j, next⟩ := Cycle.exists_next bound run.lt run
  obtain ⟨task, chosen, free⟩ := next.holds
  refine ⟨s₁.resume j task, advanceTask_run unlocked bound size next chosen, ?_⟩
  have same : (s₁.resume j task).contexts = s₁.contexts := contexts_resume size chosen
  have index : (s₁.resume j task).cur = j := cur_resume size chosen
  refine ⟨same.trans contexts, same.symm,
    ⟨⟨rfl, unlocked.list⟩, same ▸ size, ⟨task, ?_, free, rfl⟩, ?_⟩, ?_⟩
  · rw [same, index, chosen]
  · rw [same]
    exact awaited
  · rw [same, index, ← cur]
    exact next

end Machine

/-- A system call returns to the instruction after it. -/
def TaskData.pastCall (task : TaskData) : TaskData :=
  task.withFrame { task.trapFrame with sepc := task.trapFrame.sepc + 4 }

/-- A thread that waits. -/
def TaskData.waitFor (source : WaitSrc) (task : TaskData) : TaskData :=
  { task with waitingOn := source }

namespace Machine

variable (platform : Platform V) (devices : Devices V) (stval : UInt64)

/-- A timer interrupt switches. -/
theorem Ready.timer (ready : s.Ready) :
    ∃ s', (trapHandler platform devices 0x8000000000000005 stval).run s = (.ok (), s') ∧
      s.Switched id s' := by
  obtain ⟨task, entry, runs, -⟩ := ready.current
  exact ready.switched ready.unlocked rfl (List.modify_id ..).symm
    ⟨_, task, entry, runs⟩ ready.awaited

/-- The machine after the entry of a system call. -/
def afterCall (s : Machine V) : Machine V :=
  { s with frame := { s.frame with sepc := s.frame.sepc + 4 } }

/-- The entry of a system call is a step of the running thread. -/
theorem contexts_afterCall (s : Machine V) :
    s.afterCall.contexts = s.contexts.modify s.cur TaskData.pastCall :=
  s.contexts_setFrame fun frame => { frame with sepc := frame.sepc + 4 }

/-- A system call goes to the subcall that `a0` and `a1` name. -/
theorem trapHandler_call (s : Machine V) : (trapHandler platform devices 8 stval).run s =
    (syscallCore platform).run s.afterCall := rfl

/-- The forfeit call switches. -/
theorem Ready.forfeit (ready : s.Ready) (root : s.frame.registers.a0 = 1)
    (sub : s.frame.registers.a1 = 0) :
    ∃ s', (trapHandler platform devices 8 stval).run s = (.ok (), s') ∧
      s.Switched TaskData.pastCall s' := by
  obtain ⟨task, entry, runs, -⟩ := ready.current
  have contexts := s.contexts_afterCall
  rw [trapHandler_call]
  have call : (syscallCore platform).run s.afterCall = advanceTask.run s.afterCall := by
    simp [syscallCore, kernelTask, Prog.run_bind, afterCall, root, sub]
  rw [call]
  refine ready.switched ⟨ready.unlocked.queue, ready.unlocked.list⟩ rfl contexts ⟨s.cur, ?_⟩
    fun id member => ?_
  · rw [contexts]
    exact Runnable.modify ⟨task, entry, runs⟩ fun _ => rfl
  · rw [contexts]
    exact ready.waiting_modify (ready.awaited id member)

/-- The machine in which the running thread waits. -/
def waitFor (s : Machine V) (source : WaitSrc) : Machine V :=
  s.setTasks { s.tasks with queue := s.tasks.queue.modify s.cur (·.waitFor source) }

/-- To wait is a step of the running thread. -/
theorem contexts_waitFor (s : Machine V) (source : WaitSrc) :
    (s.waitFor source).contexts = s.contexts.modify s.cur (·.waitFor source) :=
  contexts_modify fun _ _ => rfl

/-- The entry of the running thread. -/
theorem Ready.entry (ready : s.Ready) : ∃ task, s.tasks.queue[s.cur]? = some task :=
  ⟨_, List.getElem?_eq_getElem (s.length_contexts ▸ ready.bound)⟩

/-- A mark made under the write lock. -/
theorem Unlocked.mark (unlocked : s.Unlocked) (source : WaitSrc)
    (entry : s.tasks.queue[s.cur]? = some task) {α : Type} (rest : Kernel (Machine V) α) :
    (do lockWrite
        TaskQueue.currentTaskMut fun current => { current with waitingOn := source }
        unlockWrite
        rest).run s = rest.run (s.waitFor source) := by
  have guards : s.currentUserTask.writer = false := by rw [unlocked.queue]; rfl
  rw [Prog.run_bind_ok (lockWrite_run unlocked.queue),
    Prog.run_bind_ok (TaskQueue.currentTaskMut_run (s.setWriter true) _ entry),
    Prog.run_bind_ok (unlockWrite_run _)]
  congr 1
  simp only [waitFor, Machine.setTasks, setWriter, ← guards]
  rfl

/-- A breakpoint marks the running thread and switches. -/
theorem Ready.breakpoint (ready : s.Ready) (other : s.OtherRuns) :
    ∃ s', (trapHandler platform devices 3 stval).run s = (.ok (), s') ∧
      s.Switched (TaskData.waitFor .breakpoint) s' := by
  obtain ⟨saved, entry⟩ := ready.entry
  have contexts := s.contexts_waitFor .breakpoint
  have call : (trapHandler platform devices 3 stval).run s =
      advanceTask.run (s.waitFor .breakpoint) := ready.unlocked.mark .breakpoint entry advanceTask
  rw [call]
  obtain ⟨k, elsewhere, runs⟩ := other
  refine ready.switched (ready.unlocked.setTasks _) rfl contexts ⟨k, ?_⟩ fun id member => ?_
  · rw [contexts]
    exact runs.modify_ne elsewhere
  · rw [contexts]
    exact ready.waiting_modify (ready.awaited id member)

/-- The machine in which a task awaits input. -/
def awaits (s : Machine V) (id : UInt64) : Machine V :=
  { s with inputAwaitList := .free (s.inputAwaitList.value ++ [id]) }

/-- The take-input call puts the task on the list, marks the running thread and switches. -/
theorem Unlocked.takeInput (unlocked : s.Unlocked) (entry : s.tasks.queue[s.cur]? = some task) :
    Lsd.takeInput.run s = advanceTask.run ((s.awaits task.taskId).waitFor .charIn) := by
  have free : s.currentUserTask.writer = false := by rw [unlocked.queue]; rfl
  have unheld : s.inputAwaitList.locked = false := by rw [unlocked.list]; rfl
  let held : Machine V := { s with
    inputAwaitList := { s.inputAwaitList with locked := true }
    currentUserTask := { s.currentUserTask with readers := s.currentUserTask.readers + 1 } }
  have locks : ∀ {α : Type} (rest : Kernel (Machine V) α),
      (do lockAwaitList; lockRead; rest).run s = rest.run held := by
    intro α rest
    simp [lockAwaitList, lockRead, Prog.run_bind, free, unheld, held]
  have pushed : ∀ {α : Type} (rest : Kernel (Machine V) α),
      (do setAwaitList (· ++ [task.taskId]); unlockRead; unlockAwaitList; rest).run held =
        rest.run (s.awaits task.taskId) := fun _ => rfl
  have marked : Unlocked (s.awaits task.taskId) := ⟨unlocked.queue, rfl⟩
  rw [Lsd.takeInput, locks, Prog.run_bind_ok (TaskQueue.currentTask_run (s := held) entry), pushed,
    marked.mark .charIn entry advanceTask]

/-- The take-input call switches away from the thread. -/
theorem Ready.takeInput (ready : s.Ready) (other : s.OtherRuns) (root : s.frame.registers.a0 = 0)
    (sub : s.frame.registers.a1 = 2) :
    ∃ s', (trapHandler platform devices 8 stval).run s = (.ok (), s') ∧
      s.Switched (fun task => task.pastCall.waitFor .charIn) s' := by
  obtain ⟨saved, entry⟩ := ready.entry
  have unlocked : s.afterCall.Unlocked := ⟨ready.unlocked.queue, ready.unlocked.list⟩
  have call : (syscallCore platform).run s.afterCall = Lsd.takeInput.run s.afterCall := by
    simp [syscallCore, kernelIo, Prog.run_bind, afterCall, root, sub]
  have contexts : ((s.afterCall.awaits saved.taskId).waitFor .charIn).contexts =
      s.contexts.modify s.cur fun task => task.pastCall.waitFor .charIn := by
    rw [contexts_waitFor, show (s.afterCall.awaits saved.taskId).contexts = s.afterCall.contexts
      from rfl, contexts_afterCall]
    exact List.modify_modify_eq ..
  have marked : (s.afterCall.awaits saved.taskId).Unlocked := ⟨unlocked.queue, rfl⟩
  rw [trapHandler_call, call, unlocked.takeInput entry]
  obtain ⟨k, elsewhere, runs⟩ := other
  refine ready.switched (marked.setTasks _) rfl contexts ⟨k, ?_⟩ fun id member => ?_
  · rw [contexts]
    exact runs.modify_ne elsewhere
  · rw [contexts]
    rcases List.mem_append.mp member with before | now
    · exact ready.waiting_modify (ready.awaited id before)
    · obtain rfl := List.mem_singleton.mp now
      refine ⟨(saved.withFrame s.frame).pastCall.waitFor .charIn,
        List.mem_iff_getElem?.mpr ⟨s.cur, ?_⟩, rfl, rfl⟩
      rw [List.getElem?_modify_eq, Machine.contexts, List.getElem?_modify_eq, entry]
      rfl

end Machine

/-- An index out of range stops the read of the current entry. -/
theorem currentTask_missing (missing : s.tasks.queue[s.cur]? = none) :
    ∃ reason, TaskQueue.currentTask.run s = (.error reason, s) := by
  simp only [Machine.tasks, Machine.cur] at missing
  simp [TaskQueue.currentTask, taskQueue, Prog.run_bind, missing]

/-- Reading the current entry leaves the machine as it is. -/
theorem currentTask_eq_ok {s' : Machine V} (ran : TaskQueue.currentTask.run s = (.ok task, s')) :
    s.tasks.queue[s.cur]? = some task ∧ s' = s := by
  cases entry : s.tasks.queue[s.cur]? with
  | some found =>
    rw [TaskQueue.currentTask_run entry] at ran
    obtain ⟨same, rfl⟩ := Prod.mk.inj ran
    exact ⟨congrArg some (Except.ok.inj same), rfl⟩
  | none =>
    obtain ⟨reason, stops⟩ := currentTask_missing entry
    simp [stops] at ran

section Keeps

variable {τ : Type} {part : Machine V → τ}

/-- Taking the write lock keeps what does not tell the guard. -/
theorem lockWrite_keeps (blind : ∀ s writer, part (s.setWriter writer) = part s) :
    Prog.Keeps part (lockWrite : Kernel (Machine V) Unit) :=
  .bind (.read _) fun _ => .ite (.stop _) (.update fun s => blind s true)

/-- Giving the write lock back keeps what does not tell the guard. -/
theorem unlockWrite_keeps (blind : ∀ s writer, part (s.setWriter writer) = part s) :
    Prog.Keeps part (unlockWrite : Kernel (Machine V) Unit) :=
  .update fun s => blind s false

/-- Reading the current entry keeps everything. -/
theorem currentTask_keeps : Prog.Keeps part (TaskQueue.currentTask : Kernel (Machine V) TaskData) :=
  .bind (.read _) fun self => by
    dsimp only
    split
    · exact .pure _
    · exact .stop _

/-- A change of the current entry keeps what does not tell it. -/
theorem currentTaskMut_keeps {change : TaskData → TaskData}
    (blind : ∀ s : Machine V,
      part (s.setTasks { s.tasks with queue := s.tasks.queue.modify s.cur change }) = part s) :
    Prog.Keeps part (TaskQueue.currentTaskMut change) := by
  intro s
  cases entry : s.tasks.queue[s.cur]? with
  | none =>
    obtain ⟨reason, stops⟩ := currentTask_missing entry
    rw [TaskQueue.currentTaskMut, Prog.run_bind_stop stops]
  | some task =>
    rw [TaskQueue.currentTaskMut_run s change entry]
    exact blind s

/-- The loop of `advance` keeps what tells neither the index nor `sstatus`. -/
theorem advanceLoop_keeps (index : ∀ (s : Machine V) i, part (s.setTasks
      { s.tasks with curTaskIdx := i }) = part s)
    (status : ∀ (s : Machine V) word, part { s with sstatus := word } = part s) (start : UInt64) :
    ∀ steps sieSet, Prog.Keeps part (TaskQueue.advanceLoop start steps sieSet) := by
  intro steps
  have step : Prog.Keeps part (setTaskQueue fun self =>
      { self with curTaskIdx := self.curTaskIdx + 1 }) := fun s => index s _
  have wrap : Prog.Keeps part (setTaskQueue fun self =>
      if self.curTaskIdx.toNat = self.queue.length then { self with curTaskIdx := 0 }
      else self) := fun s => by
    change part (s.setTasks (if _ then _ else _)) = part s
    split
    · exact index s 0
    · exact index s s.tasks.curTaskIdx
  have bits : ∀ sie spp, Prog.Keeps part (TaskQueue.setStatus sie spp) := fun _ _ s => status s _
  induction steps with
  | zero => exact fun _ => .stop _
  | succ steps ih =>
    intro sieSet
    rw [TaskQueue.advanceLoop]
    refine .bind step fun _ => .bind wrap fun _ => .bind currentTask_keeps fun task => .ite ?_ ?_
    · exact .ite (bits _ _) (.pure _)
    · exact .bind (.read _) fun self => .ite (.bind (bits _ _) fun _ => ih true) (ih sieSet)

/-- `advance_task` keeps what tells neither the lock, the registers nor the index. -/
theorem advanceTask_keeps (guard : ∀ (s : Machine V) writer, part (s.setWriter writer) = part s)
    (save : ∀ (s : Machine V) frame, part (s.setTasks
      { s.tasks with queue := s.tasks.queue.modify s.cur (·.withFrame frame) }) = part s)
    (index : ∀ (s : Machine V) i, part (s.setTasks { s.tasks with curTaskIdx := i }) = part s)
    (status : ∀ (s : Machine V) word, part { s with sstatus := word } = part s)
    (satp : ∀ (s : Machine V) word, part { s with satp := word } = part s)
    (frame : ∀ (s : Machine V) frame, part { s with frame := frame } = part s) :
    Prog.Keeps part (advanceTask : Kernel (Machine V) Unit) :=
  .bind (lockWrite_keeps guard) fun _ => .bind (.read _) fun registers =>
    .bind (currentTaskMut_keeps fun s => save s registers) fun _ =>
    .bind (.bind (.read _) fun _ => advanceLoop_keeps index status _ _ _) fun _ =>
    .bind currentTask_keeps fun _ => .bind (.update fun s => satp s _) fun _ =>
    .bind (.update fun s => frame s _) fun _ => unlockWrite_keeps guard

end Keeps

end Lsd
