import Lsd.Verif.Scheduler

/-!
# Waking, spawning and dropping threads

What the serial interrupt, the spawn call and the drop call do to the threads of
a machine. The first two leave the running thread in place. The drop call
switches first and removes the entry of the old thread afterwards, when the
queue has already been reordered once more.
-/

namespace Lsd

open Program

variable {V : Type} {s : Machine V} {task : TaskData} {i j : Nat}

/-- A thread that does not wait on input is not woken. -/
theorem TaskData.wake_of_ne {input : UInt8} (awake : task.waitingOn ≠ .charIn) :
    task.wake input = task := if_neg awake

/-- A woken thread is not woken again. -/
theorem TaskData.wake_wake (input : UInt8) (task : TaskData) :
    (task.wake input).wake input = task.wake input := by
  by_cases waits : task.waitingOn = .charIn
  · exact wake_of_ne (by simp [wake, waits])
  · rw [wake_of_ne waits, wake_of_ne waits]

/-- Waking keeps the task of a thread. -/
theorem TaskData.wake_taskId (input : UInt8) (task : TaskData) :
    (task.wake input).taskId = task.taskId := by
  rw [wake]
  split <;> rfl

/-- Some threads are woken and the others keep everything. -/
def Woken (input : UInt8) (before after : List TaskData) : Prop :=
  ∀ k : Nat, after[k]? = before[k]? ∨ after[k]? = before[k]?.map (·.wake input)

/-- Nobody is woken. -/
theorem Woken.refl (input : UInt8) (threads : List TaskData) : Woken input threads threads :=
  fun _ => .inl rfl

/-- One thread is woken. -/
theorem Woken.single (input : UInt8) (threads : List TaskData) (index : Nat) :
    Woken input threads (threads.modify index (·.wake input)) := by
  intro k
  by_cases here : index = k
  · subst here
    exact .inr (List.getElem?_modify_eq ..)
  · exact .inl (List.getElem?_modify_ne _ _ here)

/-- Who was woken first is not changed by a later wake. -/
theorem Woken.trans {input : UInt8} {before middle after : List TaskData}
    (first : Woken input before middle) (second : Woken input middle after) :
    Woken input before after := by
  intro k
  rcases second k with same | woke
  · rw [same]
    exact first k
  · rw [woke]
    refine .inr ?_
    rcases first k with same | woke
    · rw [same]
    · rw [woke, Option.map_map]
      exact congrArg (Option.map · _) (funext fun task => TaskData.wake_wake input task)

/-- The tasks of the threads stay. -/
theorem Woken.taskId {input : UInt8} {before after : List TaskData}
    (woken : Woken input before after)
    {id : UInt64} (found : ∃ task ∈ before, task.taskId = id) :
    ∃ task ∈ after, task.taskId = id := by
  obtain ⟨task, member, same⟩ := found
  obtain ⟨k, entry⟩ := List.mem_iff_getElem?.mp member
  rcases woken k with kept | woke
  · exact ⟨task, List.mem_iff_getElem?.mpr ⟨k, by rw [kept, entry]⟩, same⟩
  · refine ⟨task.wake input, List.mem_iff_getElem?.mpr ⟨k, by rw [woke, entry]; rfl⟩, ?_⟩
    rw [TaskData.wake_taskId, same]

/-- A thread that can run is left as it is. -/
theorem Woken.awake {input : UInt8} {before after : List TaskData}
    (woken : Woken input before after)
    (entry : before[i]? = some task) (awake : task.waitingOn ≠ .charIn) :
    after[i]? = some task := by
  rcases woken i with same | woke
  · rw [same, entry]
  · rw [woke, entry, Option.map_some, TaskData.wake_of_ne awake]

/-- Waking keeps the number of threads. -/
theorem Woken.length {input : UInt8} {before after : List TaskData}
    (woken : Woken input before after) : after.length = before.length := by
  have same : ∀ k, after[k]? = none ↔ before[k]? = none := fun k => by
    rcases woken k with same | woke
    · rw [same]
    · rw [woke, Option.map_eq_none_iff]
  have left := (same after.length).mp (List.getElem?_eq_none le_rfl)
  have right := (same before.length).mpr (List.getElem?_eq_none le_rfl)
  exact Nat.le_antisymm (List.getElem?_eq_none_iff.mp right) (List.getElem?_eq_none_iff.mp left)

namespace Machine

/-- To wake an entry is to wake the thread, as the running thread does not wait. -/
theorem contexts_wake (s : Machine V) (input : UInt8) (index : Nat)
    (current : s.contexts[s.cur]? = some task) (runs : task.waitingOn = .none) :
    (s.setTasks { s.tasks with queue := s.tasks.queue.modify index (·.wake input) }).contexts =
      s.contexts.modify index (·.wake input) := by
  by_cases here : index = s.cur
  · subst here
    rw [contexts, List.getElem?_modify_eq] at current
    obtain ⟨saved, entry, rfl⟩ := Option.map_eq_some_iff.mp current
    have awake : saved.wake input = saved := TaskData.wake_of_ne (runs ▸ by decide)
    have awake' : (saved.withFrame s.frame).wake input = saved.withFrame s.frame :=
      TaskData.wake_of_ne (runs ▸ by decide)
    apply List.ext_getElem?
    intro k
    by_cases same : s.cur = k
    · subst same
      change (List.modify (s.tasks.queue.modify s.cur _) s.cur _)[s.cur]? = _
      simp only [contexts, List.getElem?_modify_eq, entry]
      exact congrArg some ((congrArg (·.withFrame s.frame) awake).trans awake'.symm)
    · change (List.modify (s.tasks.queue.modify s.cur _) s.cur _)[k]? = _
      simp only [contexts, List.getElem?_modify_ne _ _ same]
  · exact List.modify_modify_ne _ _ _ here

end Machine

/-- A task with a thread has an entry. -/
theorem Machine.entry_of_context {id : UInt64} (found : ∃ task ∈ s.contexts, task.taskId = id) :
    ∃ task ∈ s.tasks.queue, task.taskId = id := by
  obtain ⟨task, member, same⟩ := found
  obtain ⟨k, entry⟩ := List.mem_iff_getElem?.mp member
  by_cases here : s.cur = k
  · rw [contexts, here, List.getElem?_modify_eq] at entry
    obtain ⟨saved, position, rfl⟩ := Option.map_eq_some_iff.mp entry
    exact ⟨saved, List.mem_iff_getElem?.mpr ⟨k, position⟩, same⟩
  · rw [contexts, List.getElem?_modify_ne _ _ here] at entry
    exact ⟨task, List.mem_iff_getElem?.mpr ⟨k, entry⟩, same⟩

/-- The first entry of a task is changed. -/
theorem TaskQueue.findTaskMut_run {id : UInt64} (change : TaskData → TaskData) (missing : Stop)
    (found : ∃ task ∈ s.tasks.queue, task.taskId = id) :
    ∃ index, (findTaskMut id change missing).run s =
      (.ok (), s.setTasks { s.tasks with queue := s.tasks.queue.modify index change }) := by
  obtain ⟨task, member, same⟩ := found
  obtain ⟨index, first⟩ : ∃ index,
      s.tasks.queue.findIdx? (fun entry => entry.taskId = id) = some index :=
    Option.isSome_iff_exists.mp (List.findIdx?_isSome.trans
      (List.any_eq_true.mpr ⟨task, member, decide_eq_true same⟩))
  refine ⟨index, ?_⟩
  rw [findTaskMut, Prog.run_bind_ok (taskQueue_run s), first]
  rfl

/-- The loop of the serial handler wakes threads of the listed tasks. -/
theorem uartLoop_run (input : UInt8) (ids : List UInt64) (free : s.currentUserTask = .free s.tasks)
    (current : s.contexts[s.cur]? = some task) (runs : task.waitingOn = .none)
    (found : ∀ id ∈ ids, ∃ task ∈ s.contexts, task.taskId = id) :
    ∃ queue, (ids.forM fun entryId => do
        lockWrite
        TaskQueue.findTaskMut entryId (·.wake input)
          (.panic "called `Option::unwrap()` on a `None` value")
        unlockWrite).run s = (.ok (), s.setTasks { s.tasks with queue := queue }) ∧
      Woken input s.contexts (s.setTasks { s.tasks with queue := queue }).contexts := by
  induction ids generalizing s with
  | nil => exact ⟨s.tasks.queue, rfl, Woken.refl _ _⟩
  | cons id ids ih =>
    obtain ⟨index, changed⟩ := TaskQueue.findTaskMut_run (s := s.setWriter true) (·.wake input)
      (.panic "called `Option::unwrap()` on a `None` value")
      (Machine.entry_of_context (found id (by simp)))
    have unheld : s.currentUserTask.writer = false := by rw [free]; rfl
    let next := s.setTasks { s.tasks with queue := s.tasks.queue.modify index (·.wake input) }
    have round : (do
        lockWrite
        TaskQueue.findTaskMut id (·.wake input)
          (.panic "called `Option::unwrap()` on a `None` value")
        unlockWrite).run s = (.ok (), next) := by
      rw [Prog.run_bind_ok (lockWrite_run free), Prog.run_bind_ok changed, unlockWrite_run]
      simp only [next, Machine.setTasks, Machine.setWriter, ← unheld]
      rfl
    have contexts : next.contexts = _ := s.contexts_wake input index current runs
    have woken : Woken input s.contexts next.contexts := contexts ▸ Woken.single input _ index
    obtain ⟨queue, ran, later⟩ := ih (s := next) (by simp only [next, Machine.setTasks, free]; rfl)
      (woken.awake current (runs ▸ by decide))
      fun id' member => woken.taskId (found id' (List.mem_cons_of_mem id member))
    refine ⟨queue, ?_, woken.trans later⟩
    exact (Prog.run_bind_ok round).trans ran

namespace Machine

variable (platform : Platform V) (devices : Devices V) (stval : UInt64)

/-- A serial interrupt wakes threads and leaves the running thread in place. -/
theorem Ready.uart (ready : s.Ready) {id : Nat} (bound : id < 64) (input : UInt8) :
    ∃ s', (trapHandler platform (.serial id input) 0x8000000000000009 stval).run s = (.ok (), s') ∧
      s'.Ready ∧ s'.cur = s.cur ∧ Woken input s.contexts s'.contexts := by
  obtain ⟨task, current, runs, table⟩ := ready.current
  let held : Machine V := { s with inputAwaitList := { s.inputAwaitList with locked := true } }
  obtain ⟨queue, ran, woken⟩ := uartLoop_run (s := held) input s.inputAwaitList.value
    ready.unlocked.queue current runs fun id member =>
      (ready.awaited id member).imp fun _ found => ⟨found.1, found.2.1⟩
  have unheld : s.inputAwaitList.locked = false := by rw [ready.unlocked.list]; rfl
  have dispatch : (trapHandler platform (.serial id input) 0x8000000000000009 stval).run s =
      (uartHandler input).run s := by
    change (handleExternal (.serial id input)).run s = _
    simp [handleExternal, Devices.serial, checkIndex, bound]
    rfl
  have locked : (lockAwaitList : Kernel (Machine V) Unit).run s = (.ok (), held) := by
    simp [lockAwaitList, Prog.run_bind, unheld, held]
  let last := { held.setTasks { s.tasks with queue := queue } with inputAwaitList := .free [] }
  refine ⟨last, ?_,
    ⟨⟨?_, rfl⟩, ?_, ⟨task, ?_, runs, table⟩, by simp [last, Mutex.free]⟩, rfl, woken⟩
  · rw [dispatch, uartHandler, Prog.run_bind_ok locked, Prog.run_bind_ok (Prog.run_read _ _),
      Prog.run_bind_ok ran]
    rfl
  · simp only [last, held, setTasks, ready.unlocked.queue]
    rfl
  · exact (woken.length).trans_le ready.size
  · exact woken.awake current (runs ▸ by decide)

/-- The machine with the running thread saved. -/
def save (s : Machine V) : Machine V := s.setTasks { s.tasks with queue := s.contexts }

/-- The running thread is saved. -/
theorem Unlocked.updateCurrent (unlocked : s.Unlocked)
    (entry : s.tasks.queue[s.cur]? = some task) : Lsd.updateCurrent.run s = (.ok (), s.save) := by
  have unheld : s.currentUserTask.writer = false := by rw [unlocked.queue]; rfl
  rw [Lsd.updateCurrent, Prog.run_bind_ok (lockWrite_run unlocked.queue),
    Prog.run_bind_ok (Prog.run_read _ _),
    Prog.run_bind_ok (TaskQueue.currentTaskMut_run (s.setWriter true) _ entry), unlockWrite_run]
  simp only [Machine.save, Machine.setTasks, setWriter, ← unheld]
  rfl

end Machine

/-- A number that the arena returned. -/
theorem allocFrom_eq_ok {platform : Platform V} {arena size number : UInt64} {s' : Machine V}
    (ran : (allocFrom platform arena size).run s = (.ok number, s')) :
    ∃ arenas, (platform.vmem.alloc arena size).run s.arenas = (.ok (.ok number), arenas) ∧
      s' = { s with arenas := arenas } := by
  obtain ⟨result, later, allocated, rest⟩ := Prog.run_bind_eq_ok ran
  cases outcome : (platform.vmem.alloc arena size).run s.arenas with
  | mk answer arenas =>
    have whole : ((platform.vmem.alloc arena size).within (fun s : Machine V => s.arenas)
        fun s arenas => { s with arenas := arenas }).run s =
        (answer, { s with arenas := arenas }) := by
      change (let (result, later) := (platform.vmem.alloc arena size).run s.arenas
        (result, { s with arenas := later })) = _
      rw [outcome]
    rw [whole] at allocated
    obtain ⟨rfl, rfl⟩ := Prod.mk.inj allocated
    cases result with
    | error message => simp [unwrap] at rest
    | ok value =>
      obtain ⟨same, rfl⟩ := Prod.mk.inj rest
      obtain rfl := Except.ok.inj same
      exact ⟨arenas, rfl, rfl⟩

/-- A thread that was added. -/
theorem newTask_eq_ok {s' : Machine V} (ran : (newTask task).run s = (.ok (), s'))
    (unlocked : s.Unlocked) : s.tasks.queue.length < queueLimit ∧
      s' = s.setTasks { s.tasks with queue := s.tasks.queue ++ [task] } := by
  have unheld : s.currentUserTask.writer = false := by rw [unlocked.queue]; rfl
  rw [newTask, Prog.run_bind_ok (lockWrite_run unlocked.queue)] at ran
  obtain ⟨_, later, added, rest⟩ := Prog.run_bind_eq_ok ran
  rw [TaskQueue.newTask, Prog.run_bind_ok (taskQueue_run _), Prog.run_ite] at added
  by_cases room : s.tasks.queue.length < queueLimit
  · rw [Machine.tasks_setWriter, if_pos room] at added
    obtain ⟨-, rfl⟩ := Prod.mk.inj added
    obtain ⟨-, rfl⟩ := Prod.mk.inj rest
    refine ⟨room, ?_⟩
    simp only [Machine.setTasks, Machine.setWriter, ← unheld]
    rfl
  · rw [Machine.tasks_setWriter, if_neg room] at added
    simp at added

/-- What the spawn call does to its caller. -/
def TaskData.spawned (task : TaskData) : TaskData :=
  task.pastCall.withFrame (task.pastCall.trapFrame.setA0 0)

/-- The thread that the spawn call makes from its caller. -/
def TaskData.child (threadId : UInt64) (task : TaskData) : TaskData :=
  { task.pastCall with
    threadId := threadId
    trapFrame := (task.pastCall.trapFrame.setA0 task.taskId).setA1 threadId }

namespace Machine

variable (platform : Platform V) (devices : Devices V) (stval : UInt64)

/-- Spawning keeps the caller and adds a thread. -/
theorem Ready.spawn {s' : Machine V} (ready : s.Ready) (root : s.frame.registers.a0 = 1)
    (sub : s.frame.registers.a1 = 2)
    (ran : (trapHandler platform devices 8 stval).run s = (.ok (), s')) :
    ∃ current threadId, s.contexts[s.cur]? = some current ∧
      (platform.vmem.alloc current.threadManager 1).run s.arenas =
        (.ok (.ok threadId), s'.arenas) ∧
      s'.Ready ∧ s'.cur = s.cur ∧
      s'.contexts = s.contexts.modify s.cur TaskData.spawned ++ [current.child threadId] := by
  have unlocked : s.afterCall.Unlocked := ⟨ready.unlocked.queue, ready.unlocked.list⟩
  obtain ⟨saved, entry⟩ := ready.entry
  obtain ⟨current, position, runs, table⟩ := ready.current
  have frame : current.trapFrame = s.frame := frame_of_current position
  have called : s.afterCall.contexts[s.cur]? = some current.pastCall := by
    rw [contexts_afterCall, List.getElem?_modify_eq, position]
    rfl
  have call : (trapHandler platform devices 8 stval).run s =
      (spawnThread platform).run s.afterCall := by
    rw [trapHandler_call]
    simp [syscallCore, kernelTask, Prog.run_bind, afterCall, root, sub]
  have kept : s.afterCall.save.Unlocked := unlocked.setTasks _
  rw [call, spawnThread, Prog.run_bind_ok (unlocked.updateCurrent entry),
    Prog.run_bind_ok (lockWrite_run kept.queue),
    Prog.run_bind_ok (TaskQueue.currentTask_run (s := s.afterCall.save.setWriter true) called),
    Prog.run_bind_ok (setFrame_run _ _)] at ran
  obtain ⟨threadId, later, allocated, rest⟩ := Prog.run_bind_eq_ok ran
  obtain ⟨arenas, answer, rfl⟩ := allocFrom_eq_ok allocated
  rw [Prog.run_bind_ok (unlockWrite_run _)] at rest
  have unheld : ∀ q : TaskQueue,
      (⟨q, s.afterCall.currentUserTask.readers, false⟩ : RwLock TaskQueue) = .free q := fun q =>
    congrArg (fun lock => RwLock.mk q lock.readers false) unlocked.queue
  obtain ⟨room, same⟩ := newTask_eq_ok rest ⟨unheld _, unlocked.list⟩
  have spawned : s.afterCall.contexts.modify s.cur (·.withFrame (s.afterCall.frame.setA0 0)) =
      s.contexts.modify s.cur TaskData.spawned := by
    rw [contexts_afterCall, List.modify_modify_eq]
    refine modify_congr position ?_
    simp [TaskData.spawned, TaskData.pastCall, TaskData.withFrame, afterCall, frame]
  have final : s'.contexts = s.contexts.modify s.cur TaskData.spawned ++
      [current.child threadId] := by
    rw [← spawned, ← modify_append _ _ called, same]
    rfl
  have here : (s.contexts.modify s.cur TaskData.spawned)[s.cur]? = some current.spawned := by
    rw [List.getElem?_modify_eq, position]
    rfl
  have length : s'.contexts.length ≤ queueLimit := by
    have fits : s.afterCall.contexts.length < queueLimit := room
    rw [length_contexts] at fits
    rw [final, List.length_append, List.length_modify, length_contexts]
    exact fits
  refine ⟨current, threadId, position, ?_,
    ⟨?_, length, ⟨current.spawned, ?_, runs, ?_⟩, ?_⟩, ?_, final⟩
  · rw [same]
    exact answer
  · rw [same]
    exact ⟨unheld _, unlocked.list⟩
  · rw [final, same]
    exact List.getElem?_append_left (List.getElem?_eq_some_iff.mp here).1 ▸ here
  · rw [same]
    exact table
  · rw [final, same]
    intro id member
    obtain ⟨waiting, found, rest⟩ :=
      @ready.waiting_modify _ _ TaskData.spawned id (ready.awaited id member)
    exact ⟨waiting, List.mem_append_left _ found, rest⟩
  · rw [same]
    rfl

/-- The queue is read under the read lock, which is given back. -/
theorem Unlocked.peek (unlocked : s.Unlocked) {α : Type} (rest : TaskQueue → Kernel (Machine V) α) :
    (do lockRead
        let self ← taskQueue
        unlockRead
        rest self).run s = (rest s.tasks).run s := by
  have unheld : s.currentUserTask.writer = false := by rw [unlocked.queue]; rfl
  have locked : (lockRead : Kernel (Machine V) Unit).run s = (.ok (), { s with
      currentUserTask :=
        { s.currentUserTask with readers := s.currentUserTask.readers + 1 } }) := by
    simp [lockRead, Prog.run_bind, unheld]
  rw [Prog.run_bind_ok locked]
  rfl

/-- `drop_task`, when the scan before it came to an index: the entry goes, and the index goes
down. -/
theorem dropTask_run (free : s.currentUserTask = .free s.tasks) {index : UInt64} {q : TaskQueue}
    (moved : (Prog.only (s.tasks.curTaskIdx = index) TaskQueue.advance).run (s.setWriter true) =
      (.ok (), (s.setWriter true).setTasks q))
    (bound : index.toNat < q.queue.length) : (Lsd.dropTask index).run s =
      (.ok (), s.setTasks ⟨swapRemove q.queue index.toNat, q.curTaskIdx - 1⟩) := by
  have unheld : s.currentUserTask.writer = false := by rw [free]; rfl
  have removed : (TaskQueue.removeTask index.toNat).run ((s.setWriter true).setTasks q) = (.ok (),
      (s.setWriter true).setTasks { q with queue := swapRemove q.queue index.toNat }) := by
    rw [TaskQueue.removeTask, Prog.run_bind_ok (taskQueue_run _), tasks_setTasks, if_pos bound]
    rfl
  rw [Lsd.dropTask, Prog.run_bind_ok (lockWrite_run free), Prog.run_bind_ok (taskQueue_run _),
    tasks_setWriter, Prog.run_bind_ok moved, Prog.run_bind_ok removed,
    Prog.run_bind_ok (setTaskQueue_run _ _), unlockWrite_run]
  simp only [Machine.setTasks, setWriter, ← unheld]
  rfl

/-- `drop_task` of an entry that is not current makes no scan. -/
theorem Unlocked.dropTask (unlocked : s.Unlocked) (index : UInt64)
    (other : s.tasks.curTaskIdx ≠ index) (bound : index.toNat < s.tasks.queue.length) :
    (Lsd.dropTask index).run s = (.ok (), s.setTasks
      ⟨swapRemove s.tasks.queue index.toNat, s.tasks.curTaskIdx - 1⟩) :=
  dropTask_run unlocked.queue (Prog.run_only_neg other _ _) bound

/-- The drop call switches, and then removes the entry of the thread that made it and takes one
off the index. -/
theorem Ready.drop (ready : s.Ready) (other : s.OtherRuns) (root : s.frame.registers.a0 = 1)
    (sub : s.frame.registers.a1 = 3) :
    ∃ s₁, s.Switched TaskData.pastCall s₁ ∧ s₁.cur ≠ s.cur ∧
      (trapHandler platform devices 8 stval).run s = (.ok (), s₁.setTasks
        ⟨swapRemove s₁.contexts s.cur, s₁.tasks.curTaskIdx - 1⟩) := by
  obtain ⟨k, elsewhere, runs⟩ := other
  have unlocked : s.afterCall.Unlocked := ⟨ready.unlocked.queue, ready.unlocked.list⟩
  have still : Runnable s.afterCall.contexts k := by
    rw [contexts_afterCall]
    exact runs.modify_ne elsewhere
  obtain ⟨s₁, ran, switched⟩ := ready.switched unlocked rfl s.contexts_afterCall ⟨k, still⟩
    fun id member => by
      rw [contexts_afterCall]
      exact ready.waiting_modify (ready.awaited id member)
  have length : s₁.contexts.length = s.contexts.length := by
    rw [switched.contexts, List.length_modify]
  have bound : s.cur < s₁.contexts.length := length ▸ ready.bound
  have moved : s₁.cur ≠ s.cur := by
    rw [contexts_afterCall, ← switched.contexts] at still
    exact switched.next.ne_start bound still.lt elsewhere still
  refine ⟨s₁, switched, moved, ?_⟩
  have call : (trapHandler platform devices 8 stval).run s = dropCurrent.run s.afterCall := by
    rw [trapHandler_call]
    simp [syscallCore, kernelTask, Prog.run_bind, afterCall, root, sub]
  have peek := unlocked.peek fun self => do
    advanceTask
    Lsd.dropTask self.curTaskIdx
  have dropped := switched.ready.unlocked.dropTask s.afterCall.tasks.curTaskIdx
    (fun same => moved (congrArg UInt64.toNat same)) (by rw [switched.saved]; exact bound)
  rw [call, dropCurrent, peek, Prog.run_bind_ok ran, dropped, switched.saved]
  rfl

end Machine

/-- The last element takes the place of the removed one, and the others keep theirs. -/
theorem swapRemove_getElem? {α : Type} {elements : List α} (bound : i < elements.length) (k : Nat) :
    (swapRemove elements i)[k]? =
      if k + 1 < elements.length then
        if k = i then elements[elements.length - 1]? else elements[k]?
      else none := by
  have last : elements.getLast? = elements[elements.length - 1]? := List.getLast?_eq_getElem?
  have some : elements[elements.length - 1]? = some elements[elements.length - 1] :=
    List.getElem?_eq_getElem _
  rw [swapRemove, last, some]
  simp only [List.getElem?_dropLast, List.length_set, List.getElem?_set]
  by_cases inside : k + 1 < elements.length
  · by_cases here : k = i
    · subst here
      rw [if_pos inside, if_pos (by omega), if_pos rfl, if_pos rfl, if_pos bound]
    · rw [if_pos inside, if_pos (by omega), if_neg here, if_neg (Ne.symm here)]
  · rw [if_neg inside, if_neg (by omega)]

/-- Removing the element before the last leaves the others in order. -/
theorem swapRemove_before_last {α : Type} {elements : List α} (position : i + 2 = elements.length) :
    swapRemove elements i = elements.eraseIdx i := by
  apply List.ext_getElem?
  intro k
  rw [swapRemove_getElem? (by omega), List.getElem?_eraseIdx]
  rcases Nat.lt_trichotomy k i with before | rfl | behind
  · rw [if_pos (by omega), if_neg (by omega), if_pos before]
  · rw [if_pos (by omega), if_pos rfl, if_neg (by omega), ← position]
    rfl
  · rw [if_neg (by omega), if_neg (by omega), List.getElem?_eq_none (by omega)]

/-- What is left when an element is removed is the others. -/
theorem swapRemove_perm {α : Type} {elements : List α} (bound : i < elements.length) :
    (swapRemove elements i).Perm (elements.eraseIdx i) := by
  let final := elements[elements.length - 1]
  have last : elements.getLast? = some final := by
    rw [List.getLast?_eq_getElem?, List.getElem?_eq_getElem]
  have placed : final ∈ (elements.set i final).getLast? := by
    rw [List.getLast?_eq_getElem?, List.length_set, List.getElem?_set, if_pos bound]
    by_cases here : i = elements.length - 1
    · exact if_pos here
    · rw [if_neg here]
      exact List.getElem?_eq_getElem _
  have parts : swapRemove elements i ++ [final] = elements.set i final := by
    rw [swapRemove, last]
    exact List.dropLast_append_getLast? final placed
  have whole := List.set_perm_cons_eraseIdx bound final
  rw [← parts] at whole
  exact (List.perm_cons _).mp ((List.perm_append_singleton _ _).symm.trans whole)

end Lsd
