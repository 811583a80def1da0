import Lsd.Verif.Coherence

/-!
# Waiting for input

The list of the waiters holds numbers of tasks, and the number of a task finds
the first entry of the task. A thread that waits is woken exactly when it is that
entry, and the list is emptied either way: a waiter behind another thread of its
task is forgotten.
-/

namespace Lsd

open Program Transition

variable {V : Type} {s s' s₀ : Machine V} {platform : Platform V} {events : List Event}
  {task : TaskData} {queue : List TaskData} {input : UInt8} {i : Nat}

/-- No entry before the index is of its task. -/
def FirstOfTask (queue : List TaskData) (index : Nat) : Prop :=
  ∀ before < index, queue[before]?.map (·.taskId) ≠ queue[index]?.map (·.taskId)

/-- The entries before the index can be searched. -/
instance : Decidable (FirstOfTask queue i) :=
  inferInstanceAs (Decidable (∀ before < i, _))

/-- The queue after a round of the loop of `uart_handler`. -/
def wakeTask (input : UInt8) (queue : List TaskData) (id : UInt64) : List TaskData :=
  match queue.findIdx? fun entry => entry.taskId = id with
  | some index => queue.modify index (·.wake input)
  | none => queue

/-- The search for a task meets its first entry. -/
theorem findIdx?_taskId (entry : queue[i]? = some task) (id : UInt64) :
    queue.findIdx? (fun other => other.taskId = id) = some i ↔
      task.taskId = id ∧ FirstOfTask queue i := by
  obtain ⟨bound, rfl⟩ := List.getElem?_eq_some_iff.mp entry
  rw [List.findIdx?_eq_some_iff_getElem]
  constructor
  · rintro ⟨_, same, before⟩
    have here : queue[i].taskId = id := of_decide_eq_true same
    refine ⟨here, fun j less equal => ?_⟩
    rw [entry, List.getElem?_eq_getElem (less.trans bound)] at equal
    exact before j less (decide_eq_true ((Option.some.inj equal).trans here))
  · rintro ⟨same, first⟩
    refine ⟨bound, decide_eq_true same, fun j less found => ?_⟩
    apply first j less
    rw [entry, List.getElem?_eq_getElem (less.trans bound)]
    exact congrArg some ((of_decide_eq_true found).trans same.symm)

/-- A round wakes the first entry of the task and leaves the others alone. -/
theorem wakeTask_entry (entry : queue[i]? = some task) (id : UInt64) :
    (wakeTask input queue id)[i]? =
      some (if task.taskId = id ∧ FirstOfTask queue i then task.wake input else task) := by
  have search := findIdx?_taskId entry id
  unfold wakeTask
  cases found : queue.findIdx? (fun other => other.taskId = id) with
  | none =>
    rw [found] at search
    rw [if_neg fun both => nomatch search.mpr both]
    exact entry
  | some index =>
    rw [found, Option.some_inj] at search
    change (queue.modify index _)[i]? = _
    by_cases here : index = i
    · rw [if_pos (search.mp here), here, List.getElem?_modify_eq, entry]
      rfl
    · rw [if_neg fun both => here (search.mpr both), List.getElem?_modify_ne _ _ here, entry]

/-- A round keeps the tasks of the entries. -/
theorem wakeTask_taskId (input : UInt8) (queue : List TaskData) (id : UInt64) (index : Nat) :
    (wakeTask input queue id)[index]?.map (·.taskId) = queue[index]?.map (·.taskId) := by
  cases entry : queue[index]? with
  | some task =>
    rw [wakeTask_entry entry]
    split
    · exact congrArg some (TaskData.wake_taskId input task)
    · rfl
  | none =>
    have bound := List.getElem?_eq_none_iff.mp entry
    rw [List.getElem?_eq_none]
    unfold wakeTask
    split
    · rwa [List.length_modify]
    · exact bound

/-- A round keeps the first entries first. -/
theorem firstOfTask_wakeTask (input : UInt8) (queue : List TaskData) (id : UInt64) (index : Nat) :
    FirstOfTask (wakeTask input queue id) index ↔ FirstOfTask queue index := by
  unfold FirstOfTask
  simp only [wakeTask_taskId]

/-- The loop wakes the first entries of the listed tasks, and no other. -/
theorem foldl_wakeTask_entry (ids : List UInt64) (entry : queue[i]? = some task) :
    (ids.foldl (wakeTask input) queue)[i]? =
      some (if task.taskId ∈ ids ∧ FirstOfTask queue i then task.wake input else task) := by
  induction ids generalizing queue task with
  | nil => simpa using entry
  | cons id ids ih =>
    rw [List.foldl_cons, ih (wakeTask_entry entry id)]
    simp only [firstOfTask_wakeTask]
    by_cases first : FirstOfTask queue i
    · by_cases here : task.taskId = id
      · simp [first, here, TaskData.wake_wake, TaskData.wake_taskId]
      · simp [first, here]
    · simp [first]

/-- The loop keeps the tasks of the entries. -/
theorem foldl_wakeTask_taskId (ids : List UInt64) (queue : List TaskData) (index : Nat) :
    (ids.foldl (wakeTask input) queue)[index]?.map (·.taskId) = queue[index]?.map (·.taskId) := by
  induction ids generalizing queue with
  | nil => rfl
  | cons id ids ih => rw [List.foldl_cons, ih, wakeTask_taskId]

/-- The search for a task that has an entry ends at one, which is woken. -/
theorem TaskQueue.findTaskMut_wake (input : UInt8) {id : UInt64} (missing : Stop)
    (found : ∃ task ∈ s.tasks.queue, task.taskId = id) :
    (findTaskMut id (·.wake input) missing).run s =
      (.ok (), s.setTasks { s.tasks with queue := wakeTask input s.tasks.queue id }) := by
  obtain ⟨task, member, same⟩ := found
  obtain ⟨index, first⟩ : ∃ index,
      s.tasks.queue.findIdx? (fun entry => entry.taskId = id) = some index :=
    Option.isSome_iff_exists.mp (List.findIdx?_isSome.trans
      (List.any_eq_true.mpr ⟨task, member, decide_eq_true same⟩))
  rw [findTaskMut, Prog.run_bind_ok (taskQueue_run s), wakeTask, first]
  rfl

/-- Waking keeps an entry of each task. -/
theorem wakeTask_exists (input : UInt8) (id : UInt64) {other : UInt64}
    (found : ∃ task ∈ queue, task.taskId = other) :
    ∃ task ∈ wakeTask input queue id, task.taskId = other := by
  obtain ⟨task, member, same⟩ := found
  obtain ⟨k, entry⟩ := List.mem_iff_getElem?.mp member
  refine ⟨_, List.mem_iff_getElem?.mpr ⟨k, wakeTask_entry entry id⟩, ?_⟩
  rw [← same]
  split
  · exact TaskData.wake_taskId input task
  · rfl

/-- The whole loop of `uart_handler`. -/
theorem uartLoop_foldl (input : UInt8) (ids : List UInt64)
    (free : s.currentUserTask = .free s.tasks)
    (found : ∀ id ∈ ids, ∃ task ∈ s.tasks.queue, task.taskId = id) :
    (ids.forM fun entryId => do
        lockWrite
        TaskQueue.findTaskMut entryId (·.wake input)
          (.panic "called `Option::unwrap()` on a `None` value")
        unlockWrite).run s =
      (.ok (), s.setTasks { s.tasks with queue := ids.foldl (wakeTask input) s.tasks.queue }) := by
  induction ids generalizing s with
  | nil => rfl
  | cons id ids ih =>
    have unheld : s.currentUserTask.writer = false := by rw [free]; rfl
    let next := s.setTasks { s.tasks with queue := wakeTask input s.tasks.queue id }
    have changed := TaskQueue.findTaskMut_wake (s := s.setWriter true) input
      (.panic "called `Option::unwrap()` on a `None` value") (found id List.mem_cons_self)
    have round : (do
        lockWrite
        TaskQueue.findTaskMut id (·.wake input)
          (.panic "called `Option::unwrap()` on a `None` value")
        unlockWrite).run s = (.ok (), next) := by
      rw [Prog.run_bind_ok (lockWrite_run free), Prog.run_bind_ok changed, unlockWrite_run]
      simp only [next, Machine.setTasks, Machine.setWriter, ← unheld]
      rfl
    have later := ih (s := next) (by simp only [next, Machine.setTasks, free]; rfl)
      fun other member => wakeTask_exists input id (found other (List.mem_cons_of_mem id member))
    exact (Prog.run_bind_ok round).trans later

namespace Machine

/-- Every thread that waits on input has its task on the list. -/
def Represented (s : Machine V) : Prop :=
  ∀ task ∈ s.tasks.queue, task.waitingOn = .charIn → task.taskId ∈ s.inputAwaitList.value

/-- Every thread that waits on input is the first entry of its task. -/
def WaitersFirst (s : Machine V) : Prop :=
  ∀ (index : Nat) (task : TaskData), s.tasks.queue[index]? = some task →
    task.waitingOn = .charIn → FirstOfTask s.tasks.queue index

/-- What the serial interrupt owes the threads. -/
structure Served (input : UInt8) (before after : Machine V) : Prop where
  /-- A thread that waited on input can run, and has the byte in `a0`. -/
  woken : ∀ (index : Nat) (task : TaskData), before.tasks.queue[index]? = some task →
    task.waitingOn = .charIn → ∃ woken, after.tasks.queue[index]? = some woken ∧
      woken.waitingOn = .none ∧ woken.trapFrame = task.trapFrame.setA0 input.toUInt64
  /-- Every other thread is as it was. -/
  others : ∀ (index : Nat) (task : TaskData), before.tasks.queue[index]? = some task →
    task.waitingOn ≠ .charIn → after.tasks.queue[index]? = some task
  /-- Whoever still waits is still on the list. -/
  remembered : after.Represented

/-- The machine after a serial interrupt. -/
def served (s : Machine V) (input : UInt8) : Machine V :=
  { s.setTasks { s.tasks with
      queue := s.inputAwaitList.value.foldl (wakeTask input) s.tasks.queue } with
    inputAwaitList := .free [] }

/-- The serial interrupt runs its loop and empties the list. -/
theorem Ready.uart_served (platform : Platform V) (stval : UInt64) (ready : s.Ready) {id : Nat}
    (bound : id < 64) (input : UInt8) :
    (trapHandler platform (.serial id input) 0x8000000000000009 stval).run s =
      (.ok (), s.served input) := by
  let held : Machine V := { s with inputAwaitList := { s.inputAwaitList with locked := true } }
  have unheld : s.inputAwaitList.locked = false := by rw [ready.unlocked.list]; rfl
  have dispatch : (trapHandler platform (.serial id input) 0x8000000000000009 stval).run s =
      (uartHandler input).run s := by
    change (handleExternal (.serial id input)).run s = _
    simp [handleExternal, Devices.serial, checkIndex, bound]
    rfl
  have locked : (lockAwaitList : Kernel (Machine V) Unit).run s = (.ok (), held) := by
    simp [lockAwaitList, Prog.run_bind, unheld, held]
  have looped := uartLoop_foldl (s := held) input s.inputAwaitList.value ready.unlocked.queue
    fun id member => entry_of_context
      ((ready.awaited id member).imp fun _ found => ⟨found.1, found.2.1⟩)
  rw [dispatch, uartHandler, Prog.run_bind_ok locked, Prog.run_bind_ok (Prog.run_read _ _),
    Prog.run_bind_ok looped]
  rfl

/-- An entry after a serial interrupt. -/
theorem served_entry (input : UInt8) (entry : s.tasks.queue[i]? = some task) :
    (s.served input).tasks.queue[i]? =
      some (if task.taskId ∈ s.inputAwaitList.value ∧ FirstOfTask s.tasks.queue i
        then task.wake input else task) := foldl_wakeTask_entry _ entry

/-- When everybody who waits is on the list, the interrupt serves them all if and only if each is
the first entry of its task. -/
theorem Represented.served_iff (represented : s.Represented) (input : UInt8) :
    s.Served input (s.served input) ↔ s.WaitersFirst := by
  constructor
  · intro served index task entry waits
    by_contra behind
    obtain ⟨woken, found, runs, -⟩ := served.woken index task entry waits
    rw [served_entry input entry, if_neg fun both => behind both.2] at found
    rw [← Option.some.inj found, waits] at runs
    exact absurd runs (by decide)
  · intro first
    have woken : ∀ (index : Nat) (task : TaskData), s.tasks.queue[index]? = some task →
        task.waitingOn = .charIn →
        (s.served input).tasks.queue[index]? = some (task.wake input) := by
      intro index task entry waits
      rw [served_entry input entry, if_pos]
      exact ⟨represented task (List.mem_of_getElem? entry) waits, first index task entry waits⟩
    have others : ∀ (index : Nat) (task : TaskData), s.tasks.queue[index]? = some task →
        task.waitingOn ≠ .charIn → (s.served input).tasks.queue[index]? = some task := by
      intro index task entry awake
      rw [served_entry input entry, TaskData.wake_of_ne awake, ite_self]
    constructor
    · intro index task entry waits
      refine ⟨_, woken index task entry waits, ?_⟩
      simp [TaskData.wake, waits]
    · exact others
    · -- nobody waits any more
      intro later member waits
      obtain ⟨index, entry⟩ := List.mem_iff_getElem?.mp member
      have same : (s.served input).tasks.queue[index]?.map (·.taskId) =
          s.tasks.queue[index]?.map (·.taskId) :=
        foldl_wakeTask_taskId s.inputAwaitList.value s.tasks.queue index
      rw [entry, Option.map_some] at same
      obtain ⟨earlier, before, -⟩ := Option.map_eq_some_iff.mp same.symm
      by_cases waited : earlier.waitingOn = .charIn
      · rw [woken index earlier before waited] at entry
        rw [← Option.some.inj entry] at waits
        simp [TaskData.wake, waited] at waits
      · rw [others index earlier before waited] at entry
        rw [← Option.some.inj entry] at waits
        exact absurd waits waited

/-- Who waits on what, by task, and the list of the waiters. -/
def waits (s : Machine V) : List (UInt64 × WaitSrc) × List UInt64 :=
  (s.tasks.queue.map fun task => (task.taskId, task.waitingOn), s.inputAwaitList.value)

/-- Whether the waiters are on the list is a matter of who waits. -/
theorem Represented.of_waits (represented : s.Represented) (same : s'.waits = s.waits) :
    s'.Represented := by
  obtain ⟨entries, list⟩ := Prod.mk.inj same
  intro task member waiting
  have pair : (task.taskId, task.waitingOn) ∈
      s'.tasks.queue.map fun task => (task.taskId, task.waitingOn) :=
    List.mem_map.mpr ⟨task, member, rfl⟩
  rw [entries] at pair
  obtain ⟨other, found, equal⟩ := List.mem_map.mp pair
  obtain ⟨id, source⟩ := Prod.mk.inj equal
  rw [list, ← id]
  exact represented other found (source.trans waiting)

/-- A change of the registers of an entry is no change of what it waits on. -/
theorem waits_modify (change : TaskData → TaskData) (index : Nat)
    (keeps : ∀ task, (change task).taskId = task.taskId ∧
      (change task).waitingOn = task.waitingOn) :
    (s.setTasks { s.tasks with queue := s.tasks.queue.modify index change }).waits = s.waits := by
  unfold waits
  congr 1
  apply List.ext_getElem?
  intro k
  simp only [tasks_setTasks, List.getElem?_map, List.getElem?_modify]
  cases s.tasks.queue[k]? with
  | none => split <;> rfl
  | some task =>
    split
    · exact congrArg some (Prod.ext (keeps task).1 (keeps task).2)
    · rfl

end Machine

open Machine

/-- Saving the registers changes nobody's waiting. -/
theorem keeps_save (frame : TrapFrame) :
    Prog.Keeps waits (TaskQueue.currentTaskMut (·.withFrame frame) : Kernel (Machine V) Unit) :=
  currentTaskMut_keeps fun s => waits_modify _ s.cur fun _ => ⟨rfl, rfl⟩

/-- `advance_task` changes nobody's waiting, wherever it ends. -/
theorem keeps_advanceTask : Prog.Keeps waits (advanceTask : Kernel (Machine V) Unit) := by
  apply advanceTask_keeps
  · exact fun _ _ => rfl
  · exact fun s frame => waits_modify _ s.cur fun _ => ⟨rfl, rfl⟩
  · exact fun _ _ => rfl
  · exact fun _ _ => rfl
  · exact fun _ _ => rfl
  · exact fun _ _ => rfl

/-- `advance` returns only when some entry can run. -/
theorem advanceLoop_returned {start : UInt64} {steps : Nat} {sieSet : Bool}
    (ran : (TaskQueue.advanceLoop start steps sieSet).run s = (.ok (), s')) :
    ∃ k, Runnable s.tasks.queue k := by
  induction steps generalizing s sieSet with
  | zero => nomatch ran
  | succ steps ih =>
    rw [TaskQueue.advanceLoop, Prog.run_bind_ok (setTaskQueue_run _ _),
      Prog.run_bind_ok (setTaskQueue_run _ _)] at ran
    -- the two writes move the index only
    generalize moved : (s.setTasks _).setTasks _ = s₁ at ran
    have queue : s₁.tasks.queue = s.tasks.queue := by
      rw [← moved, Machine.tasks_setTasks]
      split <;> rfl
    obtain ⟨task, later, read, rest⟩ := Prog.run_bind_eq_ok ran
    obtain ⟨entry, rfl⟩ := currentTask_eq_ok read
    rw [← queue]
    by_cases free : task.waitingOn = .none
    · exact ⟨_, task, entry, free⟩
    · rw [Prog.run_ite, if_neg free, Prog.run_bind_ok (taskQueue_run _), Prog.run_ite] at rest
      split at rest
      · obtain ⟨_, later, status, rest⟩ := Prog.run_bind_eq_ok rest
        obtain ⟨-, rfl⟩ := Prod.mk.inj status
        have again := ih rest
        exact again
      · exact ih rest

/-- `advance_task` returns only when some thread can run. -/
theorem advanceTask_returned (unlocked : s.Unlocked) (bound : s.cur < s.contexts.length)
    (ran : advanceTask.run s = (.ok (), s')) : ∃ k, Runnable s.contexts k := by
  rw [s.length_contexts] at bound
  have stored := TaskQueue.currentTaskMut_run (s.setWriter true)
    (·.withFrame (s.setWriter true).frame) (List.getElem?_eq_getElem bound)
  rw [advanceTask, Prog.run_bind_ok (lockWrite_run unlocked.queue),
    Prog.run_bind_ok (Prog.run_read _ _), Prog.run_bind_ok stored] at ran
  obtain ⟨_, later, advanced, -⟩ := Prog.run_bind_eq_ok ran
  rw [TaskQueue.advance, Prog.run_bind_ok (taskQueue_run _)] at advanced
  exact advanceLoop_returned advanced

namespace Machine

/-- When the running thread stops and some thread can run, it is another one. -/
theorem otherRuns_of_modify {own : TaskData → TaskData}
    (stops : ∀ task, (own task).waitingOn ≠ .none)
    (runs : ∃ k, Runnable (s.contexts.modify s.cur own) k) : s.OtherRuns := by
  obtain ⟨k, task, entry, free⟩ := runs
  by_cases here : s.cur = k
  · rw [here, List.getElem?_modify_eq] at entry
    obtain ⟨saved, -, rfl⟩ := Option.map_eq_some_iff.mp entry
    exact absurd free (stops saved)
  · rw [List.getElem?_modify_ne _ _ here] at entry
    exact ⟨k, fun same => here same.symm, task, entry, free⟩

/-- What the kernel makes of an event, whether it returns from it or stops. -/
def Handles (platform : Platform V) (before : Machine V) (event : Event)
    (outcome : Except Stop Unit) (after : Machine V) : Prop :=
  match event with
  | .user frame => outcome = .ok () ∧ before.Next platform (.user frame) after
  | event => event.Issued before.frame ∧ ∃ devices stval, event.Finds devices ∧
      (trapHandler platform devices event.cause stval).run before = (outcome, after)

/-- The breakpoint marks the running thread, which takes `advance_task` further. -/
theorem Ready.breakpoint_call (platform : Platform V) (devices : Devices V) (stval : UInt64)
    (ready : s.Ready) : (trapHandler platform devices 3 stval).run s =
      advanceTask.run (s.waitFor .breakpoint) := by
  obtain ⟨saved, entry⟩ := ready.entry
  exact ready.unlocked.mark .breakpoint entry advanceTask

/-- The take-input call puts the task on the list and marks the running thread, which takes
`advance_task` further. -/
theorem Ready.takeInput_call (platform : Platform V) (devices : Devices V) (stval : UInt64)
    (ready : s.Ready) (root : s.frame.registers.a0 = 0) (sub : s.frame.registers.a1 = 2) :
    ∃ saved, s.tasks.queue[s.cur]? = some saved ∧
      (trapHandler platform devices 8 stval).run s =
        advanceTask.run ((s.afterCall.awaits saved.taskId).waitFor .charIn) := by
  obtain ⟨saved, entry⟩ := ready.entry
  have unlocked : s.afterCall.Unlocked := ⟨ready.unlocked.queue, ready.unlocked.list⟩
  have call : (syscallCore platform).run s.afterCall = Lsd.takeInput.run s.afterCall := by
    simp [syscallCore, kernelIo, Prog.run_bind, afterCall, root, sub]
  refine ⟨saved, entry, ?_⟩
  rw [trapHandler_call, call, unlocked.takeInput entry]

/-- The threads after a take-input call. -/
theorem contexts_takeInput (s : Machine V) (id : UInt64) :
    ((s.afterCall.awaits id).waitFor .charIn).contexts =
      s.contexts.modify s.cur fun task => task.pastCall.waitFor .charIn := by
  rw [contexts_waitFor, show (s.afterCall.awaits id).contexts = s.afterCall.contexts from rfl,
    contexts_afterCall]
  exact List.modify_modify_eq ..

/-- An event from which the kernel returns found another thread that can run, if it stopped the
running one. -/
theorem Ready.handles_next {event : Event} (ready : s.Ready) (kept : event ≠ .drop)
    (handled : s.Handles platform event (.ok ()) s') : s.Next platform event s' := by
  have bound := ready.bound
  cases event with
  | drop => exact absurd rfl kept
  | user frame => exact handled.2
  | timer | forfeit | uart | spawn => exact ⟨handled.1, fun stops => stops.elim, handled.2⟩
  | breakpoint =>
    obtain ⟨issued, devices, stval, finds, ran⟩ := handled
    refine ⟨issued, fun _ => ?_, devices, stval, finds, ran⟩
    let marked := s.waitFor .breakpoint
    have unlocked : marked.Unlocked := ready.unlocked.setTasks _
    have inside : marked.cur < marked.contexts.length := by
      rw [contexts_waitFor, List.length_modify]
      exact bound
    have runs := advanceTask_returned unlocked inside
      ((ready.breakpoint_call platform devices stval).symm.trans ran)
    rw [contexts_waitFor] at runs
    exact otherRuns_of_modify (fun _ => by simp [TaskData.waitFor]) runs
  | takeInput =>
    obtain ⟨issued, devices, stval, finds, ran⟩ := handled
    refine ⟨issued, fun _ => ?_, devices, stval, finds, ran⟩
    obtain ⟨saved, -, call⟩ := ready.takeInput_call platform devices stval issued.1 issued.2
    let marked := (s.afterCall.awaits saved.taskId).waitFor .charIn
    have unlocked : marked.Unlocked := ⟨ready.unlocked.setTasks _ |>.queue, rfl⟩
    have inside : marked.cur < marked.contexts.length := by
      rw [contexts_takeInput, List.length_modify]
      exact bound
    have runs := advanceTask_returned unlocked inside (call.symm.trans ran)
    rw [contexts_takeInput] at runs
    exact otherRuns_of_modify (fun _ => by simp [TaskData.waitFor]) runs

/-- The kernel is ready again when it returns. -/
theorem Ready.next {event : Event} (ready : s.Ready) (kept : event ≠ .drop)
    (next : s.Next platform event s') : s'.Ready :=
  have ⟨_, _, shows⟩ := ready.shows.next next fun dropped => absurd dropped kept
  shows.ready

end Machine

/-- A number from an arena keeps what does not depend on the arenas. -/
theorem keeps_allocFrom {τ : Type} {part : Machine V → τ}
    (ignores : ∀ (s : Machine V) arenas, part { s with arenas := arenas } = part s)
    (platform : Platform V) (arena size : UInt64) :
    Prog.Keeps part (allocFrom platform arena size) := by
  apply Prog.Keeps.bind fun s => ignores s _
  intro result
  cases result with
  | ok number => exact .pure number
  | error message => exact .stop _

/-- A refused thread changes nobody's waiting. -/
theorem keeps_newTask_stopped (task : TaskData) :
    Prog.KeepsStopped waits (newTask task : Kernel (Machine V) Unit) := by
  apply Prog.Keeps.bind_stopped (lockWrite_keeps fun _ _ => rfl)
  intro _ s reason s' ran
  rw [TaskQueue.newTask] at ran
  by_cases room : s.tasks.queue.length < queueLimit
  · have pushed : (TaskQueue.newTask task).run s = (.ok (), s.setTasks
        { s.tasks with queue := s.tasks.queue ++ [task] }) := by
      rw [TaskQueue.newTask, Prog.run_bind_ok (taskQueue_run _), if_pos room, setTaskQueue_run]
    rw [← TaskQueue.newTask, Prog.run_bind_ok pushed] at ran
    cases ran
  · have full : (TaskQueue.newTask task).run s = (.error (.panic "capacity overflow"), s) := by
      rw [TaskQueue.newTask, Prog.run_bind_ok (taskQueue_run _), if_neg room, Prog.run_stop]
    rw [← TaskQueue.newTask, Prog.run_bind_stop full] at ran
    obtain ⟨-, rfl⟩ := Prod.mk.inj ran
    rfl

/-- A spawn call that stops changes nobody's waiting. -/
theorem keeps_spawnThread_stopped (platform : Platform V) :
    Prog.KeepsStopped waits (spawnThread platform) := by
  have locked : Prog.Keeps waits (lockWrite : Kernel (Machine V) Unit) :=
    lockWrite_keeps fun _ _ => rfl
  have unlocked : Prog.Keeps waits (unlockWrite : Kernel (Machine V) Unit) := .update fun _ => rfl
  have saved : Prog.Keeps waits (updateCurrent : Kernel (Machine V) Unit) :=
    .bind locked fun _ => .bind (.read _) fun frame => .bind (keeps_save frame) fun _ => unlocked
  apply saved.bind_stopped
  intro _
  apply locked.bind_stopped
  intro _
  apply currentTask_keeps.bind_stopped
  intro curTask
  have returned : Prog.Keeps waits (setFrame (·.setA0 0) : Kernel (Machine V) Unit) :=
    .update fun _ => rfl
  apply returned.bind_stopped
  intro _
  apply (keeps_allocFrom (fun _ _ => rfl) platform _ _).bind_stopped
  intro threadId
  exact unlocked.bind_stopped fun _ => keeps_newTask_stopped _

/-- The list of the waiters. -/
def Machine.awaitList (s : Machine V) : List UInt64 := s.inputAwaitList.value

/-- The spawn call leaves the list of the waiters alone. -/
theorem keeps_awaitList_spawnThread (platform : Platform V) :
    Prog.Keeps awaitList (spawnThread platform) := by
  have locked : Prog.Keeps awaitList (lockWrite : Kernel (Machine V) Unit) :=
    lockWrite_keeps fun _ _ => rfl
  have unlocked : Prog.Keeps awaitList (unlockWrite : Kernel (Machine V) Unit) :=
    .update fun _ => rfl
  have queued : ∀ change, Prog.Keeps awaitList (setTaskQueue change : Kernel (Machine V) Unit) :=
    fun _ => .update fun _ => rfl
  have saved : Prog.Keeps awaitList (updateCurrent : Kernel (Machine V) Unit) :=
    .bind locked fun _ => .bind (.read _) fun _ =>
      .bind (.bind currentTask_keeps fun _ => queued _) fun _ => unlocked
  have added : ∀ task, Prog.Keeps awaitList (newTask task : Kernel (Machine V) Unit) := fun _ =>
    .bind locked fun _ =>
      .bind (.bind (.read _) fun _ => .ite (queued _) (.stop _)) fun _ => unlocked
  exact .bind saved fun _ => .bind locked fun _ => .bind currentTask_keeps fun _ =>
    .bind (.update fun _ => rfl) fun _ =>
      .bind (keeps_allocFrom (fun _ _ => rfl) platform _ _) fun _ =>
        .bind unlocked fun _ => added _

namespace Machine

/-- Whether the waiters are on the list can be seen on the threads. -/
theorem represented_iff : s.Represented ↔
    ∀ task ∈ s.contexts, task.waitingOn = .charIn → task.taskId ∈ s.inputAwaitList.value := by
  have same : s.save.waits = s.waits := waits_modify _ s.cur fun _ => ⟨rfl, rfl⟩
  constructor
  · intro represented
    have saved : s.save.Represented := represented.of_waits same
    exact saved
  · intro represented
    have saved : s.save.Represented := represented
    exact saved.of_waits same.symm

/-- A thread that starts to wait on something else leaves the waiters on the list. -/
theorem Represented.breakpoint (represented : s.Represented) :
    (s.waitFor .breakpoint).Represented := by
  rw [represented_iff] at represented ⊢
  intro task member waits
  rw [contexts_waitFor] at member
  obtain ⟨k, entry⟩ := List.mem_iff_getElem?.mp member
  by_cases here : s.cur = k
  · rw [here, List.getElem?_modify_eq] at entry
    obtain ⟨saved, -, rfl⟩ := Option.map_eq_some_iff.mp entry
    nomatch waits
  · rw [List.getElem?_modify_ne _ _ here] at entry
    exact represented task (List.mem_of_getElem? entry) waits

/-- A thread that starts to wait on input is on the list by then. -/
theorem Represented.takeInput (represented : s.Represented)
    (entry : s.tasks.queue[s.cur]? = some task) :
    ((s.afterCall.awaits task.taskId).waitFor .charIn).Represented := by
  rw [represented_iff] at represented ⊢
  intro waiting member waits
  change waiting.taskId ∈ s.inputAwaitList.value ++ [task.taskId]
  rw [contexts_takeInput] at member
  obtain ⟨k, position⟩ := List.mem_iff_getElem?.mp member
  by_cases here : s.cur = k
  · rw [← here, List.getElem?_modify_eq, contexts, List.getElem?_modify_eq, entry] at position
    obtain rfl := Option.some.inj position
    exact List.mem_append_right _ List.mem_cons_self
  · rw [List.getElem?_modify_ne _ _ here] at position
    exact List.mem_append_left _ (represented waiting (List.mem_of_getElem? position) waits)

/-- A spawned thread does not wait. -/
theorem Represented.spawn {devices : Devices V} {stval : UInt64} {outcome : Except Stop Unit}
    (represented : s.Represented) (ready : s.Ready) (root : s.frame.registers.a0 = 1)
    (sub : s.frame.registers.a1 = 2)
    (ran : (trapHandler platform devices 8 stval).run s = (outcome, s')) : s'.Represented := by
  have call : (trapHandler platform devices 8 stval).run s =
      (spawnThread platform).run s.afterCall := by
    rw [trapHandler_call]
    simp [syscallCore, kernelTask, Prog.run_bind, afterCall, root, sub]
  cases outcome with
  | error reason =>
    have kept : s'.waits = s.waits :=
      keeps_spawnThread_stopped platform s.afterCall reason s' (call.symm.trans ran)
    exact represented.of_waits kept
  | ok _ =>
    have kept := keeps_awaitList_spawnThread platform |>.of_run (call.symm.trans ran)
    have list : s'.inputAwaitList.value = s.inputAwaitList.value := kept
    obtain ⟨current, threadId, position, -, -, -, contexts⟩ :=
      ready.spawn platform devices stval root sub ran
    obtain ⟨running, entry, free, -⟩ := ready.current
    obtain rfl := Option.some.inj (position.symm.trans entry)
    rw [represented_iff] at represented ⊢
    intro task member waits
    rw [list]
    rw [contexts, List.mem_append, List.mem_singleton] at member
    rcases member with old | rfl
    · obtain ⟨k, found⟩ := List.mem_iff_getElem?.mp old
      by_cases here : s.cur = k
      · rw [← here, List.getElem?_modify_eq, position] at found
        obtain rfl := Option.some.inj found
        exact absurd (free.symm.trans waits) (by decide)
      · rw [List.getElem?_modify_ne _ _ here] at found
        exact represented task (List.mem_of_getElem? found) waits
    · exact absurd (free.symm.trans waits) (by decide)

/-- An event leaves everybody who waits on the list, whether the kernel returns from it or stops,
if the waiters are first when the serial port interrupts. -/
theorem Represented.handles {event : Event} {outcome : Except Stop Unit}
    (represented : s.Represented)
    (ready : s.Ready) (kept : event ≠ .drop)
    (first : ∀ id input, event = .uart id input → s.WaitersFirst)
    (handled : s.Handles platform event outcome s') : s'.Represented := by
  have switched : ∀ {s₁ : Machine V}, s₁.Represented → advanceTask.run s₁ = (outcome, s') →
      s'.Represented := fun before ran => before.of_waits (keeps_advanceTask.of_run ran)
  cases event with
  | drop => exact absurd rfl kept
  | user frame =>
    obtain ⟨-, memory, rfl⟩ := handled
    exact represented
  | timer =>
    obtain ⟨-, devices, stval, -, ran⟩ := handled
    exact switched represented ran
  | forfeit =>
    obtain ⟨issued, devices, stval, -, ran⟩ := handled
    have call : (trapHandler platform devices 8 stval).run s = advanceTask.run s.afterCall := by
      rw [trapHandler_call]
      simp [syscallCore, kernelTask, Prog.run_bind, afterCall, issued.1, issued.2]
    have later : s.afterCall.Represented := represented
    exact switched later (call.symm.trans ran)
  | breakpoint =>
    obtain ⟨-, devices, stval, -, ran⟩ := handled
    exact switched represented.breakpoint
      ((ready.breakpoint_call platform devices stval).symm.trans ran)
  | takeInput =>
    obtain ⟨issued, devices, stval, -, ran⟩ := handled
    obtain ⟨saved, entry, call⟩ := ready.takeInput_call platform devices stval issued.1 issued.2
    exact switched (represented.takeInput entry) (call.symm.trans ran)
  | uart id input =>
    obtain ⟨-, devices, stval, ⟨bound, rfl⟩, ran⟩ := handled
    have served := ready.uart_served platform stval bound input
    obtain ⟨-, rfl⟩ := Prod.mk.inj (ran.symm.trans served)
    exact ((represented.served_iff input).mpr (first id input rfl)).remembered
  | spawn =>
    obtain ⟨issued, devices, stval, -, ran⟩ := handled
    exact represented.spawn ready issued.1 issued.2 ran

/-- A step after which the kernel has returned, in which no thread is dropped, and in which the
waiters are first when the serial port interrupts. -/
def Attentive (platform : Platform V) (before : Machine V) (event : Event) (after : Machine V) :
    Prop :=
  event ≠ .drop ∧ (∀ id input, event = .uart id input → before.WaitersFirst) ∧
    before.Handles platform event (.ok ()) after

end Machine

/-- Over every run in which each waiter is the first entry of its task whenever the serial port
interrupts, everybody who waits on input is on the list, also where the kernel does not return; and
in every state such a run reaches the serial interrupt returns, and it serves exactly the waiters if
and only if each is the first entry of its task. -/
theorem input_wakeups (ready : s₀.Ready) (represented : s₀.Represented)
    (run : Run (Machine.Attentive platform) s₀ events s) :
    s.Represented ∧
      (∀ id < 64, ∀ input stval, ∃ after,
        (trapHandler platform (.serial id input) 0x8000000000000009 stval).run s = (.ok (), after) ∧
          (s.Served input after ↔ s.WaitersFirst)) ∧
      ∀ event reason after, event ≠ .drop → s.Handles platform event (.error reason) after →
        after.Represented := by
  have reached : s.Ready ∧ s.Represented := by
    induction run with
    | nil => exact ⟨ready, represented⟩
    | snoc _ step ih =>
      obtain ⟨ready', represented'⟩ := ih
      obtain ⟨kept, first, handled⟩ := step
      exact ⟨ready'.next kept (ready'.handles_next kept handled),
        represented'.handles ready' kept first handled⟩
  obtain ⟨ready, represented⟩ := reached
  refine ⟨represented, fun id bound input stval => ?_, fun event reason after kept handled => ?_⟩
  · exact ⟨_, ready.uart_served platform stval bound input, represented.served_iff input⟩
  · refine represented.handles ready kept (fun id input same => ?_) handled
    -- the serial interrupt returns
    subst same
    obtain ⟨-, devices, stval, ⟨bound, rfl⟩, ran⟩ := handled
    have served := ready.uart_served platform stval bound input
    nomatch (Prod.mk.inj (ran.symm.trans served)).1

/-- Two threads of one task, of which one makes a system call. -/
def sampleThreads (cur root sub : UInt64) : Machine UInt64 :=
  { sampleMachine cur root sub with
    currentUserTask := .free ⟨[sampleTask 0, { sampleTask 0 with threadId := 1 }], cur⟩
    satp := 0 }

/-- A machine after the serial port interrupted with a byte. -/
def afterInput (input : UInt8) (s : Machine UInt64) : Machine UInt64 :=
  ((trapHandler samplePlatform (.serial 10 input) 0x8000000000000009 0).run s).2

/-- Of two tasks the first takes input: it is on the list, and it is woken. -/
theorem input_wakeups_first :
    let after := afterSyscall (sampleMachine 0 0 2)
    after.Represented ∧
      (∀ id < 64, ∀ input stval, ∃ later,
        (trapHandler samplePlatform (.serial id input) 0x8000000000000009 stval).run after =
          (.ok (), later) ∧ (after.Served input later ↔ after.WaitersFirst)) ∧
      ∀ event reason later, event ≠ .drop →
        after.Handles samplePlatform event (.error reason) later → later.Represented := by
  intro after
  have represented : (sampleMachine 0 0 2).Represented := by
    intro task member waits
    simp [Machine.tasks, sampleMachine, RwLock.free] at member
    obtain rfl | rfl := member <;> cases waits
  have run : Run (Machine.Attentive samplePlatform) (sampleMachine 0 0 2)
      ([] ++ [.takeInput]) after :=
    .snoc (.nil _) ⟨by decide, by simp, ⟨rfl, rfl⟩, noDevices, 0, trivial, rfl⟩
  exact input_wakeups (sampleMachine_ready (.inl rfl)) represented run

/-- Of two threads of a task the second takes input, and the serial port interrupts: the list is
emptied, and the thread waits on. -/
theorem takeInput_second_forgotten :
    let before := sampleThreads 1 0 2
    let waiting := afterSyscall before
    let after := afterInput 65 waiting
    before.Ready ∧ before.Represented ∧ before.Next samplePlatform .takeInput waiting ∧
      waiting.Next samplePlatform (.uart 10 65) after ∧ ¬ waiting.Served 65 after ∧
      ¬ after.Represented := by
  intro before waiting after
  have forgotten : ¬ after.Represented := fun represented =>
    absurd (represented { sampleTask 0 with
        threadId := 1
        waitingOn := .charIn
        trapFrame := { callFrame 0 2 with sepc := 4 } } (by decide) rfl) (by decide)
  refine ⟨⟨⟨rfl, rfl⟩, ?_, ?_, by simp [before, sampleThreads, sampleMachine, Mutex.free]⟩, ?_,
    ?_, ?_,
    fun served => forgotten served.remembered, forgotten⟩
  · rw [Machine.length_contexts]
    exact (by decide : 2 ≤ queueLimit)
  · exact ⟨{ sampleTask 0 with threadId := 1, trapFrame := callFrame 0 2 }, rfl, rfl, rfl⟩
  · intro task member waits
    simp [before, Machine.tasks, sampleThreads, RwLock.free] at member
    obtain rfl | rfl := member <;> cases waits
  · exact ⟨⟨rfl, rfl⟩, fun _ => ⟨0, by decide, sampleTask 0, rfl, rfl⟩, noDevices, 0, trivial, rfl⟩
  · exact ⟨trivial, fun stops => stops.elim, .serial 10 65, 0, ⟨by decide, rfl⟩, rfl⟩

end Lsd
