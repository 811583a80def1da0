import Lsd.Traps.Hart
import Lsd.Verif.Coherence
import Lsd.Verif.EntryBits

/-!
# Locks and interrupts

Wherever interrupts are enabled, the interrupted code holds neither lock of the
scheduler. The handler runs with interrupts disabled and gives back what it took
before it returns; only the idle loop of `advance` enables them, inside the
write lock of its caller. It is not reached while each switch finds a thread
that can run.
-/

namespace Lsd

open Program

variable {V : Type} {s later : Machine V} {q : TaskQueue} {readers : Nat} {writer locked : Bool}
  {platform : Platform V}

/-- Printing has nothing to do with the threads. -/
theorem keeps_print (text : String) :
    Prog.Keeps Machine.guarded (print text : Kernel (Machine V) Unit) :=
  .forM fun _ _ => .update fun _ => rfl

/-- Memory has nothing to do with the threads. -/
theorem keeps_onPmm {α : Type} (program : Kernel Pmm α) :
    Prog.Keeps Machine.guarded (onPmm program : Kernel (Machine V) α) := fun _ => rfl

/-- Taking a value out of a result changes nothing. -/
theorem keeps_unwrap {α : Type} (result : Except String α) {debug : String → String} :
    Prog.Keeps Machine.guarded (unwrap result debug : Kernel (Machine V) α) := by
  cases result with
  | ok value => exact .pure value
  | error message => exact .stop _

/-- The arenas have nothing to do with the threads. -/
theorem keeps_guarded_allocFrom (platform : Platform V) (arena size : UInt64) :
    Prog.Keeps Machine.guarded (allocFrom platform arena size) :=
  .bind (fun _ => rfl) fun result => keeps_unwrap result

/-- The print call has nothing to do with the threads. -/
theorem keeps_printString (platform : Platform V) :
    Prog.Keeps Machine.guarded (printString platform) := by
  apply Prog.Keeps.bind (.read _)
  intro frame
  apply Prog.Keeps.bind (.read _)
  intro satp
  apply Prog.Keeps.bind (keeps_onPmm _)
  intro result
  apply Prog.Keeps.bind (keeps_unwrap result)
  intro phys
  exact .forM fun _ _ => .bind (.read _) fun _ => .update fun _ => rfl

/-- An unknown call changes nothing. -/
theorem keeps_unrecognized (what : String) (call : UInt64) :
    Prog.Keeps Machine.guarded (unrecognized what call : Kernel (Machine V) Unit) :=
  .bind (.read _) fun _ => .stop _

/-- Interrupts are disabled. -/
def Quiet (s : Machine V) : Prop := s.sie = false

/-- Where the kernel stands: the queue, the guards that are out, and interrupts disabled. -/
structure Stands (readers : Nat) (writer locked : Bool) (q : TaskQueue) (s : Machine V) : Prop where
  /-- The queue and the guards of its lock. -/
  queue : s.currentUserTask = ⟨q, readers, writer⟩
  /-- The guard of the list of the waiters. -/
  list : s.inputAwaitList.locked = locked
  /-- Interrupts are disabled. -/
  quiet : Quiet s
  /-- The queue fits in memory. -/
  size : q.queue.length ≤ queueLimit

namespace Stands

/-- The kernel stands where it stood when the queue, the list and `sstatus` are the same. -/
theorem kept (stands : Stands readers writer locked q s) (same : later.guarded = s.guarded) :
    Stands readers writer locked q later := by
  obtain ⟨queue, rest⟩ := Prod.mk.inj same
  obtain ⟨list, status⟩ := Prod.mk.inj rest
  refine ⟨queue.trans stands.queue, list ▸ stands.list, ?_, stands.size⟩
  unfold Quiet Machine.sie
  rw [status]
  exact stands.quiet

/-- An access that has nothing to do with the queue, the list and `sstatus`. -/
theorem other (stands : Stands readers writer locked q s) {α : Type}
    {program : Kernel (Machine V) α}
    (keeps : Prog.Keeps Machine.guarded program) :
    Script.Safe Quiet (fun _ later => Stands readers writer locked q later) (.one program) s := by
  have same := stands.kept (keeps s)
  exact .one same.quiet fun _ _ => same

/-- A write that has nothing to do with the queue, the list and `sstatus`. -/
theorem write (stands : Stands readers writer locked q s) {change : Machine V → Machine V}
    (apart : ∀ s, (change s).guarded = s.guarded) :
    Script.Safe Quiet (fun _ later => Stands readers writer locked q later)
      (.one (Prog.update change) : Steps V Unit) s := stands.other (.update apart)

/-- The kernel stands the same with another queue. -/
theorem setTasks {q' : TaskQueue} (stands : Stands readers writer locked q s)
    (size : q'.queue.length ≤ queueLimit) : Stands readers writer locked q' (s.setTasks q') := by
  refine ⟨?_, stands.list, stands.quiet, size⟩
  simp only [Machine.setTasks, stands.queue]

/-- The queue is read. -/
theorem taskQueue (stands : Stands readers writer locked q s) :
    Script.Safe Quiet (fun found later => found = q ∧ Stands readers writer locked q later)
      (.one Lsd.taskQueue) s := by
  have value : s.tasks = q := congrArg RwLock.value stands.queue
  exact .one_ok (taskQueue_run s) stands.quiet ⟨value, stands⟩

/-- The current entry is read. -/
theorem currentTask (stands : Stands readers writer locked q s) :
    Script.Safe Quiet (fun task later => q.queue[q.curTaskIdx.toNat]? = some task ∧
      Stands readers writer locked q later) (.one TaskQueue.currentTask) s := by
  have value : s.tasks = q := congrArg RwLock.value stands.queue
  cases entry : q.queue[q.curTaskIdx.toNat]? with
  | some task =>
    have ran : TaskQueue.currentTask.run s = (.ok task, s) :=
      TaskQueue.currentTask_run (by rw [Machine.cur, value]; exact entry)
    exact .one_ok ran stands.quiet ⟨rfl, stands⟩
  | none =>
    subst value
    have ran : ∃ reason, TaskQueue.currentTask.run s = (.error reason, s) := by
      simp only [Machine.tasks] at entry
      simp [TaskQueue.currentTask, Lsd.taskQueue, Prog.run_bind, entry]
    obtain ⟨reason, stopped⟩ := ran
    exact .one_stop stopped stands.quiet

/-- The queue is changed. -/
theorem setTaskQueue (stands : Stands readers writer locked q s) {f : TaskQueue → TaskQueue}
    (size : (f q).queue.length ≤ queueLimit) :
    Script.Safe Quiet (fun _ later => Stands readers writer locked (f q) later)
      (.one (Lsd.setTaskQueue f)) s := by
  have value : s.tasks = q := congrArg RwLock.value stands.queue
  subst value
  exact .one_ok (setTaskQueue_run s f) stands.quiet (stands.setTasks size)

/-- The current entry is changed. -/
theorem currentTaskMut (stands : Stands readers writer locked q s) (change : TaskData → TaskData) :
    Script.Safe Quiet (fun _ later => q.curTaskIdx.toNat < q.queue.length ∧
      Stands readers writer locked
        { q with queue := q.queue.modify q.curTaskIdx.toNat change } later)
      (.one (TaskQueue.currentTaskMut change)) s := by
  have value : s.tasks = q := congrArg RwLock.value stands.queue
  subst value
  cases entry : s.tasks.queue[s.cur]? with
  | some task =>
    apply Script.Safe.one_ok (TaskQueue.currentTaskMut_run s change entry) stands.quiet
    exact ⟨(List.getElem?_eq_some_iff.mp entry).1,
      stands.setTasks ((List.length_modify ..).trans_le stands.size)⟩
  | none =>
    have ran : ∃ reason, TaskQueue.currentTask.run s = (.error reason, s) := by
      simp only [Machine.tasks, Machine.cur] at entry
      simp [TaskQueue.currentTask, Lsd.taskQueue, Prog.run_bind, entry]
    obtain ⟨reason, stopped⟩ := ran
    exact .one_stop (Prog.run_bind_stop stopped) stands.quiet

/-- The write lock is taken. -/
theorem lockWrite (stands : Stands 0 false locked q s) :
    Script.Safe Quiet (fun _ later => Stands 0 true locked q later) (.one Lsd.lockWrite) s := by
  apply Script.Safe.one_ok (lockWrite_run stands.queue) stands.quiet
  refine ⟨?_, stands.list, stands.quiet, stands.size⟩
  simp only [Machine.setWriter, stands.queue]

/-- The write lock is not given twice: the hart waits for itself. -/
theorem lockWrite_held (stands : Stands readers true locked q s) {after : Unit → Machine V → Prop} :
    Script.Safe Quiet after (.one Lsd.lockWrite) s := by
  have ran : (Lsd.lockWrite : Kernel (Machine V) Unit).run s = (.error .deadlock, s) := by
    simp [Lsd.lockWrite, Prog.run_bind, stands.queue]
  exact .one_stop ran stands.quiet

/-- The write lock is given back. -/
theorem unlockWrite (stands : Stands readers true locked q s) :
    Script.Safe Quiet (fun _ later => Stands readers false locked q later)
      (.one Lsd.unlockWrite) s := by
  apply Script.Safe.one_ok (unlockWrite_run s) stands.quiet
  refine ⟨?_, stands.list, stands.quiet, stands.size⟩
  simp only [Machine.setWriter, stands.queue]

/-- A read lock is taken. -/
theorem lockRead (stands : Stands readers false locked q s) :
    Script.Safe Quiet (fun _ later => Stands (readers + 1) false locked q later)
      (.one Lsd.lockRead) s := by
  have ran : (Lsd.lockRead : Kernel (Machine V) Unit).run s = (.ok (), { s with
      currentUserTask :=
        { s.currentUserTask with readers := s.currentUserTask.readers + 1 } }) := by
    simp [Lsd.lockRead, Prog.run_bind, stands.queue]
  apply Script.Safe.one_ok ran stands.quiet
  refine ⟨?_, stands.list, stands.quiet, stands.size⟩
  simp only [stands.queue]

/-- A read lock is given back. -/
theorem unlockRead (stands : Stands (readers + 1) writer locked q s) :
    Script.Safe Quiet (fun _ later => Stands readers writer locked q later)
      (.one Lsd.unlockRead) s := by
  apply Script.Safe.one_ok (Prog.run_update _ s) stands.quiet
  refine ⟨?_, stands.list, stands.quiet, stands.size⟩
  simp only [stands.queue, Nat.add_sub_cancel]

/-- The list of the waiters is locked. -/
theorem lockAwaitList (stands : Stands readers writer false q s) :
    Script.Safe Quiet (fun _ later => Stands readers writer true q later)
      (.one Lsd.lockAwaitList) s := by
  have ran : (Lsd.lockAwaitList : Kernel (Machine V) Unit).run s = (.ok (), { s with
      inputAwaitList := { s.inputAwaitList with locked := true } }) := by
    simp [Lsd.lockAwaitList, Prog.run_bind, stands.list]
  exact .one_ok ran stands.quiet ⟨stands.queue, rfl, stands.quiet, stands.size⟩

/-- The lock of the list is given back. -/
theorem unlockAwaitList (stands : Stands readers writer locked q s) :
    Script.Safe Quiet (fun _ later => Stands readers writer false q later)
      (.one Lsd.unlockAwaitList) s :=
  .one_ok rfl stands.quiet ⟨stands.queue, rfl, stands.quiet, stands.size⟩

/-- The list of the waiters is changed. -/
theorem setAwaitList (stands : Stands readers writer locked q s)
    (change : List UInt64 → List UInt64) :
    Script.Safe Quiet (fun _ later => Stands readers writer locked q later)
      (.one (Lsd.setAwaitList change)) s :=
  .one_ok rfl stands.quiet ⟨stands.queue, stands.list, stands.quiet, stands.size⟩

/-- Removing an element does not lengthen a list. -/
theorem length_swapRemove_le {α : Type} (elements : List α) (index : Nat) :
    (swapRemove elements index).length ≤ elements.length := by
  unfold swapRemove
  split
  · rw [List.length_dropLast, List.length_set]
    omega
  · exact Nat.zero_le _

/-- An entry is removed. -/
theorem removeTask (stands : Stands readers writer locked q s) (index : Nat) :
    Script.Safe Quiet (fun _ later => ∃ q', Stands readers writer locked q' later)
      (.one (TaskQueue.removeTask index)) s := by
  have value : s.tasks = q := congrArg RwLock.value stands.queue
  subst value
  by_cases bound : index < s.tasks.queue.length
  · have ran : (TaskQueue.removeTask index).run s = (.ok (), s.setTasks
        { s.tasks with queue := swapRemove s.tasks.queue index }) := by
      rw [TaskQueue.removeTask, Prog.run_bind_ok (taskQueue_run s), if_pos bound, setTaskQueue_run]
    apply Script.Safe.one_ok ran stands.quiet
    exact ⟨_, stands.setTasks ((length_swapRemove_le _ _).trans stands.size)⟩
  · have ran : ∃ reason, (TaskQueue.removeTask index).run s = (.error reason, s) :=
      ⟨_, by rw [TaskQueue.removeTask, Prog.run_bind_ok (taskQueue_run s), if_neg bound]; rfl⟩
    obtain ⟨reason, stopped⟩ := ran
    exact .one_stop stopped stands.quiet

/-- An entry is added, if there is room. -/
theorem pushTask (stands : Stands readers writer locked q s) (task : TaskData) :
    Script.Safe Quiet (fun _ later => ∃ q', Stands readers writer locked q' later)
      (.one (TaskQueue.newTask task)) s := by
  have value : s.tasks = q := congrArg RwLock.value stands.queue
  subst value
  by_cases room : s.tasks.queue.length < queueLimit
  · have ran : (TaskQueue.newTask task).run s = (.ok (), s.setTasks
        { s.tasks with queue := s.tasks.queue ++ [task] }) := by
      rw [TaskQueue.newTask, Prog.run_bind_ok (taskQueue_run s), if_pos room, setTaskQueue_run]
    apply Script.Safe.one_ok ran stands.quiet
    exact ⟨_, stands.setTasks (List.length_append.trans_le room)⟩
  · have ran : (TaskQueue.newTask task).run s = (.error (.panic "capacity overflow"), s) := by
      rw [TaskQueue.newTask, Prog.run_bind_ok (taskQueue_run s), if_neg room, Prog.run_stop]
    exact .one_stop ran stands.quiet

/-- The first entry of a task is changed, if there is one. -/
theorem findTaskMut (stands : Stands readers writer locked q s) (id : UInt64)
    (change : TaskData → TaskData) (missing : Stop) :
    Script.Safe Quiet (fun _ later => ∃ q', Stands readers writer locked q' later)
      (.one (TaskQueue.findTaskMut id change missing)) s := by
  have value : s.tasks = q := congrArg RwLock.value stands.queue
  subst value
  cases found : s.tasks.queue.findIdx? fun entry => entry.taskId = id with
  | some index =>
    have ran : (TaskQueue.findTaskMut id change missing).run s = (.ok (), s.setTasks
        { s.tasks with queue := s.tasks.queue.modify index change }) := by
      rw [TaskQueue.findTaskMut, Prog.run_bind_ok (taskQueue_run s), found, setTaskQueue_run]
    apply Script.Safe.one_ok ran stands.quiet
    exact ⟨_, stands.setTasks ((List.length_modify ..).trans_le stands.size)⟩
  | none =>
    have ran : (TaskQueue.findTaskMut id change missing).run s = (.error missing, s) := by
      rw [TaskQueue.findTaskMut, Prog.run_bind_ok (taskQueue_run s), found, Prog.run_stop]
    exact .one_stop ran stands.quiet

/-- The loop of `advance` ends at an entry that can run, before it comes back to its start. -/
theorem advanceLoop {start : UInt64} {distance : Nat} {entries : List TaskData}
    (first : start.toNat < entries.length) (round : distance ≤ entries.length)
    (met : Runnable entries ((start.toNat + distance) % entries.length)) :
    ∀ steps gone, gone < distance → ∀ (q : TaskQueue) (s : Machine V),
      Stands readers writer locked q s → q.queue = entries →
      q.curTaskIdx.toNat = (start.toNat + gone) % entries.length →
        Script.Safe Quiet (fun _ later => ∃ q', Stands readers writer locked q' later ∧
          q'.queue = entries) (Stepwise.advanceLoop start steps false) s := by
  intro steps
  induction steps with
  | zero => intro gone short q s stands same position; trivial
  | succ steps ih =>
    intro gone short q s stands same position
    subst same
    have bound : q.curTaskIdx.toNat < q.queue.length := position ▸ Nat.mod_lt _ (by omega)
    have inside : (start.toNat + (gone + 1)) % q.queue.length < q.queue.length :=
      Nat.mod_lt _ (by omega)
    have moved := TaskQueue.step_index bound stands.size
    rw [position, Nat.mod_add_mod, Nat.add_assoc] at moved
    unfold Stepwise.advanceLoop
    apply (stands.setTaskQueue (f := fun self =>
      { self with curTaskIdx := self.curTaskIdx + 1 }) stands.size).andThen
    intro _ s₁ stands
    apply (stands.setTaskQueue (f := fun self =>
      if self.curTaskIdx.toNat = self.queue.length then { self with curTaskIdx := 0 } else self)
      (by split <;> exact stands.size)).andThen
    intro _ s₂ stands
    change Stands readers writer locked (if _ = _ then _ else _) s₂ at stands
    rw [moved] at stands
    have here := TaskQueue.toNat_atIndex q inside stands.size
    apply stands.currentTask.andThen
    rintro task s₃ ⟨entry, stands⟩
    rw [here] at entry
    apply Script.Safe.ite
    · intro free
      exact ⟨_, stands, rfl⟩
    · intro waits
      apply stands.taskQueue.andThen
      rintro found s₄ ⟨rfl, stands⟩
      have short' : gone + 1 < distance := by
        by_contra last
        obtain ⟨other, entry', ready⟩ := met
        rw [show gone + 1 = distance by omega] at entry
        exact waits (Option.some.inj (entry.symm.trans entry') ▸ ready)
      have elsewhere : (q.atIndex
          ((start.toNat + (gone + 1)) % q.queue.length)).curTaskIdx ≠ start :=
        fun back => Cycle.mod_ne_start first (by omega) (by omega : gone + 1 < q.queue.length)
          (here.symm.trans (congrArg UInt64.toNat back))
      rw [if_neg elsewhere]
      exact ih (gone + 1) short' _ s₄ stands rfl here

/-- `advance` ends at an entry that can run when there is one. -/
theorem advance {k : Nat} (rounds : Nat → Nat) (stands : Stands readers writer locked q s)
    (bound : q.curTaskIdx.toNat < q.queue.length) (runs : Runnable q.queue k) :
    Script.Safe Quiet (fun _ later => ∃ q', Stands readers writer locked q' later ∧
      q'.queue = q.queue) (Stepwise.advance rounds) s := by
  obtain ⟨distance, positive, round, met⟩ := Cycle.exists_distance bound runs.lt
  unfold Stepwise.advance
  apply stands.taskQueue.andThen
  rintro found s₁ ⟨rfl, stands⟩
  exact advanceLoop bound round (met ▸ runs) _ 0 positive _ s₁ stands rfl
    (Nat.mod_eq_of_lt bound).symm

/-- `advance_task` gives back the write lock when some entry can run. -/
theorem advanceTask (rounds : Nat → Nat) (stands : Stands 0 false locked q s)
    (runs : q.curTaskIdx.toNat < q.queue.length → ∃ k, Runnable q.queue k) :
    Script.Safe Quiet (fun _ later => ∃ q', Stands 0 false locked q' later ∧
      q'.curTaskIdx.toNat < q'.queue.length ∧ ∃ k, Runnable q'.queue k)
      (Stepwise.advanceTask rounds) s := by
  unfold Stepwise.advanceTask
  apply stands.lockWrite.andThen
  intro _ s₁ stands
  apply (stands.other (.read _)).andThen
  intro frame s₂ stands
  apply (stands.currentTaskMut _).andThen
  rintro _ s₃ ⟨bound, stands⟩
  obtain ⟨k, runs⟩ := runs bound
  have still : Runnable (q.queue.modify q.curTaskIdx.toNat (·.withFrame frame)) k := by
    by_cases here : k = q.curTaskIdx.toNat
    · subst here
      exact runs.modify fun _ => rfl
    · exact runs.modify_ne here
  apply (stands.advance rounds (by rwa [List.length_modify]) still).andThen
  rintro _ s₄ ⟨q', stands, same⟩
  apply stands.currentTask.andThen
  rintro task s₅ ⟨entry, stands⟩
  refine Script.Safe.andThen (stands.write fun _ => rfl) fun _ s₆ stands => ?_
  refine Script.Safe.andThen (stands.write fun _ => rfl) fun _ s₇ stands => ?_
  apply stands.unlockWrite.mono
  intro _ s₈ stands
  exact ⟨q', stands, (List.getElem?_eq_some_iff.mp entry).1, k, same ▸ still⟩

/-- `drop_task` gives back the write lock when some entry can run. -/
theorem dropTask {k : Nat} (rounds : Nat → Nat) (index : UInt64)
    (stands : Stands 0 false locked q s)
    (bound : q.curTaskIdx.toNat < q.queue.length) (runs : Runnable q.queue k) :
    Script.Safe Quiet (fun _ later => ∃ q', Stands 0 false locked q' later)
      (Stepwise.dropTask rounds index) s := by
  unfold Stepwise.dropTask
  apply stands.lockWrite.andThen
  intro _ s₁ stands
  apply stands.taskQueue.andThen
  rintro found s₂ ⟨rfl, stands⟩
  have moved : Script.Safe Quiet (fun _ later => ∃ q', Stands 0 true locked q' later)
      (Script.only (found.curTaskIdx = index) (Stepwise.advance rounds)) s₂ := by
    apply Script.Safe.ite
    · intro _
      apply (stands.advance rounds bound runs).mono
      rintro _ later ⟨q', stands, -⟩
      exact ⟨q', stands⟩
    · intro _
      exact ⟨found, stands⟩
  apply moved.andThen
  rintro _ s₃ ⟨q₁, stands⟩
  apply (stands.removeTask _).andThen
  rintro _ s₄ ⟨q₂, stands⟩
  refine Script.Safe.andThen (stands.setTaskQueue stands.size) fun _ s₅ stands => ?_
  apply stands.unlockWrite.mono
  intro _ s₆ stands
  exact ⟨_, stands⟩

/-- `new_task` gives back the write lock. -/
theorem newTask (stands : Stands 0 false locked q s) (task : TaskData) :
    Script.Safe Quiet (fun _ later => ∃ q', Stands 0 false locked q' later)
      (Stepwise.newTask task) s := by
  unfold Stepwise.newTask
  apply stands.lockWrite.andThen
  intro _ s₁ stands
  apply (stands.pushTask task).andThen
  rintro _ s₂ ⟨q', stands⟩
  apply stands.unlockWrite.mono
  intro _ s₃ stands
  exact ⟨q', stands⟩

/-- `update_current` gives back the write lock. -/
theorem updateCurrent (stands : Stands 0 false locked q s) :
    Script.Safe Quiet (fun _ later => ∃ q', Stands 0 false locked q' later)
      Stepwise.updateCurrent s := by
  unfold Stepwise.updateCurrent
  apply stands.lockWrite.andThen
  intro _ s₁ stands
  apply (stands.other (.read _)).andThen
  intro frame s₂ stands
  apply (stands.currentTaskMut _).andThen
  rintro _ s₃ ⟨bound, stands⟩
  apply stands.unlockWrite.mono
  intro _ s₄ stands
  exact ⟨_, stands⟩

/-- The running thread is marked under the write lock. -/
theorem mark (stands : Stands 0 false locked q s) {α : Type} {after : α → Machine V → Prop}
    (change : TaskData → TaskData) {rest : Steps V α}
    (goesOn : ∀ later, q.curTaskIdx.toNat < q.queue.length → Stands 0 false locked
      { q with queue := q.queue.modify q.curTaskIdx.toNat change } later →
        Script.Safe Quiet after rest later) :
    Script.Safe Quiet after (do
      Script.one Lsd.lockWrite
      Script.one (TaskQueue.currentTaskMut change)
      Script.one Lsd.unlockWrite
      rest) s := by
  apply stands.lockWrite.andThen
  intro _ s₁ stands
  apply (stands.currentTaskMut change).andThen
  rintro _ s₂ ⟨bound, stands⟩
  apply stands.unlockWrite.andThen
  intro _ s₃ stands
  exact goesOn s₃ bound stands

/-- The take-input call gives back its locks when another entry can run. -/
theorem takeInput (rounds : Nat → Nat) (stands : Stands 0 false false q s)
    (runs : q.curTaskIdx.toNat < q.queue.length →
      ∃ k, Runnable q.queue k ∧ k ≠ q.curTaskIdx.toNat) :
    Script.Safe Quiet (fun _ later => ∃ q', Stands 0 false false q' later)
      (Stepwise.takeInput rounds) s := by
  unfold Stepwise.takeInput
  apply stands.lockAwaitList.andThen
  intro _ s₁ stands
  apply stands.lockRead.andThen
  intro _ s₂ stands
  apply stands.currentTask.andThen
  rintro task s₃ ⟨entry, stands⟩
  apply (stands.setAwaitList _).andThen
  intro _ s₄ stands
  apply stands.unlockRead.andThen
  intro _ s₅ stands
  apply stands.unlockAwaitList.andThen
  intro _ s₆ stands
  apply stands.mark
  intro s₇ bound stands
  obtain ⟨k, free, other⟩ := runs bound
  apply (stands.advanceTask rounds fun _ => ⟨k, free.modify_ne other⟩).mono
  rintro _ s₈ ⟨q', stands, -⟩
  exact ⟨q', stands⟩

/-- The heap call gives back its lock. -/
theorem extendHeap (stands : Stands 0 false false q s) :
    Script.Safe Quiet (fun _ later => ∃ q', Stands 0 false false q' later)
      (Stepwise.extendHeap platform) s := by
  unfold Stepwise.extendHeap
  apply (stands.other (.read _)).andThen
  intro frame s₁ stands
  apply stands.lockRead.andThen
  intro _ s₂ stands
  apply stands.currentTask.andThen
  rintro task s₃ ⟨entry, stands⟩
  apply (stands.other (keeps_guarded_allocFrom _ _ _)).andThen
  intro vaddr s₄ stands
  refine Script.Safe.andThen (stands.write fun _ => rfl) fun _ s₅ stands => ?_
  apply (stands.other (keeps_print _)).andThen
  intro _ s₆ stands
  apply (Script.Safe.forM (I := Stands 1 false false q) stands ?_).andThen
  · intro _ s₇ stands
    apply (stands.other (keeps_print _)).andThen
    intro _ s₈ stands
    apply stands.unlockRead.mono
    intro _ s₉ stands
    exact ⟨q, stands⟩
  · intro i _ s₇ stands
    apply (stands.other (keeps_print _)).andThen
    intro _ s₈ stands
    apply (stands.other (keeps_onPmm _)).andThen
    intro claimed s₉ stands
    apply (stands.other (keeps_print _)).andThen
    intro _ s₁₀ stands
    apply (stands.other (keeps_print _)).andThen
    intro _ s₁₁ stands
    apply (stands.other (keeps_onPmm _)).andThen
    intro _ s₁₂ stands
    exact stands.other (keeps_print _)

/-- The spawn call gives back its lock. -/
theorem spawnThread (stands : Stands 0 false false q s) :
    Script.Safe Quiet (fun _ later => ∃ q', Stands 0 false false q' later)
      (Stepwise.spawnThread platform) s := by
  unfold Stepwise.spawnThread
  apply stands.updateCurrent.andThen
  rintro _ s₁ ⟨q₁, stands⟩
  apply stands.lockWrite.andThen
  intro _ s₂ stands
  apply stands.currentTask.andThen
  rintro task s₃ ⟨entry, stands⟩
  refine Script.Safe.andThen (stands.write fun _ => rfl) fun _ s₄ stands => ?_
  apply (stands.other (keeps_guarded_allocFrom _ _ _)).andThen
  intro threadId s₅ stands
  apply stands.unlockWrite.andThen
  intro _ s₆ stands
  exact stands.newTask _

/-- The drop call gives back its locks when some entry can run. -/
theorem dropCurrent (rounds : Nat → Nat) (stands : Stands 0 false false q s)
    (runs : q.curTaskIdx.toNat < q.queue.length → ∃ k, Runnable q.queue k) :
    Script.Safe Quiet (fun _ later => ∃ q', Stands 0 false false q' later)
      (Stepwise.dropCurrent rounds) s := by
  unfold Stepwise.dropCurrent
  apply stands.lockRead.andThen
  intro _ s₁ stands
  apply stands.taskQueue.andThen
  rintro found s₂ ⟨rfl, stands⟩
  apply stands.unlockRead.andThen
  intro _ s₃ stands
  apply (stands.advanceTask rounds runs).andThen
  rintro _ s₄ ⟨q', stands, bound, k, free⟩
  exact stands.dropTask rounds _ bound free

/-- The end call gives back its locks when some entry can run; if it has a thread to remove, it
waits for itself. -/
theorem endProgram (rounds : Nat → Nat) (stands : Stands 0 false false q s)
    (runs : q.curTaskIdx.toNat < q.queue.length → ∃ k, Runnable q.queue k) :
    Script.Safe Quiet (fun _ later => ∃ q', Stands 0 false false q' later)
      (Stepwise.endProgram rounds) s := by
  have waits : ∀ (index : UInt64) {q' : TaskQueue} {s : Machine V}, Stands 0 true false q' s →
      Script.Safe Quiet (fun _ later => Stands 0 true false q' later)
        (Stepwise.dropTask rounds index) s := by
    intro index q' s stands
    exact Script.Safe.andThen (M := fun _ _ => False) stands.lockWrite_held
      fun _ _ never => never.elim
  unfold Stepwise.endProgram
  apply stands.lockRead.andThen
  intro _ s₁ stands
  apply stands.currentTask.andThen
  rintro task s₂ ⟨entry, stands⟩
  apply stands.unlockRead.andThen
  intro _ s₃ stands
  apply (stands.advanceTask rounds runs).andThen
  rintro _ s₄ ⟨q', stands, -, -⟩
  apply stands.lockWrite.andThen
  intro _ s₅ stands
  apply stands.taskQueue.andThen
  rintro found s₆ ⟨rfl, stands⟩
  apply (Script.Safe.forM (I := Stands 0 true false found) stands ?_).andThen
  · intro _ s₇ stands
    apply stands.unlockWrite.mono
    intro _ s₈ stands
    exact ⟨found, stands⟩
  · intro entry _ s₇ stands
    apply Script.Safe.ite
    · intro _
      exact Script.Safe.ite (fun _ => waits _ stands) fun _ => waits _ stands
    · intro _
      exact stands

/-- The serial handler gives back its locks. -/
theorem uartHandler (input : UInt8) (stands : Stands 0 false false q s) :
    Script.Safe Quiet (fun _ later => ∃ q', Stands 0 false false q' later)
      (Stepwise.uartHandler input) s := by
  unfold Stepwise.uartHandler
  apply stands.lockAwaitList.andThen
  intro _ s₁ stands
  apply (stands.other (.read _)).andThen
  intro list s₂ stands
  apply (Script.Safe.forM (I := fun s => ∃ q', Stands 0 false true q' s) ⟨q, stands⟩ ?_).andThen
  · rintro _ s₃ ⟨q', stands⟩
    apply (stands.setAwaitList _).andThen
    intro _ s₄ stands
    apply stands.unlockAwaitList.mono
    intro _ s₅ stands
    exact ⟨q', stands⟩
  · rintro id _ s₃ ⟨q', stands⟩
    apply stands.lockWrite.andThen
    intro _ s₄ stands
    apply (stands.findTaskMut _ _ _).andThen
    rintro _ s₅ ⟨q₂, stands⟩
    apply stands.unlockWrite.mono
    intro _ s₆ stands
    exact ⟨q₂, stands⟩

/-- `handle_external` gives back the locks. -/
theorem handleExternal (external : External V) (stands : Stands 0 false false q s) :
    Script.Safe Quiet (fun _ later => ∃ q', Stands 0 false false q' later)
      (Stepwise.handleExternal external) s := by
  unfold Stepwise.handleExternal
  cases external.claim with
  | none => exact .one_stop (Prog.run_stop _ s) stands.quiet
  | some id =>
    have checked : Prog.Keeps Machine.guarded (checkIndex 64 id : Kernel (Machine V) Unit) :=
      .ite (.pure ()) (.stop _)
    apply (stands.other checked).andThen
    intro _ s₁ stands
    apply Script.Safe.ite
    · intro _
      exact stands.uartHandler _
    · intro _
      apply (stands.other (external.apart id)).mono
      intro _ s₂ stands
      exact ⟨q, stands⟩

end Stands

namespace Machine

/-- The trap makes the handler switch. -/
def Switches (s : Machine V) (scause : UInt64) : Prop :=
  match Trap.fromCause scause with
  | .supervisorTimerInterrupt | .breakpoint => True
  | .userModeEnvironmentCall =>
    s.frame.registers.a0 = 0 ∧ s.frame.registers.a1 = 2 ∨
      s.frame.registers.a0 = 1 ∧ (s.frame.registers.a1 = 0 ∨ s.frame.registers.a1 = 3 ∨
        s.frame.registers.a1 = 4)
  | _ => False

/-- The trap makes the running thread wait. -/
def Marks (s : Machine V) (scause : UInt64) : Prop :=
  match Trap.fromCause scause with
  | .breakpoint => True
  | .userModeEnvironmentCall => s.frame.registers.a0 = 0 ∧ s.frame.registers.a1 = 2
  | _ => False

/-- If the trap makes the handler switch away from an entry, some entry can run, and another one
than the current entry if that is to wait. -/
def Continues (s : Machine V) (scause : UInt64) : Prop :=
  s.Switches scause → s.cur < s.tasks.queue.length →
    ∃ k, Runnable s.tasks.queue k ∧ (s.Marks scause → k ≠ s.cur)

end Machine

namespace Stands

/-- Reading the trap frame. -/
theorem readFrame (stands : Stands readers writer locked q s) {α : Type}
    {after : α → Machine V → Prop} {rest : TrapFrame → Steps V α}
    (goesOn : Script.Safe Quiet after (rest s.frame) s) :
    Script.Safe Quiet after (Script.one (Prog.read (·.frame)) >>= rest) s := by
  apply (Script.Safe.one_ok (Prog.run_read _ s) stands.quiet ⟨rfl, rfl⟩ :
    Script.Safe Quiet (fun frame later => frame = s.frame ∧ later = s) _ s).andThen
  rintro _ _ ⟨rfl, rfl⟩
  exact goesOn

/-- The calls for input give back their locks. -/
theorem kernelIo (rounds : Nat → Nat) (stands : Stands 0 false false q s)
    (runs : s.frame.registers.a1 = 2 → q.curTaskIdx.toNat < q.queue.length →
      ∃ k, Runnable q.queue k ∧ k ≠ q.curTaskIdx.toNat) :
    Script.Safe Quiet (fun _ later => ∃ q', Stands 0 false false q' later)
      (Stepwise.kernelIo rounds platform) s := by
  unfold Stepwise.kernelIo
  apply stands.readFrame
  split
  · apply (stands.other (keeps_printString platform)).mono
    intro _ s₁ stands
    exact ⟨q, stands⟩
  · next call => exact stands.takeInput rounds (runs call)
  · apply (stands.other (keeps_unrecognized _ _)).mono
    intro _ s₁ stands
    exact ⟨q, stands⟩

/-- The calls for tasks give back their locks. -/
theorem kernelTask (rounds : Nat → Nat) (stands : Stands 0 false false q s)
    (runs : s.frame.registers.a1 = 0 ∨ s.frame.registers.a1 = 3 ∨ s.frame.registers.a1 = 4 →
      q.curTaskIdx.toNat < q.queue.length → ∃ k, Runnable q.queue k) :
    Script.Safe Quiet (fun _ later => ∃ q', Stands 0 false false q' later)
      (Stepwise.kernelTask rounds platform) s := by
  unfold Stepwise.kernelTask
  apply stands.readFrame
  split
  · next call =>
    apply (stands.advanceTask rounds (runs (.inl call))).mono
    rintro _ s₁ ⟨q', stands, -⟩
    exact ⟨q', stands⟩
  · exact stands.extendHeap
  · exact stands.spawnThread
  · next call => exact stands.dropCurrent rounds (runs (.inr (.inl call)))
  · next call => exact stands.endProgram rounds (runs (.inr (.inr call)))
  · apply (stands.other (keeps_unrecognized _ _)).mono
    intro _ s₁ stands
    exact ⟨q, stands⟩

/-- The system calls give back their locks. -/
theorem syscallCore (rounds : Nat → Nat) (stands : Stands 0 false false q s)
    (waits : s.frame.registers.a0 = 0 → s.frame.registers.a1 = 2 →
      q.curTaskIdx.toNat < q.queue.length → ∃ k, Runnable q.queue k ∧ k ≠ q.curTaskIdx.toNat)
    (runs : s.frame.registers.a0 = 1 →
      s.frame.registers.a1 = 0 ∨ s.frame.registers.a1 = 3 ∨ s.frame.registers.a1 = 4 →
        q.curTaskIdx.toNat < q.queue.length → ∃ k, Runnable q.queue k) :
    Script.Safe Quiet (fun _ later => ∃ q', Stands 0 false false q' later)
      (Stepwise.syscallCore rounds platform) s := by
  unfold Stepwise.syscallCore
  apply stands.readFrame
  split
  · next call => exact stands.kernelIo rounds (waits call)
  · next call => exact stands.kernelTask rounds (runs call)
  · apply (stands.other (keeps_unrecognized _ _)).mono
    intro _ s₁ stands
    exact ⟨q, stands⟩

/-- The handler keeps interrupts disabled and gives back its locks. -/
theorem trapHandler (rounds : Nat → Nat) (external : External V) (scause stval : UInt64)
    (stands : Stands 0 false false s.tasks s) (continues : s.Continues scause) :
    Script.Safe Quiet (fun _ later => ∃ q', Stands 0 false false q' later)
      (Stepwise.trapHandler rounds platform external scause stval) s := by
  unfold Machine.Continues Machine.Switches Machine.Marks at continues
  have ended : ∀ {reason : Stop} {after : Unit → Machine V → Prop},
      Script.Safe Quiet after (.one (Prog.stop reason)) s :=
        .one_stop (Prog.run_stop _ s) stands.quiet
  unfold Stepwise.trapHandler
  split
  · next trap =>
    simp only [trap] at continues
    apply (stands.advanceTask rounds fun bound => ?_).mono
    · rintro _ s₁ ⟨q', stands, -⟩
      exact ⟨q', stands⟩
    · obtain ⟨k, runs, -⟩ := continues trivial bound
      exact ⟨k, runs⟩
  · apply Script.Safe.ite
    · intro _
      apply (stands.other (keeps_print _)).mono
      intro _ s₁ stands
      exact ⟨_, stands⟩
    · intro _
      exact ended
  · exact stands.handleExternal external
  · next trap =>
    simp only [trap] at continues
    let called : Machine V := s.afterCall
    have entered : Stands 0 false false s.tasks called := stands.kept rfl
    apply (Script.Safe.one_ok (setFrame_run s _) stands.quiet rfl :
      Script.Safe Quiet (fun _ later => later = called) _ s).andThen
    rintro _ _ rfl
    apply entered.syscallCore rounds
    · intro root sub bound
      obtain ⟨k, runs, other⟩ := continues (.inl ⟨root, sub⟩) bound
      exact ⟨k, runs, other ⟨root, sub⟩⟩
    · intro root sub bound
      obtain ⟨k, runs, -⟩ := continues (.inr ⟨root, sub⟩) bound
      exact ⟨k, runs⟩
  · next trap =>
    simp only [trap] at continues
    apply stands.mark
    intro s₁ bound stands
    obtain ⟨k, runs, other⟩ := continues trivial bound
    apply (stands.advanceTask rounds fun _ => ⟨k, runs.modify_ne (other trivial)⟩).mono
    rintro _ s₂ ⟨q', stands, -⟩
    exact ⟨q', stands⟩
  · exact ended

end Stands

namespace Hart

/-- A hart on which the tasks have been started: a thread runs and no lock is held. -/
structure Started (hart : Hart V) : Prop where
  /-- The hart is in user mode. -/
  user : hart.handler = none
  /-- No lock is held. -/
  unlocked : hart.machine.Unlocked
  /-- The queue fits in memory. -/
  size : hart.machine.tasks.queue.length ≤ queueLimit

/-- A step in which a trap that makes the handler switch leaves some thread that can run. -/
def Continuing (platform : Platform V) (before : Hart V) (move : Move) (after : Hart V) : Prop :=
  Step platform before move after ∧
    ∀ scause, move = .trap scause → before.machine.Continues scause

/-- What holds of a hart: in user mode no lock is held, and in the handler interrupts stay disabled
until it has given back the locks. -/
def Sound (hart : Hart V) : Prop :=
  match hart.handler with
  | none => hart.machine.Unlocked ∧ hart.machine.tasks.queue.length ≤ queueLimit
  | some script => Quiet hart.machine ∧
    Script.Safe Quiet (fun _ later => ∃ q, Stands 0 false false q later) script hart.machine

/-- The entry of a trap disables interrupts. -/
theorem quiet_enterTrap (s : Machine V) (supervisor : Bool) : Quiet (s.enterTrap supervisor) := by
  unfold Quiet Machine.sie Machine.enterTrap
  rw [setBit, getBit_setBits (Nat.le_refl _) (by decide) (.inl (by decide)),
    getBit_setBit 1 (by decide)]

/-- A hart stays sound. -/
theorem Sound.step {before after : Hart V} {move : Move} (sound : before.Sound)
    (moved : before.Continuing platform move after) : after.Sound := by
  obtain ⟨step, continues⟩ := moved
  cases step with
  | user machine frame memory => exact ⟨⟨sound.1.queue, sound.1.list⟩, sound.2⟩
  | trap machine memory rounds external scause stval =>
    obtain ⟨unlocked, size⟩ := sound
    have quiet := quiet_enterTrap machine false
    have stands : Stands 0 false false machine.tasks
        { machine.enterTrap false with pmm := { machine.pmm with memory := memory } } :=
      ⟨unlocked.queue, congrArg Mutex.locked unlocked.list, quiet, size⟩
    exact ⟨quiet, stands.trapHandler rounds external scause stval (continues scause rfl)⟩
  | kernel stepped => exact sound.2.step stepped
  | interrupt machine script frame memory rounds external scause stval enabled source =>
    exact absurd (sound.1.symm.trans enabled) (by decide)
  | sret machine home =>
    obtain ⟨-, q, stands⟩ := sound
    refine ⟨⟨?_, ?_⟩, ?_⟩
    · change machine.currentUserTask = .free machine.currentUserTask.value
      rw [stands.queue]
      rfl
    · change machine.inputAwaitList = .free machine.inputAwaitList.value
      rw [Mutex.free, ← stands.list]
    · change machine.currentUserTask.value.queue.length ≤ queueLimit
      rw [stands.queue]
      exact stands.size

/-- In every state that a hart reaches in steps that each leave some thread that can run, wherever
interrupts are enabled no lock of the scheduler is held, and an interrupt gets both. -/
theorem unlocked_of_enabled {hart : Hart V}
    (reachable : Transition.Reachable Started (Continuing platform) hart)
    (enabled : hart.machine.sie = true) :
    hart.machine.Unlocked ∧
      (∃ later, lockAwaitList.run hart.machine = (.ok (), later)) ∧
        ∃ later, lockWrite.run hart.machine = (.ok (), later) := by
  have sound : hart.Sound := by
    apply reachable.invariant
    · intro hart started
      unfold Sound
      rw [started.user]
      exact ⟨started.unlocked, started.size⟩
    · intro before move after sound moved
      exact sound.step moved
  have unlocked : hart.machine.Unlocked := by
    unfold Sound at sound
    split at sound
    · exact sound.1
    · exact absurd (sound.1.symm.trans enabled) (by decide)
  have unheld : hart.machine.inputAwaitList.locked = false := congrArg Mutex.locked unlocked.list
  have listed : (lockAwaitList : Kernel (Machine V) Unit).run hart.machine = (.ok (),
      { hart.machine with inputAwaitList :=
        { hart.machine.inputAwaitList with locked := true } }) := by
    simp [lockAwaitList, Prog.run_bind, unheld]
  exact ⟨unlocked, ⟨_, listed⟩, ⟨_, lockWrite_run unlocked.queue⟩⟩

/-- The handler goes on by itself. -/
theorem reachable_steps {start : Hart V → Prop} {moves : Hart V → Move → Hart V → Prop}
    (kernel : ∀ {machine later : Machine V} {script next : Steps V Unit},
      script.step machine = some (next, later) →
        moves ⟨machine, some script⟩ .kernel ⟨later, some next⟩)
    (count : Nat) {machine : Machine V} {script : Steps V Unit}
    (reachable : Transition.Reachable start moves ⟨machine, some script⟩) :
    Transition.Reachable start moves
      ⟨(script.steps count machine).2, some (script.steps count machine).1⟩ := by
  induction count generalizing machine script with
  | zero => exact reachable
  | succ count ih =>
    unfold Script.steps
    cases stepped : script.step machine with
    | none => exact reachable
    | some next => exact ih (reachable.next .kernel (kernel stepped))

end Hart

/-- Nothing is heard from outside. -/
def silence : External V := ⟨none, fun _ => false, 0, unknown, fun _ => .stop _⟩

/-- Of two tasks the first forfeits: when the second one runs, interrupts are enabled and no lock is
held. -/
theorem unlocked_of_enabled_forfeit :
    let script := Stepwise.trapHandler (· + 1) samplePlatform silence 8 0
    let returned := (script.steps 14 ((sampleMachine 0 1 0).enterTrap false)).2.leaveTrap
    returned.sie = true ∧ returned.Unlocked ∧
      (∃ later, lockAwaitList.run returned = (.ok (), later)) ∧
        ∃ later, lockWrite.run returned = (.ok (), later) := by
  intro script returned
  have started : Hart.Started ⟨sampleMachine 0 1 0, none⟩ :=
    ⟨rfl, ⟨rfl, rfl⟩, (by decide : 2 ≤ queueLimit)⟩
  have continues : (sampleMachine 0 1 0).Continues 8 := fun _ _ =>
    ⟨1, ⟨sampleTask 1, rfl, rfl⟩, fun _ => by decide⟩
  have trapped : Hart.Continuing samplePlatform ⟨sampleMachine 0 1 0, none⟩ (Move.trap 8)
      ⟨(sampleMachine 0 1 0).enterTrap false, some script⟩ :=
    ⟨.trap _ _ (· + 1) silence 8 0, fun _ same => Move.trap.inj same ▸ continues⟩
  have entered := (Transition.Reachable.start started).next (Move.trap 8) trapped
  have handled := Hart.reachable_steps (fun stepped =>
    ⟨.kernel stepped, fun _ => by simp⟩) 14 entered
  have enabled : returned.sie = true := by decide +kernel
  have home : (script.steps 14 ((sampleMachine 0 1 0).enterTrap false)).2.spp = false := by
    decide +kernel
  have ended : (script.steps 14 ((sampleMachine 0 1 0).enterTrap false)).1 = .done () := rfl
  rw [ended] at handled
  have back := handled.next Move.sret
    (⟨.sret _ home, fun _ => by simp⟩ : Hart.Continuing samplePlatform _ _ ⟨returned, none⟩)
  exact ⟨enabled, Hart.unlocked_of_enabled back enabled⟩

/-- A task alone, which takes input. -/
def sampleAlone : Machine UInt64 :=
  { sampleMachine 0 0 2 with currentUserTask := .free ⟨[sampleTask 0], 0⟩ }

/-- A thread that is alone takes input: the handler comes to enable interrupts while it holds the
write lock. -/
theorem takeInput_alone_enables :
    let script := Stepwise.trapHandler (· + 1) samplePlatform silence 8 0
    let reached := script.steps 21 (sampleAlone.enterTrap false)
    Hart.Started ⟨sampleAlone, none⟩ ∧
      Transition.Reachable Hart.Started (Hart.Step samplePlatform) ⟨reached.2, some reached.1⟩ ∧
        reached.2.sie = true ∧ reached.2.currentUserTask.writer = true := by
  intro script reached
  have started : Hart.Started ⟨sampleAlone, none⟩ := ⟨rfl, ⟨rfl, rfl⟩, (by decide : 1 ≤ queueLimit)⟩
  refine ⟨started, ?_, ?_, rfl⟩
  · apply Hart.reachable_steps .kernel
    exact (Transition.Reachable.start started).next (.trap 8)
      (.trap _ sampleAlone.pmm.memory _ silence 8 0)
  · decide +kernel

end Lsd
