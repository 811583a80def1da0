import Lsd.UserLib
import Lsd.Verif.Coherence

/-!
# Calls that do not do what their callers expect

A thread that spawns another tells itself from the child by `a1`, which the
kernel writes in the child only: the parent finds the argument of its own call
there and takes itself for a child. The call that ends a program takes the lock
of the queue and calls a function that takes it again.
-/

namespace Lsd

open Program UserLib

variable {V : Type} {s : Machine V} {platform : Platform V} {devices : Devices V} {stval : UInt64}

/-- The argument of a spawn call stays in `a1` of the thread that makes it. -/
theorem spawnThread_keeps_a1 :
    Prog.Keeps (fun s : Machine V => s.frame.registers.a1) (Lsd.spawnThread platform) := by
  have arena : ∀ arena size, Prog.Keeps (fun s : Machine V => s.frame.registers.a1)
      (allocFrom platform arena size) := fun arena size =>
    .bind (fun _ => rfl) fun result => by
      cases result with
      | ok number => exact .pure _
      | error message => exact .stop _
  have add : ∀ task, Prog.Keeps (fun s : Machine V => s.frame.registers.a1)
      (newTask task) := fun task =>
    .bind (lockWrite_keeps fun _ _ => rfl) fun _ => .bind
      (.bind (.read _) fun _ => .ite (fun _ => rfl) (.stop _))
      fun _ => unlockWrite_keeps fun _ _ => rfl
  refine .bind (.bind (lockWrite_keeps fun _ _ => rfl) fun _ => .bind (.read _) fun frame =>
    .bind (currentTaskMut_keeps fun _ => rfl) fun _ => unlockWrite_keeps fun _ _ => rfl) fun _ => ?_
  exact .bind (lockWrite_keeps fun _ _ => rfl) fun _ => .bind currentTask_keeps fun task =>
    .bind (fun _ => rfl) fun _ => .bind (arena _ _) fun number =>
    .bind (unlockWrite_keeps fun _ _ => rfl) fun _ => add _

/-- What `spawn_thread` needs of the kernel: the caller goes on without running the function, the
child runs it and drops itself, and the child finds its own two numbers. -/
def SpawnAgrees (platform : Platform V) (devices : Devices V) (stval : UInt64) (s : Machine V) :
    Prop :=
  ∃ s' child, (trapHandler platform devices 8 stval).run s = (.ok (), s') ∧
    s'.tasks.queue.getLast? = some child ∧
    UserLib.spawnThread.resume s'.frame = .returns ∧
    UserLib.spawnThread.resume child.trapFrame = .call dropThread ∧
    child.trapFrame.registers.a0 = child.taskId ∧ child.trapFrame.registers.a1 = child.threadId

/-- The caller takes itself for the child. -/
theorem spawn_caller_runs {s' : Machine V} (root : s.frame.registers.a0 = 1)
    (sub : s.frame.registers.a1 = 2)
    (ran : (trapHandler platform devices 8 stval).run s = (.ok (), s')) :
    UserLib.spawnThread.resume s'.frame = .call dropThread := by
  have call : (trapHandler platform devices 8 stval).run s =
      (Lsd.spawnThread platform).run s.afterCall := by
    rw [Machine.trapHandler_call]
    simp [syscallCore, kernelTask, Prog.run_bind, Machine.afterCall, root, sub]
  have kept : s'.frame.registers.a1 = 2 :=
    (spawnThread_keeps_a1.of_run (call.symm.trans ran)).trans sub
  simp [UserLib.spawnThread, spawnThreadRaw, UserCode.resume, kept]

/-- In no state does a spawn call do what `spawn_thread` needs. -/
theorem spawn_never_agrees (root : s.frame.registers.a0 = 1) (sub : s.frame.registers.a1 = 2) :
    ¬ SpawnAgrees platform devices stval s := by
  rintro ⟨s', child, ran, -, returns, -⟩
  rw [spawn_caller_runs root sub ran] at returns
  exact absurd returns (by simp)

/-- The first of two tasks spawns a thread. -/
theorem spawn_never_agrees_first :
    ¬ SpawnAgrees samplePlatform noDevices 0 (sampleMachine 0 1 2) :=
  spawn_never_agrees rfl rfl

/-- A task spawns its thread number one. Both it and the child run the function and drop
themselves. -/
theorem spawn_both_run :
    let before := sampleMachine 0 1 2
    let after := afterSyscall before
    (trapHandler samplePlatform noDevices 8 0).run before = (.ok (), after) ∧
      UserLib.spawnThread.resume after.frame = .call dropThread ∧
      (∃ child, after.tasks.queue.getLast? = some child ∧ child.threadId = 1 ∧
        UserLib.spawnThread.resume child.trapFrame = .call dropThread) ∧
      ¬ SpawnAgrees samplePlatform noDevices 0 before := by
  refine ⟨rfl, rfl, ⟨_, rfl, rfl, rfl⟩, ?_⟩
  rintro ⟨s', child, ran, -, returns, -⟩
  rw [spawn_caller_runs rfl rfl ran] at returns
  exact absurd returns (by simp)

/-- A function that takes the write lock deadlocks when the guard is out. -/
theorem dropTask_held (held : s.currentUserTask.writer = true) (index : UInt64) :
    (dropTask index).run s = (.error .deadlock, s) := by
  have stops : (lockWrite : Kernel (Machine V) Unit).run s = (.error .deadlock, s) := by
    simp [lockWrite, Prog.run_bind, held]
  rw [dropTask, Prog.run_bind_stop stops]

/-- The loop of `end program` deadlocks at the first thread of the task. -/
theorem endLoop_run (held : s.currentUserTask.writer = true) (id : UInt64)
    (entries : List (TaskData × Nat)) (found : ∃ entry ∈ entries, entry.1.taskId = id) :
    (entries.forM fun (entry, index) =>
      if entry.taskId = id then
        if entry.threadId = 0 then fullDropTask (UInt64.ofNat index)
        else dropTask (UInt64.ofNat index)
      else pure ()).run s = (.error .deadlock, s) := by
  induction entries with
  | nil => simp at found
  | cons entry entries ih =>
    by_cases mine : entry.1.taskId = id
    · refine Prog.run_bind_stop ?_
      dsimp only
      rw [if_pos mine, fullDropTask, ite_self]
      exact dropTask_held held _
    · have rest : ∃ entry ∈ entries, entry.1.taskId = id := by
        obtain ⟨other, member, same⟩ := found
        rcases List.mem_cons.mp member with rfl | later
        · exact absurd same mine
        · exact ⟨other, later, same⟩
      have passed : (if entry.1.taskId = id then
          if entry.1.threadId = 0 then fullDropTask (UInt64.ofNat entry.2)
          else dropTask (UInt64.ofNat entry.2)
        else pure () : Kernel (Machine V) Unit).run s = (.ok (), s) := by
        rw [if_neg mine, Prog.run_pure]
      exact (Prog.run_bind_ok passed).trans (ih rest)

/-- The tasks of the entries of the queue, in order. -/
def Machine.taskIds (s : Machine V) : List UInt64 := s.tasks.queue.map (·.taskId)

/-- A switch keeps the tasks of the entries. -/
theorem advanceTask_keeps_taskIds :
    Prog.Keeps Machine.taskIds (advanceTask : Kernel (Machine V) Unit) := by
  refine advanceTask_keeps (fun _ _ => rfl) (fun s frame => ?_) (fun _ _ => rfl) (fun _ _ => rfl)
    (fun _ _ => rfl) fun _ _ => rfl
  apply List.ext_getElem?
  intro k
  simp only [Machine.taskIds, Machine.tasks_setTasks, List.getElem?_map, List.getElem?_modify]
  split
  · cases s.tasks.queue[k]? <;> rfl
  · cases s.tasks.queue[k]? <;> rfl

/-- What the end of a program needs of the kernel: the call returns, exactly the entries of the
program's task are gone, and the index names the thread that goes on. -/
def EndsProgram (platform : Platform V) (devices : Devices V) (stval : UInt64) (s : Machine V) :
    Prop :=
  ∃ s' current task, (trapHandler platform devices 8 stval).run s = (.ok (), s') ∧
    s.tasks.queue[s.cur]? = some current ∧
    s'.tasks.queue.Perm (s.contexts.filter (·.taskId ≠ current.taskId)) ∧
    s'.tasks.queue[s'.cur]? = some task ∧ task.trapFrame = s'.frame ∧ task.taskTable = s'.satp

/-- The call is the code of its subcall. -/
theorem trapHandler_endProgram (root : s.frame.registers.a0 = 1) (sub : s.frame.registers.a1 = 4) :
    (trapHandler platform devices 8 stval).run s = endProgram.run s.afterCall := by
  rw [Machine.trapHandler_call]
  simp [syscallCore, kernelTask, Prog.run_bind, Machine.afterCall, root, sub]

/-- Behind the switch the call deadlocks, since the caller still has its entry. -/
theorem endProgram_rest {s₁ : Machine V} {id : UInt64} (held : s₁.currentUserTask.writer = true)
    (listed : id ∈ s₁.taskIds) :
    (do
      let write ← taskQueue
      write.queue.reverse.zipIdx.forM fun (entry, index) =>
        if entry.taskId = id then
          if entry.threadId = 0 then fullDropTask (UInt64.ofNat index)
          else dropTask (UInt64.ofNat index)
        else pure ()
      unlockWrite).run s₁ = (.error .deadlock, s₁) := by
  obtain ⟨task, member, same⟩ := List.mem_map.mp listed
  obtain ⟨k, position⟩ := List.mem_iff_getElem?.mp (List.mem_reverse.mpr member)
  have found : ∃ entry ∈ s₁.tasks.queue.reverse.zipIdx, entry.1.taskId = id :=
    ⟨(task, k), List.mem_zipIdx_iff_getElem?.mpr position, same⟩
  rw [Prog.run_bind_ok (taskQueue_run s₁)]
  exact Prog.run_bind_stop (endLoop_run held id _ found)

/-- A write lock that was taken is held. -/
theorem lockWrite_eq_ok {s' : Machine V} (ran : lockWrite.run s = (.ok (), s')) :
    s' = s.setWriter true := by
  rw [lockWrite, Prog.run_bind_ok (Prog.run_read _ _), Prog.run_ite] at ran
  split at ran
  · simp at ran
  · exact (Prod.mk.inj ran).2.symm

/-- The call never returns. -/
theorem endProgram_not_ok (s s' : Machine V) : endProgram.run s ≠ (.ok (), s') := by
  intro ran
  obtain ⟨_, s₁, read, rest₁⟩ := Prog.run_bind_eq_ok ran
  obtain ⟨current, s₂, looked, rest₂⟩ := Prog.run_bind_eq_ok rest₁
  obtain ⟨_, s₃, unlocked, rest₃⟩ := Prog.run_bind_eq_ok rest₂
  obtain ⟨_, s₄, switched, rest₄⟩ := Prog.run_bind_eq_ok rest₃
  obtain ⟨_, s₅, locked, rest⟩ := Prog.run_bind_eq_ok rest₄
  obtain ⟨entry, rfl⟩ := currentTask_eq_ok looked
  have listed : current.taskId ∈ s₂.taskIds :=
    List.mem_map_of_mem (List.mem_of_getElem? entry)
  obtain rfl := lockWrite_eq_ok locked
  have same : s₃.taskIds = s₂.taskIds := by rw [← (Prod.mk.inj unlocked).2]; rfl
  have listed' : current.taskId ∈ (s₄.setWriter true).taskIds := by
    change current.taskId ∈ s₄.taskIds
    rw [advanceTask_keeps_taskIds.of_run switched, same]
    exact listed
  rw [endProgram_rest rfl listed'] at rest
  simp at rest

/-- From a ready state the call deadlocks. -/
theorem Machine.Ready.endProgram (ready : s.Ready) (root : s.frame.registers.a0 = 1)
    (sub : s.frame.registers.a1 = 4) :
    ((trapHandler platform devices 8 stval).run s).1 = .error .deadlock := by
  obtain ⟨task, entry, runs, -⟩ := ready.current
  obtain ⟨saved, position⟩ := ready.entry
  have unlocked : s.afterCall.Unlocked := ⟨ready.unlocked.queue, ready.unlocked.list⟩
  have unheld : s.afterCall.currentUserTask.writer = false := by rw [unlocked.queue]; rfl
  obtain ⟨s₁, ran, switched⟩ := ready.switched unlocked rfl s.contexts_afterCall
    ⟨s.cur, by
      rw [contexts_afterCall]
      exact Runnable.modify ⟨task, entry, runs⟩ fun _ => rfl⟩
    fun id member => by
      rw [contexts_afterCall]
      exact ready.waiting_modify (ready.awaited id member)
  have listed : saved.taskId ∈ (s₁.setWriter true).taskIds := by
    change saved.taskId ∈ s₁.taskIds
    rw [advanceTask_keeps_taskIds.of_run ran]
    exact List.mem_map_of_mem (List.mem_of_getElem? position)
  let reading : Machine V := { s.afterCall with
    currentUserTask := { s.afterCall.currentUserTask with
      readers := s.afterCall.currentUserTask.readers + 1 } }
  have locked : (lockRead : Kernel (Machine V) Unit).run s.afterCall = (.ok (), reading) := by
    simp [lockRead, Prog.run_bind, unheld, reading]
  have freed : (unlockRead : Kernel (Machine V) Unit).run reading = (.ok (), s.afterCall) := rfl
  rw [trapHandler_endProgram root sub, Lsd.endProgram, Prog.run_bind_ok locked,
    Prog.run_bind_ok (TaskQueue.currentTask_run (s := reading) position), Prog.run_bind_ok freed,
    Prog.run_bind_ok ran, Prog.run_bind_ok (lockWrite_run switched.ready.unlocked.queue),
    endProgram_rest rfl listed]

/-- In no state does the call end the program; from a ready one it deadlocks. -/
theorem endProgram_never_ends (root : s.frame.registers.a0 = 1) (sub : s.frame.registers.a1 = 4) :
    ¬ EndsProgram platform devices stval s ∧
      (s.Ready → ((trapHandler platform devices 8 stval).run s).1 = .error .deadlock) := by
  refine ⟨?_, fun ready => ready.endProgram root sub⟩
  rintro ⟨s', current, task, ran, -⟩
  exact endProgram_not_ok _ s' ((trapHandler_endProgram root sub).symm.trans ran)

/-- The first of two tasks cannot end its program. -/
theorem endProgram_never_ends_first :
    ¬ EndsProgram samplePlatform noDevices 0 (sampleMachine 0 1 4) ∧
      ((trapHandler samplePlatform noDevices 8 0).run (sampleMachine 0 1 4)).1 = .error .deadlock :=
  (endProgram_never_ends rfl rfl).imp_right fun deadlock =>
    deadlock (sampleMachine_ready (.inl rfl))

/-- A ready machine with another task that can run deadlocks when a task ends its program. -/
theorem endProgram_deadlock :
    (sampleMachine 0 1 4).Ready ∧ (sampleMachine 0 1 4).OtherRuns ∧
      ((trapHandler samplePlatform noDevices 8 0).run (sampleMachine 0 1 4)).1 = .error .deadlock ∧
      ¬ EndsProgram samplePlatform noDevices 0 (sampleMachine 0 1 4) := by
  refine ⟨sampleMachine_ready (.inl rfl), ⟨1, by decide, sampleTask 1, rfl, rfl⟩, rfl, ?_⟩
  rintro ⟨s', current, task, ran, -⟩
  exact endProgram_not_ok _ s' ((trapHandler_endProgram rfl rfl).symm.trans ran)

end Lsd
