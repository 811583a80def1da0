import Lsd.Verif.Threads

/-!
# Who runs, and with which registers

Over every run the machine follows its threads. Each thread therefore finds the
registers it left, and the index, the trap frame and `satp` name the same
thread, for as long as no thread is dropped from another place than the entry
before the last: elsewhere the drop call takes one off an index that was right.
-/

namespace Lsd

open Program Transition

variable {V : Type} {s s₀ : Machine V} {platform : Platform V} {events : List Event}

/-- The threads of a machine, numbered in the order of its queue. -/
def Threads.of (s : Machine V) : Threads where
  thread := fun number => s.contexts[number]?
  born := s.contexts.length
  running := s.cur
  dropped := []

/-- A ready machine shows its threads. -/
theorem Machine.Ready.shows (ready : s.Ready) :
    Shows s (Threads.of s) (List.range s.contexts.length) where
  ready := ready
  entries := by
    apply List.ext_getElem?
    intro k
    rw [List.getElem?_map, List.getElem?_map]
    by_cases bound : k < s.contexts.length
    · rw [List.getElem?_range bound, List.getElem?_eq_getElem bound]
      exact congrArg some (List.getElem?_eq_getElem bound)
    · rw [List.getElem?_eq_none (by simpa using bound), List.getElem?_eq_none (by omega)]
      rfl
  current := List.getElem?_range ready.bound
  exact := by simp [Threads.of]
  gone := fun number absent =>
    List.getElem?_eq_none (Nat.le_of_not_lt fun bound => absent (List.mem_range.mpr bound))

/-- An event that drops no thread. -/
def Machine.Keeps (platform : Platform V) (before : Machine V) (event : Event)
    (after : Machine V) : Prop :=
  event ≠ .drop ∧ before.Next platform event after

/-- The machine is its threads: entry by entry, the running one with the registers that a return to
user mode restores, and not waiting. -/
structure Represents (s : Machine V) (threads : Threads) : Prop where
  /-- Each entry is a thread. -/
  thread : ∀ number, threads.thread number = s.contexts[number]?
  /-- The index is the number of the running thread. -/
  running : threads.running = s.cur
  /-- The running thread finds its registers, and does not wait. -/
  resumed : ∃ task, threads.thread threads.running = some task ∧ task.trapFrame = s.frame ∧
    task.waitingOn = .none

/-- While no thread is dropped, the numbers are the positions. -/
theorem Shows.next_keeps {s' : Machine V} {threads : Threads} {event : Event}
    (shows : Shows s threads (List.range threads.born)) (next : s.Keeps platform event s') :
    ∃ after, threads.Step event after ∧ Shows s' after (List.range after.born) := by
  obtain ⟨kept, moved⟩ := next
  obtain ⟨after, step, shows'⟩ := shows.next moved fun dropped => absurd dropped kept
  refine ⟨after, step, ?_⟩
  cases event with
  | drop => exact absurd rfl kept
  | spawn =>
    obtain ⟨caller, threadId, -, rfl⟩ := step
    change Shows s' _ (List.range (threads.born + 1))
    rw [List.range_succ]
    exact shows'
  | user frame =>
    obtain rfl := step
    exact shows'
  | uart id input =>
    obtain ⟨-, same⟩ := step
    rw [same] at shows' ⊢
    exact shows'
  | timer | forfeit | breakpoint | takeInput =>
    obtain ⟨number, -, rfl⟩ := step
    exact shows'

/-- A machine that shows its threads by position is its threads. -/
theorem Shows.represents {threads : Threads} (shows : Shows s threads (List.range threads.born)) :
    Represents s threads := by
  have running : threads.running = s.cur := by
    obtain ⟨bound, same⟩ := List.getElem?_eq_some_iff.mp shows.current
    rw [← same, List.getElem_range]
  refine ⟨fun number => ?_, running, ?_⟩
  · by_cases bound : number < threads.born
    · exact shows.entries.get (List.getElem?_range bound)
    · rw [shows.gone number (by simpa using bound), List.getElem?_eq_none]
      have length := shows.entries.length
      rw [List.length_range] at length
      omega
  · obtain ⟨task, entry, runs, -⟩ := shows.ready.current
    exact ⟨task, shows.thread_running.trans entry, Machine.frame_of_current entry, runs⟩

/-- A thread that does not run is changed by nothing but the byte that wakes it. -/
theorem Threads.Step.other {before after : Threads} {event : Event} {number : Nat}
    (step : before.Step event after) (waits : before.running ≠ number)
    (made : number < before.born) (lives : event ≠ .drop) :
    number < after.born ∧ (after.thread number = before.thread number ∨
      ∃ input, after.thread number = (before.thread number).map (·.wake input)) := by
  have still : ∀ own, (before.act own).thread number = before.thread number := fun own =>
    Function.update_of_ne waits.symm _ _
  cases event with
  | drop => exact absurd rfl lives
  | user frame =>
    obtain rfl := step
    exact ⟨made, .inl (still _)⟩
  | spawn =>
    obtain ⟨caller, threadId, -, rfl⟩ := step
    exact ⟨Nat.lt_succ_of_lt made, .inl ((Function.update_of_ne made.ne _ _).trans (still _))⟩
  | uart id input =>
    obtain ⟨woken, same⟩ := step
    rw [same]
    exact ⟨made, (woken number).imp_right fun woke => ⟨input, woke⟩⟩
  | timer | forfeit | breakpoint | takeInput =>
    obtain ⟨next, -, rfl⟩ := step
    exact ⟨made, .inl (still _)⟩

/-- What can have happened to the registers of a thread that did not run: nothing, or the byte that
it waited on. -/
def Parked (before after : Option TaskData) : Prop :=
  after = before ∨ ∃ task input, before = some task ∧ task.waitingOn = .charIn ∧
    after = some (task.wake input)

/-- A thread is woken at most once. -/
theorem Parked.wake {before middle after : Option TaskData} (parked : Parked before middle)
    (woke : after = middle ∨ ∃ input, after = middle.map (·.wake input)) : Parked before after := by
  rcases woke with rfl | ⟨input, rfl⟩
  · exact parked
  · rcases parked with rfl | ⟨task, byte, rfl, waits, rfl⟩
    · cases middle with
      | none => exact .inl rfl
      | some task =>
        by_cases waits : task.waitingOn = .charIn
        · exact .inr ⟨task, input, rfl, waits, rfl⟩
        · exact .inl (congrArg some (TaskData.wake_of_ne waits))
    · refine .inr ⟨task, byte, rfl, waits, congrArg some (TaskData.wake_of_ne ?_)⟩
      simp [TaskData.wake, waits]

/-- Over a run in which it never runs, a thread keeps its registers but for the byte that wakes
it. -/
theorem Shows.parked {s' : Machine V} {threads : Threads} {number : Nat}
    (shows : Shows s threads (List.range threads.born)) (made : number < threads.born)
    (run : Run (fun before event after => before.cur ≠ number ∧ before.Keeps platform event after)
      s events s') : Parked (s.contexts[number]?) (s'.contexts[number]?) := by
  suffices follows : ∃ after : Threads, Shows s' after (List.range after.born) ∧
      number < after.born ∧ Parked (s.contexts[number]?) (after.thread number) by
    obtain ⟨after, shows', -, parked⟩ := follows
    exact shows'.represents.thread number ▸ parked
  induction run with
  | nil => exact ⟨threads, shows, made, .inl (shows.represents.thread number)⟩
  | snoc _ moved ih =>
    obtain ⟨away, kept⟩ := moved
    obtain ⟨middle, shows', made', parked⟩ := ih
    obtain ⟨after, step, shows''⟩ := shows'.next_keeps kept
    obtain ⟨made'', woke⟩ := step.other (shows'.represents.running ▸ away) made' kept.1
    exact ⟨after, shows'', made'', parked.wake woke⟩

/-- Every run without a drop is a run of independent threads, which the machine represents at its
end; and a thread that has been switched away from is resumed with the registers it was left with,
but for the byte in `a0` that it waited on. -/
theorem registers_isolated (ready : s₀.Ready) (run : Run (Machine.Keeps platform) s₀ events s) :
    (∃ threads, Run Threads.Step (Threads.of s₀) events threads ∧ Represents s threads) ∧
      ∀ number later s', number < s.contexts.length →
        Run (fun before event after => before.cur ≠ number ∧ before.Keeps platform event after)
          s later s' →
        Parked (s.contexts[number]?) (s'.contexts[number]?) := by
  obtain ⟨threads, follows, shows⟩ :=
    run.simulate (fun s threads => Shows s threads (List.range threads.born)) ready.shows
      fun _ _ _ _ shows kept => shows.next_keeps kept
  refine ⟨⟨threads, follows, shows.represents⟩, fun number later s' made parked => ?_⟩
  have length := shows.entries.length
  rw [List.length_range] at length
  exact shows.parked (length ▸ made) parked

/-- An event in which a thread is dropped from the entry before the last, if it is dropped. -/
def Machine.Careful (platform : Platform V) (before : Machine V) (event : Event)
    (after : Machine V) : Prop :=
  (event = .drop → before.BeforeLast) ∧ before.Next platform event after

/-- Over every run in which threads are dropped from the entry before the last only, the index is in
range, the queue holds the threads made and not dropped, each once, and the index, the trap frame
and `satp` belong to the thread that runs. -/
theorem scheduler_coherent (ready : s₀.Ready) (run : Run (Machine.Careful platform) s₀ events s) :
    s.cur < s.tasks.queue.length ∧
      ∃ threads numbers, Run Threads.Step (Threads.of s₀) events threads ∧
        Shows s threads numbers ∧ ∃ task, threads.thread threads.running = some task ∧
          s.frame = task.trapFrame ∧ s.satp = task.taskTable := by
  obtain ⟨threads, follows, numbers, shows⟩ :=
    run.simulate (fun s threads => ∃ numbers, Shows s threads numbers)
      ⟨_, ready.shows⟩ fun _ _ _ _ ⟨_, shows⟩ moved =>
        (shows.next moved.2 moved.1).imp fun _ next => ⟨next.1, _, next.2⟩
  refine ⟨s.length_contexts ▸ shows.ready.bound, threads, numbers, follows, shows, ?_⟩
  obtain ⟨task, entry, -, table⟩ := shows.ready.current
  exact ⟨task, shows.thread_running.trans entry, (Machine.frame_of_current entry).symm, table.symm⟩

/-- A platform whose arenas count up. -/
def samplePlatform : Platform UInt64 where
  hhdmOffset := 0xffff800000000000
  levels := 4
  vmem := ⟨fun _ _ => do
    let next ← Prog.read id
    Prog.update (· + 1)
    pure (.ok next)⟩

/-- The first thread of a task. -/
def sampleTask (taskId : UInt64) : TaskData where
  trapFrame := default
  taskId := taskId
  taskTable := taskId
  privilege := .user
  waitingOn := .none
  threadId := 0
  threadManager := 0
  vmm := 0

/-- The registers of a task that makes a system call. -/
def callFrame (root sub : UInt64) : TrapFrame :=
  { (default : TrapFrame) with
    registers := { (default : GeneralRegisters) with a0 := root, a1 := sub } }

/-- Two tasks, of which one makes a system call. -/
def sampleMachine (cur root sub : UInt64) : Machine UInt64 where
  pmm := ⟨FreeList.null, fun _ => 0⟩
  arenas := 1
  currentUserTask := .free ⟨[sampleTask 0, sampleTask 1], cur⟩
  inputAwaitList := .free []
  frame := callFrame root sub
  satp := cur
  sstatus := 0
  uart := []

/-- No devices. -/
def noDevices : Devices UInt64 := ⟨none, fun _ => unknown⟩

/-- A machine after a system call. -/
def afterSyscall (s : Machine UInt64) : Machine UInt64 :=
  ((trapHandler samplePlatform noDevices 8 0).run s).2

/-- The sample machine is ready with either task running. -/
theorem sampleMachine_ready {cur root sub : UInt64} (either : cur = 0 ∨ cur = 1) :
    (sampleMachine cur root sub).Ready := by
  refine ⟨⟨rfl, rfl⟩, ?_, ?_, by simp [sampleMachine, Mutex.free]⟩
  · rw [Machine.length_contexts]
    exact (by decide : 2 ≤ queueLimit)
  · rcases either with rfl | rfl
    · exact ⟨(sampleTask 0).withFrame _, rfl, rfl, rfl⟩
    · exact ⟨(sampleTask 1).withFrame _, rfl, rfl, rfl⟩

/-- The first task forfeits, and the second runs. -/
theorem registers_isolated_forfeit :
    let before := sampleMachine 0 1 0
    let after := afterSyscall before
    (∃ threads, Run Threads.Step (Threads.of before) [.forfeit] threads ∧
    Represents after threads) ∧
      Parked (after.contexts[0]?) (after.contexts[0]?) := by
  intro before after
  have run : Run (Machine.Keeps samplePlatform) before ([] ++ [.forfeit]) after :=
    .snoc (.nil before) ⟨by decide, ⟨rfl, rfl⟩, fun stops => stops.elim, noDevices, 0, trivial, rfl⟩
  have isolated := registers_isolated (sampleMachine_ready (.inl rfl)) run
  exact ⟨isolated.1, isolated.2 0 [] after (by decide) (.nil after)⟩

/-- The first of two tasks drops its thread, and the second runs. -/
theorem scheduler_coherent_drop :
    let before := sampleMachine 0 1 3
    let after := afterSyscall before
    after.cur < after.tasks.queue.length ∧
      ∃ threads numbers, Run Threads.Step (Threads.of before) [.drop] threads ∧
        Shows after threads numbers ∧ ∃ task, threads.thread threads.running = some task ∧
          after.frame = task.trapFrame ∧ after.satp = task.taskTable := by
  intro before after
  have other : before.OtherRuns := ⟨1, by decide, sampleTask 1, rfl, rfl⟩
  have run : Run (Machine.Careful samplePlatform) before ([] ++ [.drop]) after :=
    .snoc (.nil before) ⟨fun _ => ⟨rfl, sampleTask 1, rfl, rfl⟩, ⟨rfl, rfl⟩, fun _ => other,
      noDevices, 0, trivial, rfl⟩
  exact scheduler_coherent (sampleMachine_ready (.inl rfl)) run

/-- The second of two tasks drops its thread: the first runs, and the index wraps below zero. -/
theorem drop_last_wraps :
    let before := sampleMachine 1 1 3
    let after := afterSyscall before
    before.Ready ∧ before.Next samplePlatform .drop after ∧ after.frame = default ∧
      after.cur = 2 ^ 64 - 1 ∧ ¬ after.cur < after.tasks.queue.length := by
  intro before after
  have other : before.OtherRuns := ⟨0, by decide, sampleTask 0, rfl, rfl⟩
  exact ⟨sampleMachine_ready (.inr rfl), ⟨⟨rfl, rfl⟩, fun _ => other, noDevices, 0, trivial, rfl⟩,
    rfl, rfl, (by decide : ¬ 2 ^ 64 - 1 < 1)⟩

end Lsd
