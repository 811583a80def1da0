import Lsd.Lib.Naming
import Lsd.Verif.ThreadCalls

/-!
# Independent threads

What the scheduler is for: each thread is a machine of its own, known by the
number it was made with, and one of them runs at a time. A thread changes by its
own instructions and calls, and by the byte that wakes it, and by nothing else.
The kernel with its queue, its index and its two copies of the running thread
follows these threads event by event.
-/

namespace Lsd

open Program Transition

variable {V : Type}

/-- What happens to a hart that runs a thread. -/
inductive Event where
  /-- The thread runs in user mode and leaves these registers. -/
  | user (frame : TrapFrame)
  | timer
  | forfeit
  | breakpoint
  | takeInput
  /-- The serial port interrupts, as number `id`. -/
  | uart (id : Nat) (input : UInt8)
  | spawn
  | drop
deriving DecidableEq

/-- What an event does to the thread it finds running. -/
def Event.own : Event → TaskData → TaskData
  | .user frame => (·.withFrame frame)
  | .forfeit | .drop => TaskData.pastCall
  | .breakpoint => TaskData.waitFor .breakpoint
  | .takeInput => fun task => task.pastCall.waitFor .charIn
  | .spawn => TaskData.spawned
  | .timer | .uart _ _ => id

/-- Threads by number. -/
structure Threads where
  /-- The thread of a number, while it lives. -/
  thread : Nat → Option TaskData
  /-- How many threads were made. -/
  born : Nat
  /-- The number of the thread that runs. -/
  running : Nat
  /-- The numbers of the threads that were dropped. -/
  dropped : List Nat

namespace Threads

/-- Whether a thread can run. -/
def CanRun (threads : Threads) (number : Nat) : Prop :=
  ∃ task, threads.thread number = some task ∧ task.waitingOn = .none

/-- The running thread takes a step of its own. -/
def act (threads : Threads) (own : TaskData → TaskData) : Threads :=
  { threads with
    thread := Function.update threads.thread threads.running
      ((threads.thread threads.running).map own) }

/-- One event. The running thread takes its own step, and then some thread that can run goes on,
if it is an event that switches. -/
def Step (before : Threads) (event : Event) (after : Threads) : Prop :=
  match event with
  | .user _ => after = before.act event.own
  | .timer | .forfeit | .breakpoint | .takeInput =>
    ∃ next, (before.act event.own).CanRun next ∧
      after = { before.act event.own with running := next }
  | .uart _ input =>
    (∀ number, after.thread number = before.thread number ∨
      after.thread number = (before.thread number).map (·.wake input)) ∧
      after = { before with thread := after.thread }
  | .spawn => ∃ caller threadId, before.thread before.running = some caller ∧
      after = { before.act event.own with
        thread := Function.update (before.act event.own).thread before.born
          (some (caller.child threadId))
        born := before.born + 1 }
  | .drop => ∃ next, next ≠ before.running ∧ before.CanRun next ∧
      after = { before with
        thread := Function.update before.thread before.running none
        running := next
        dropped := before.running :: before.dropped }

end Threads

/-- The call number and the subcall that an event finds in `a0` and `a1`. -/
def Event.Issued (frame : TrapFrame) : Event → Prop
  | .forfeit => frame.registers.a0 = 1 ∧ frame.registers.a1 = 0
  | .takeInput => frame.registers.a0 = 0 ∧ frame.registers.a1 = 2
  | .spawn => frame.registers.a0 = 1 ∧ frame.registers.a1 = 2
  | .drop => frame.registers.a0 = 1 ∧ frame.registers.a1 = 3
  | _ => True

/-- The cause of the trap of an event. -/
def Event.cause : Event → UInt64
  | .timer => 0x8000000000000005
  | .breakpoint => 3
  | .uart _ _ => 0x8000000000000009
  | _ => 8

/-- Events after which the thread cannot run. -/
def Event.Stops : Event → Prop
  | .breakpoint | .takeInput | .drop => True
  | _ => False

/-- The devices as an event finds them. -/
def Event.Finds (devices : Devices V) : Event → Prop
  | .uart id input => id < 64 ∧ devices = .serial id input
  | _ => True

/-- One event on the machine: user code changes registers and memory, and the kernel handles a
trap and returns. When the running thread cannot go on, another one can. -/
def Machine.Next (platform : Platform V) (before : Machine V) (event : Event) (after : Machine V) :
    Prop :=
  match event with
  | .user frame => ∃ memory, after = { before with
      frame := frame
      pmm := { before.pmm with memory := memory } }
  | event => event.Issued before.frame ∧ (event.Stops → before.OtherRuns) ∧
      ∃ devices stval, event.Finds devices ∧
        (trapHandler platform devices event.cause stval).run before = (.ok (), after)

namespace Machine

variable {s s' : Machine V} {task : TaskData}

/-- The running thread does not wait and the rest of the queue is as it was, so the kernel stays
ready over a step in user mode. -/
theorem Ready.user (ready : s.Ready) (frame : TrapFrame) (memory : Memory) :
    Ready { s with frame := frame, pmm := { s.pmm with memory := memory } } ∧
      contexts { s with frame := frame, pmm := { s.pmm with memory := memory } } =
        s.contexts.modify s.cur (·.withFrame frame) := by
  have same : contexts { s with frame := frame, pmm := { s.pmm with memory := memory } } =
      s.contexts.modify s.cur (·.withFrame frame) := s.contexts_setFrame fun _ => frame
  obtain ⟨task, entry, runs, table⟩ := ready.current
  refine ⟨⟨⟨ready.unlocked.queue, ready.unlocked.list⟩, ?_, ⟨task.withFrame frame, ?_, runs, table⟩,
    fun id member => ?_⟩, same⟩
  · rw [same, List.length_modify]
    exact ready.size
  · rw [same]
    change (s.contexts.modify s.cur (·.withFrame frame))[s.cur]? = _
    rw [List.getElem?_modify_eq, entry]
    rfl
  · rw [same]
    exact ready.waiting_modify (ready.awaited id member)

/-- The running thread has the entry before the last, and the last one can run. -/
def BeforeLast (s : Machine V) : Prop :=
  s.cur + 2 = s.contexts.length ∧ Runnable s.contexts (s.cur + 1)

/-- From the entry before the last the drop call removes the thread that made it and goes on with
the last one, which takes its place. -/
theorem Ready.drop_beforeLast (ready : s.Ready) (before : s.BeforeLast) {s₁ : Machine V}
    (switched : s.Switched TaskData.pastCall s₁) {s' : Machine V}
    (dropped : s' = s₁.setTasks ⟨swapRemove s₁.contexts s.cur, s₁.tasks.curTaskIdx - 1⟩) :
    s'.Ready ∧ s'.cur = s.cur ∧ s'.contexts = s.contexts.eraseIdx s.cur := by
  obtain ⟨last, runs⟩ := before
  have length : s₁.contexts.length = s.contexts.length := by
    rw [switched.contexts, List.length_modify]
  have moved : s₁.cur = s.cur + 1 := by
    refine switched.next.eq_succ (by omega) ?_
    rw [switched.contexts]
    exact runs.modify_ne (by omega)
  have index : s'.cur = s.cur := by
    rw [dropped]
    change (s₁.tasks.curTaskIdx - 1).toNat = s.cur
    rw [UInt64.toNat_sub_of_le _ _ (UInt64.le_iff_toNat_le.mpr (by
      rw [show s₁.tasks.curTaskIdx.toNat = s₁.cur from rfl, moved]
      exact Nat.le_add_left 1 s.cur))]
    exact Nat.sub_eq_of_eq_add moved
  have queue : s'.tasks.queue = s.contexts.eraseIdx s.cur := by
    rw [dropped, tasks_setTasks, swapRemove_before_last (by omega), switched.contexts]
    exact List.eraseIdx_modify_of_eq ..
  obtain ⟨task, entry, free, table⟩ := switched.ready.current
  have here : s'.tasks.queue[s'.cur]? = some task := by
    rw [queue, index, List.getElem?_eraseIdx_of_ge le_rfl, ← moved]
    rw [switched.contexts, List.getElem?_modify_ne _ _ (by omega)] at entry
    exact entry
  have contexts : s'.contexts = s.contexts.eraseIdx s.cur := by
    have frame : s'.frame = task.trapFrame := by
      rw [dropped]
      exact (frame_of_current entry).symm
    rw [Machine.contexts, frame, ← set_eq_modify _ here, ← queue]
    obtain ⟨bound, same⟩ := List.getElem?_eq_some_iff.mp here
    rw [← same]
    exact List.set_getElem_self bound
  refine ⟨⟨dropped ▸ switched.ready.unlocked.setTasks _, ?_, ⟨task, ?_, free, ?_⟩,
    fun id member => ?_⟩, index, contexts⟩
  · rw [contexts, List.length_eraseIdx_of_lt ready.bound]
    exact (Nat.sub_le _ _).trans ready.size
  · rw [contexts, ← queue, here]
  · rw [dropped]
    exact table
  · rw [dropped] at member
    obtain ⟨waiting, found, same, waits⟩ := switched.ready.awaited id member
    obtain ⟨k, position⟩ := List.mem_iff_getElem?.mp found
    -- the thread that made the call did not wait
    have apart : k ≠ s.cur := by
      rintro rfl
      obtain ⟨caller, entry, runs, -⟩ := ready.current
      rw [switched.contexts, List.getElem?_modify_eq, entry] at position
      rw [← Option.some.inj position] at waits
      exact absurd (runs.symm.trans waits) (by decide)
    refine ⟨waiting, ?_, same, waits⟩
    rw [contexts, ← List.eraseIdx_modify_of_eq TaskData.pastCall, ← switched.contexts]
    exact List.mem_eraseIdx_iff_getElem?.mpr ⟨k, apart, position⟩

end Machine

/-- The machine shows the threads, with their numbers in the order of the queue. -/
structure Shows (s : Machine V) (threads : Threads) (numbers : List Nat) : Prop where
  /-- The kernel is ready. -/
  ready : s.Ready
  /-- Each entry is the thread of its number; the trap frame has the registers of the running
  one. -/
  entries : Naming.Lists threads.thread numbers s.contexts
  /-- The index names the thread that runs. -/
  current : numbers[s.cur]? = some threads.running
  /-- The queue holds the threads made and not dropped, each once. -/
  exact : (numbers ++ threads.dropped).Perm (List.range threads.born)
  /-- No other thread lives. -/
  gone : ∀ number ∉ numbers, threads.thread number = none

namespace Shows

variable {s s' : Machine V} {threads : Threads} {numbers : List Nat} {platform : Platform V}

/-- No thread is in the queue twice. -/
theorem distinct (shows : Shows s threads numbers) : numbers.Nodup :=
  .of_append_left (shows.exact.nodup_iff.mpr List.nodup_range)

/-- The running thread. -/
theorem thread_running (shows : Shows s threads numbers) :
    threads.thread threads.running = s.contexts[s.cur]? := shows.entries.get shows.current

/-- The next number is not in use. -/
theorem fresh (shows : Shows s threads numbers) : threads.born ∉ numbers := fun member =>
  Nat.lt_irrefl _ (List.mem_range.mp (shows.exact.mem_iff.mp (List.mem_append_left _ member)))

/-- A step of the running thread is its step among the threads. -/
theorem act (shows : Shows s threads numbers) (own : TaskData → TaskData) :
    Naming.Lists (threads.act own).thread numbers (s.contexts.modify s.cur own) := by
  obtain ⟨task, entry, -⟩ := shows.ready.current
  rw [Threads.act, shows.thread_running, entry, ← set_eq_modify own entry]
  exact shows.entries.update shows.distinct shows.current (own task)

/-- No thread comes to life by a step of the running one. -/
theorem act_gone (shows : Shows s threads numbers) (own : TaskData → TaskData) :
    ∀ number ∉ numbers, (threads.act own).thread number = none := fun number absent => by
  have apart : number ≠ threads.running := fun same =>
    absent (same ▸ List.mem_of_getElem? shows.current)
  exact (Function.update_of_ne apart _ _).trans (shows.gone number absent)

/-- A switch is a switch of the threads. -/
theorem switch (shows : Shows s threads numbers) {own : TaskData → TaskData}
    (switched : s.Switched own s') : ∃ next, (threads.act own).CanRun next ∧
      Shows s' { threads.act own with running := next } numbers := by
  have lists := shows.act own
  rw [← switched.contexts] at lists
  have bound : s'.cur < numbers.length := lists.length ▸ switched.ready.bound
  have position : numbers[s'.cur]? = some numbers[s'.cur] := List.getElem?_eq_getElem bound
  obtain ⟨task, entry, runs, -⟩ := switched.ready.current
  exact ⟨numbers[s'.cur], ⟨task, (lists.get position).trans entry, runs⟩, switched.ready, lists,
    position, shows.exact, shows.act_gone own⟩

/-- Waking threads of the queue is waking threads. -/
theorem uart (shows : Shows s threads numbers) {input : UInt8} (ready : s'.Ready)
    (cur : s'.cur = s.cur) (woken : Woken input s.contexts s'.contexts) (id : Nat) :
    ∃ after, threads.Step (.uart id input) after ∧ Shows s' after numbers := by
  obtain ⟨thread, lists, gone⟩ := Naming.exists_lists shows.distinct
    (shows.entries.length.trans woken.length.symm)
  refine ⟨{ threads with thread := thread }, ⟨fun number => ?_, rfl⟩, ready, lists,
    cur ▸ shows.current, shows.exact, gone⟩
  by_cases member : number ∈ numbers
  · obtain ⟨k, position⟩ := List.mem_iff_getElem?.mp member
    change thread number = _ ∨ thread number = _
    rw [lists.get position, shows.entries.get position]
    exact woken k
  · exact .inl ((gone number member).trans (shows.gone number member).symm)

/-- A spawned thread is a new thread. -/
theorem spawn (shows : Shows s threads numbers) (ready : s'.Ready) (cur : s'.cur = s.cur)
    {caller : TaskData} {threadId : UInt64} (position : s.contexts[s.cur]? = some caller)
    (contexts : s'.contexts =
      s.contexts.modify s.cur TaskData.spawned ++ [caller.child threadId]) :
    ∃ after, threads.Step .spawn after ∧ Shows s' after (numbers ++ [threads.born]) := by
  refine ⟨_, ⟨caller, threadId, shows.thread_running.trans position, rfl⟩, ready, ?_, ?_, ?_, ?_⟩
  · rw [contexts]
    exact (shows.act TaskData.spawned).snoc shows.fresh (caller.child threadId)
  · rw [cur, List.getElem?_append_left (List.getElem?_eq_some_iff.mp shows.current).1]
    exact shows.current
  · change (numbers ++ [threads.born] ++ threads.dropped).Perm (List.range (threads.born + 1))
    rw [List.range_succ, List.append_assoc]
    exact (List.perm_append_comm.append_left numbers).trans
      (List.append_assoc .. ▸ shows.exact.append_right _)
  · intro number absent
    rw [List.mem_append, not_or, List.mem_singleton] at absent
    exact (Function.update_of_ne absent.2 _ _).trans (shows.act_gone _ number absent.1)

/-- A thread removed from the queue is dropped. -/
theorem drop (shows : Shows s threads numbers) (before : s.BeforeLast) (ready : s'.Ready)
    (cur : s'.cur = s.cur) (contexts : s'.contexts = s.contexts.eraseIdx s.cur) :
    ∃ after, threads.Step .drop after ∧ Shows s' after (numbers.eraseIdx s.cur) := by
  have length := shows.entries.length
  have bound : s.cur + 1 < numbers.length := by rw [length]; have := before.1; omega
  have position : numbers[s.cur + 1]? = some numbers[s.cur + 1] := List.getElem?_eq_getElem bound
  obtain ⟨task, entry, runs⟩ := before.2
  have apart : numbers[s.cur + 1] ≠ threads.running := fun same =>
    absurd (Naming.position_unique shows.distinct (same ▸ position) shows.current) (by omega)
  refine ⟨_, ⟨numbers[s.cur + 1], apart,
    ⟨task, (shows.entries.get position).trans entry, runs⟩, rfl⟩,
    ready, ?_, ?_, ?_, ?_⟩
  · rw [contexts]
    exact shows.entries.erase shows.distinct shows.current
  · rw [cur, List.getElem?_eraseIdx_of_ge le_rfl, position]
  · obtain ⟨inside, same⟩ := List.getElem?_eq_some_iff.mp shows.current
    have moved : (numbers.eraseIdx s.cur ++ threads.running :: threads.dropped).Perm
        (numbers ++ threads.dropped) := by
      rw [← same]
      exact List.perm_middle.trans ((List.getElem_cons_eraseIdx_perm inside).append_right _)
    exact moved.trans shows.exact
  · intro number absent
    by_cases gone : number = threads.running
    · rw [gone]
      exact Function.update_self ..
    · refine (Function.update_of_ne gone _ _).trans (shows.gone number fun member => absent ?_)
      obtain ⟨k, found⟩ := List.mem_iff_getElem?.mp member
      refine List.mem_eraseIdx_iff_getElem?.mpr ⟨k, fun here => gone ?_, found⟩
      exact Option.some.inj (found.symm.trans (here ▸ shows.current))

end Shows

/-- The numbers in the queue after an event. -/
def Event.renumber (cur born : Nat) (numbers : List Nat) : Event → List Nat
  | .spawn => numbers ++ [born]
  | .drop => numbers.eraseIdx cur
  | _ => numbers

/-- The machine follows the threads through every event, as long as a thread is only dropped from
the entry before the last. -/
theorem Shows.next {s s' : Machine V} {threads : Threads} {numbers : List Nat}
    {platform : Platform V} {event : Event} (shows : Shows s threads numbers)
    (next : s.Next platform event s') (careful : event = .drop → s.BeforeLast) :
    ∃ after, threads.Step event after ∧
      Shows s' after (event.renumber s.cur threads.born numbers) := by
  have same : ∀ {program : Kernel (Machine V) Unit} {first second : Machine V},
      program.run s = (.ok (), first) → program.run s = (.ok (), second) → second = first :=
    fun one other => (Prod.mk.inj (other.symm.trans one)).2
  have ready := shows.ready
  cases event with
  | user frame =>
    obtain ⟨memory, rfl⟩ := next
    obtain ⟨ready', contexts⟩ := ready.user frame memory
    exact ⟨_, rfl, ready', contexts ▸ shows.act _, shows.current, shows.exact, shows.act_gone _⟩
  | timer =>
    obtain ⟨-, -, devices, stval, -, ran⟩ := next
    obtain ⟨last, ran', switched⟩ := ready.timer platform devices stval
    obtain ⟨number, runs, shows'⟩ := shows.switch (same ran' ran ▸ switched)
    exact ⟨_, ⟨number, runs, rfl⟩, shows'⟩
  | forfeit =>
    obtain ⟨⟨root, sub⟩, -, devices, stval, -, ran⟩ := next
    obtain ⟨last, ran', switched⟩ := ready.forfeit platform devices stval root sub
    obtain ⟨number, runs, shows'⟩ := shows.switch (same ran' ran ▸ switched)
    exact ⟨_, ⟨number, runs, rfl⟩, shows'⟩
  | breakpoint =>
    obtain ⟨-, other, devices, stval, -, ran⟩ := next
    obtain ⟨last, ran', switched⟩ := ready.breakpoint platform devices stval (other trivial)
    obtain ⟨number, runs, shows'⟩ := shows.switch (same ran' ran ▸ switched)
    exact ⟨_, ⟨number, runs, rfl⟩, shows'⟩
  | takeInput =>
    obtain ⟨⟨root, sub⟩, other, devices, stval, -, ran⟩ := next
    obtain ⟨last, ran', switched⟩ :=
      ready.takeInput platform devices stval (other trivial) root sub
    obtain ⟨number, runs, shows'⟩ := shows.switch (same ran' ran ▸ switched)
    exact ⟨_, ⟨number, runs, rfl⟩, shows'⟩
  | uart id input =>
    obtain ⟨-, -, devices, stval, ⟨bound, rfl⟩, ran⟩ := next
    obtain ⟨last, ran', ready', cur, woken⟩ := ready.uart platform stval bound input
    obtain rfl := same ran' ran
    exact shows.uart ready' cur woken id
  | spawn =>
    obtain ⟨⟨root, sub⟩, -, devices, stval, -, ran⟩ := next
    obtain ⟨caller, threadId, position, -, ready', cur, contexts⟩ :=
      ready.spawn platform devices stval root sub ran
    exact shows.spawn ready' cur position contexts
  | drop =>
    obtain ⟨⟨root, sub⟩, other, devices, stval, -, ran⟩ := next
    obtain ⟨middle, switched, -, ran'⟩ :=
      ready.drop platform devices stval (other trivial) root sub
    obtain ⟨ready', cur, contexts⟩ :=
      ready.drop_beforeLast (careful rfl) switched (same ran' ran)
    exact shows.drop (careful rfl) ready' cur contexts

end Lsd
