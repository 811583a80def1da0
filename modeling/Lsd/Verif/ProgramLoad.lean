import Lsd.Verif.HeapExtension
import Lsd.Verif.ImageContent

/-!
# A load that returned

What a call of `load` that returned has done, part by part: the new root, the
loop over the program headers, the stack, and the thread that was put in the
queue. The arenas are another crate; all that is used of them is that an arena
gives out ranges of the spans that were added to it.
-/

namespace Lsd

open Program Radix

variable {V : Type} {platform : Platform V} {loader : Loader V} {bytes : List UInt8}
  {s s' : Machine V} {level : PageLevel}

/-- What the loader relies on of the arenas: a new arena has no spans, `add` adds one, and what is
allocated lies in one of them. -/
structure SpanArenas (loader : Loader V) (vmem : Vmem V)
    (spans : V → UInt64 → List (UInt64 × UInt64)) : Prop where
  /-- A new arena. -/
  new : ∀ {name : String} {quantum arena : UInt64} {before after : V},
    (loader.newArena name quantum).run before = (.ok arena, after) → spans after arena = []
  /-- A span that was added. -/
  add : ∀ {arena base size : UInt64} {before after : V},
    (loader.add arena base size).run before = (.ok (.ok ()), after) →
      spans after arena = (base, size) :: spans before arena
  /-- A range that was allocated. -/
  alloc : ∀ {arena size base : UInt64} {before after : V},
    (vmem.alloc arena size).run before = (.ok (.ok base), after) →
      ∃ span ∈ spans before arena, span.1.toNat ≤ base.toNat ∧
        base.toNat + size.toNat ≤ span.1.toNat + span.2.toNat

/-- An option that was unwrapped was there. -/
theorem unwrapSome_eq_ok {σ α : Type} {result : Option α} {value : α} {state later : σ}
    (ran : (unwrapSome result).run state = (.ok value, later)) :
    result = some value ∧ later = state := by
  cases result with
  | none =>
    rw [unwrapSome, Prog.run_stop] at ran
    cases ran
  | some found =>
    rw [unwrapSome, Prog.run_pure] at ran
    obtain ⟨same, rfl⟩ := Prod.mk.inj ran
    exact ⟨congrArg some (Except.ok.inj same), rfl⟩

/-- A thread that was added is the last of the queue, and the lock is free. -/
theorem newTask_pushes {task : TaskData} (ran : (newTask task).run s = (.ok (), s')) :
    s'.pmm = s.pmm ∧ s'.arenas = s.arenas ∧
      s'.tasks = { s.tasks with queue := s.tasks.queue ++ [task] } ∧
      s'.currentUserTask.writer = false := by
  obtain ⟨⟨⟩, locked, lock, added⟩ := Prog.run_bind_eq_ok ran
  have queue : locked.tasks = s.tasks ∧ locked.pmm = s.pmm ∧ locked.arenas = s.arenas := by
    unfold lockWrite at lock
    rw [Prog.run_bind_ok (Prog.run_read _ _)] at lock
    split at lock
    · cases lock
    · obtain ⟨-, rfl⟩ := Prod.mk.inj lock
      exact ⟨rfl, rfl, rfl⟩
  obtain ⟨⟨⟩, pushed, push, unlock⟩ := Prog.run_bind_eq_ok added
  obtain ⟨-, rfl⟩ := Prod.mk.inj unlock
  rw [TaskQueue.newTask, Prog.run_bind_ok (taskQueue_run _)] at push
  split at push
  · obtain ⟨-, rfl⟩ := Prod.mk.inj push
    exact ⟨queue.2.1, queue.2.2, congrArg (fun tasks : TaskQueue =>
      { tasks with queue := tasks.queue ++ [task] }) queue.1, rfl⟩
  · cases push

/-- The span that `load` adds for an entry of the root. -/
def entrySpan (level : PageLevel) (index : Nat) : UInt64 × UInt64 :=
  (VirtualAddress.setIndex 0 level (UInt64.ofNat index), (PageSize.fromLevel level).bytes)

/-- The loop that gives the arena of a task its spans changes the arenas only, and keeps what each
of its calls and each entry that it passes over keep. -/
theorem addSpans_induct {newTable arena : UInt64} {motive : Nat → V → Prop}
    (start : motive 1 s.arenas)
    (adds : ∀ index, 1 ≤ index → index ≤ 256 →
      PageEntry.getValid (s.pmm.memory (wordOf newTable index)) = false → ∀ before after : V,
        (loader.add arena (entrySpan level index).1 (entrySpan level index).2).run before =
          (.ok (.ok ()), after) → motive index before → motive (index + 1) after)
    (passes : ∀ index, PageEntry.getValid (s.pmm.memory (wordOf newTable index)) = true →
      ∀ before, motive index before → motive (index + 1) before)
    (ran : (addSpans loader level newTable arena).run s = (.ok (), s')) :
    s' = { s with arenas := s'.arenas } ∧ motive 257 s'.arenas := by
  have whole : s' = { s with arenas := s'.arenas } ∧
      motive ((List.range' 1 256).length + 1) s'.arenas := by
    refine Prog.run_forM_ok (fun done q => q = { s with arenas := q.arenas } ∧
      motive (done.length + 1) q.arenas) ran ⟨rfl, start⟩ ?_
    rintro done index rest parts q q' ⟨same, sofar⟩ round
    -- the entries come in the order of their indices
    have place : index = done.length + 1 ∧ index ≤ 256 := by
      have found := congrArg (·[done.length]?) parts
      have long : done.length < 256 := by
        have lengths := congrArg List.length parts
        rw [List.length_range', List.length_append, List.length_cons] at lengths
        omega
      rw [List.getElem?_range' long] at found
      simp at found
      omega
    rw [List.length_append, List.length_singleton, ← place.1]
    rw [← place.1] at sofar
    have memory : q.pmm = s.pmm := by rw [same]
    rw [Prog.run_bind_ok (Prog.run_read _ _), memory] at round
    by_cases invalid : PageEntry.getValid (s.pmm.memory (wordOf newTable index)) = false
    · rw [Prog.run_only_pos (by rw [invalid]; rfl)] at round
      obtain ⟨result, r, added, unwrapped⟩ := Prog.run_bind_eq_ok round
      obtain ⟨rfl, rfl⟩ := Machine.unwrap_eq_ok unwrapped
      obtain ⟨asked, changed⟩ := onArenas_eq_ok added
      exact ⟨by rw [changed, same], adds index (by omega) place.2 invalid _ _ asked sofar⟩
    · rw [Prog.run_only_neg (by simpa using invalid)] at round
      obtain ⟨-, rfl⟩ := Prod.mk.inj round
      exact ⟨same, passes index (by simpa using invalid) _ sofar⟩
  rwa [List.length_range'] at whole

/-- The spans are those of the entries of the root that lead nowhere. -/
theorem addSpans_eq_ok {spans : V → UInt64 → List (UInt64 × UInt64)} {newTable arena : UInt64}
    (adds : ∀ {base size : UInt64} {before after : V},
      (loader.add arena base size).run before = (.ok (.ok ()), after) →
        spans after arena = (base, size) :: spans before arena)
    (empty : spans s.arenas arena = [])
    (ran : (addSpans loader level newTable arena).run s = (.ok (), s')) :
    ∀ span ∈ spans s'.arenas arena, ∃ index, 1 ≤ index ∧
      index ≤ 256 ∧ PageEntry.getValid (s.pmm.memory (wordOf newTable index)) = false ∧
        span = entrySpan level index := by
  refine (@addSpans_induct V loader s s' level newTable arena (fun _ v =>
    ∀ span ∈ spans v arena, ∃ index, 1 ≤ index ∧ index ≤ 256 ∧
      PageEntry.getValid (s.pmm.memory (wordOf newTable index)) = false ∧
        span = entrySpan level index) ?_ ?_ (fun _ _ _ sofar => sofar) ran).2
  · rw [empty]
    simp
  · intro index one most invalid before after added sofar
    rw [adds added]
    exact List.forall_mem_cons.mpr ⟨⟨index, one, most, invalid, rfl⟩, sofar⟩

/-- What `load` does to the frame list and to memory for the stack. -/
structure StackRun (hhdm : UInt64) (level : PageLevel) (newTable stack stackVaddr : UInt64)
    (before between after : Pmm) : Prop where
  /-- Frames are claimed for it. -/
  claimed : (FreeList.claimAligned hhdm 0x800 .medium).run before = (.ok (.ok stack), between)
  /-- They are mapped. -/
  mapped : ((List.range 4).forM
    (mapStack hhdm level newTable stackVaddr (stack - hhdm))).run between =
    (.ok (), after)

/-- What is printed goes to the serial port only. -/
theorem emit_pmm (s : Machine V) (out : List UInt8) : (s.emit out).pmm = s.pmm := rfl

/-- What is printed changes no thread. -/
theorem emit_tasks (s : Machine V) (out : List UInt8) :
    (s.emit out).currentUserTask = s.currentUserTask := rfl

/-- What is printed changes no arena. -/
theorem emit_arenas (s : Machine V) (out : List UInt8) : (s.emit out).arenas = s.arenas := rfl

/-- The loop that maps the stack says what it does before each round. -/
theorem stackLoop_eq_ok {newTable stackVaddr stackPaddr : UInt64} {indices : List Nat}
    (ran : (indices.forM fun i => do
      let virt := hex (stackVaddr + UInt64.ofNat (i * 0x200000))
      let phys := hex (stackPaddr + UInt64.ofNat (i * 0x200000))
      print ("Mapping " ++ virt ++ " to " ++ phys ++ "\n")
      onPmm (mapStack platform.hhdmOffset level newTable stackVaddr stackPaddr i)).run s =
        (.ok (), s')) :
    (indices.forM (mapStack platform.hhdmOffset level newTable stackVaddr stackPaddr)).run s.pmm =
      (.ok (), s'.pmm) ∧ s'.currentUserTask = s.currentUserTask ∧ s'.arenas = s.arenas := by
  induction indices generalizing s with
  | nil =>
    obtain ⟨-, rfl⟩ := Prod.mk.inj ran
    exact ⟨rfl, rfl, rfl⟩
  | cons i rest ih =>
    obtain ⟨middle, round, later⟩ := Prog.run_forM_cons_eq_ok ran
    obtain ⟨⟨⟩, noted, said, moved⟩ := Prog.run_bind_eq_ok round
    obtain ⟨-, noted_eq⟩ := Prod.mk.inj ((Machine.print_run _ _).symm.trans said)
    obtain ⟨mapped, same⟩ := Machine.onPmm_eq_ok moved
    obtain ⟨loop, tasks, arenas⟩ := ih later
    have pmm : noted.pmm = s.pmm := by rw [← noted_eq, emit_pmm]
    have held : middle.currentUserTask = noted.currentUserTask := by rw [same]
    have left : middle.arenas = noted.arenas := by rw [same]
    rw [pmm] at mapped
    refine ⟨(Prog.run_bind_ok mapped).trans loop, ?_, ?_⟩
    · rw [tasks, held, ← noted_eq, emit_tasks]
    · rw [arenas, left, ← noted_eq, emit_arenas]

/-- The part of `load` that gives the program its stack. -/
theorem loadStack_eq_ok {newTable arena stackVaddr : UInt64}
    (ran : (loadStack platform level newTable arena).run s = (.ok stackVaddr, s')) :
    (∃ stack between, StackRun platform.hhdmOffset level newTable stack stackVaddr s.pmm between
        s'.pmm) ∧
      (platform.vmem.alloc arena 0x800000).run s.arenas = (.ok (.ok stackVaddr), s'.arenas) ∧
      s'.currentUserTask = s.currentUserTask := by
  obtain ⟨result, first, claim, afterClaim⟩ := Prog.run_bind_eq_ok ran
  obtain ⟨claimed, first_eq⟩ := Machine.onPmm_eq_ok claim
  obtain ⟨stack, _, unwrapped, afterUnwrap⟩ := Prog.run_bind_eq_ok afterClaim
  obtain ⟨rfl, same⟩ := Machine.unwrap_eq_ok unwrapped
  rw [same] at afterUnwrap
  obtain ⟨vaddr, second, asked, afterAlloc⟩ := Prog.run_bind_eq_ok afterUnwrap
  obtain ⟨arenas, served, second_eq⟩ := Machine.allocFrom_eq_ok asked
  obtain ⟨⟨⟩, third, said, afterPrint⟩ := Prog.run_bind_eq_ok afterAlloc
  obtain ⟨-, third_eq⟩ := Prod.mk.inj ((Machine.print_run _ _).symm.trans said)
  obtain ⟨⟨⟩, fourth, looped, last⟩ := Prog.run_bind_eq_ok afterPrint
  obtain ⟨vaddr_eq, rfl⟩ := Prod.mk.inj last
  obtain rfl := Except.ok.inj vaddr_eq
  obtain ⟨maps, tasks, kept⟩ := stackLoop_eq_ok looped
  have pmm : third.pmm = first.pmm := by rw [← third_eq, emit_pmm, second_eq]
  have arenasFirst : first.arenas = s.arenas := by rw [first_eq]
  have tasksThird : third.currentUserTask = s.currentUserTask := by
    have held : second.currentUserTask = first.currentUserTask := by rw [second_eq]
    rw [← third_eq, emit_tasks, held, first_eq]
  refine ⟨⟨stack, first.pmm, claimed, ?_⟩, ?_, tasks.trans tasksThird⟩
  · rw [← pmm]
    exact maps
  · have last : fourth.arenas = arenas := by rw [kept, ← third_eq, emit_arenas, second_eq]
    rw [last, ← arenasFirst]
    exact served

/-- The first thread of a new program. -/
structure NewThread (hhdm : UInt64) (level : PageLevel) (elf : ElfBytes) (satp : Satp)
    (root stackVaddr taskId : UInt64) (task : TaskData) : Prop where
  /-- It begins at the entry of the file, with its stack and its number. -/
  frame : task.trapFrame = ⟨elf.eEntry,
    { (default : GeneralRegisters) with sp := stackVaddr, a0 := taskId }⟩
  /-- It runs on the new root. -/
  table : task.taskTable = newSatp hhdm level satp root
  /-- It is a user's. -/
  privilege : task.privilege = .user
  /-- It waits on nothing. -/
  waiting : task.waitingOn = .none
  /-- Its task has the number that is returned. -/
  number : task.taskId = taskId

/-- What `load` asks of the arenas for a new task: one for its addresses, with the spans of the
entries of the root that lead nowhere, which gives the stack, and one for the numbers of its
threads. -/
structure ArenaSteps (platform : Platform V) (loader : Loader V)
    (newTable arena threads stackVaddr : UInt64) (made filled : Machine V) (given last : V) :
    Prop where
  /-- The arena is made. -/
  begun : ∃ before, (loader.newArena "task_vmm" 4096).run before = (.ok arena, made.arenas)
  /-- It gets its spans. -/
  spanned : (addSpans loader (.fromUsize platform.levels) newTable arena).run made =
    (.ok (), filled)
  /-- It gives the stack. -/
  gave : (platform.vmem.alloc arena 0x800000).run filled.arenas = (.ok (.ok stackVaddr), given)
  /-- The other one is made, gets its span and gives the first number. -/
  threads : ∃ middle later thread,
    (loader.newArena "task_thread_manager" 1).run given = (.ok threads, middle) ∧
      (loader.add threads 0 0xffffffffffffffff).run middle = (.ok (.ok ()), later) ∧
      (platform.vmem.alloc threads 1).run later = (.ok (.ok thread), last)

/-- The steps of a call of `load` that returned. -/
structure LoadSteps (platform : Platform V) (loader : Loader V) (bytes : List UInt8)
    (s s' : Machine V) (elf : ElfBytes) (table : List ProgramHeader)
    (newTable stack stackVaddr taskId : UInt64) (fresh image between : Pmm) (task : TaskData) :
    Prop where
  /-- The file was parsed. -/
  parsed : loader.minimalParse bytes = .ok elf ∧ elf.segments = some table
  /-- A new root was made. -/
  root : (newWithUpperhalf platform.hhdmOffset s.satp).run s.pmm = (.ok newTable, fresh)
  /-- The segments were loaded. -/
  segments : (table.forM (loadSegment platform.hhdmOffset (.fromUsize platform.levels) bytes
    newTable)).run fresh = (.ok (), image)
  /-- The arenas of the task were made. -/
  arenas : ∃ made filled given, made.pmm = image ∧
    ArenaSteps platform loader newTable task.vmm task.threadManager stackVaddr made filled given
      s'.arenas
  /-- The stack was mapped. -/
  stackRun : StackRun platform.hhdmOffset
    (.fromUsize platform.levels) newTable stack stackVaddr image
    between s'.pmm
  /-- A thread was added to the queue, as the last one. -/
  pushed : s'.tasks = { s.tasks with queue := s.tasks.queue ++ [task] }
  /-- It has the new table and the stack. -/
  thread : NewThread platform.hhdmOffset (.fromUsize platform.levels) elf s.satp newTable stackVaddr
    taskId task
  /-- The lock of the queue is free. -/
  unlocked : s'.currentUserTask.writer = false

/-- The steps of a call of `load` that returned. -/
theorem load_steps {taskId : UInt64}
    (ran : (load platform loader bytes).run s = (.ok taskId, s')) :
    ∃ elf table newTable stack stackVaddr fresh image between task,
      LoadSteps platform loader bytes s s' elf table newTable stack stackVaddr taskId fresh image
        between task := by
  obtain ⟨elf, _, parse, afterParse⟩ := Prog.run_bind_eq_ok ran
  obtain ⟨parsed, same₁⟩ := Machine.unwrap_eq_ok parse
  rw [same₁] at afterParse
  obtain ⟨table, _, headers, afterTable⟩ := Prog.run_bind_eq_ok afterParse
  obtain ⟨listed, same₂⟩ := unwrapSome_eq_ok headers
  rw [same₂, Prog.run_bind_ok (Prog.run_read _ _)] at afterTable
  obtain ⟨newTable, s₁, imageRan, afterImage⟩ := Prog.run_bind_eq_ok afterTable
  obtain ⟨loaded, s₁_eq⟩ := Machine.onPmm_eq_ok imageRan
  obtain ⟨root, fresh, rootRan, segmentsRan⟩ := Prog.run_bind_eq_ok loaded
  obtain ⟨⟨⟩, _, segments, last⟩ := Prog.run_bind_eq_ok segmentsRan
  obtain ⟨root_eq, image_eq⟩ := Prod.mk.inj last
  obtain rfl := Except.ok.inj root_eq
  rw [image_eq] at segments
  obtain ⟨number, s₂, numbered, afterNumber⟩ := Prog.run_bind_eq_ok afterImage
  obtain ⟨arenas₂, -, s₂_eq⟩ := Machine.allocFrom_eq_ok numbered
  obtain ⟨arena, s₃, made, afterArena⟩ := Prog.run_bind_eq_ok afterNumber
  obtain ⟨asked, s₃_eq⟩ := onArenas_eq_ok made
  obtain ⟨⟨⟩, s₄, spanned, afterSpans⟩ := Prog.run_bind_eq_ok afterArena
  obtain ⟨s₄_eq, -⟩ := @addSpans_induct _ _ _ _ _ _ _ (fun _ _ => True) trivial
    (fun _ _ _ _ _ _ _ _ => trivial) (fun _ _ _ _ => trivial) spanned
  obtain ⟨stackVaddr, s₅, stacked, afterStack⟩ := Prog.run_bind_eq_ok afterSpans
  obtain ⟨⟨stack, between, stackRun⟩, gave, tasks₅⟩ := loadStack_eq_ok stacked
  obtain ⟨threads, s₆, threadsMade, afterThreads⟩ := Prog.run_bind_eq_ok afterStack
  obtain ⟨askedThreads, s₆_eq⟩ := onArenas_eq_ok threadsMade
  obtain ⟨added, s₇, threadSpan, afterAdd⟩ := Prog.run_bind_eq_ok afterThreads
  obtain ⟨addedThreads, s₇_eq⟩ := onArenas_eq_ok threadSpan
  obtain ⟨⟨⟩, _, addedOk, afterAdded⟩ := Prog.run_bind_eq_ok afterAdd
  obtain ⟨rfl, same₃⟩ := Machine.unwrap_eq_ok addedOk
  rw [same₃] at afterAdded
  obtain ⟨firstId, s₈, threadRan, afterThread⟩ := Prog.run_bind_eq_ok afterAdded
  obtain ⟨arenas₈, gaveThread, s₈_eq⟩ := Machine.allocFrom_eq_ok threadRan
  rw [Prog.run_bind_ok (Machine.print_run _ _)] at afterThread
  obtain ⟨⟨⟩, s₉, pushRan, final⟩ := Prog.run_bind_eq_ok afterThread
  obtain ⟨pmm₉, arenas₉, pushed, unlocked⟩ := newTask_pushes pushRan
  obtain ⟨same_id, rfl⟩ := Prod.mk.inj final
  obtain rfl := Except.ok.inj same_id
  have pmm₃ : s₃.pmm = s₁.pmm := by rw [s₃_eq, s₂_eq]
  have pmm₄ : s₄.pmm = s₁.pmm := by rw [s₄_eq, ← pmm₃]
  have pmm₈ : s₉.pmm = s₅.pmm := by
    rw [pmm₉]
    change s₈.pmm = _
    rw [s₈_eq, s₇_eq, s₆_eq]
  have tasks₁ : s₁.currentUserTask = s.currentUserTask := by rw [s₁_eq]
  have tasks₄ : s₄.currentUserTask = s.currentUserTask := by rw [s₄_eq, s₃_eq, s₂_eq, ← tasks₁]
  have tasks₈ : s₈.currentUserTask = s.currentUserTask := by
    rw [s₈_eq, s₇_eq, s₆_eq, ← tasks₄, ← tasks₅]
  have queue : s₈.tasks = s.tasks := congrArg (fun lock => lock.value) tasks₈
  have later : s₉.arenas = arenas₈ := by
    rw [arenas₉]
    change s₈.arenas = _
    rw [s₈_eq]
  obtain ⟨task, queued, thread, rfl, rfl⟩ : ∃ task, s₉.tasks =
      { s.tasks with queue := s.tasks.queue ++ [task] } ∧
        NewThread platform.hhdmOffset (.fromUsize platform.levels) elf s.satp root stackVaddr number
          task ∧ task.vmm = arena ∧ task.threadManager = threads :=
    ⟨_, queue ▸ pushed, ⟨rfl, rfl, rfl, rfl, rfl⟩, rfl, rfl⟩
  refine ⟨elf, table, root, stack, stackVaddr, fresh, s₁.pmm, between, task, ?_⟩
  constructor
  case parsed => exact ⟨parsed, listed⟩
  case root => exact rootRan
  case segments => exact segments
  case arenas =>
    exact ⟨s₃, s₄, s₅.arenas, pmm₃, ⟨_, asked⟩, spanned, gave, s₆.arenas, s₇.arenas, firstId,
      askedThreads, addedThreads, later ▸ gaveThread⟩
  case stackRun =>
    rw [pmm₈, ← pmm₄]
    exact stackRun
  case pushed => exact queued
  case thread => exact thread
  case unlocked => exact unlocked

/-- The parts of a call of `load` that returned. -/
structure LoadParts (platform : Platform V) (loader : Loader V) (bytes : List UInt8)
    (s s' : Machine V)
    (elf : ElfBytes) (table : List ProgramHeader) (newTable stack stackVaddr taskId : UInt64)
    (index : Nat) (fresh image between : Pmm) : Prop where
  /-- The file was parsed. -/
  parsed : loader.minimalParse bytes = .ok elf ∧ elf.segments = some table
  /-- A new root was made. -/
  root : (newWithUpperhalf platform.hhdmOffset s.satp).run s.pmm = (.ok newTable, fresh)
  /-- The segments were loaded. -/
  segments : (table.forM (loadSegment platform.hhdmOffset (.fromUsize platform.levels) bytes
    newTable)).run fresh = (.ok (), image)
  /-- The stack was mapped. -/
  stackRun : StackRun platform.hhdmOffset
    (.fromUsize platform.levels) newTable stack stackVaddr image
    between s'.pmm
  /-- It lies under an entry of the root with an index from 1 to 256. -/
  bounds : 1 ≤ index ∧ index ≤ 256
  /-- That entry was not valid. -/
  invalid : PageEntry.getValid (image.memory (wordOf newTable index)) = false
  /-- The stack lies in its span. -/
  inside : (entrySpan (.fromUsize platform.levels) index).1.toNat ≤ stackVaddr.toNat ∧
    stackVaddr.toNat + 0x800000 ≤ (entrySpan (.fromUsize platform.levels) index).1.toNat +
      (entrySpan (.fromUsize platform.levels) index).2.toNat
  /-- A thread with the new table and the stack is the last of the queue. -/
  pushed : ∃ task, s'.tasks = { s.tasks with queue := s.tasks.queue ++ [task] } ∧
    NewThread platform.hhdmOffset (.fromUsize platform.levels) elf s.satp newTable stackVaddr taskId
      task
  /-- The lock of the queue is free. -/
  unlocked : s'.currentUserTask.writer = false

/-- The parts of a call of `load` that returned, where the arenas give what was added to them. -/
theorem load_eq_ok {spans : V → UInt64 → List (UInt64 × UInt64)} {taskId : UInt64}
    (served : SpanArenas loader platform.vmem spans)
    (ran : (load platform loader bytes).run s = (.ok taskId, s')) :
    ∃ elf table newTable stack stackVaddr index fresh image between,
      LoadParts platform loader bytes s s' elf table newTable stack stackVaddr taskId
        index fresh image
        between := by
  obtain ⟨elf, table, root, stack, stackVaddr, fresh, image, between, task, steps⟩ := load_steps ran
  obtain ⟨made, filled, _, pmm, ⟨before, begun⟩, spanned, gave, -⟩ := steps.arenas
  have found := addSpans_eq_ok (fun added => served.add added) (served.new begun) spanned
  obtain ⟨span, member, low, high⟩ := served.alloc gave
  obtain ⟨index, one, last, invalid, rfl⟩ := found span member
  exact ⟨elf, table, root, stack, stackVaddr, index, fresh, image, between, steps.parsed,
    steps.root, steps.segments, steps.stackRun, ⟨one, last⟩, pmm ▸ invalid, ⟨low, high⟩,
    ⟨task, steps.pushed, steps.thread⟩, steps.unlocked⟩

/-- What loading a program has nothing to do with: the registers of the hart and the input list. -/
def Machine.control (s : Machine V) : Satp × TrapFrame × UInt64 × Mutex (List UInt64) :=
  (s.satp, s.frame, s.sstatus, s.inputAwaitList)

/-- Printing does not touch them. -/
theorem keeps_control_print (text : String) :
    Prog.Keeps Machine.control (print text : Kernel (Machine V) Unit) :=
  .forM fun _ _ => .update fun _ => rfl

/-- Nor does a result. -/
theorem keeps_control_unwrap {α : Type} (result : Except String α) {debug : String → String} :
    Prog.Keeps Machine.control (unwrap result debug : Kernel (Machine V) α) := by
  cases result with
  | ok value => exact .pure value
  | error message => exact .stop _

/-- Nor do the arenas. -/
theorem keeps_control_allocFrom (platform : Platform V) (arena size : UInt64) :
    Prog.Keeps Machine.control (allocFrom platform arena size) :=
  .bind (fun _ => rfl) fun result => keeps_control_unwrap result

/-- Nor does a new thread. -/
theorem keeps_control_newTask (task : TaskData) :
    Prog.Keeps Machine.control (newTask task : Kernel (Machine V) Unit) := by
  refine .bind (lockWrite_keeps fun _ _ => rfl) fun _ => .bind ?_ fun _ =>
    unlockWrite_keeps fun _ _ => rfl
  exact .bind (.read _) fun _ => .ite (.update fun _ => rfl) (.stop _)

/-- Nor does the loop that gives an arena its spans. -/
theorem keeps_control_addSpans (loader : Loader V) (level : PageLevel) (newTable arena : UInt64) :
    Prog.Keeps Machine.control (addSpans loader level newTable arena) :=
  .forM fun _ _ => .bind (.read _) fun _ =>
    .ite (.bind (fun _ => rfl) fun added => keeps_control_unwrap added) (.pure ())

/-- Nor does the part of `load` that gives the program its stack. -/
theorem keeps_control_loadStack (platform : Platform V) (level : PageLevel)
    (newTable arena : UInt64) : Prog.Keeps Machine.control
    (loadStack platform level newTable arena) := by
  refine .bind (fun _ => rfl) fun result => .bind (keeps_control_unwrap result) fun stack => ?_
  refine .bind (keeps_control_allocFrom platform arena _) fun vaddr => ?_
  refine .bind (keeps_control_print _) fun _ => .bind (.forM fun i _ => ?_) fun _ => .pure _
  exact .bind (keeps_control_print _) fun _ _ => rfl

/-- Loading a program keeps the registers of the hart and the input list. -/
theorem load_keeps (platform : Platform V) (loader : Loader V) (bytes : List UInt8) :
    Prog.Keeps Machine.control (load platform loader bytes) := by
  refine .bind (keeps_control_unwrap _) fun elf => .bind ?_ fun table => ?_
  · cases elf.segments with
    | some table => exact .pure table
    | none => exact .stop _
  · refine .bind (.read _) fun satp => .bind (fun _ => rfl) fun root => ?_
    refine .bind (keeps_control_allocFrom platform _ _) fun taskId => ?_
    refine .bind (fun _ => rfl) fun arena => .bind (keeps_control_addSpans loader _ _ _) fun _ => ?_
    refine .bind (keeps_control_loadStack platform _ _ _) fun stackVaddr => ?_
    refine .bind (fun _ => rfl) fun threads => .bind (fun _ => rfl) fun added => ?_
    refine .bind (keeps_control_unwrap added) fun _ => ?_
    refine .bind (keeps_control_allocFrom platform _ _) fun threadId => ?_
    refine .bind (keeps_control_print _) fun _ => .bind (keeps_control_newTask _) fun _ => .pure _

end Lsd
