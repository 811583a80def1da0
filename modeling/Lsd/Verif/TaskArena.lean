import Lsd.Lib.Transition
import Lsd.Verif.LoaderSteps
import Lsd.Verif.ProgramSpace

/-!
# The arena of a task

`load` gives the arena of a new task the spans of those entries of the root that
lead nowhere once the segments are mapped. So the stack, and whatever the arena
gives later, lies under entries of the user's half that no segment uses, whatever
else is asked of the arenas in the meantime.

This is for copies that stay inside the frames of their segments. `load` claims
frames for `p_memsz` bytes and copies `p_filesz` bytes, and nothing compares the
two. The file at the end has sixteen bytes too many, which erase the entry of its
first segment in the root, and its stack is put at the address of that segment.
-/

namespace Lsd

open Program Radix Placement Transition

variable {V : Type} {platform : Platform V} {loader : Loader V}

/-- What the kernel relies on of arenas: they have the spans that were added to them, and what they
give lies inside these. -/
structure HonestArenas (loader : Loader V) (vmem : Vmem V)
    (spans : V → UInt64 → List (UInt64 × UInt64)) : Prop where
  /-- A new arena has no spans, and the others keep theirs. -/
  new : ∀ {name : String} {quantum arena : UInt64} {before after : V},
    (loader.newArena name quantum).run before = (.ok arena, after) →
      spans after = Function.update (spans before) arena []
  /-- A span is added to one arena. -/
  add : ∀ {arena base size : UInt64} {before after : V},
    (loader.add arena base size).run before = (.ok (.ok ()), after) →
      spans after = Function.update (spans before) arena ((base, size) :: spans before arena)
  /-- Allocating adds nothing. -/
  alloc : ∀ {arena size base : UInt64} {before after : V},
    (vmem.alloc arena size).run before = (.ok (.ok base), after) → spans after = spans before
  /-- What is allocated was added. -/
  inside : ∀ {arena size base : UInt64} {before after : V},
    (vmem.alloc arena size).run before = (.ok (.ok base), after) →
      ∀ offset < size.toNat, ∃ span ∈ spans before arena, span.1.toNat ≤ base.toNat + offset ∧
        base.toNat + offset < span.1.toNat + span.2.toNat

/-- A call that the kernel makes of the arenas. One that fails is the last one, as each result is
unwrapped. -/
inductive ArenaCall where
  /-- `Vmem::new`. -/
  | new (name : String) (quantum arena : UInt64)
  /-- `Vmem::add`. -/
  | add (arena base size : UInt64)
  /-- `Vmem::alloc`. -/
  | alloc (arena size base : UInt64)

/-- What a call does. -/
def ArenaCall.Does (loader : Loader V) (vmem : Vmem V) (before : V) : ArenaCall → V → Prop
  | .new name quantum arena, after =>
    (loader.newArena name quantum).run before = (.ok arena, after)
  | .add arena base size, after => (loader.add arena base size).run before = (.ok (.ok ()), after)
  | .alloc arena size base, after => (vmem.alloc arena size).run before = (.ok (.ok base), after)

/-- Whether a call is made for other arenas, or allocates. `load` makes the arena of a task and adds
to it before it puts the task in the queue, and from then on nothing does. -/
def ArenaCall.Spares (vmm : UInt64) : ArenaCall → Prop
  | .new _ _ arena => arena ≠ vmm
  | .add arena _ _ => arena ≠ vmm
  | .alloc _ _ _ => True

section Calls

variable {spans : V → UInt64 → List (UInt64 × UInt64)} {vmm : UInt64} {before after : V}
  {vmem : Vmem V} {call : ArenaCall} {calls : List ArenaCall}

/-- Such a call leaves an arena its spans. -/
theorem HonestArenas.step (honest : HonestArenas loader vmem spans) (spares : call.Spares vmm)
    (does : call.Does loader vmem before after) : spans after vmm = spans before vmm := by
  cases call with
  | new name quantum arena => rw [honest.new does, Function.update_of_ne (Ne.symm spares)]
  | add arena base size => rw [honest.add does, Function.update_of_ne (Ne.symm spares)]
  | alloc arena size base => rw [honest.alloc does]

/-- So do such calls one after the other. -/
theorem HonestArenas.run (honest : HonestArenas loader vmem spans)
    (run : Run (ArenaCall.Does loader vmem) before calls after)
    (spare : ∀ call ∈ calls, call.Spares vmm) : spans after vmm = spans before vmm := by
  induction run with
  | nil => rfl
  | snoc _ does ih =>
    have same := ih fun call member => spare call (List.mem_append_left _ member)
    exact (honest.step (spare _ (by simp)) does).trans same

end Calls

/-- Whether an address lies in the user's half, under an entry of the root that no page of a file
lies under. -/
structure BesideImage (height : Nat) (table : List ProgramHeader) (virt : VirtualAddress) :
    Prop where
  /-- It lies in the user's half. -/
  lower : virt.path (height + 1) < 256
  /-- No page of the file shares its entry. -/
  apart : ∀ page ∈ imagePages table, virt.path (height + 1) ≠ page.path (height + 1)

section Slots

variable {height extra index : Nat} {pages more : Set UInt64} {nodes : List UInt64}
  {bytes : List UInt8} {elf : ElfBytes} {table : List ProgramHeader} {s s' : Machine V}
  {taskId root : UInt64} {left : Nat} {fresh image : Pmm} {segments : List Segment}
  {known : Set Nat} {virt : VirtualAddress}

/-- An entry of the root from 1 to 256 that leads nowhere after the segments were mapped is one of
the user's half that no segment uses, if the direct map is under entry 256. -/
theorem ImageLaid.beside
    (laid : ImageLaid platform height bytes nodes pages s table root left fresh image segments more
      known)
    (direct : PageEntry.getValid
      (s.pmm.memory (wordOf (currentTable platform.hhdmOffset s.satp) 256)) = true)
    (most : index ≤ 256)
    (invalid : PageEntry.getValid (image.memory (wordOf root index)) = false)
    (here : virt.path (height + 1) = index) : BesideImage height table virt := by
  constructor
  case lower =>
    rw [here]
    refine lt_of_le_of_ne most ?_
    rintro rfl
    have still := laid.loaded.laid.valid 256 (by decide) (laid.valid 256 ⟨le_rfl, by decide⟩ direct)
    rw [invalid] at still
    cases still
  case apart =>
    intro page listed same
    obtain ⟨placement, member, rfl⟩ := List.mem_map.mp
      ((@imagePlacements_pages platform.hhdmOffset _ _ laid.headers).symm.subset listed)
    -- an address under this entry comes to no leaf, but the page was mapped
    have nowhere : leafOf platform.hhdmOffset image.memory (height + 1) root placement.page =
        none := leafOf_invalid (same.symm.trans here ▸ invalid)
    rw [laid.loaded.laid.walks placement.page (laid.loaded.laid.tops placement member)] at nowhere
    have covers : placement.Covers (height + 1) placement.page := fun _ _ _ => rfl
    obtain ⟨_, _, _, found⟩ := leafAfter_covered member covers
    rw [nowhere] at found
    cases found

/-- The arena of a new task has the spans of entries that lead nowhere, and keeps them when the
other one is made. -/
theorem LoadSteps.spans {spans : V → UInt64 → List (UInt64 × UInt64)}
    {stack stackVaddr : UInt64} {between : Pmm} {task : TaskData}
    (honest : HonestArenas loader platform.vmem spans)
    (steps : LoadSteps platform loader bytes s s' elf table root stack stackVaddr taskId fresh image
      between task) :
    ∃ filled given, (platform.vmem.alloc task.vmm 0x800000).run filled =
        (.ok (.ok stackVaddr), given) ∧
      (∀ span ∈ spans filled task.vmm, ∃ index, 1 ≤ index ∧ index ≤ 256 ∧
        PageEntry.getValid (image.memory (wordOf root index)) = false ∧
          span = entrySpan (.fromUsize platform.levels) index) ∧
      (task.threadManager ≠ task.vmm → spans s'.arenas task.vmm = spans filled task.vmm) := by
  obtain ⟨made, filled, given, pmm, ⟨before, begun⟩, spanned, gave, threads⟩ := steps.arenas
  obtain ⟨middle, later, thread, newArena, added, asked⟩ := threads
  have found : ∀ span ∈ spans filled.arenas task.vmm, ∃ index, 1 ≤ index ∧ index ≤ 256 ∧
      PageEntry.getValid (made.pmm.memory (wordOf root index)) = false ∧
        span = entrySpan (.fromUsize platform.levels) index := by
    refine addSpans_eq_ok (fun asked => ?_) ?_ spanned
    · rw [honest.add asked, Function.update_self]
    · rw [honest.new begun, Function.update_self]
  refine ⟨filled.arenas, given, gave, pmm ▸ found, fun apart => ?_⟩
  have run : Run (ArenaCall.Does loader platform.vmem) given
      [.new "task_thread_manager" 1 task.threadManager,
        .add task.threadManager 0 0xffffffffffffffff, .alloc task.threadManager 1 thread]
      s'.arenas :=
    .snoc (.snoc (.snoc (.nil given) newArena) added) asked
  rw [honest.run run (by simpa [ArenaCall.Spares] using apart), honest.alloc gave]

/-- An address of the span of an entry lies under it. -/
theorem path_inSpan {level : PageLevel} {base : UInt64} {offset : Nat}
    (at_height : level.asUsize = height + 1) (most : index ≤ 256)
    (low : (entrySpan level index).1.toNat ≤ base.toNat + offset)
    (high : base.toNat + offset <
      (entrySpan level index).1.toNat + (entrySpan level index).2.toNat) :
    VirtualAddress.path (base + UInt64.ofNat offset) (height + 1) = index := by
  have small := entrySpan_bound at_height most
  have place : (base + UInt64.ofNat offset).toNat = base.toNat + offset := by
    rw [UInt64.toNat_add, UInt64.toNat_ofNat']
    omega
  exact path_of_entrySpan at_height (Nat.lt_of_le_of_lt most (by decide)) (place ▸ low)
    (place ▸ high)

/-- Whether a call of `map` for an address, through a root over trees and with enough frames, leaves
the pages of a file and the kernel's half where they are. -/
def MapsAside (hhdm : UInt64) (level : PageLevel) (height : Nat) (table : List ProgramHeader)
    (root : UInt64) (virt : VirtualAddress) : Prop :=
  ∀ (phys : PhysicalAddress) (target : PageLevel) (flags : PageFlags) (known : Set Nat)
    (used : Set UInt64) (p p' : Pmm), flags.Maps → 1 ≤ target.asUsize → target.asUsize ≤ height →
    RootTree hhdm known used height root p.memory → Stocked hhdm height used p →
    (map hhdm root virt phys level target flags).run p = (.ok (), p') →
    ∀ other : VirtualAddress, (256 ≤ other.path (height + 1) ∨
        ∃ page ∈ imagePages table, page.path (height + 1) = other.path (height + 1)) →
      leafOf hhdm p'.memory (height + 1) root other = leafOf hhdm p.memory (height + 1) root other

/-- So it is for an address beside the image. -/
theorem BesideImage.mapsAside {hhdm : UInt64} {level : PageLevel}
    (beside : BesideImage height table virt) (mapAligned : hhdm % 4096 = 0)
    (at_height : level.asUsize = height + 1) : MapsAside hhdm level height table root virt := by
  intro phys target flags known used p p' maps positive reach tree stocked ran other elsewhere
  obtain ⟨nodes, stock, enough⟩ := stocked
  have supplied : Stocked hhdm (height + 0) used p := ⟨nodes, stock, enough⟩
  refine tree.map_aside (stocked_source hhdm) mapAligned maps positive at_height reach
    stock.pagesAligned supplied ran ?_
  intro same
  rcases elsewhere with upper | ⟨page, listed, top⟩
  · have lower := beside.lower
    omega
  · exact beside.apart page listed (same.symm.trans top.symm)

end Slots

section Load

variable {height extra : Nat} {pages : Set UInt64} {nodes : List UInt64} {bytes : List UInt8}
  {elf : ElfBytes} {table : List ProgramHeader} {s s' : Machine V} {taskId : UInt64}
  {spans : V → UInt64 → List (UInt64 × UInt64)}

/-- The stack of a new program, and all that its arena gives later, lies under entries of the user's
half that no segment uses, where the copies of `load` stay inside the frames that were claimed for
them. So mapping it replaces no page of a segment and none of the kernel. -/
theorem arena_beside_image (honest : HonestArenas loader platform.vmem spans)
    (call : LoadCall platform loader height extra pages nodes bytes elf table s taskId s')
    (direct : PageEntry.getValid
      (s.pmm.memory (wordOf (currentTable platform.hhdmOffset s.satp) 256)) = true) :
    ∃ task, s'.tasks = { s.tasks with queue := s.tasks.queue ++ [task] } ∧
      task.taskId = taskId ∧
      (∀ offset < 0x800000,
        BesideImage height table (task.trapFrame.registers.sp + UInt64.ofNat offset)) ∧
      (task.threadManager ≠ task.vmm →
        ∀ calls last, Run (ArenaCall.Does loader platform.vmem) s'.arenas calls last →
          (∀ call ∈ calls, call.Spares task.vmm) → ∀ size base after,
            (platform.vmem.alloc task.vmm size).run last = (.ok (.ok base), after) →
              ∀ offset < size.toNat, BesideImage height table (base + UInt64.ofNat offset)) ∧
      ∀ virt, BesideImage height table virt →
        MapsAside platform.hhdmOffset (.fromUsize platform.levels) height table
          (currentTable platform.hhdmOffset task.taskTable) virt := by
  obtain ⟨ready, parsed, listed, followed, enough, ran⟩ := call
  obtain ⟨found, headers, root, stack, stackVaddr, fresh, image, between, task, steps⟩ :=
    load_steps ran
  obtain ⟨same, inside⟩ := steps.parsed
  obtain rfl : elf = found := Except.ok.inj (parsed.symm.trans same)
  obtain rfl : table = headers := Option.some.inj (listed.symm.trans inside)
  obtain ⟨segments, more, known, laid⟩ :=
    image_lays ready followed enough steps.root steps.segments
  obtain ⟨filled, given, gave, only, kept⟩ := steps.spans honest
  -- whatever lies in a span of the arena lies under a free entry
  have inSpan : ∀ {base offset}, (∃ span ∈ spans filled task.vmm,
      span.1.toNat ≤ UInt64.toNat base + offset ∧
        base.toNat + offset < span.1.toNat + span.2.toNat) →
      BesideImage height table (base + UInt64.ofNat offset) := by
    rintro base offset ⟨span, member, low, high⟩
    obtain ⟨index, -, most, invalid, rfl⟩ := only span member
    exact laid.beside direct most invalid (path_inSpan ready.levels most low high)
  refine ⟨task, steps.pushed, steps.thread.number, fun offset bound => ?_,
    fun apart calls last run spare size base after asked offset bound => ?_, fun virt beside =>
      beside.mapsAside ready.mapAligned ready.levels⟩
  · have sp : task.trapFrame.registers.sp = stackVaddr := by rw [steps.thread.frame]
    rw [sp]
    exact inSpan (honest.inside gave offset bound)
  · have added := honest.inside asked offset bound
    rw [honest.run run spare, kept apart] at added
    exact inSpan added

end Load

section Sample

/-- The spans when those of one arena are set. -/
theorem SampleArenas.spans_set (arenas : SampleArenas) (arena : UInt64) (spans : List SampleSpan) :
    (arenas.set arena spans).spans =
      Function.update arenas.spans arena (spans.map fun span => (span.base, span.size)) := by
  funext other
  by_cases here : other = arena
  · subst here
    rw [Function.update_self]
    exact congrArg (List.map _) (arenas.set_arenas other spans)
  · rw [Function.update_of_ne here]
    exact congrArg (List.map _) (Function.update_of_ne here _ _)

/-- Taking a range leaves the spans where they are. -/
theorem takeRange_spans {size base : UInt64} {spans rest : List SampleSpan}
    (taken : takeRange size spans = some (base, rest)) :
    (rest.map fun span => (span.base, span.size)) =
      spans.map fun span => (span.base, span.size) := by
  induction spans generalizing base rest with
  | nil => cases taken
  | cons span older ih =>
    rw [takeRange] at taken
    split at taken
    · next found =>
      obtain ⟨-, rfl⟩ := Prod.mk.inj (Option.some.inj taken)
      rw [List.map_cons, List.map_cons, ih found]
    · split at taken
      · obtain ⟨-, rfl⟩ := Prod.mk.inj (Option.some.inj taken)
        rfl
      · cases taken

/-- The arenas of the sample do what the kernel relies on. -/
theorem sample_honest {elf : ElfBytes} :
    HonestArenas (loaderOf elf) sampleVmem SampleArenas.spans := by
  constructor
  case new =>
    intro name quantum arena before after ran
    obtain ⟨same, rfl⟩ := Prod.mk.inj ran
    obtain rfl := Except.ok.inj same
    exact before.spans_set before.next []
  case add =>
    intro arena base size before after ran
    obtain ⟨inside, rfl⟩ := sampleAdd_eq_ok ran
    exact before.spans_set arena _
  case alloc =>
    intro arena size base before after ran
    rw [sampleVmem_run] at ran
    split at ran
    · next found taken =>
      obtain ⟨-, rfl⟩ := Prod.mk.inj ran
      rw [SampleArenas.spans_set, takeRange_spans taken]
      exact Function.update_eq_self arena before.spans
    · cases ran
  case inside =>
    intro arena size base before after ran offset bound
    obtain ⟨rest, taken⟩ := sampleVmem_eq_ok ran
    obtain ⟨span, member, low, high⟩ := takeRange_inside taken
    refine ⟨(span.base, span.size), List.mem_map_of_mem member, ?_, ?_⟩
    · exact Nat.le_trans low (Nat.le_add_right _ _)
    · exact Nat.lt_of_lt_of_le (Nat.add_lt_add_left bound _) high

/-- The two arenas that the sample makes for a task are different. -/
theorem sample_apart {elf : ElfBytes} {s s' : Machine SampleArenas} {task : TaskData}
    (ran : (load loadPlatform (loaderOf elf) bytes).run s = (.ok taskId, s'))
    (pushed : s'.tasks = { s.tasks with queue := s.tasks.queue ++ [task] }) :
    task.threadManager ≠ task.vmm := by
  obtain ⟨_, _, root, _, stackVaddr, _, _, _, found, steps⟩ := load_steps ran
  have queue := congrArg TaskQueue.queue (pushed.symm.trans steps.pushed)
  obtain rfl : task = found := List.singleton_inj.mp (List.append_cancel_left queue)
  obtain ⟨made, filled, given, -, ⟨before, begun⟩, spanned, gave, threads⟩ := steps.arenas
  obtain ⟨_, _, _, newArena, -, -⟩ := threads
  obtain ⟨first, madeArenas⟩ := Prod.mk.inj begun
  have vmm : before.next = task.vmm := Except.ok.inj first
  have number : made.arenas.next = before.next + 1 := by rw [← madeArenas]
  -- the spans and the stack take no number
  have filledNext : filled.arenas.next = made.arenas.next := by
    refine (@addSpans_induct _ _ _ _ _ _ _
      (fun _ (v : SampleArenas) => v.next = made.arenas.next) rfl ?_ (fun _ _ _ sofar => sofar)
      spanned).2
    intro index _ _ _ before after asked sofar
    obtain ⟨inside, rfl⟩ := sampleAdd_eq_ok asked
    exact sofar
  have givenNext : given.next = filled.arenas.next := by
    rw [loadPlatform, sampleVmem_run] at gave
    split at gave
    · obtain ⟨-, rfl⟩ := Prod.mk.inj gave
      rfl
    · cases gave
  have manager : given.next = task.threadManager := Except.ok.inj (Prod.mk.inj newArena).1
  rw [← manager, ← vmm, givenNext, filledNext, number]
  exact fun same => absurd (UInt64.add_eq_left.mp same) (by decide)

/-- So it is with the sample: its stack and all that its arena gives later lie beside its
segment. -/
theorem arena_beside_image_sample : ∃ taskId s' task,
    (load loadPlatform sampleLoader [0x13]).run loadMachine = (.ok taskId, s') ∧
      task ∈ s'.tasks.queue ∧
      (∀ offset < 0x800000,
        BesideImage 2 [sampleHeader] (task.trapFrame.registers.sp + UInt64.ofNat offset)) ∧
      ∀ calls last, Run (ArenaCall.Does sampleLoader sampleVmem) s'.arenas calls last →
        (∀ call ∈ calls, call.Spares task.vmm) → ∀ size base after,
          (sampleVmem.alloc task.vmm size).run last = (.ok (.ok base), after) →
            ∀ offset < size.toNat, BesideImage 2 [sampleHeader] (base + UInt64.ofNat offset) := by
  obtain ⟨taskId, s', run⟩ := loadMachine_run
  have direct : PageEntry.getValid
      (loadPmm.memory (wordOf (currentTable loadMap loadMachine.satp) 256)) = true := by
    rw [loadMachine_table, kernelRoot_words (by decide)]
    decide
  obtain ⟨task, pushed, -, stack, later, -⟩ :=
    arena_beside_image sample_honest run.toLoadCall direct
  refine ⟨taskId, s', task, run.ran, ?_, stack, later (sample_apart run.ran pushed)⟩
  rw [pushed]
  exact List.mem_append_right _ (List.mem_singleton_self task)

end Sample

section Spill

/-- The frame of the second segment. -/
def spillData : UInt64 := 0x60000000 + loadMap

/-- The frame of the new root, which lies behind it. -/
def spillRoot : UInt64 := 0x60001000 + loadMap

/-- Frames that were given back to the list of the sample, one after the other. -/
def spillGiven : List UInt64 :=
  [spillData, 0x60004000 + loadMap, 0x60003000 + loadMap, 0x60002000 + loadMap, spillRoot]

/-- The list then. -/
def spillNodes : List UInt64 := spillGiven.reverse ++ loadNodes

/-- The memory then. -/
def spillPmm : Pmm := ((spillGiven.forM (FreeList.pull loadMap)).run loadPmm).2

/-- The machine then. -/
def spillMachine : Machine SampleArenas := { loadMachine with pmm := spillPmm }

/-- A segment of one page without bytes in the file. -/
def spillFirst : ProgramHeader where
  pType := 1
  pOffset := 0
  pVaddr := 0x40000000
  pFilesz := 0
  pMemsz := 0x1000
  pFlags := 0b110

/-- A segment of one page with sixteen bytes more in the file. -/
def spillSecond : ProgramHeader where
  pType := 1
  pOffset := 0
  pVaddr := 0x10000
  pFilesz := 0x1010
  pMemsz := 0x1000
  pFlags := 0b101

/-- The program headers of the file. -/
def spillTable : List ProgramHeader := [spillFirst, spillSecond]

/-- The parsed file. -/
def spillElf : ElfBytes := ⟨some spillTable, 0x10000⟩

/-- The file, as far as its segments are read. -/
def spillBytes : List UInt8 := List.replicate 0x1010 0

/-- What is so for each of the frames that were given back. -/
theorem forall_spillGiven {property : UInt64 → Prop} : (∀ frame ∈ spillGiven, property frame) ↔
    property spillData ∧ property (0x60004000 + loadMap) ∧ property (0x60003000 + loadMap) ∧
      property (0x60002000 + loadMap) ∧ property spillRoot := by
  simp [spillGiven]

/-- The frames that were given back were not in the list, nor the root of the kernel. -/
theorem spillGiven_apart {frame : UInt64} (member : frame ∈ spillGiven) :
    frame ∉ loadNodes ∧ frame ≠ kernelRoot := by
  have low : ∀ frame ∈ spillGiven, frame.toNat < 0x70000000 + 0xffffffc000000000 :=
    forall_spillGiven.mpr (by decide)
  have small := low frame member
  constructor
  · intro listed
    obtain ⟨index, bound, rfl⟩ := mem_framesFrom.mp listed
    rw [UInt64.toNat_add, UInt64.toNat_ofNat'] at small
    change (0x80000000 + 0xffffffc000000000 + _ % _) % _ < _ at small
    omega
  · rintro rfl
    exact absurd small (by decide)

/-- They are frames of the direct map. -/
theorem spillGiven_frames : ∀ frame ∈ spillGiven, IsFrame frame ∧ loadMap ≤ frame := by
  intro frame member
  have aligned : ∀ frame ∈ spillGiven, frame ≠ 0 ∧ frame % 4096 = 0 ∧ loadMap ≤ frame :=
    forall_spillGiven.mpr (by decide)
  obtain ⟨nonzero, page, inMap⟩ := aligned frame member
  exact ⟨⟨nonzero, page⟩, inMap⟩

/-- The list is well formed, and only links were written. -/
theorem spillPmm_holds : spillPmm.Holds spillNodes ∧
    ChangedLinks spillNodes loadPmm.memory spillPmm.memory := by
  obtain ⟨s', ran, holds, links⟩ := FreeList.pulls_spec loadMachine_stock.holds spillGiven_frames
    (by decide) fun frame member => (spillGiven_apart member).1
  have same : spillPmm = s' := congrArg Prod.snd ran
  exact same ▸ ⟨holds, links⟩

/-- The root of the kernel is beside the list. -/
theorem kernelRoot_spill : kernelRoot ∈ pagesBeside spillNodes := by
  refine ⟨kernelRoot_beside.1, fun member => ?_⟩
  rcases List.mem_append.mp member with given | old
  · exact (spillGiven_apart (List.mem_reverse.mp given)).2 rfl
  · exact kernelRoot_beside.2 old

/-- The free frames. -/
theorem spillMachine_stock : Stock loadMap (pagesBeside spillNodes) spillPmm spillNodes := by
  refine .beside spillPmm_holds.1 fun node member => ?_
  rcases List.mem_append.mp member with given | old
  · have inMap : ∀ node ∈ spillGiven, loadMap ≤ node ∧ (node - loadMap).toNat < 2 ^ 56 :=
      forall_spillGiven.mpr (by decide)
    exact inMap node (List.mem_reverse.mp given)
  · exact loadMachine_stock.inMap node old

/-- The entries of the root of the kernel. -/
theorem spillMachine_words {index : Nat} (bound : index < 512) :
    spillPmm.memory (wordOf kernelRoot index) = if index = 256 then kernelPage else 0 := by
  rw [spillPmm_holds.2 _ (not_linkWords spillPmm_holds.1.frames kernelRoot_spill.1 bound
    kernelRoot_spill.2)]
  exact kernelRoot_words bound

/-- The free frames hold no entries. -/
theorem spillMachine_clean : CleanFrames spillNodes spillPmm.memory := by
  intro node member index data small
  have frame := spillPmm_holds.1.frames node member
  rw [spillPmm_holds.2 _ (not_linkWords_data (fun other listed =>
    (spillPmm_holds.1.frames other listed).aligned) frame.aligned data small)]
  rcases List.mem_append.mp member with given | old
  · obtain ⟨beside, apart⟩ := spillGiven_apart (List.mem_reverse.mp given)
    have other : wordOf node index ≠ wordOf kernelRoot 256 := fun clash =>
      apart (wordOf_inj frame.aligned kernelRoot_beside.1 small (by decide) clash).1
    have zero : loadPmm.memory (wordOf node index) = 0 :=
      (Function.update_of_ne other _ _).trans
        (rowMemory_beside (by decide) frame.aligned small beside)
    rw [zero]
    exact isBlank_zero
  · exact loadMachine_clean node old index data small

/-- A program can be loaded. -/
theorem spillMachine_ready :
    LoadReady loadPlatform 2 (pagesBeside spillNodes) spillNodes spillMachine := by
  constructor
  case mapAligned => decide
  case levels => rfl
  case tall => exact Nat.le_refl 2
  case kernel =>
    have plain : Rooted loadMap upperHalf {kernelRoot} 2 kernelRoot spillPmm.memory :=
      kernelPage_rooted fun index inside => spillMachine_words inside.2
    exact loadMachine_table ▸ plain.mono (Set.singleton_subset_iff.mpr kernelRoot_spill)
  case stock => exact spillMachine_stock
  case blank =>
    intro index bound
    exact spillMachine_stock.head_blank spillMachine_clean (by simp [spillNodes, spillGiven])
      (Nat.lt_trans bound (by decide))

/-- The copy of the second segment erases the first two entries of the root, and no other one. -/
theorem spillSecond_copies {s s' : Pmm}
    (fill : (fillSegment spillBytes spillSecond spillData).run s = (.ok (), s')) :
    s'.regionList = s.regionList ∧
      ChangedWithin {page | page ∈ framesFrom spillData 2} s.memory s'.memory ∧
      (∀ index < 2, s'.memory (wordOf spillRoot index) = 0) ∧
      ∀ index < 512, 2 ≤ index →
        s'.memory (wordOf spillRoot index) = s.memory (wordOf spillRoot index) := by
  obtain ⟨list, filled⟩ := fillSegment_fills fill
  refine ⟨list, filled.changed (by decide) (by decide), fun index few => ?_, fun index bound past =>
    filled.words _ fun offset inside same => ?_⟩
  · apply word_of_bytes
    · interval_cases index <;> decide
    · intro place few'
      have address : wordOf spillRoot index + UInt64.ofNat place =
          spillData + UInt64.ofNat (0x1000 + 8 * index + place) := by
        rw [UInt64.ofNat_add, UInt64.ofNat_add, ← UInt64.add_assoc, ← UInt64.add_assoc]
        rfl
      have inside : 0x1000 + 8 * index + place < spillSecond.pFilesz.toNat := by
        change _ < 0x1010
        omega
      rw [address, filled.file _ inside, spillBytes, List.getD_eq_getElem?_getD,
        List.getElem?_replicate]
      split <;> rfl
  · have data : (spillData + UInt64.ofNat offset).toNat = 0xffffffc060000000 + offset := by
      have short : offset < 0x1010 := inside
      rw [UInt64.toNat_add, UInt64.toNat_ofNat']
      change (0xffffffc060000000 + _ % _) % _ = _
      omega
    have word : (wordOf spillRoot index).toNat = 0xffffffc060001000 + 8 * index := by
      rw [wordOf, UInt64.toNat_add, UInt64.toNat_ofNat']
      change (0xffffffc060001000 + _ % _) % _ = _
      omega
    have low : (spillData + UInt64.ofNat offset) % 8 ≤ spillData + UInt64.ofNat offset := by
      rw [UInt64.le_iff_toNat_le, UInt64.toNat_mod]
      exact Nat.mod_le _ _
    have numbers := congrArg UInt64.toNat same
    rw [UInt64.toNat_sub_of_le _ _ low, word, data] at numbers
    have short : offset < 0x1010 := inside
    omega

/-- The second segment without the bytes that have no room. It is mapped like the second segment. -/
def spillTrimmed : ProgramHeader := { spillSecond with pFilesz := 0x1000 }

/-- The loader gets through it where nothing is mapped. -/
theorem spillTrimmed_served {before : VirtualAddress → Option (Nat × PageEntry)}
    (unmapped : before spillTrimmed.pVaddr = none) :
    spillTrimmed.Served spillBytes 2 1 before := by
  have first : ∀ step < spillTrimmed.pages,
      pageAt spillTrimmed.pVaddr step = spillTrimmed.pVaddr := by
    intro step bound
    have single : spillTrimmed.pages = 1 := by decide
    obtain rfl : step = 0 := by omega
    rfl
  constructor
  case sized => decide
  case maps => rfl
  case fits => decide
  case inFile =>
    intro i bound
    have short : i < 0x1000 := bound
    have offset : spillTrimmed.pOffset = 0 := rfl
    rw [offset, UInt64.add_zero, UInt64.toNat_ofNat', spillBytes, List.length_replicate]
    omega
  case unmapped =>
    intro step bound
    rw [first step bound]
    exact unmapped
  case aside =>
    intro step bound
    rw [first step bound]
    decide

/-- What the root of the new table holds: no entry in the lower half, one entry apart, and the page
of the kernel in the upper half. -/
structure SpillWords (memory : Memory) (except : Set Nat) : Prop where
  /-- The lower half. -/
  lower : ∀ index < 256, index ∉ except →
    PageEntry.isBlank (memory (wordOf spillRoot index)) = true
  /-- The upper half. -/
  upper : ∀ index ∈ upperHalf,
    memory (wordOf spillRoot index) = if index = 256 then kernelPage else 0

/-- The new root is made and the first segment is mapped under its entry 1. -/
theorem spillFirst_loads : ∃ made first used,
    (newWithUpperhalf loadMap spillMachine.satp).run spillPmm = (.ok spillRoot, made) ∧
    (loadSegment loadMap .level3 spillBytes spillRoot spillFirst).run made = (.ok (), first) ∧
    Stock loadMap used first (spillData :: loadNodes) ∧ spillRoot ∈ used ∧
    SpillWords first.memory {1} := by
  have stock : Stock loadMap (pagesBeside spillNodes) spillPmm
      (spillRoot :: (0x60002000 + loadMap) :: (0x60003000 + loadMap) :: (0x60004000 + loadMap) ::
        spillData :: loadNodes) := spillMachine_stock
  have head : spillPmm.regionList.head = spillRoot := by simpa using stock.holds.head.symm
  have blank : ∀ index < 512,
      PageEntry.isBlank (spillPmm.memory (wordOf spillRoot index)) = true := by
    intro index bound
    rw [← head]
    exact spillMachine_stock.head_blank spillMachine_clean (by simp [spillNodes, spillGiven]) bound
  have table : currentTable loadMap spillMachine.satp = kernelRoot := loadMachine_table
  have plain : ∀ index ∈ upperHalf, ¬ PageEntry.isBranch
      (spillPmm.memory (wordOf (currentTable loadMap spillMachine.satp) index)) = true := by
    intro index inside
    rw [table, spillMachine_words inside.2]
    split <;> decide
  obtain ⟨made, newRoot, stock₁, lower, upper⟩ :=
    newWithUpperhalf_plain stock (table ▸ kernelRoot_spill) plain
  have place : VirtualAddress.path spillFirst.pVaddr 3 = 1 := by decide
  have free : PageEntry.getValid
      (made.memory (wordOf spillRoot (VirtualAddress.path spillFirst.pVaddr 3))) = false := by
    rw [place, lower 1 (by decide)]
    exact (isBlank_flags (blank 1 (by decide))).1
  obtain ⟨first, used, loaded, stock₂, more, beside⟩ :=
    @Stock.loadSegment_three _ _ _ _ _ _ _ _ _ spillBytes spillFirst stock₁ (Set.mem_insert _ _)
    rfl ⟨by decide, by decide⟩ (by decide) (fun i bound => absurd bound (Nat.not_lt_zero i)) free
  rw [place] at beside
  refine ⟨made, first, used, newRoot, loaded, stock₂, more (Set.mem_insert _ _), ⟨?_, ?_⟩⟩
  · intro index low apart
    rw [beside index (by omega) apart, lower index low]
    exact blank index (by omega)
  · intro index inside
    have apart : index ≠ 1 := fun same => absurd (same ▸ inside.1) (by decide)
    rw [beside index inside.2 apart, upper index inside, table, spillMachine_words inside.2]
    split <;> decide

/-- The copy of the second segment takes the entries 0 and 1 out of the root. -/
theorem spillSecond_erases {first : Pmm} {used : Set UInt64}
    (stock : Stock loadMap used first (spillData :: loadNodes)) (rootUsed : spillRoot ∈ used)
    (held : SpillWords first.memory {1}) : ∃ second third,
    (FreeList.claimContinuous loadMap 1).run first = (.ok (.ok spillData), second) ∧
      (fillSegment spillBytes spillSecond spillData).run second = (.ok (), third) ∧
      Stock loadMap (insert spillData used) third loadNodes ∧
      (∀ index < 2, third.memory (wordOf spillRoot index) = 0) ∧ SpillWords third.memory ∅ := by
  have row : loadNodes = (0x80000000 + loadMap) :: framesFrom (0x80001000 + loadMap) 0x17ff := rfl
  rw [row] at stock ⊢
  obtain ⟨second, claim, stock₁, kept⟩ := stock.claimOne
  obtain ⟨third, fill⟩ : ∃ third,
      (fillSegment spillBytes spillSecond spillData).run second = (.ok (), third) := by
    refine fillSegment_returns (fun i bound => ?_) second
    have short : i < 0x1010 := bound
    have offset : spillSecond.pOffset = 0 := rfl
    rw [offset, UInt64.add_zero, UInt64.toNat_ofNat', spillBytes, List.length_replicate]
    omega
  obtain ⟨list, changed, erased, rest⟩ := spillSecond_copies fill
  have within : {page | page ∈ framesFrom spillData 2} ⊆ insert spillData used := by
    intro page listed
    have behind : spillRoot = spillData + 4096 := rfl
    have cases : page = spillData ∨ page = spillRoot := by simpa [framesFrom, behind] using listed
    rcases cases with rfl | rfl
    · exact Set.mem_insert _ _
    · exact Set.mem_insert_of_mem _ rootUsed
  have words : ∀ index < 512, 2 ≤ index →
      third.memory (wordOf spillRoot index) = first.memory (wordOf spillRoot index) :=
    fun index bound past =>
      (rest index bound past).trans (kept spillRoot rootUsed index bound)
  refine ⟨second, third, claim, fill, stock₁.changed list (changed.mono within), erased, ?_, ?_⟩
  · intro index low _
    rcases Nat.lt_or_ge index 2 with few | past
    · rw [erased index few]
      exact isBlank_zero
    · have apart : index ≠ 1 := by omega
      rw [words index (by omega) past]
      exact held.lower index low apart
  · intro index inside
    rw [words index inside.2 (Nat.le_trans (by decide) inside.1)]
    exact held.upper index inside

/-- The file is loaded with an entry of the root free where its first segment was mapped. -/
theorem spill_image : ∃ image start before placed used data known,
    (loadImage loadMap (.fromUsize 3) spillBytes spillMachine.satp spillTable).run spillPmm =
      (.ok spillRoot, image) ∧
    Segmented loadMap start 2 1 before spillRoot placed used data known (stackRoom 2) image := by
  obtain ⟨made, first, used, newRoot, loaded, stock, rootUsed, held⟩ := spillFirst_loads
  obtain ⟨second, third, claim, fill, stock₁, erased, words⟩ :=
    spillSecond_erases stock rootUsed held
  have rooted := kernelPage_rooted words.upper
  have nowhere : leafOf loadMap third.memory 3 spillRoot spillTrimmed.pVaddr = none := by
    apply leafOf_invalid
    have place : VirtualAddress.path spillTrimmed.pVaddr 3 = 0 := by decide
    rw [place, erased 0 (by decide)]
    rfl
  have state : Segmented loadMap third.memory 2 1 (leafOf loadMap third.memory 3 spillRoot)
      spillRoot [] (insert spillData used) ∅ upperHalf (spillTrimmed.pages * 2 + stackRoom 2)
      third :=
    ⟨.begin (rooted.mono (Set.singleton_subset_iff.mpr (Set.mem_insert_of_mem _ rootUsed)))
      stock₁.pagesAligned ⟨_, 0x1800, stock₁, by decide⟩,
      fun _ member => absurd member List.not_mem_nil,
      fun index low => words.lower index low (Set.notMem_empty index), fun _ => rfl,
      fun inside => absurd inside.1 (by decide)⟩
  have levels : PageLevel.level3.asUsize = 2 + 1 := rfl
  obtain ⟨image, placed, later, known, mapped, last⟩ :=
    state.mapSegment (by decide) levels (by decide) (spillTrimmed_served nowhere)
  refine ⟨image, _, _, placed, later, _, known, ?_, last⟩
  have followed : spillSecond.pType = 1 := rfl
  have single : spillSecond.frames = 1 := by decide
  have secondLoaded : (loadSegment loadMap .level3 spillBytes spillRoot spillSecond).run first =
      (.ok (), image) := by
    have same : mapSegment loadMap .level3 spillRoot spillTrimmed spillData =
      mapSegment loadMap .level3 spillRoot spillSecond spillData := rfl
    rw [loadSegment, Prog.run_only_pos followed, single, Prog.run_bind_ok claim,
      Prog.run_bind_ok (unwrap_run spillData second), Prog.run_bind_ok fill, ← same]
    exact mapped
  have segments : (spillTable.forM (loadSegment loadMap (.fromUsize 3) spillBytes spillRoot)).run
      made = (.ok (), image) := by
    have level : PageLevel.fromUsize 3 = .level3 := rfl
    rw [spillTable, level, Prog.run_forM_cons_ok loaded, Prog.run_forM_cons_ok secondLoaded]
    exact Prog.run_pure () image
  rw [loadImage, Prog.run_bind_ok newRoot, Prog.run_bind_ok segments, Prog.run_pure]

/-- A range is taken from the span that was added first, if it fits there. -/
theorem takeRange_oldest {size : UInt64} (newer : List SampleSpan) {span : SampleSpan}
    (room : size ≤ span.size - span.used) :
    ∃ rest, takeRange size (newer ++ [span]) = some (span.base + span.used, rest) := by
  induction newer with
  | nil => exact ⟨_, dif_pos room⟩
  | cons newest newer ih =>
    obtain ⟨rest, taken⟩ := ih
    refine ⟨newest :: rest, ?_⟩
    rw [List.cons_append, takeRange, taken]

/-- The span that the sample adds first for a task is the one of entry 1, if this leads nowhere. -/
theorem addSpans_oldest {elf : ElfBytes} {level : PageLevel} {root arena : UInt64}
    {made filled : Machine SampleArenas} (empty : made.arenas.arenas arena = [])
    (invalid : PageEntry.getValid (made.pmm.memory (wordOf root 1)) = false)
    (spanned : (addSpans (loaderOf elf) level root arena).run made = (.ok (), filled)) :
    ∃ newer inside, filled.arenas.arenas arena =
      newer ++ [.fresh (entrySpan level 1).1 (entrySpan level 1).2 inside] := by
  have whole := (@addSpans_induct _ _ _ _ _ _ _ (fun index (v : SampleArenas) =>
    index = 1 ∧ v.arenas arena = [] ∨ 1 < index ∧ ∃ newer inside, v.arenas arena =
      newer ++ [.fresh (entrySpan level 1).1 (entrySpan level 1).2 inside])
    (.inl ⟨rfl, empty⟩) ?_ ?_ spanned).2
  · rcases whole with ⟨first, -⟩ | ⟨-, found⟩
    · exact absurd first (by decide)
    · exact found
  · intro index one _ _ before after asked sofar
    obtain ⟨inside, rfl⟩ := sampleAdd_eq_ok asked
    refine .inr ⟨by omega, ?_⟩
    rw [SampleArenas.set_arenas]
    rcases sofar with ⟨rfl, nothing⟩ | ⟨-, newer, fits, found⟩
    · exact ⟨[], inside, by rw [nothing, List.nil_append]⟩
    · exact ⟨_ :: newer, fits, by rw [found, List.cons_append]⟩
  · intro index valid before sofar
    rcases sofar with ⟨rfl, -⟩ | ⟨past, found⟩
    · rw [invalid] at valid
      cases valid
    · exact .inr ⟨by omega, found⟩

/-- The file is loaded, and the stack of its program begins at the address of its first segment. -/
theorem spill_loads : ∃ taskId s' task,
    (load loadPlatform (loaderOf spillElf) spillBytes).run spillMachine = (.ok taskId, s') ∧
      s'.tasks.queue = [task] ∧ task.trapFrame.registers.sp = spillFirst.pVaddr := by
  obtain ⟨image, _, _, _, _, _, known, imageRan, state⟩ := spill_image
  have free : PageEntry.getValid (image.memory (wordOf spillRoot 1)) = false :=
    state.laid.nowhere state.blank (by decide) state.spare
  obtain ⟨taskId, s', ran⟩ : ∃ taskId s',
      (load loadPlatform (loaderOf spillElf) spillBytes).run spillMachine = (.ok taskId, s') :=
    load_returns_of_image (by decide) rfl (Nat.le_refl 2) sample_serving rfl rfl imageRan state
      (Nat.le_refl 1) (by decide) ⟨_, _, rfl⟩ rfl rfl (by decide)
  obtain ⟨elf, table, root, stack, stackVaddr, fresh, loaded, between, task, steps⟩ :=
    load_steps ran
  obtain ⟨parsed, headers⟩ := steps.parsed
  obtain rfl : spillElf = elf := Except.ok.inj parsed
  obtain rfl : spillTable = table := Option.some.inj headers
  -- the image is the one that was computed
  have again : (loadImage loadMap (.fromUsize 3) spillBytes spillMachine.satp spillTable).run
      spillPmm = (.ok root, loaded) := by
    have newRoot : (newWithUpperhalf loadMap spillMachine.satp).run spillPmm = (.ok root, fresh) :=
      steps.root
    have segments : (spillTable.forM (loadSegment loadMap (.fromUsize 3) spillBytes root)).run
        fresh = (.ok (), loaded) := steps.segments
    rw [loadImage, Prog.run_bind_ok newRoot, Prog.run_bind_ok segments, Prog.run_pure]
  obtain ⟨sameRoot, rfl⟩ := Prod.mk.inj (imageRan.symm.trans again)
  obtain rfl : spillRoot = root := Except.ok.inj sameRoot
  obtain ⟨made, filled, given, pmm, ⟨before, begun⟩, spanned, gave, -⟩ := steps.arenas
  have empty : made.arenas.arenas task.vmm = [] := by
    obtain ⟨number, madeArenas⟩ := Prod.mk.inj begun
    have same : before.next = task.vmm := Except.ok.inj number
    rw [← madeArenas, ← same]
    exact before.set_arenas before.next []
  obtain ⟨newer, inside, spans⟩ := addSpans_oldest empty (pmm ▸ free) spanned
  have room : (0x800000 : UInt64) ≤ (SampleSpan.fresh (entrySpan (.fromUsize 3) 1).1
      (entrySpan (.fromUsize 3) 1).2 inside).size -
        (SampleSpan.fresh (entrySpan (.fromUsize 3) 1).1
          (entrySpan (.fromUsize 3) 1).2 inside).used := by
    change (0x800000 : UInt64) ≤ (entrySpan (.fromUsize 3) 1).2 - 0
    decide
  obtain ⟨rest, taken⟩ := takeRange_oldest newer room
  obtain ⟨_, found⟩ := sampleVmem_eq_ok gave
  have place : spillFirst.pVaddr = stackVaddr := by
    rw [spans] at found
    obtain ⟨same, -⟩ := Prod.mk.inj (Option.some.inj (taken.symm.trans found))
    rw [← same]
    change spillFirst.pVaddr = (entrySpan (.fromUsize 3) 1).1 + 0
    decide
  refine ⟨taskId, s', task, ran, ?_, ?_⟩
  · rw [steps.pushed]
    rfl
  · rw [place, steps.thread.frame]

/-- The pages of the file. -/
theorem spillTable_pages : imagePages spillTable = [spillFirst.pVaddr, spillSecond.pVaddr] := by
  decide

/-- The stack of a program can lie under the entry of one of its segments, where the arenas do what
the kernel relies on: the machine is ready and has frames enough, the direct map is there, and the
segments lie in the user's half, but one has more bytes in the file than its frames have room
for. -/
theorem arena_in_image :
    HonestArenas (loaderOf spillElf) sampleVmem SampleArenas.spans ∧
      LoadReady loadPlatform 2 (pagesBeside spillNodes) spillNodes spillMachine ∧
      rootCost loadMap 2 spillMachine + (imageCost 2 spillTable + (stackCost 2 + 3000)) <
        spillNodes.length ∧
      PageEntry.getValid
        (spillPmm.memory (wordOf (currentTable loadMap spillMachine.satp) 256)) = true ∧
      (∀ page ∈ imagePages spillTable, page.path 3 < 256) ∧
      ∃ taskId s' task,
        (load loadPlatform (loaderOf spillElf) spillBytes).run spillMachine = (.ok taskId, s') ∧
          s'.tasks.queue = [task] ∧
          task.trapFrame.registers.sp ∈ imagePages spillTable ∧
          ¬ BesideImage 2 spillTable task.trapFrame.registers.sp := by
  have table : currentTable loadMap spillMachine.satp = kernelRoot := loadMachine_table
  refine ⟨sample_honest, spillMachine_ready, ?_, ?_, ?_, ?_⟩
  · have cost : rootCost loadMap 2 spillMachine = 1 :=
      kernelPage_cost fun index inside => table ▸ spillMachine_words inside.2
    rw [cost, spillNodes, List.length_append, loadNodes, framesFrom_length]
    decide
  · rw [table, spillMachine_words (by decide)]
    decide
  · rw [spillTable_pages]
    exact List.forall_mem_cons.mpr ⟨by decide, List.forall_mem_singleton.mpr (by decide)⟩
  · obtain ⟨taskId, s', task, ran, queue, stack⟩ := spill_loads
    have listed : spillFirst.pVaddr ∈ imagePages spillTable := by
      rw [spillTable_pages]
      exact List.mem_cons_self
    refine ⟨taskId, s', task, ran, queue, stack ▸ listed, fun beside => ?_⟩
    rw [stack] at beside
    exact beside.apart _ listed rfl

end Spill

end Lsd
