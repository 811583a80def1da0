import Lsd.Verif.ImageContent
import Lsd.Verif.LoadReturns

/-!
# The address space of a loaded program

What the table of a new program makes of its addresses: where the bytes of the
file are found, what the program reads there, what it sees of the kernel's half,
where its stack lies, and which frames it can reach.
-/

namespace Lsd

open Program Radix Placement

/-- The headers that `load` follows. -/
def loadSegments (table : List ProgramHeader) : List ProgramHeader := table.filter (·.pType = 1)

/-- The pages of the segments of a file. -/
def imagePages (table : List ProgramHeader) : List VirtualAddress :=
  (loadSegments table).flatMap fun entry => (List.range entry.pages).map (pageAt entry.pVaddr)

/-- Whether the segments of a file begin at pages, and no two of their pages are the same. -/
structure ImageApart (height : Nat) (table : List ProgramHeader) : Prop where
  /-- The segments begin at pages. -/
  begins : ∀ entry ∈ loadSegments table, entry.pMemsz ≠ 0 → entry.pVaddr % 4096 = 0
  /-- The pages differ in the bits that the tables are indexed by. -/
  apart : (imagePages table).Pairwise fun first second =>
    ¬ SamePath 1 (height + 1) first.path second.path

section Pages

variable {hhdm : UInt64} {segments : List Segment} {table : List ProgramHeader} {height : Nat}

/-- The pages of a segment, the last of them first. -/
theorem Segment.placements_pages (segment : Segment) (count : Nat) :
    (segment.placements hhdm count).map Placement.page =
      ((List.range count).map (pageAt segment.header.pVaddr)).reverse := by
  induction count with
  | zero => rfl
  | succ count ih =>
    rw [placements, List.map_cons, ih, List.range_succ, List.map_append, List.reverse_append]
    rfl

/-- The pages that were placed are those of the file. -/
theorem imagePlacements_pages (headers : segments.map Segment.header =
      (loadSegments table).reverse) :
    ((imagePlacements hhdm segments).map Placement.page).Perm (imagePages table) := by
  have parts : ((imagePlacements hhdm segments).map Placement.page).Perm
      ((segments.map Segment.header).flatMap fun entry =>
        (List.range entry.pages).map (pageAt entry.pVaddr)) := by
    clear headers
    induction segments with
    | nil => exact .refl _
    | cons segment segments ih =>
      rw [imagePlacements, List.flatMap_cons, List.map_append, Segment.placements_pages,
        List.map_cons, List.flatMap_cons]
      exact (List.reverse_perm _).append ih
  rw [headers] at parts
  exact parts.trans ((List.reverse_perm _).flatMap_right _)

/-- A page that was placed is one of the file. -/
theorem mem_imagePages (headers : segments.map Segment.header = (loadSegments table).reverse)
    {placement : Placement} (member : placement ∈ imagePlacements hhdm segments) :
    placement.page ∈ imagePages table :=
  (imagePlacements_pages headers).subset (List.mem_map_of_mem member)

/-- A segment was loaded for a header of the file. -/
theorem header_mem (headers : segments.map Segment.header = (loadSegments table).reverse)
    {segment : Segment} (listed : segment ∈ segments) : segment.header ∈ loadSegments table := by
  have member : segment.header ∈ segments.map Segment.header := List.mem_map_of_mem listed
  rw [headers] at member
  exact List.mem_reverse.mp member

/-- The conditions on segments that were placed are conditions on the file. -/
theorem imageApart_iff (headers : segments.map Segment.header = (loadSegments table).reverse) :
    ((∀ segment ∈ segments, 0 < segment.header.pMemsz.toNat →
        segment.header.pVaddr % 4096 = 0) ∧
      (imagePlacements hhdm segments).Pairwise (Apart (height + 1))) ↔ ImageApart height table := by
  have pages : (imagePlacements hhdm segments).Pairwise (Apart (height + 1)) ↔
      (imagePages table).Pairwise fun first second =>
        ¬ SamePath 1 (height + 1) first.path second.path := by
    rw [← (imagePlacements_pages headers).pairwise_iff fun differ same => differ same.symm,
      List.pairwise_map]
    rfl
  have starts : (∀ segment ∈ segments, 0 < segment.header.pMemsz.toNat →
      segment.header.pVaddr % 4096 = 0) ↔
        ∀ entry ∈ loadSegments table, entry.pMemsz ≠ 0 → entry.pVaddr % 4096 = 0 := by
    have listed : ∀ entry, entry ∈ loadSegments table ↔ entry ∈ segments.map Segment.header := by
      intro entry
      rw [headers, List.mem_reverse]
    constructor
    · intro begins entry member some
      obtain ⟨segment, inside, rfl⟩ := List.mem_map.mp ((listed entry).mp member)
      exact begins segment inside (Nat.pos_of_ne_zero fun zero => some (UInt64.toNat_inj.mp zero))
    · intro begins segment inside some
      refine begins _ (header_mem headers inside) ?_
      rintro zero
      rw [zero] at some
      exact absurd some (Nat.lt_irrefl 0)
  rw [pages, starts]
  exact ⟨fun both => ⟨both.1, both.2⟩, fun apart => ⟨apart.begins, apart.apart⟩⟩

end Pages

variable {V : Type}

/-- A call of `load` that returned, on a file that the loader can follow, with enough frames. -/
structure LoadCall (platform : Platform V) (loader : Loader V) (height extra : Nat)
    (pages : Set UInt64) (nodes : List UInt64) (bytes : List UInt8) (elf : ElfBytes)
    (table : List ProgramHeader) (s : Machine V) (taskId : UInt64) (s' : Machine V) : Prop where
  /-- The machine is ready for it. -/
  ready : LoadReady platform height pages nodes s
  /-- The file is parsed. -/
  parsed : loader.minimalParse bytes = .ok elf
  /-- It has program headers. -/
  listed : elf.segments = some table
  /-- The loader can follow them. -/
  followed : Followed table
  /-- There are frames for the program, and further ones. -/
  enough : rootCost platform.hhdmOffset height s +
    (imageCost height table + (stackCost height + extra)) < nodes.length
  /-- The call returned. -/
  ran : (load platform loader bytes).run s = (.ok taskId, s')

/-- Such a call, where the arenas give what was added to them. -/
structure LoadRun (platform : Platform V) (loader : Loader V) (height extra : Nat)
    (pages : Set UInt64) (nodes : List UInt64) (bytes : List UInt8) (elf : ElfBytes)
    (table : List ProgramHeader) (s : Machine V) (taskId : UInt64) (s' : Machine V) : Prop
    extends LoadCall platform loader height extra pages nodes bytes elf table s taskId s' where
  /-- The arenas give what was added to them. -/
  served : ∃ spans, SpanArenas loader platform.vmem spans

/-- A program that was loaded. -/
structure LoadedProgram where
  /-- Its first thread. -/
  task : TaskData
  /-- The first frame of its stack. -/
  stack : UInt64
  /-- Its segments, the last of them first. -/
  segments : List Segment

/-- The root of its table. -/
def LoadedProgram.root (program : LoadedProgram) (hhdm : UInt64) : UInt64 :=
  currentTable hhdm program.task.taskTable

/-- Its frames. -/
def LoadedProgram.frames (program : LoadedProgram) : List UInt64 :=
  programFrames program.stack program.segments

/-- What a call of `load` has made. -/
structure LoadedAs (platform : Platform V) (height extra : Nat) (pages : Set UInt64)
    (nodes : List UInt64) (bytes : List UInt8) (elf : ElfBytes) (table : List ProgramHeader)
    (s : Machine V) (taskId : UInt64) (s' : Machine V) (program : LoadedProgram) : Prop where
  /-- Its thread is the last of the queue. -/
  pushed : s'.tasks = { s.tasks with queue := s.tasks.queue ++ [program.task] }
  /-- The thread is a new one. -/
  thread : NewThread platform.hhdmOffset (.fromUsize platform.levels) elf s.satp
    (program.root platform.hhdmOffset) program.task.trapFrame.registers.sp taskId program.task
  /-- The segments are those of the file. -/
  headers : program.segments.map Segment.header = (loadSegments table).reverse
  /-- They are placed, and so is the stack. -/
  laid : ProgramLaid platform height bytes elf s s' (program.root platform.hhdmOffset) program.stack
    program.task.trapFrame.registers.sp taskId program.segments
  /-- The frames were free. -/
  held : ∃ left used known, RootHeld platform.hhdmOffset height nodes pages
    (program.root platform.hhdmOffset) program.frames left extra used known s.pmm s'.pmm

section Root

/-- A place behind the start of a region, in the direct map or not. -/
theorem sub_add_place (base hhdm place : UInt64) : base - hhdm + place = base + place - hhdm := by
  rw [UInt64.sub_eq_add_neg, UInt64.sub_eq_add_neg, UInt64.add_assoc, UInt64.add_comm (-hhdm),
    UInt64.add_assoc]

variable {hhdm root : UInt64} {level : PageLevel} {satp : Satp}

/-- The `satp` of a new program names its root. -/
theorem currentTable_newSatp (mapAligned : hhdm % 4096 = 0) (aligned : root % 4096 = 0)
    (short : (root - hhdm).toNat < 2 ^ 56) :
    currentTable hhdm (newSatp hhdm level satp root) = root := by
  obtain ⟨small, back⟩ := shift_page mapAligned aligned short
  rw [currentTable, newSatp, Satp.getPpn, Satp.setPpn,
    getBits_setBits (by decide) (by decide) small,
    back]

end Root

variable {platform : Platform V} {loader : Loader V} {height extra : Nat} {pages : Set UInt64}
  {nodes : List UInt64} {bytes : List UInt8} {elf : ElfBytes} {table : List ProgramHeader}
  {s s' : Machine V} {taskId : UInt64} {program : LoadedProgram} {virt : VirtualAddress}

/-- What a call of `load` that returned has made. -/
theorem LoadRun.loadedAs
    (run : LoadRun platform loader height extra pages nodes bytes elf table s taskId s') :
    ∃ program, LoadedAs platform height extra pages nodes bytes elf table s taskId s' program := by
  obtain ⟨spans, served⟩ := run.served
  obtain ⟨root, stack, stackVaddr, segments, headers, laid, left, used, known, held⟩ :=
    load_lays run.ready served run.parsed run.listed run.followed run.enough run.ran
  obtain ⟨task, pushed, thread⟩ := laid.pushed
  have leads : currentTable platform.hhdmOffset task.taskTable = root := by
    rw [thread.table]
    exact currentTable_newSatp run.ready.mapAligned
      (held.stock.pagesAligned root held.rooted.member)
      held.short
  have sp : task.trapFrame.registers.sp = stackVaddr := by rw [thread.frame]
  subst leads sp
  exact ⟨⟨task, stack, segments⟩, pushed, thread, headers, laid, left, used, known, held⟩

section Leaf

variable (levels : (PageLevel.fromUsize platform.levels).asUsize = height + 1)
  (made : LoadedAs platform height extra pages nodes bytes elf table s taskId s' program)

include levels made

/-- The entry of the root that the stack lies under: no page of a segment does. -/
theorem LoadedAs.slot : ∃ index ≤ 256, 1 ≤ index ∧
    (∀ virt : VirtualAddress, virt.path (height + 1) = index →
      leafAfter (height + 1) (kernelLeaf platform.hhdmOffset height s.satp s.pmm.memory)
        (imagePlacements platform.hhdmOffset program.segments) virt = none) ∧
    (entrySpan (.fromUsize platform.levels) index).1.toNat ≤
      program.task.trapFrame.registers.sp.toNat ∧
    program.task.trapFrame.registers.sp.toNat + 0x800000 ≤
      (entrySpan (.fromUsize platform.levels) index).1.toNat +
        (entrySpan (.fromUsize platform.levels) index).2.toNat ∧
    ∀ placement ∈ stackPlacements program.task.trapFrame.registers.sp
      (program.stack - platform.hhdmOffset) 4, placement.page.path (height + 1) = index := by
  obtain ⟨index, one, most, low, high, free⟩ := made.laid.slot
  refine ⟨index, most, one, free, low, high, fun placement member => ?_⟩
  obtain ⟨i, bound, rfl⟩ := mem_stackPlacements.mp member
  exact stack_path levels most low high bound

/-- An address outside the entry of the stack comes to the leaf that the segments make of it. -/
theorem LoadedAs.leaf_beside (tall : 1 ≤ height) (beside : leafAfter (height + 1)
      (kernelLeaf platform.hhdmOffset height s.satp s.pmm.memory)
        (imagePlacements platform.hhdmOffset program.segments) virt ≠ none) :
    leafOf platform.hhdmOffset s'.pmm.memory (height + 1) (program.root platform.hhdmOffset) virt =
      leafAfter (height + 1) (kernelLeaf platform.hhdmOffset height s.satp s.pmm.memory)
        (imagePlacements platform.hhdmOffset program.segments) virt := by
  obtain ⟨index, -, -, free, -, -, inside⟩ := made.slot levels
  rw [made.laid.leaf]
  refine leafAfter_append fun placement member covers => beside (free virt ?_)
  have target : placement.target.asUsize ≤ height + 1 := by
    obtain ⟨_, _, rfl⟩ := mem_stackPlacements.mp member
    exact Nat.succ_le_succ tall
  exact (covers _ target (Nat.le_refl _)).trans (inside placement member)

/-- The segments are placed for all their addresses. -/
theorem LoadedAs.shown (tall : 1 ≤ height) :
    ImageShown platform.hhdmOffset (.fromUsize platform.levels) height
      (program.root platform.hhdmOffset)
      (kernelLeaf platform.hhdmOffset height s.satp s.pmm.memory) program.segments s'.pmm := by
  rintro virt ⟨placement, member, covers⟩
  obtain ⟨last, -, -, found⟩ : ∃ last ∈ imagePlacements platform.hhdmOffset program.segments,
      last.Covers (height + 1) virt ∧ leafAfter (height + 1)
        (kernelLeaf platform.hhdmOffset height s.satp s.pmm.memory)
          (imagePlacements platform.hhdmOffset program.segments) virt = some last.leaf :=
    leafAfter_covered member covers
  rw [made.laid.goes virt, made.leaf_beside levels tall (found ▸ Option.some_ne_none _)]

/-- An address under the first entry of the root goes nowhere unless a page of the file covers
it. -/
theorem LoadedAs.goes_nowhere (tall : 1 ≤ height) (first : virt.path (height + 1) = 0)
    (apart : ∀ page ∈ imagePages table, ¬ SamePath 1 (height + 1) page.path virt.path) :
    translate platform.hhdmOffset (.fromUsize platform.levels) (program.root platform.hhdmOffset)
      s'.pmm virt = .ok (.error "Table not found") := by
  obtain ⟨index, -, one, -, -, -, inside⟩ := made.slot levels
  have below : virt.path (height + 1) < 256 := first ▸ by decide
  have unmapped : leafOf platform.hhdmOffset s'.pmm.memory (height + 1)
      (program.root platform.hhdmOffset) virt = none := by
    rw [made.laid.leaf, leafAfter_append, leafAfter_apart, kernelLeaf, if_pos below]
    · intro placement member covers
      refine apart _ (mem_imagePages made.headers member) ?_
      obtain ⟨_, _, _, _, rfl⟩ := mem_imagePlacements.mp member
      exact covers
    · -- the stack lies under another entry
      intro placement member covers
      have target : placement.target.asUsize ≤ height + 1 := by
        obtain ⟨_, _, rfl⟩ := mem_stackPlacements.mp member
        exact Nat.succ_le_succ tall
      have top : virt.path (height + 1) = placement.page.path (height + 1) :=
        covers _ target (Nat.le_refl _)
      rw [inside placement member, first] at top
      omega
  rw [made.laid.goes virt, unmapped]
  rfl

end Leaf

/-- A header that the loader gets through can be followed. -/
theorem followed_of_served {spare : Nat} {before : VirtualAddress → Option (Nat × PageEntry)}
    (served : ∀ entry ∈ table, entry.pType = 1 → entry.Served bytes height spare before) :
    Followed table :=
  fun entry member load => ⟨(served entry member load).maps, (served entry member load).fits⟩

section Returns

variable {spans : V → UInt64 → List (UInt64 × UInt64)} {unused : V → UInt64 → Prop}
  {length spare : Nat} {base : UInt64}
  (ready : LoadReady platform height pages (framesFrom base length) s)
  (serving : ServingArenas loader platform.vmem spans unused)
  (parsed : loader.minimalParse bytes = .ok elf) (listed : elf.segments = some table)
  (served : ∀ entry ∈ table, entry.pType = 1 → entry.Served bytes height spare
    (kernelLeaf platform.hhdmOffset height s.satp s.pmm.memory))
  (positive : 1 ≤ spare) (small : spare < 256)
  (ids : ∃ number after,
    (platform.vmem.alloc loader.taskIds 1).run s.arenas = (.ok (.ok number), after))
  (unlocked : s.currentUserTask.writer = false) (unread : s.currentUserTask.readers = 0)
  (room : s.tasks.queue.length < queueLimit)
  (enough : rootCost platform.hhdmOffset height s + (imageCost height table + stackRoom height) +
    extra < length)

include ready serving parsed listed served positive small ids unlocked unread room enough

/-- While the free frames are one row that is long enough, a call of `load` returns. -/
theorem load_runs : ∃ taskId s', LoadRun platform loader height extra pages (framesFrom base length)
    bytes elf table s taskId s' := by
  obtain ⟨taskId, s', ran⟩ :=
    load_returns ready serving parsed listed served positive small ids unlocked
    unread room (Nat.lt_of_le_of_lt (Nat.le_add_right _ extra) enough)
  have frames : rootCost platform.hhdmOffset height s +
      (imageCost height table + (stackCost height + extra)) < (framesFrom base length).length := by
    rw [framesFrom_length, stackCost]
    rw [stackRoom] at enough
    omega
  exact ⟨taskId, s', ⟨ready, parsed, listed, followed_of_served served, frames, ran⟩, spans,
    serving.toSpanArenas⟩

/-- While the free frames are one row that is long enough, a call of `load` returns, and makes a
program of any file whose segments lie where nothing is mapped, beside a free entry of the root, and
inside the file. -/
theorem load_makes_program :
    ∃ taskId s' program, (load platform loader bytes).run s = (.ok taskId, s') ∧
      LoadedAs platform height extra pages (framesFrom base length) bytes elf table s taskId s'
        program := by
  obtain ⟨taskId, s', run⟩ :=
    load_runs ready serving parsed listed served positive small ids unlocked
    unread room enough
  obtain ⟨program, made⟩ := run.loadedAs
  exact ⟨taskId, s', program, run.ran, made⟩

end Returns

/-- Every byte of the segments of a program is found where the loader put it exactly when the
segments begin at pages and no two of their pages are the same. -/
theorem load_found_iff
    (run : LoadRun platform loader height extra pages nodes bytes elf table s taskId s') :
    ∃ program, LoadedAs platform height extra pages nodes bytes elf table s taskId s' program ∧
      ((∀ segment ∈ program.segments,
        segment.FoundAt platform.hhdmOffset (.fromUsize platform.levels)
        (program.root platform.hhdmOffset) s'.pmm) ↔ ImageApart height table) := by
  obtain ⟨program, made⟩ := run.loadedAs
  refine ⟨program, made, ?_⟩
  have tall : 1 ≤ height := Nat.le_of_succ_le run.ready.tall
  rw [← imageApart_iff made.headers]
  exact (made.shown run.ready.levels tall).found_iff made.laid.sound run.ready.mapAligned

/-- The byte that a program reads at an address. -/
def readByte (hhdm : UInt64) (level : PageLevel) (root : UInt64) (p : Pmm) (virt : VirtualAddress) :
    Option UInt8 :=
  match translate hhdm level root p virt with
  | .ok (.ok phys) => some (byteAt p.memory (phys + hhdm))
  | _ => none

/-- What a program finds at the addresses of a segment: the bytes of the file, zeroes if it has none
there, and behind the bytes of the file what its frames held before. -/
structure Segment.ReadAs (hhdm : UInt64) (level : PageLevel) (root : UInt64) (bytes : List UInt8)
    (origin : Memory) (p : Pmm) (segment : Segment) : Prop where
  /-- The bytes of the file. -/
  file : ∀ offset < segment.header.pMemsz.toNat, offset < segment.header.pFilesz.toNat →
    readByte hhdm level root p (segment.header.pVaddr + UInt64.ofNat offset) =
      some (bytes.getD (UInt64.ofNat offset + segment.header.pOffset).toNat 0)
  /-- Zeroes. -/
  zero : segment.header.pFilesz = 0 → ∀ offset < segment.header.pMemsz.toNat,
    readByte hhdm level root p (segment.header.pVaddr + UInt64.ofNat offset) = some 0
  /-- What was there before. -/
  stale : segment.header.pFilesz ≠ 0 → ∀ offset < segment.header.pMemsz.toNat,
    segment.header.pFilesz.toNat ≤ offset → 16 ≤ offset % 4096 →
      readByte hhdm level root p (segment.header.pVaddr + UInt64.ofNat offset) =
        some (byteAt origin (segment.base + UInt64.ofNat offset))

/-- A segment that begins at a page, and has no page with another in common, is read so. -/
theorem LoadedAs.reads (ready : LoadReady platform height pages nodes s)
    (made : LoadedAs platform height extra pages nodes bytes elf table s taskId s' program)
    (apart : ImageApart height table) {segment : Segment} (listed : segment ∈ program.segments) :
    segment.ReadAs platform.hhdmOffset (.fromUsize platform.levels)
      (program.root platform.hhdmOffset) bytes s.pmm.memory s'.pmm := by
  have tall : 1 ≤ height := Nat.le_of_succ_le ready.tall
  have found := ((made.shown ready.levels tall).found_iff made.laid.sound ready.mapAligned).mpr
    ((imageApart_iff made.headers).mpr apart)
  have reads : ∀ offset < segment.header.pMemsz.toNat,
      readByte platform.hhdmOffset (.fromUsize platform.levels) (program.root platform.hhdmOffset)
        s'.pmm (segment.header.pVaddr + UInt64.ofNat offset) =
          some (byteAt s'.pmm.memory (segment.base + UInt64.ofNat offset)) := by
    intro offset bound
    have back : segment.base - platform.hhdmOffset + UInt64.ofNat offset + platform.hhdmOffset =
        segment.base + UInt64.ofNat offset := by
      rw [UInt64.add_assoc, UInt64.add_comm (UInt64.ofNat offset), ← UInt64.add_assoc,
        UInt64.sub_add_cancel]
    rw [readByte, found segment listed offset bound]
    exact congrArg (fun address => some (byteAt s'.pmm.memory address)) back
  have contents := made.laid.held segment listed
  have whole : segment.header.pMemsz.toNat ≤ segment.header.pages * 4096 := by
    rw [ProgramHeader.pages]
    omega
  constructor
  case file =>
    intro offset bound inFile
    rw [reads offset bound, contents.file offset inFile]
  case zero =>
    intro none offset bound
    rw [reads offset bound, contents.zero none offset bound]
  case stale =>
    intro some offset bound past data
    rw [reads offset bound, contents.stale some offset (bound.trans_le whole) past data]

/-- Where its segments begin at pages and lie apart, a program reads the bytes of its file. Behind
them it reads what its frames, which were free, held before, unless the file has no byte there. -/
theorem load_reads
    (run : LoadRun platform loader height extra pages nodes bytes elf table s taskId s')
    (apart : ImageApart height table) :
    ∃ program, LoadedAs platform height extra pages nodes bytes elf table s taskId s' program ∧
      (∀ segment ∈ program.segments, ∀ frame ∈ segment.frames, frame ∉ pages) ∧
      ∀ segment ∈ program.segments, segment.ReadAs platform.hhdmOffset (.fromUsize platform.levels)
        (program.root platform.hhdmOffset) bytes s.pmm.memory s'.pmm := by
  obtain ⟨program, made⟩ := run.loadedAs
  obtain ⟨left, used, known, held⟩ := made.held
  refine ⟨program, made, fun segment listed frame inside => ?_, fun segment listed =>
    made.reads run.ready apart listed⟩
  exact (held.frames frame (List.mem_append_right _
    (List.mem_flatMap.mpr ⟨segment, listed, inside⟩))).2.1

/-- Whether the program finds a segment as its file has it: the bytes of the file, and zeroes behind
them. -/
def Segment.AsInFile (hhdm : UInt64) (level : PageLevel) (root : UInt64) (bytes : List UInt8)
    (p : Pmm) (segment : Segment) : Prop :=
  ∀ offset < segment.header.pMemsz.toNat,
    readByte hhdm level root p (segment.header.pVaddr + UInt64.ofNat offset) = some
      (if offset < segment.header.pFilesz.toNat then
        bytes.getD (UInt64.ofNat offset + segment.header.pOffset).toNat 0
      else 0)

/-- Whether a segment of which the file has a part held zeroes behind that part before the call, the
words aside that link free frames. -/
def Segment.TailZero (origin : Memory) (segment : Segment) : Prop :=
  segment.header.pFilesz ≠ 0 → ∀ offset < segment.header.pMemsz.toNat,
    segment.header.pFilesz.toNat ≤ offset → 16 ≤ offset % 4096 →
      byteAt origin (segment.base + UInt64.ofNat offset) = 0

/-- A program finds its image as the file has it when each segment lies in the file as a whole or
not at all, whatever the claimed frames held. A segment of which the file has a part is found so
only if its frames held zeroes. -/
theorem load_gives_image
    (run : LoadRun platform loader height extra pages nodes bytes elf table s taskId s')
    (apart : ImageApart height table) :
    ∃ program, LoadedAs platform height extra pages nodes bytes elf table s taskId s' program ∧
      ((∀ entry ∈ loadSegments table, entry.pFilesz = 0 ∨ entry.pFilesz = entry.pMemsz) →
        ∀ segment ∈ program.segments, segment.AsInFile platform.hhdmOffset
          (.fromUsize platform.levels) (program.root platform.hhdmOffset) bytes s'.pmm) ∧
      ∀ segment ∈ program.segments, segment.AsInFile platform.hhdmOffset
        (.fromUsize platform.levels) (program.root platform.hhdmOffset) bytes s'.pmm →
          segment.TailZero s.pmm.memory := by
  obtain ⟨program, made⟩ := run.loadedAs
  refine ⟨program, made, fun whole segment listed offset bound => ?_, fun segment listed found some
    offset bound past data => ?_⟩
  · have reads := made.reads run.ready apart listed
    rcases whole _ (header_mem made.headers listed) with none | all
    · have past : ¬ offset < segment.header.pFilesz.toNat := none ▸ Nat.not_lt_zero offset
      rw [if_neg past, reads.zero none offset bound]
    · have inFile : offset < segment.header.pFilesz.toNat := all ▸ bound
      rw [if_pos inFile, reads.file offset bound inFile]
  · have reads := made.reads run.ready apart listed
    have zero := found offset bound
    rw [if_neg (Nat.not_lt.mpr past), reads.stale some offset bound past data] at zero
    exact Option.some.inj zero

section Stack

variable {sp : UInt64} {i : Nat} {virt : VirtualAddress}

/-- Addresses without bits above the tables take the same way to a page exactly when they lie in the
same page. -/
theorem samePath_iff_page {target : Nat} {other : VirtualAddress} (low : 1 ≤ target)
    (high : target ≤ height) (fits : virt.toNat < 2 ^ pageBits (height + 1))
    (otherFits : other.toNat < 2 ^ pageBits (height + 1)) :
    SamePath target height virt.path other.path ↔
      other.toNat / 2 ^ pageBits target = virt.toNat / 2 ^ pageBits target := by
  have power : ∀ place, 2 ^ pageBits (target + place) = 2 ^ pageBits target * 512 ^ place := by
    intro place
    have bits : pageBits (target + place) = pageBits target + 9 * place := by
      rw [pageBits, pageBits]
      omega
    rw [bits, Nat.pow_add, Nat.pow_mul]
  constructor
  · intro same
    have digits := mod_eq_of_digits (fun place bound => by
      have digit := same (target + place) (by omega) (by omega)
      rwa [VirtualAddress.path, VirtualAddress.path, power, ← Nat.div_div_eq_div_mul,
        ← Nat.div_div_eq_div_mul] at digit :
      ∀ place < height + 1 - target, other.toNat / 2 ^ pageBits target / 512 ^ place % 512 =
        virt.toNat / 2 ^ pageBits target / 512 ^ place % 512)
    have whole : 2 ^ pageBits (height + 1) = 2 ^ pageBits target * 512 ^ (height + 1 - target) := by
      rw [← power]
      congr 2
      omega
    rw [whole] at fits otherFits
    rwa [Nat.mod_eq_of_lt (Nat.div_lt_of_lt_mul otherFits),
      Nat.mod_eq_of_lt (Nat.div_lt_of_lt_mul fits)] at digits
  · intro same level above _
    obtain ⟨place, rfl⟩ := Nat.exists_eq_add_of_le above
    rw [VirtualAddress.path, VirtualAddress.path, power, ← Nat.div_div_eq_div_mul,
      ← Nat.div_div_eq_div_mul, same]

/-- The span of a stack leaves room for it. -/
theorem stack_room {level : PageLevel} {index : Nat} (at_height : level.asUsize = height + 1)
    (tall : 2 ≤ height) (most : index ≤ 256)
    (low : (entrySpan level index).1.toNat ≤ sp.toNat)
    (high : sp.toNat + 0x800000 ≤
      (entrySpan level index).1.toNat + (entrySpan level index).2.toNat) :
    sp.toNat + 0x800000 < 2 ^ pageBits (height + 2) ∧ sp.toNat + 0x800000 < 2 ^ 64 ∧
      ∀ virt : VirtualAddress, sp.toNat / 0x200000 ≤ virt.toNat / 0x200000 →
        virt.toNat / 0x200000 < sp.toNat / 0x200000 + 4 → virt.path (height + 1) = index := by
  have short : height + 1 ≤ 5 := at_height ▸ level.asUsize_le
  obtain ⟨first, size⟩ := toNat_entrySpan at_height (Nat.lt_of_le_of_lt most (by decide))
  have above := entrySpan_bound at_height most
  have next : 2 ^ pageBits (height + 2) = 2 ^ pageBits (height + 1) * 512 := by
    have bits : pageBits (height + 2) = pageBits (height + 1) + 9 := by
      rw [pageBits, pageBits]
      omega
    rw [bits, Nat.pow_add]
  obtain ⟨pages, same⟩ : ∃ pages, 2 ^ pageBits (height + 1) = 0x200000 * pages := by
    refine ⟨2 ^ (pageBits (height + 1) - 21), ?_⟩
    have split : pageBits (height + 1) = 21 + (pageBits (height + 1) - 21) := by
      rw [pageBits]
      omega
    conv => lhs; rw [split, Nat.pow_add]
  have last : index.succ * 2 ^ pageBits (height + 1) ≤ 257 * 2 ^ pageBits (height + 1) :=
    Nat.mul_le_mul_right _ (Nat.succ_le_succ most)
  have positive := Nat.two_pow_pos (pageBits (height + 1))
  refine ⟨?_, by omega, fun virt from_page to_page => ?_⟩
  · rw [first, size, ← Nat.succ_mul] at high
    rw [next]
    omega
  · apply path_of_entrySpan at_height (Nat.lt_of_le_of_lt most (by decide))
    · rw [first, same, Nat.mul_left_comm] at low ⊢
      omega
    · rw [first, size, same, Nat.mul_left_comm] at high ⊢
      omega

/-- A page of a stack covers the addresses of its 2 MiB. -/
theorem stackPlacement_covers {paddr : UInt64} (tall : 2 ≤ height) (bound : i < 4)
    (room : sp.toNat + 0x800000 < 2 ^ 64) (spFits : sp.toNat + 0x800000 < 2 ^ pageBits (height + 2))
    (fits : virt.toNat < 2 ^ pageBits (height + 2)) :
    (stackPlacement sp paddr i).Covers (height + 1) virt ↔
      virt.toNat / 0x200000 = sp.toNat / 0x200000 + i := by
  have page : (stackPlacement sp paddr i).page.toNat = sp.toNat + i * 0x200000 := by
    rw [stackPlacement, UInt64.toNat_add, UInt64.toNat_ofNat']
    omega
  have bits : 2 ^ pageBits 2 = 0x200000 := by decide
  have covers : (stackPlacement sp paddr i).Covers (height + 1) virt ↔
      virt.toNat / 2 ^ pageBits 2 = (stackPlacement sp paddr i).page.toNat / 2 ^ pageBits 2 :=
    samePath_iff_page (Nat.le_succ 1) (Nat.le_succ_of_le tall)
      (by rw [page]; omega : _ < 2 ^ pageBits (height + 2)) fits
  rw [covers, page, bits]
  omega

end Stack

/-- The pages of a stack are mapped to whole pages of 2 MiB. -/
theorem ProgramLaid.stack_page {root stack stackVaddr : UInt64} {segments : List Segment}
    (laid : ProgramLaid platform height bytes elf s s' root stack stackVaddr taskId segments)
    (wide : platform.hhdmOffset % 0x200000 = 0) {i : Nat} (bound : i < 4) :
    (stack - platform.hhdmOffset + UInt64.ofNat (i * 0x200000)) %
        (PageSize.fromLevel .level2).bytes = 0 ∧
      (stack - platform.hhdmOffset + UInt64.ofNat (i * 0x200000)).toNat < 2 ^ 56 := by
  constructor
  · have base := congrArg UInt64.toNat wide
    have start := congrArg UInt64.toNat laid.begins
    have mask : (PageSize.medium.bytes - 1).toNat = 2 ^ 21 - 1 := rfl
    rw [UInt64.toNat_and, mask, Nat.and_two_pow_sub_one_eq_mod] at start
    rw [UInt64.toNat_mod] at base
    change _ % 0x200000 = 0 at base
    change _ = 0 at start
    apply UInt64.toNat_inj.mp
    rw [UInt64.toNat_mod, UInt64.toNat_add, UInt64.toNat_sub, UInt64.toNat_ofNat']
    change _ % 0x200000 = 0
    omega
  · have member : stack + UInt64.ofNat (i * 512 * 4096) ∈ programFrames stack segments :=
      List.mem_append_left _ (mem_framesFrom.mpr ⟨i * 512, by omega, rfl⟩)
    have short := laid.short _ member
    rw [sub_add_place]
    rwa [Nat.mul_assoc] at short

/-- What a program sees of its stack: four pages of 2 MiB from the one of the stack pointer on,
which it may read and write, and nothing else under their entry of the root. -/
structure StackSeen (hhdm : UInt64) (level : PageLevel) (height : Nat) (root sp stack : UInt64)
    (p : Pmm) : Prop where
  /-- The pages are mapped to the frames. -/
  mapped : ∀ i < 4, ∀ virt : VirtualAddress, virt.toNat / 0x200000 = sp.toNat / 0x200000 + i →
    leafOf hhdm p.memory (height + 1) root virt = some (2, leafEntry
        (stack - hhdm + UInt64.ofNat (i * 0x200000)) ((PageFlags.read.union .write).union .user)) ∧
      translate hhdm level root p virt =
        .ok (.ok (stack - hhdm + UInt64.ofNat (i * 0x200000) + virt % 0x200000))
  /-- Nothing lies beside them. -/
  beside : ∀ virt : VirtualAddress, virt.path (height + 1) = VirtualAddress.path sp (height + 1) →
    virt.toNat < 2 ^ pageBits (height + 2) →
      (∀ i < 4, virt.toNat / 0x200000 ≠ sp.toNat / 0x200000 + i) →
        leafOf hhdm p.memory (height + 1) root virt = none ∧
          translate hhdm level root p virt = .ok (.error "Table not found")

/-- The stack pointer of a new program is the lowest address of its stack, which alone lies under
its entry of the root. -/
theorem load_maps_stack
    (run : LoadRun platform loader height extra pages nodes bytes elf table s taskId s')
    (wide : platform.hhdmOffset % 0x200000 = 0) :
    ∃ program, LoadedAs platform height extra pages nodes bytes elf table s taskId s' program ∧
      (∀ frame ∈ framesFrom program.stack 0x800, frame ∉ pages) ∧
      StackSeen platform.hhdmOffset (.fromUsize platform.levels) height
        (program.root platform.hhdmOffset) program.task.trapFrame.registers.sp program.stack
          s'.pmm := by
  obtain ⟨program, made⟩ := run.loadedAs
  obtain ⟨left, used, known, held⟩ := made.held
  obtain ⟨index, most, one, free, low, high, inside⟩ := made.slot run.ready.levels
  obtain ⟨fits, bound, within⟩ := stack_room run.ready.levels run.ready.tall most low high
  refine ⟨program, made, fun frame member =>
    (held.frames frame (List.mem_append_left _ member)).2.1, ?_⟩
  have spFits : (program.task.trapFrame.registers.sp).toNat + 0x800000 < 2 ^ pageBits
      (height + 2) :=
    fits
  constructor
  case mapped =>
    intro i small virt here
    have top : virt.path (height + 1) = index := within virt (by omega) (by omega)
    have low : virt.toNat < 2 ^ pageBits (height + 2) := by
      obtain ⟨pages, same⟩ : ∃ pages, 2 ^ pageBits (height + 2) = 0x200000 * pages := by
        refine ⟨2 ^ (pageBits (height + 2) - 21), ?_⟩
        have split : pageBits (height + 2) = 21 + (pageBits (height + 2) - 21) := by
          rw [pageBits]
          omega
        conv => lhs; rw [split, Nat.pow_add]
      rw [same] at spFits ⊢
      omega
    have covered : (stackPlacement program.task.trapFrame.registers.sp
        (program.stack - platform.hhdmOffset) i).Covers (height + 1) virt :=
      (stackPlacement_covers run.ready.tall small bound spFits low).mpr here
    have leaf : leafOf platform.hhdmOffset s'.pmm.memory (height + 1)
        (program.root platform.hhdmOffset) virt = some (stackPlacement
          program.task.trapFrame.registers.sp (program.stack - platform.hhdmOffset) i).leaf := by
      obtain ⟨last, member, covers, found⟩ : ∃ last ∈ stackPlacements
          program.task.trapFrame.registers.sp (program.stack - platform.hhdmOffset) 4 ++
            imagePlacements platform.hhdmOffset program.segments,
          last.Covers (height + 1) virt ∧ leafAfter (height + 1)
            (kernelLeaf platform.hhdmOffset height s.satp s.pmm.memory) _ virt = some last.leaf :=
        leafAfter_covered (List.mem_append_left _ (mem_stackPlacements.mpr ⟨i, small, rfl⟩)) covered
      rw [made.laid.leaf, found]
      rcases List.mem_append.mp member with stack | image
      · obtain ⟨j, other, rfl⟩ := mem_stackPlacements.mp stack
        have there := (stackPlacement_covers run.ready.tall other bound spFits low).mp covers
        obtain rfl : j = i := by omega
        rfl
      · obtain ⟨_, _, _, placed⟩ : ∃ last ∈ imagePlacements platform.hhdmOffset program.segments,
            last.Covers (height + 1) virt ∧ leafAfter (height + 1)
              (kernelLeaf platform.hhdmOffset height s.satp s.pmm.memory) _ virt = some last.leaf :=
          leafAfter_covered image covers
        rw [free virt top] at placed
        cases placed
    refine ⟨leaf, ?_⟩
    rw [made.laid.goes, leaf]
    obtain ⟨page, short⟩ := made.laid.stack_page wide small
    have middle : PageLevel.level2.asUsize = 1 + 1 := rfl
    exact congrArg Except.ok (resultOf_leaf middle stackFlags_maps page short)
  case beside =>
    intro virt top low apart
    have here : virt.path (height + 1) = index := top.trans (within _ (Nat.le_refl _) (by omega))
    have unmapped : leafOf platform.hhdmOffset s'.pmm.memory (height + 1)
        (program.root platform.hhdmOffset) virt = none := by
      rw [made.laid.leaf, leafAfter_append, free virt here]
      intro placement member covers
      obtain ⟨i, small, rfl⟩ := mem_stackPlacements.mp member
      exact apart i small ((stackPlacement_covers run.ready.tall small bound spFits low).mp covers)
    refine ⟨unmapped, ?_⟩
    rw [made.laid.goes, unmapped]
    rfl

/-- Whether no page of the kernel's half of a table is open to user mode. -/
def KernelClosed (hhdm : UInt64) (height : Nat) (root : UInt64) (memory : Memory) : Prop :=
  ∀ virt : VirtualAddress, 256 ≤ virt.path (height + 1) → ∀ high entry,
    leafOf hhdm memory (height + 1) root virt = some (high, entry) → entry.getUser = false

/-- What user mode can reach through a table: nothing but certain frames. -/
def Confined (hhdm : UInt64) (level : PageLevel) (height : Nat) (root : UInt64) (p : Pmm)
    (frames : List UInt64) : Prop :=
  ∀ (virt : VirtualAddress) high entry,
    leafOf hhdm p.memory (height + 1) root virt = some (high, entry) → entry.getUser = true →
      ∃ frame ∈ frames, translate hhdm level root p virt = .ok (.ok (frame - hhdm + virt % 4096))

/-- The sum of a place in a page of 2 MiB. -/
theorem wide_place (base hhdm : UInt64) (virt : VirtualAddress) (i : Nat) :
    base - hhdm + UInt64.ofNat (i * 0x200000) + virt % 0x200000 =
      base + UInt64.ofNat ((i * 512 + virt.toNat % 0x200000 / 4096) * 4096) - hhdm +
        virt % 4096 := by
  have parts : UInt64.ofNat (i * 0x200000) + virt % 0x200000 =
      UInt64.ofNat ((i * 512 + virt.toNat % 0x200000 / 4096) * 4096) + virt % 4096 := by
    apply UInt64.toNat_inj.mp
    rw [UInt64.toNat_add, UInt64.toNat_add, UInt64.toNat_mod, UInt64.toNat_mod, UInt64.toNat_ofNat',
      UInt64.toNat_ofNat']
    change (_ + _ % 0x200000) % _ = (_ + _ % 4096) % _
    omega
  rw [UInt64.add_assoc, parts, ← UInt64.add_assoc, sub_add_place]

/-- What user mode can reach through the table of a new program are the frames of the program. -/
theorem LoadedAs.confined (ready : LoadReady platform height pages nodes s)
    (made : LoadedAs platform height extra pages nodes bytes elf table s taskId s' program)
    (wide : platform.hhdmOffset % 0x200000 = 0)
    (closed : KernelClosed platform.hhdmOffset height (currentTable platform.hhdmOffset s.satp)
      s.pmm.memory) :
    Confined platform.hhdmOffset (.fromUsize platform.levels) height
      (program.root platform.hhdmOffset) s'.pmm program.frames := by
  intro virt high entry found user
  have goes := made.laid.goes virt
  rw [found] at goes
  rw [made.laid.leaf] at found
  rcases leafAfter_cases found with kernel | ⟨placement, member, same⟩
  · rw [kernelLeaf] at kernel
    split at kernel
    · cases kernel
    · next above =>
      rw [closed virt (Nat.not_lt.mp above) high entry kernel] at user
      cases user
  · rw [same] at goes
    rcases List.mem_append.mp member with onStack | inImage
    · obtain ⟨i, bound, rfl⟩ := mem_stackPlacements.mp onStack
      obtain ⟨page, short⟩ := made.laid.stack_page wide bound
      have middle : PageLevel.level2.asUsize = 1 + 1 := rfl
      refine ⟨_, List.mem_append_left _ (mem_framesFrom.mpr
        ⟨i * 512 + virt.toNat % 0x200000 / 4096, by omega, rfl⟩), ?_⟩
      rw [goes, ← wide_place]
      exact congrArg Except.ok (resultOf_leaf middle stackFlags_maps page short)
    · obtain ⟨result, -⟩ := made.laid.sound.resultOf ready.mapAligned inImage virt
      obtain ⟨segment, listed, step, bound, rfl⟩ := mem_imagePlacements.mp inImage
      refine ⟨segment.base + UInt64.ofNat (step * 4096), List.mem_append_right _
        (List.mem_flatMap.mpr ⟨segment, listed, mem_framesFrom.mpr ⟨step, bound, rfl⟩⟩), ?_⟩
      rw [goes, result, ← sub_add_place]
      rfl

/-- While no page of the kernel's half is open to user mode, a new program can reach nothing but its
own frames, which were free and are no tables. -/
theorem load_confines_user
    (run : LoadRun platform loader height extra pages nodes bytes elf table s taskId s')
    (wide : platform.hhdmOffset % 0x200000 = 0)
    (closed : KernelClosed platform.hhdmOffset height (currentTable platform.hhdmOffset s.satp)
      s.pmm.memory) :
    ∃ program, LoadedAs platform height extra pages nodes bytes elf table s taskId s' program ∧
      Confined platform.hhdmOffset (.fromUsize platform.levels) height
        (program.root platform.hhdmOffset) s'.pmm program.frames ∧
      ∃ known, ∀ frame ∈ program.frames, frame ∉ pages ∧
        frame ∉ footprint (slots platform.hhdmOffset s'.pmm.memory) 512 known height
          (program.root platform.hhdmOffset) := by
  obtain ⟨program, made⟩ := run.loadedAs
  obtain ⟨left, used, known, held⟩ := made.held
  exact ⟨program, made, made.confined run.ready wide closed, known, fun frame member =>
    (held.frames frame member).2⟩

section Clean

/-- Whether free frames hold no entries, the links of the list apart. -/
def CleanFrames (nodes : List UInt64) (memory : Memory) : Prop :=
  ∀ node ∈ nodes, ∀ index, 2 ≤ index → index < 512 →
    PageEntry.isBlank (memory (wordOf node index)) = true

/-- The address of a page is no entry. -/
theorem isBlank_page {word : UInt64} (page : word % 4096 = 0) : PageEntry.isBlank word = true := by
  have low : ∀ index < 12, getBit index word = false := by
    intro index bound
    have bits : word.toNat % 2 ^ 12 = 0 := aligned_toNat page
    have bit := Nat.testBit_mod_two_pow word.toNat 12 index
    rw [bits, Nat.zero_testBit, decide_eq_true bound, Bool.true_and] at bit
    exact bit.symm
  simp only [PageEntry.isBlank, PageEntry.getValid, PageEntry.getRead, PageEntry.getWrite,
    PageEntry.getExec, PageEntry.getUser, PageEntry.getAccessed, PageEntry.getDirty]
  rw [low 0 (by decide), low 1 (by decide), low 2 (by decide), low 3 (by decide), low 4 (by decide),
    low 6 (by decide), low 7 (by decide)]
  rfl

/-- A list of clean frames gives frames without entries. -/
theorem Stock.head_blank {hhdm : UInt64} {p : Pmm} (stock : Stock hhdm pages p nodes)
    (clean : CleanFrames nodes p.memory) (listed : nodes ≠ []) {index : Nat} (bound : index < 512) :
    PageEntry.isBlank (p.memory (wordOf p.regionList.head index)) = true := by
  match nodes with
  | [] => exact absurd rfl listed
  | node :: rest =>
    have head : p.regionList.head = node := by simpa using stock.holds.head.symm
    obtain ⟨before, after, -⟩ := stock.holds.links
    rw [head]
    by_cases link : index < 2
    · obtain rfl | rfl : index = 0 ∨ index = 1 := by omega
      · have word : p.memory (wordOf node 0) = 0 :=
          (congrArg p.memory (wordOf_zero node)).trans before
        rw [word]
        exact isBlank_zero
      · have word : p.memory (wordOf node 1) = rest.headD 0 := after
        rw [word]
        apply isBlank_page
        cases rest with
        | nil => rfl
        | cons next rest => exact (stock.holds.frames next (by simp)).aligned
    · exact clean node List.mem_cons_self index (Nat.not_lt.mp link) bound

end Clean

section Arenas

/-- A span of an arena of the sample, used from its start on. -/
structure SampleSpan where
  /-- Its start. -/
  base : UInt64
  /-- Its size. -/
  size : UInt64
  /-- How much of it is used. -/
  used : UInt64
  /-- No more is used than there is, and the span does not run past the last address. -/
  fits : used ≤ size ∧ base.toNat + size.toNat < 2 ^ 64

/-- A span of which nothing is used. -/
def SampleSpan.fresh (base size : UInt64) (inside : base.toNat + size.toNat < 2 ^ 64) :
    SampleSpan where
  base := base
  size := size
  used := 0
  fits := ⟨UInt64.le_iff_toNat_le.mpr (Nat.zero_le _), inside⟩

/-- The arenas of the sample. -/
structure SampleArenas where
  /-- The number of the next arena. -/
  next : UInt64
  /-- The spans of each. -/
  arenas : UInt64 → List SampleSpan

/-- The same span with more of it used. -/
def SampleSpan.use (span : SampleSpan) (size : UInt64) (room : size ≤ span.size - span.used) :
    SampleSpan where
  base := span.base
  size := span.size
  used := span.used + size
  fits := by
    obtain ⟨within, inside⟩ := span.fits
    refine ⟨?_, inside⟩
    rw [UInt64.le_iff_toNat_le] at *
    rw [UInt64.toNat_sub_of_le _ _ (UInt64.le_iff_toNat_le.mpr within)] at room
    rw [UInt64.toNat_add]
    omega

/-- Take a range from the span that was added first and has room. -/
def takeRange (size : UInt64) : List SampleSpan → Option (UInt64 × List SampleSpan)
  | [] => none
  | span :: older =>
    match takeRange size older with
    | some (base, rest) => some (base, span :: rest)
    | none =>
      if room : size ≤ span.size - span.used then some
        (span.base + span.used, span.use size room :: older)
      else none

/-- The spans of an arena, as ranges. -/
def SampleArenas.spans (arenas : SampleArenas) (arena : UInt64) : List (UInt64 × UInt64) :=
  (arenas.arenas arena).map fun span => (span.base, span.size)

/-- Whether nothing was taken from an arena. -/
def SampleArenas.unused (arenas : SampleArenas) (arena : UInt64) : Prop :=
  ∀ span ∈ arenas.arenas arena, span.used = 0

/-- The arenas with other spans of one of them. -/
def SampleArenas.set (arenas : SampleArenas) (arena : UInt64) (spans : List SampleSpan) :
    SampleArenas :=
  { arenas with arenas := Function.update arenas.arenas arena spans }

/-- The spans that were set. -/
theorem SampleArenas.set_arenas (arenas : SampleArenas) (arena : UInt64) (spans : List SampleSpan) :
    (arenas.set arena spans).arenas arena = spans := Function.update_self ..

/-- The arenas as `load` calls them. -/
def sampleVmem : Vmem SampleArenas where
  alloc arena size := fun arenas => match takeRange size (arenas.arenas arena) with
    | some found => (.ok (.ok found.1), arenas.set arena found.2)
    | none => (.ok (.error "no memory"), arenas)

/-- A program header of one page in the user's half. -/
def sampleHeader : ProgramHeader where
  pType := 1
  pOffset := 0
  pVaddr := 0x10000
  pFilesz := 1
  pMemsz := 0x1000
  pFlags := 0b101

/-- A parsed file with this program header. -/
def sampleElf : ElfBytes := ⟨some [sampleHeader], 0x10000⟩

/-- A loader that finds a file in all bytes. -/
def loaderOf (elf : ElfBytes) : Loader SampleArenas where
  minimalParse := fun _ => .ok elf
  newArena := fun _ _ arenas =>
    (.ok arenas.next, { arenas.set arenas.next [] with next := arenas.next + 1 })
  add := fun arena base size arenas =>
    if inside : base.toNat + size.toNat < 2 ^ 64 then
      (.ok (.ok ()), arenas.set arena (.fresh base size inside :: arenas.arenas arena))
    else (.ok (.error "no memory"), arenas)
  taskIds := 0

/-- A loader that finds the sample. -/
abbrev sampleLoader : Loader SampleArenas := loaderOf sampleElf

/-- What is taken lies in a span. -/
theorem takeRange_inside {size base : UInt64} {spans rest : List SampleSpan}
    (taken : takeRange size spans = some (base, rest)) :
    ∃ span ∈ spans, span.base.toNat ≤ base.toNat ∧
      base.toNat + size.toNat ≤ span.base.toNat + span.size.toNat := by
  induction spans generalizing base rest with
  | nil => cases taken
  | cons span older ih =>
    rw [takeRange] at taken
    split at taken
    · next found =>
      obtain ⟨same, -⟩ := Prod.mk.inj (Option.some.inj taken)
      obtain ⟨other, member, inside⟩ := ih found
      exact ⟨other, List.mem_cons_of_mem span member, same ▸ inside⟩
    · split at taken
      · next room =>
        obtain ⟨rfl, -⟩ := Prod.mk.inj (Option.some.inj taken)
        refine ⟨span, List.mem_cons_self, ?_⟩
        obtain ⟨within, bound⟩ := span.fits
        rw [UInt64.le_iff_toNat_le, UInt64.toNat_sub_of_le _ _ within] at room
        rw [UInt64.le_iff_toNat_le] at within
        rw [UInt64.toNat_add]
        omega
      · cases taken

/-- What fits in a span that nothing was taken from can be taken. -/
theorem takeRange_some {size : UInt64} {spans : List SampleSpan} {span : SampleSpan}
    (member : span ∈ spans) (unused : span.used = 0) (fits : size.toNat ≤ span.size.toNat) :
    ∃ found, takeRange size spans = some found := by
  induction spans with
  | nil => cases member
  | cons newest older ih =>
    rw [takeRange]
    cases earlier : takeRange size older with
    | some found => exact ⟨_, rfl⟩
    | none =>
      rcases List.mem_cons.mp member with rfl | other
      · have room : size ≤ span.size - span.used := by
          rw [unused, UInt64.sub_zero]
          exact UInt64.le_iff_toNat_le.mpr fits
        exact ⟨_, dif_pos room⟩
      · obtain ⟨found, taken⟩ := ih other
        rw [taken] at earlier
        cases earlier

/-- An allocation from the sample. -/
theorem sampleVmem_run (arena size : UInt64) (before : SampleArenas) :
    (sampleVmem.alloc arena size).run before = match takeRange size (before.arenas arena) with
      | some found => (.ok (.ok found.1), before.set arena found.2)
      | none => (.ok (.error "no memory"), before) := rfl

/-- A range that the sample gave was taken. -/
theorem sampleVmem_eq_ok {arena size base : UInt64} {before after : SampleArenas}
    (ran : (sampleVmem.alloc arena size).run before = (.ok (.ok base), after)) :
    ∃ rest, takeRange size (before.arenas arena) = some (base, rest) := by
  rw [sampleVmem_run] at ran
  split at ran
  · next found taken =>
    obtain ⟨same, -⟩ := Prod.mk.inj ran
    exact ⟨found.2, Except.ok.inj (Except.ok.inj same) ▸ taken⟩
  · cases ran

/-- A span that the sample added is the first one. -/
theorem sampleAdd_eq_ok {elf : ElfBytes} {arena base size : UInt64} {before after : SampleArenas}
    (ran : ((loaderOf elf).add arena base size).run before = (.ok (.ok ()), after)) :
    ∃ inside, after = before.set arena (.fresh base size inside :: before.arenas arena) := by
  change (if inside : base.toNat + size.toNat < 2 ^ 64 then _ else _) = _ at ran
  split at ran
  · next inside =>
    obtain ⟨-, rfl⟩ := Prod.mk.inj ran
    exact ⟨inside, rfl⟩
  · cases ran

/-- The sample does what the loader relies on. -/
theorem sample_serving {elf : ElfBytes} :
    ServingArenas (loaderOf elf) sampleVmem SampleArenas.spans SampleArenas.unused := by
  constructor
  case toSpanArenas =>
    constructor
    case new =>
      intro name quantum arena before after ran
      obtain ⟨same, rfl⟩ := Prod.mk.inj ran
      obtain rfl := Except.ok.inj same
      exact congrArg (List.map _) (before.set_arenas before.next [])
    case add =>
      intro arena base size before after ran
      obtain ⟨inside, rfl⟩ := sampleAdd_eq_ok ran
      exact congrArg (List.map _) (before.set_arenas arena _)
    case alloc =>
      intro arena size base before after ran
      obtain ⟨rest, taken⟩ := sampleVmem_eq_ok ran
      obtain ⟨span, member, inside⟩ := takeRange_inside taken
      exact ⟨_, List.mem_map_of_mem member, inside⟩
  case makes =>
    refine fun name quantum before => ⟨_, _, rfl, fun span member => ?_⟩
    have nothing : span ∈ ([] : List SampleSpan) := before.set_arenas before.next [] ▸ member
    cases nothing
  case adds =>
    intro arena base size before inside
    refine ⟨_, dif_pos inside, fun unused span member => ?_⟩
    have listed : span ∈ SampleSpan.fresh base size inside :: before.arenas arena := by
      rwa [before.set_arenas arena _] at member
    rcases List.mem_cons.mp listed with rfl | old
    · rfl
    · exact unused span old
  case gives =>
    rintro arena size before unused ⟨range, listed, fits⟩
    obtain ⟨span, member, rfl⟩ := List.mem_map.mp listed
    obtain ⟨found, taken⟩ := takeRange_some member (unused span member) fits
    refine ⟨found.1, before.set arena found.2, ?_⟩
    rw [sampleVmem_run, taken]

end Arenas

section Sample

/-- The direct map of a machine of three levels. -/
def loadMap : UInt64 := 0xffffffc000000000

/-- A leaf of the kernel. -/
def kernelPage : PageEntry := 0xf

/-- The root table of the sample. -/
def kernelRoot : UInt64 := 0x70000000 + loadMap

/-- A word that a free frame still holds: eight spaces. -/
def staleWord : UInt64 := 0x2020202020202020

/-- The frames of the list of the sample. -/
def loadNodes : List UInt64 := framesFrom (0x80000000 + loadMap) 0x1800

/-- A row of frames, and beside it a root table with one page of the kernel. -/
def loadPmm : Pmm where
  regionList := (row (0x80000000 + loadMap) 0x1800 staleWord).regionList
  memory :=
    (rowMemory (0x80000000 + loadMap) 0x1800 staleWord).store (wordOf kernelRoot 256) kernelPage

/-- Arenas of which the first gives the numbers of tasks. -/
def loadArenas : SampleArenas := (⟨1, fun _ => []⟩ : SampleArenas).set 0 [⟨1, 100, 0, by decide⟩]

/-- A machine of three levels that is ready to load a program. -/
def loadMachine : Machine SampleArenas where
  pmm := loadPmm
  arenas := loadArenas
  currentUserTask := .free ⟨[], 0⟩
  inputAwaitList := .free []
  frame := default
  satp := 0x70000
  sstatus := 0
  uart := []

/-- Its platform. -/
def loadPlatform : Platform SampleArenas := ⟨loadMap, 3, sampleVmem⟩

/-- The root table is beside the list. -/
theorem kernelRoot_beside : kernelRoot ∈ pagesBeside loadNodes := by
  refine ⟨by decide, fun member => ?_⟩
  obtain ⟨index, bound, same⟩ := mem_framesFrom.mp member
  have numbers := congrArg UInt64.toNat same
  rw [UInt64.toNat_add, UInt64.toNat_ofNat'] at numbers
  change 0x70000000 + 0xffffffc000000000 = (0x80000000 + 0xffffffc000000000 + _ % _) % _ at numbers
  omega

/-- Its entries. -/
theorem kernelRoot_words {index : Nat} (bound : index < 512) :
    loadPmm.memory (wordOf kernelRoot index) = if index = 256 then kernelPage else 0 := by
  have zero : rowMemory (0x80000000 + loadMap) 0x1800 staleWord (wordOf kernelRoot index) = 0 :=
    rowMemory_beside (by decide) kernelRoot_beside.1 bound kernelRoot_beside.2
  have stored : loadPmm.memory = (rowMemory (0x80000000 + loadMap) 0x1800 staleWord).store
      (wordOf kernelRoot 256) kernelPage := rfl
  rw [stored, Memory.store]
  split
  · next same => rw [same, Function.update_self]
  · next other =>
    refine (Function.update_of_ne (fun same => other ?_) _ _).trans zero
    exact (wordOf_inj kernelRoot_beside.1 kernelRoot_beside.1 bound (by decide) same).2

/-- What they lead to. -/
theorem kernelRoot_slots {index : Nat} (bound : index < 512) :
    slots loadMap loadPmm.memory kernelRoot index =
      if index = 256 then .leaf kernelPage else .empty := by
  rw [slots, kernelRoot_words bound]
  split
  · exact slot_leaf (by decide)
  · exact slot_zero

/-- The free frames of the sample. -/
theorem loadMachine_stock : Stock loadMap (pagesBeside loadNodes) loadPmm loadNodes := by
  have plain : Stock loadMap (pagesBeside loadNodes)
      (row (0x80000000 + loadMap) 0x1800 staleWord)
      loadNodes := by
    refine Stock.beside (row_holds (by decide) (by decide) (by decide) (by decide)) ?_
    intro node member
    obtain ⟨index, bound, rfl⟩ := mem_framesFrom.mp member
    have place : (0x80000000 + loadMap + UInt64.ofNat (index * 4096)).toNat =
        0x80000000 + 0xffffffc000000000 + index * 4096 := by
      rw [UInt64.toNat_add, UInt64.toNat_ofNat']
      change (0x80000000 + 0xffffffc000000000 + _ % _) % _ = _
      omega
    have map : loadMap.toNat = 0xffffffc000000000 := rfl
    have above : loadMap ≤ 0x80000000 + loadMap + UInt64.ofNat (index * 4096) := by
      rw [UInt64.le_iff_toNat_le, place, map]
      omega
    refine ⟨above, ?_⟩
    rw [UInt64.toNat_sub_of_le _ _ above, place, map]
    omega
  refine plain.write fun address outside => Function.update_of_ne ?_ _ _
  rintro rfl
  exact outside ⟨kernelRoot, kernelRoot_beside, 256, by decide, rfl⟩

/-- The table that the sample runs on. -/
theorem loadMachine_table : currentTable loadMap loadMachine.satp = kernelRoot := by decide

/-- A root with the page of the kernel and nothing else in its upper half leads to no table. -/
theorem kernelPage_rooted {root : UInt64} {memory : Memory} (words : ∀ index ∈ upperHalf,
      memory (wordOf root index) = if index = 256 then kernelPage else 0) :
    Rooted loadMap upperHalf {root} 2 root memory := by
  refine .of_plain (fun _ inside => inside.2) fun index inside => ?_
  rw [slots, words index inside]
  split
  · exact .inr ⟨_, slot_leaf (by decide)⟩
  · exact .inl slot_zero

/-- Its kernel's half leads to one page. -/
theorem loadMachine_kernel :
    Rooted loadMap upperHalf (pagesBeside loadNodes) 2 kernelRoot loadPmm.memory :=
  (kernelPage_rooted fun _ inside => kernelRoot_words inside.2).mono
    (Set.singleton_subset_iff.mpr kernelRoot_beside)

/-- What the free frames hold. -/
theorem loadMachine_holds {node : UInt64} {index : Nat} (member : node ∈ loadNodes)
    (data : 2 ≤ index) (small : index < 512) : loadPmm.memory (wordOf node index) = staleWord := by
  have beside : wordOf node index ≠ wordOf kernelRoot 256 := by
    intro same
    obtain ⟨rfl, -⟩ := wordOf_inj (loadMachine_stock.holds.frames node member).aligned
      kernelRoot_beside.1 small (by decide) same
    exact kernelRoot_beside.2 member
  obtain ⟨place, bound, rfl⟩ := mem_framesFrom.mp member
  exact (Function.update_of_ne beside _ _).trans (rowMemory_inside bound (by decide) small data)

/-- They hold no entries. -/
theorem loadMachine_clean : CleanFrames loadNodes loadPmm.memory := by
  intro node member index data small
  rw [loadMachine_holds member data small]
  decide

/-- A program can be loaded. -/
theorem loadMachine_ready : LoadReady loadPlatform 2
    (pagesBeside loadNodes) loadNodes loadMachine := by
  constructor
  case mapAligned => decide
  case levels => rfl
  case tall => exact Nat.le_refl 2
  case kernel => exact loadMachine_table ▸ loadMachine_kernel
  case stock => exact loadMachine_stock
  case blank =>
    intro index bound
    refine loadMachine_stock.head_blank loadMachine_clean ?_ (Nat.lt_trans bound (by decide))
    exact List.ne_nil_of_length_pos (by rw [loadNodes, framesFrom_length]; decide)

/-- The table of the sample maps the direct map. -/
theorem kernelRoot_leaf {virt : VirtualAddress} :
    leafOf loadMap loadPmm.memory 3 kernelRoot virt =
      if virt.path 3 = 256 then some (3, kernelPage) else none := by
  have slot := kernelRoot_slots (virt.path_lt 3)
  split
  · next top =>
    rw [if_pos top] at slot
    exact find_leaf slot
  · next beside =>
    rw [if_neg beside] at slot
    exact find_empty slot

/-- The kernel's half of the sample maps nothing else. -/
theorem loadMachine_unmapped {virt : VirtualAddress} (beside : virt.path 3 ≠ 256) :
    kernelLeaf loadMap 2 loadMachine.satp loadMachine.pmm.memory virt = none := by
  rw [kernelLeaf]
  split
  · rfl
  · rw [loadMachine_table]
    exact kernelRoot_leaf.trans (if_neg beside)

/-- A header of one page, with the first byte of the file or none. -/
structure ProgramHeader.Single (header : ProgramHeader) : Prop where
  /-- It is followed. -/
  load : header.pType = 1
  /-- It asks for a page. -/
  pages : header.pages = 1
  /-- It asks for memory. -/
  sized : header.pMemsz ≠ 0
  /-- Some access is allowed. -/
  maps : header.pageFlags.Maps
  /-- It has at most one byte in the file. -/
  short : header.pFilesz.toNat ≤ 1
  /-- That is the first one. -/
  first : header.pFilesz ≠ 0 → header.pOffset = 0
  /-- The page lies beside the entry that stays free. -/
  aside : VirtualAddress.path header.pVaddr 3 ≠ 1

/-- The loader gets through such a header where nothing is mapped. -/
theorem ProgramHeader.Single.served {header : ProgramHeader} (single : header.Single)
    {before : VirtualAddress → Option (Nat × PageEntry)}
    (unmapped : before header.pVaddr = none) : header.Served [0x13] 2 1 before := by
  have first : ∀ step < header.pages, pageAt header.pVaddr step = header.pVaddr := by
    intro step bound
    rw [single.pages] at bound
    obtain rfl := Nat.lt_one_iff.mp bound
    exact UInt64.add_zero _
  constructor
  case sized => exact single.sized
  case maps => exact single.maps
  case fits =>
    rw [single.pages]
    exact single.short.trans (by decide)
  case inFile =>
    intro i bound
    obtain rfl : i = 0 := Nat.lt_one_iff.mp (bound.trans_le single.short)
    have inFile : header.pFilesz ≠ 0 := by
      intro none
      rw [none] at bound
      exact absurd bound (Nat.lt_irrefl 0)
    rw [single.first inFile]
    decide
  case unmapped =>
    intro step bound
    rw [first step bound]
    exact unmapped
  case aside =>
    intro step bound
    rw [first step bound]
    exact single.aside

/-- The header of the sample is one. -/
theorem sampleHeader_single : sampleHeader.Single where
  load := rfl
  pages := by decide
  sized := by decide
  maps := rfl
  short := Nat.le_refl 1
  first := fun _ => rfl
  aside := by decide

/-- So the loader gets through it in any state: it lies in the user's half. -/
theorem sampleHeader_served {satp : Satp} {memory : Memory} :
    ∀ entry ∈ [sampleHeader], entry.pType = 1 →
      entry.Served [0x13] 2 1 (kernelLeaf loadMap 2 satp memory) :=
  List.forall_mem_singleton.mpr fun _ => sampleHeader_single.served (if_pos (by decide))

/-- Cloning a kernel's half with one page takes no frame. -/
theorem kernelPage_cost {V : Type} {s : Machine V} (words : ∀ index ∈ upperHalf,
      s.pmm.memory (wordOf (currentTable loadMap s.satp) index) =
        if index = 256 then kernelPage else 0) : rootCost loadMap 2 s = 1 := by
  rw [rootCost, branches]
  refine congrArg (· + 1) (List.sum_eq_zero fun count counted => ?_)
  obtain ⟨index, inside, rfl⟩ := List.mem_map.mp counted
  rw [slots, words index (upperHalf_range ▸ inside)]
  split <;> rfl

/-- So it is with that of the sample. -/
theorem loadMachine_cost : rootCost loadMap 2 loadMachine = 1 :=
  kernelPage_cost fun _ inside => loadMachine_table ▸ kernelRoot_words inside.2

/-- The frames that headers of one page may take. -/
theorem imageCost_single {table : List ProgramHeader} (singles : ∀ header ∈ table, header.Single) :
    imageCost 2 table = 3 * table.length := by
  induction table with
  | nil => rfl
  | cons header table ih =>
    obtain ⟨single, others⟩ := List.forall_mem_cons.mp singles
    rw [imageCost] at ih ⊢
    rw [List.filter_cons_of_pos (by simpa using single.load), List.map_cons, List.sum_cons,
      ih others, single.pages, List.length_cons]
    omega

/-- There are frames for two headers of one page, and more. -/
theorem loadMachine_enough {table : List ProgramHeader} (singles : ∀ header ∈ table, header.Single)
    (few : table.length ≤ 2) : rootCost loadPlatform.hhdmOffset 2 loadMachine +
      (imageCost 2 table + stackRoom 2) + 3000 < 0x1800 := by
  have cost : rootCost loadPlatform.hhdmOffset 2 loadMachine = 1 := loadMachine_cost
  have room : stackRoom 2 = 2563 := rfl
  rw [cost, imageCost_single singles, room]
  omega

/-- The sample has a number for its task. -/
theorem loadMachine_ids : ∃ number after,
    (loadPlatform.vmem.alloc sampleLoader.taskIds 1).run loadMachine.arenas =
      (.ok (.ok number), after) := ⟨_, _, rfl⟩

/-- A call that loads a file with such headers. -/
theorem loadMachine_loads {table : List ProgramHeader} {eEntry : UInt64}
    (singles : ∀ header ∈ table, header.Single) (few : table.length ≤ 2)
    (beside : ∀ header ∈ table, VirtualAddress.path header.pVaddr 3 ≠ 256) :
    ∃ taskId s', LoadRun loadPlatform (loaderOf ⟨some table, eEntry⟩) 2 3000 (pagesBeside loadNodes)
      loadNodes [0x13] ⟨some table, eEntry⟩ table loadMachine taskId s' :=
  load_runs loadMachine_ready sample_serving rfl rfl
    (fun entry member _ => (singles entry member).served
      (loadMachine_unmapped (beside entry member)))
    (Nat.le_refl 1) (by decide) loadMachine_ids rfl rfl (by decide) (loadMachine_enough singles few)

/-- A call that loads the sample. -/
theorem loadMachine_run : ∃ taskId s', LoadRun loadPlatform sampleLoader 2 3000
    (pagesBeside loadNodes) loadNodes [0x13] sampleElf [sampleHeader] loadMachine taskId s' :=
  loadMachine_loads (List.forall_mem_singleton.mpr sampleHeader_single) (by decide) (by decide)

/-- The sample is loaded. -/
theorem load_makes_program_sample :
    ∃ taskId s' program, (load loadPlatform sampleLoader [0x13]).run loadMachine =
      (.ok taskId, s') ∧
      LoadedAs loadPlatform 2 3000 (pagesBeside loadNodes) loadNodes [0x13] sampleElf [sampleHeader]
        loadMachine taskId s' program :=
  load_makes_program loadMachine_ready sample_serving rfl rfl sampleHeader_served (Nat.le_refl 1)
    (by decide) loadMachine_ids rfl rfl (by decide)
    (loadMachine_enough (List.forall_mem_singleton.mpr sampleHeader_single) (by decide))

/-- Its segment begins at a page. -/
theorem sampleHeader_apart : ImageApart 2 [sampleHeader] := ⟨by decide, by decide⟩

/-- Its bytes are found. -/
theorem load_found_sample : ∃ taskId s' program, LoadedAs loadPlatform 2 3000
    (pagesBeside loadNodes)
      loadNodes [0x13] sampleElf [sampleHeader] loadMachine taskId s' program ∧
    ∀ segment ∈ program.segments, segment.FoundAt loadMap (.fromUsize 3) (program.root loadMap)
      s'.pmm := by
  obtain ⟨taskId, s', run⟩ := loadMachine_run
  obtain ⟨program, made, found⟩ := load_found_iff run
  exact ⟨taskId, s', program, made, found.mpr sampleHeader_apart⟩

/-- A header of one page that begins in the middle of one, with no byte in the file. -/
def slippedHeader : ProgramHeader :=
  { sampleHeader with pOffset := 0x800, pVaddr := 0x10800, pFilesz := 0 }

/-- The loader maps the first half of it only. -/
theorem load_misses_page : ∃ taskId s' program,
    (load loadPlatform (loaderOf ⟨some [slippedHeader], slippedHeader.pVaddr⟩) [0x13]).run
        loadMachine =
        (.ok taskId, s') ∧
      LoadedAs loadPlatform 2 3000 (pagesBeside loadNodes) loadNodes [0x13]
        ⟨some [slippedHeader], slippedHeader.pVaddr⟩ [slippedHeader] loadMachine taskId s' program ∧
      0x800 < slippedHeader.pMemsz ∧
      translate loadMap (.fromUsize 3) (program.root loadMap) s'.pmm
        (slippedHeader.pVaddr + 0x800) = .ok (.error "Table not found") := by
  have single : slippedHeader.Single :=
    ⟨rfl, by decide, by decide, rfl, by decide, fun some => absurd rfl some, by decide⟩
  obtain ⟨taskId, s', run⟩ := loadMachine_loads (List.forall_mem_singleton.mpr single)
    (by decide) (by decide)
  obtain ⟨program, made⟩ := run.loadedAs
  refine ⟨taskId, s', program, run.ran, made, by decide, ?_⟩
  refine made.goes_nowhere rfl (by decide) (by decide) fun page member => ?_
  have pages : imagePages [slippedHeader] = [0x10800] := by decide
  rw [pages] at member
  exact List.mem_singleton.mp member ▸ by decide

/-- They are read. -/
theorem load_reads_sample : ∃ taskId s' program, LoadedAs loadPlatform 2 3000
    (pagesBeside loadNodes)
      loadNodes [0x13] sampleElf [sampleHeader] loadMachine taskId s' program ∧
    ∀ segment ∈ program.segments, segment.ReadAs loadMap (.fromUsize 3) (program.root loadMap)
      [0x13] loadPmm.memory s'.pmm := by
  obtain ⟨taskId, s', run⟩ := loadMachine_run
  obtain ⟨program, made, -, reads⟩ := load_reads run sampleHeader_apart
  exact ⟨taskId, s', program, made, reads⟩

/-- A page with the byte of the file, and a page of zeroes. -/
def imageHeaders : List ProgramHeader :=
  [{ sampleHeader with pMemsz := 1 }, { sampleHeader with pVaddr := 0x11000, pFilesz := 0 }]

/-- Both are found. -/
theorem load_gives_image_sample : ∃ taskId s' program, LoadedAs loadPlatform 2 3000
      (pagesBeside loadNodes) loadNodes [0x13] ⟨some imageHeaders, 0x10000⟩ imageHeaders loadMachine
        taskId s' program ∧
    ∀ segment ∈ program.segments, segment.AsInFile loadMap (.fromUsize 3) (program.root loadMap)
      [0x13] s'.pmm := by
  have singles : ∀ header ∈ imageHeaders, header.Single := by
    refine List.forall_mem_cons.mpr ⟨?_, List.forall_mem_singleton.mpr ?_⟩
    · exact ⟨rfl, by decide, by decide, rfl, by decide, fun _ => rfl, by decide⟩
    · exact ⟨rfl, by decide, by decide, rfl, by decide, fun _ => rfl, by decide⟩
  obtain ⟨taskId, s', run⟩ := loadMachine_loads singles (by decide) (by decide)
  obtain ⟨program, made, found, -⟩ := load_gives_image run ⟨by decide, by decide⟩
  exact ⟨taskId, s', program, made, found (by decide)⟩

/-- Behind the byte of the sample the program finds a space that its frame held before. -/
theorem load_leaves_stale : ∃ taskId s' program,
    (load loadPlatform sampleLoader [0x13]).run loadMachine = (.ok taskId, s') ∧
      LoadedAs loadPlatform 2 3000 (pagesBeside loadNodes) loadNodes [0x13] sampleElf [sampleHeader]
        loadMachine taskId s' program ∧
      sampleHeader.pFilesz ≤ 16 ∧ 16 < sampleHeader.pMemsz ∧
      readByte loadMap (.fromUsize 3) (program.root loadMap) s'.pmm (sampleHeader.pVaddr + 16) =
        some 0x20 := by
  obtain ⟨taskId, s', run⟩ := loadMachine_run
  obtain ⟨program, made⟩ := run.loadedAs
  refine ⟨taskId, s', program, run.ran, made, by decide, by decide, ?_⟩
  have headers : program.segments.map Segment.header = [sampleHeader] := made.headers
  obtain ⟨segment, listed, header⟩ := List.mem_map.mp (headers.symm ▸ List.mem_singleton_self _)
  have stale := (made.reads run.ready sampleHeader_apart listed).stale
  rw [header] at stale
  -- the frame of the segment was a free one
  have aligned := made.laid.sound.aligned segment listed
  obtain ⟨left, used, known, held⟩ := made.held
  have first : segment.base ∈ segment.frames := by
    rw [Segment.frames, header]
    exact mem_framesFrom.mpr ⟨0, by decide, (UInt64.add_zero _).symm⟩
  have fresh : segment.base ∉ pagesBeside loadNodes := (held.frames _ (List.mem_append_right _
    (List.mem_flatMap.mpr ⟨segment, listed, first⟩))).2.1
  have free : segment.base ∈ loadNodes := by
    by_contra beside
    exact fresh ⟨aligned, beside⟩
  have word : (segment.base + 16) % 8 = 0 := by
    have page := aligned_toNat aligned
    apply UInt64.toNat_inj.mp
    rw [UInt64.toNat_mod, UInt64.toNat_add]
    change (_ + 16) % 2 ^ 64 % 8 = 0
    omega
  have place : segment.base + 16 = wordOf segment.base 2 := rfl
  have found : byteAt loadMachine.pmm.memory (segment.base + 16) = 0x20 := by
    rw [byteAt, word, UInt64.sub_zero, place]
    exact (congrArg _ (loadMachine_holds free (by decide) (by decide))).trans (by decide)
  exact (stale (by decide) 16 (by decide) (by decide) (by decide)).trans (congrArg some found)

/-- The stack of the sample is seen where it was put. -/
theorem load_maps_stack_sample : ∃ taskId s' program, LoadedAs loadPlatform 2 3000
      (pagesBeside loadNodes) loadNodes [0x13] sampleElf
        [sampleHeader] loadMachine taskId s' program ∧
    StackSeen loadMap (.fromUsize 3) 2 (program.root loadMap) program.task.trapFrame.registers.sp
      program.stack s'.pmm := by
  obtain ⟨taskId, s', run⟩ := loadMachine_run
  obtain ⟨program, made, -, seen⟩ := load_maps_stack run (by decide)
  exact ⟨taskId, s', program, made, seen⟩

/-- The page of the kernel is closed to user mode. -/
theorem loadMachine_closed :
    KernelClosed loadMap 2 (currentTable loadMap loadMachine.satp) loadMachine.pmm.memory := by
  rw [loadMachine_table]
  intro virt _ high entry found
  have leads := kernelRoot_leaf.symm.trans found
  split at leads
  · obtain ⟨-, rfl⟩ := Prod.mk.inj (Option.some.inj leads)
    decide
  · cases leads

/-- The sample reaches its own frames only. -/
theorem load_confines_user_sample : ∃ taskId s' program, LoadedAs loadPlatform 2 3000
      (pagesBeside loadNodes) loadNodes [0x13] sampleElf
        [sampleHeader] loadMachine taskId s' program ∧
    Confined loadMap (.fromUsize 3) 2 (program.root loadMap) s'.pmm program.frames := by
  obtain ⟨taskId, s', run⟩ := loadMachine_run
  obtain ⟨program, made, confined, -⟩ := load_confines_user run (by decide) loadMachine_closed
  exact ⟨taskId, s', program, made, confined⟩

end Sample

end Lsd
