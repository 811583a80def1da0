import Lsd.Arch.Syscalls

/-!
# Loading a program

`userspace::load`: a new table with the kernel's upper half, the segments of the
file copied to claimed frames and mapped, a stack, and the entry of the first
thread in the queue. The parser of the file and the arenas are other crates.
-/

namespace Lsd

open Program

/-- The fields of a program header that `load` reads. -/
structure ProgramHeader where
  /-- `p_type`. -/
  pType : UInt32
  /-- `p_offset`. -/
  pOffset : UInt64
  /-- `p_vaddr`. -/
  pVaddr : UInt64
  /-- `p_filesz`. -/
  pFilesz : UInt64
  /-- `p_memsz`. -/
  pMemsz : UInt64
  /-- `p_flags`. -/
  pFlags : UInt32
deriving DecidableEq

/-- What `load` takes from a parsed file. -/
structure ElfBytes where
  /-- `ElfBytes::segments`. -/
  segments : Option (List ProgramHeader)
  /-- `ehdr.e_entry`. -/
  eEntry : UInt64

/-- What the loader takes from other crates. -/
structure Loader (V : Type) where
  /-- `ElfBytes::minimal_parse`. -/
  minimalParse : List UInt8 → Except String ElfBytes
  /-- `Vmem::new`, which returns where the arena lives. -/
  newArena : (name : String) → (quantum : UInt64) → Kernel V UInt64
  /-- `Vmem::add`. -/
  add : (arena base size : UInt64) → Kernel V (Except String Unit)
  /-- `TASK_IDS`. -/
  taskIds : UInt64

/-- `Flags::to_pageflags`. -/
def Flags.toPageflags (flags : UInt32) : PageFlags :=
  let executable := if flags &&& 0b001 = 0b001 then PageFlags.execute else ⟨0, rfl⟩
  let writable := if flags &&& 0b010 = 0b010 then executable.union .write else executable
  if flags &&& 0b100 = 0b100 then writable.union .read else writable

namespace ProgramHeader

/-- The frames that are claimed for a segment. -/
def frames (entry : ProgramHeader) : UInt64 :=
  entry.pMemsz / 4096 + if entry.pMemsz % 4096 ≠ 0 then 1 else 0

/-- The number of offsets in `(0..p_memsz).step_by(4096)`. -/
def pages (entry : ProgramHeader) : Nat := (entry.pMemsz.toNat + 4095) / 4096

/-- The flags that the pages of a segment are mapped with. -/
def pageFlags (entry : ProgramHeader) : PageFlags := (Flags.toPageflags entry.pFlags).union .user

end ProgramHeader

/-- The loops of `load` that fill the frames of a segment. -/
def fillSegment (bytes : List UInt8) (entry : ProgramHeader) (currentEntry : UInt64) :
    Kernel Pmm Unit := do
  Prog.only (entry.pFilesz = 0) do
    (List.range entry.pMemsz.toNat).forM fun i => storeByte (currentEntry + UInt64.ofNat i) 0
  (List.range entry.pFilesz.toNat).forM fun i => do
    let index := (UInt64.ofNat i + entry.pOffset).toNat
    checkIndex bytes.length index
    storeByte (currentEntry + UInt64.ofNat i) (bytes.getD index 0)

/-- The loop of `load` that maps the pages of a segment. -/
def mapSegment (hhdm : UInt64) (level : PageLevel) (newTable : UInt64) (entry : ProgramHeader)
    (currentEntry : UInt64) : Kernel Pmm Unit := do
  let basePhys := currentEntry - hhdm
  let baseVirt := entry.pVaddr
  (List.range entry.pages).forM fun step => do
    let offset := UInt64.ofNat (step * 4096)
    map hhdm newTable (baseVirt + offset) (basePhys + offset) level .level1 entry.pageFlags

/-- One round of the loop of `load` over the program headers. -/
def loadSegment (hhdm : UInt64) (level : PageLevel) (bytes : List UInt8) (newTable : UInt64)
    (entry : ProgramHeader) : Kernel Pmm Unit :=
  Prog.only (entry.pType = 1) do
    let result ← FreeList.claimContinuous hhdm entry.frames
    let currentEntry ← unwrap result
    fillSegment bytes entry currentEntry
    mapSegment hhdm level newTable entry currentEntry

/-- The table of a new program, with its segments. -/
def loadImage (hhdm : UInt64) (level : PageLevel) (bytes : List UInt8) (satp : Satp)
    (table : List ProgramHeader) : Kernel Pmm UInt64 := do
  let newTable ← newWithUpperhalf hhdm satp
  table.forM (loadSegment hhdm level bytes newTable)
  pure newTable

/-- The loop of `load` that maps the stack. -/
def mapStack (hhdm : UInt64) (level : PageLevel) (newTable stackVaddr stackPaddr : UInt64)
    (i : Nat) : Kernel Pmm Unit :=
  let offset := UInt64.ofNat (i * 0x200000)
  map hhdm newTable (stackVaddr + offset) (stackPaddr + offset) level .level2
    ((PageFlags.read.union .write).union .user)

variable {V : Type} (platform : Platform V) (loader : Loader V)

/-- Code on the arenas. -/
def onArenas {α : Type} (program : Kernel V α) : Kernel (Machine V) α :=
  program.within (·.arenas) fun s arenas => { s with arenas := arenas }

/-- Code on the arenas that returned changed the arenas only. -/
theorem onArenas_eq_ok {α : Type} {program : Kernel V α} {value : α} {s s' : Machine V}
    (ran : (onArenas program).run s = (.ok value, s')) :
    program.run s.arenas = (.ok value, s'.arenas) ∧ s' = { s with arenas := s'.arenas } := by
  obtain ⟨result, rfl⟩ := Prod.mk.inj (ran.symm.trans rfl : (_, s') = ((program.run s.arenas).1,
    { s with arenas := (program.run s.arenas).2 }))
  exact ⟨Prod.ext result.symm rfl, rfl⟩

/-- The loop of `load` that gives the arena of a task the parts of its table that are free. -/
def addSpans (level : PageLevel) (newTable taskVmm : UInt64) : Kernel (Machine V) Unit :=
  (List.range' 1 256).forM fun i => do
    let entry : PageEntry ← Prog.read fun s : Machine V => s.pmm.memory (wordOf newTable i)
    let vaddr := VirtualAddress.setIndex 0 level (UInt64.ofNat i)
    Prog.only (!entry.getValid) do
      let result ← onArenas (loader.add taskVmm vaddr (PageSize.fromLevel level).bytes)
      unwrap result id

/-- The part of `load` that gives the program its stack; the address of the stack is returned. -/
def loadStack (level : PageLevel) (newTable taskVmm : UInt64) : Kernel (Machine V) UInt64 := do
  let result ← onPmm (FreeList.claimAligned platform.hhdmOffset 0x800 .medium)
  let stack ← unwrap result
  let stackPaddr := stack - platform.hhdmOffset
  let stackVaddr ← allocFrom platform taskVmm 0x800000
  let phys := hex stackPaddr
  print ("Physical address of new stack: " ++ phys ++ "\n")
  (List.range 4).forM fun i => do
    let virt := hex (stackVaddr + UInt64.ofNat (i * 0x200000))
    let phys := hex (stackPaddr + UInt64.ofNat (i * 0x200000))
    print ("Mapping " ++ virt ++ " to " ++ phys ++ "\n")
    onPmm (mapStack platform.hhdmOffset level newTable stackVaddr stackPaddr i)
  pure stackVaddr

/-- The `satp` of a new table. -/
def newSatp (hhdm : UInt64) (level : PageLevel) (satp : Satp) (newTable : UInt64) : Satp :=
  ((satp.setAsid 0).setMode (PageType.fromLevels level).toMode).setPpn ((newTable - hhdm) >>> 12)

/-- `load`. -/
def load (bytes : List UInt8) : Kernel (Machine V) UInt64 := do
  let elfbytes ← unwrap (loader.minimalParse bytes) id
  let table ← unwrapSome elfbytes.segments
  let satp ← Prog.read (·.satp)
  let level := PageLevel.fromUsize platform.levels
  let newTable ← onPmm (loadImage platform.hhdmOffset level bytes satp table)
  let taskId ← allocFrom platform loader.taskIds 1
  let taskVmm ← onArenas (loader.newArena "task_vmm" 4096)
  addSpans loader level newTable taskVmm
  let stackVaddr ← loadStack platform level newTable taskVmm
  let taskTm ← onArenas (loader.newArena "task_thread_manager" 1)
  let added ← onArenas (loader.add taskTm 0 0xffffffffffffffff)
  unwrap added id
  let threadId ← allocFrom platform taskTm 1
  let registers := { (default : GeneralRegisters) with sp := stackVaddr }
  let sp := hex stackVaddr
  print ("Loading program with stack at " ++ sp ++ "\n")
  newTask {
    trapFrame := { sepc := elfbytes.eEntry, registers := { registers with a0 := taskId } }
    taskId := taskId
    taskTable := newSatp platform.hhdmOffset level satp newTable
    privilege := .user
    waitingOn := .none
    threadId := threadId
    threadManager := taskTm
    vmm := taskVmm }
  pure taskId

end Lsd
