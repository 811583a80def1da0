import Lsd.Verif.BootRun

/-!
# Where the stacks are

A stack grows downwards, so the memory of a stack must end where its pointer
begins. The interrupt stacks do; a core and a program are given the lowest
address of their stacks, below which something else lies, or nothing.
-/

namespace Lsd

open Program Radix Placement

/-- The bytes from an address on. -/
def bytesFrom (base : UInt64) (size : Nat) : Set UInt64 :=
  {address | ∃ offset < size, address = base + UInt64.ofNat offset}

/-- The bytes below a stack pointer. -/
def bytesBelow (sp : UInt64) (size : Nat) : Set UInt64 := bytesFrom (sp - UInt64.ofNat size) size

/-- The first byte of a region does not lie below itself. -/
theorem bytesBelow_ne {base : UInt64} {size : Nat} (positive : 0 < size) (short : size < 2 ^ 63) :
    bytesBelow base size ≠ bytesFrom base size := by
  intro same
  have first : base ∈ bytesFrom base size := ⟨0, positive, (UInt64.add_zero base).symm⟩
  rw [← same] at first
  obtain ⟨offset, bound, found⟩ := first
  have numbers := congrArg UInt64.toNat found
  rw [UInt64.toNat_add, UInt64.toNat_sub, UInt64.toNat_ofNat', UInt64.toNat_ofNat'] at numbers
  have low := base.toNat_lt
  omega

/-- Whether all bytes below a stack pointer go to the frames of the stack, which the program may
read and write there. -/
def StackBelow (hhdm : UInt64) (level : PageLevel) (root sp stack : UInt64) (p : Pmm) : Prop :=
  ∀ address ∈ bytesBelow sp 0x800000, ∃ frame ∈ framesFrom stack 0x800, ∃ high entry,
    leafOf hhdm p.memory level.asUsize root address = some (high, entry) ∧
      entry.getRead = true ∧ entry.getWrite = true ∧ entry.getUser = true ∧
      translate hhdm level root p address = .ok (.ok (frame - hhdm + address % 4096))

section Load

variable {V : Type} {platform : Platform V} {loader : Loader V} {height extra : Nat}
  {pages : Set UInt64} {nodes : List UInt64} {bytes : List UInt8} {elf : ElfBytes}
  {table : List ProgramHeader} {s s' : Machine V} {taskId : UInt64} {program : LoadedProgram}

/-- The lowest byte below the stack pointer of a new program goes to no frame of the stack. -/
theorem LoadedAs.lowest_elsewhere (ready : LoadReady platform height pages nodes s)
    (made : LoadedAs platform height extra pages nodes bytes elf table s taskId s' program)
    {frame : UInt64} (member : frame ∈ framesFrom program.stack 0x800) :
    translate platform.hhdmOffset (.fromUsize platform.levels) (program.root platform.hhdmOffset)
      s'.pmm (program.task.trapFrame.registers.sp - 0x800000) ≠
        .ok (.ok (frame - platform.hhdmOffset +
          (program.task.trapFrame.registers.sp - 0x800000) % 4096)) := by
  obtain ⟨index, most, one, free, low, high, inside⟩ := made.slot ready.levels
  obtain ⟨fits, room, -⟩ := stack_room ready.levels ready.tall most low high
  obtain ⟨first, size⟩ := toNat_entrySpan ready.levels (Nat.lt_of_le_of_lt most (by decide))
  have wide : 2 ^ pageBits 3 ≤ 2 ^ pageBits (height + 1) :=
    Nat.pow_le_pow_right (by decide) (by have := ready.tall; rw [pageBits, pageBits]; omega)
  have above : 2 ^ pageBits 3 ≤ program.task.trapFrame.registers.sp.toNat :=
    wide.trans ((Nat.le_mul_of_pos_left _ one).trans (first ▸ low))
  have bits : 2 ^ pageBits 3 = 0x40000000 := by decide
  have number : (program.task.trapFrame.registers.sp - 0x800000).toNat =
      program.task.trapFrame.registers.sp.toNat - 0x800000 :=
    UInt64.toNat_sub_of_le _ _ (UInt64.le_iff_toNat_le.mpr (by change 0x800000 ≤ _; omega))
  -- no page of the stack covers it
  have apart : ∀ placement ∈ stackPlacements program.task.trapFrame.registers.sp
      (program.stack - platform.hhdmOffset) 4,
      ¬ placement.Covers (height + 1) (program.task.trapFrame.registers.sp - 0x800000) := by
    intro placement listed covers
    obtain ⟨i, small, rfl⟩ := mem_stackPlacements.mp listed
    have here := (stackPlacement_covers ready.tall small room fits (by omega)).mp covers
    omega
  intro goes
  rw [made.laid.goes, made.laid.leaf, leafAfter_append apart] at goes
  cases found : leafAfter (height + 1)
      (kernelLeaf platform.hhdmOffset height s.satp s.pmm.memory)
      (imagePlacements platform.hhdmOffset program.segments)
      (program.task.trapFrame.registers.sp - 0x800000) with
  | none =>
    rw [found] at goes
    cases Except.ok.inj goes
  | some leaf =>
    rcases leafAfter_cases found with kernel | ⟨placement, listed, rfl⟩
    · rw [kernelLeaf] at kernel
      split at kernel
      · cases kernel
      · next kernelHalf =>
        -- then it lies under the entry of the stack, where nothing else was placed
        have top : VirtualAddress.path (program.task.trapFrame.registers.sp - 0x800000)
            (height + 1) = index := by
          have small : (program.task.trapFrame.registers.sp - 0x800000).toNat /
              2 ^ pageBits (height + 1) < index + 1 := by
            refine (Nat.div_lt_iff_lt_mul (Nat.two_pow_pos _)).mpr ?_
            rw [Nat.succ_mul, ← first, ← size]
            omega
          have digit : (program.task.trapFrame.registers.sp - 0x800000).toNat /
              2 ^ pageBits (height + 1) < 512 := small.trans_le (by omega)
          rw [VirtualAddress.path, Nat.mod_eq_of_lt digit] at kernelHalf ⊢
          omega
        rw [free _ top] at found
        cases found
    · obtain ⟨result, -⟩ := made.laid.sound.resultOf ready.mapAligned listed
        (program.task.trapFrame.registers.sp - 0x800000)
      rw [found, result] at goes
      have same : placement.phys = frame - platform.hhdmOffset :=
        (UInt64.add_left_inj _).mp (Except.ok.inj (Except.ok.inj goes))
      obtain ⟨segment, inImage, step, bound, rfl⟩ := mem_imagePlacements.mp listed
      have equal : segment.base + UInt64.ofNat (step * 4096) = frame := by
        refine (UInt64.sub_left_inj platform.hhdmOffset).mp ?_
        rw [← sub_add_place]
        exact same
      have other : frame ∈ imageFrames program.segments :=
        List.mem_flatMap.mpr ⟨segment, inImage, mem_framesFrom.mpr ⟨step, bound, equal.symm⟩⟩
      exact (List.nodup_append.mp made.laid.nodup).2.2 frame member frame other rfl

/-- So its stack does not lie below its stack pointer. -/
theorem LoadedAs.not_stackBelow (ready : LoadReady platform height pages nodes s)
    (made : LoadedAs platform height extra pages nodes bytes elf table s taskId s' program) :
    ¬ StackBelow platform.hhdmOffset (.fromUsize platform.levels)
      (program.root platform.hhdmOffset) program.task.trapFrame.registers.sp program.stack
        s'.pmm := by
  intro below
  have lowest : program.task.trapFrame.registers.sp - 0x800000 ∈
      bytesBelow program.task.trapFrame.registers.sp 0x800000 :=
    ⟨0, by decide, (UInt64.add_zero _).symm⟩
  obtain ⟨frame, member, _, _, _, _, _, _, goes⟩ := below _ lowest
  exact made.lowest_elsewhere ready member goes

end Load

/-- A core starts at the lowest address of the frames that were claimed for its stack, and a program
does not have its stack below its stack pointer either. The top of an interrupt stack is the end of
the frames that were claimed for it. -/
theorem stack_ends {V : Type} (platform : Platform V) :
    (∀ {satp satp' : Satp} {sp : UInt64} {p p' : Pmm},
      (startCore platform.hhdmOffset satp).run p = (.ok (satp', sp), p') →
        ∃ root middle, (newWithUpperhalf platform.hhdmOffset satp).run p = (.ok root, middle) ∧
          (FreeList.claimContinuous platform.hhdmOffset 0x80).run middle = (.ok (.ok sp), p') ∧
          bytesBelow sp 0x80000 ≠ bytesFrom sp 0x80000) ∧
    (∀ {loader : Loader V} {height extra : Nat} {pages : Set UInt64} {nodes : List UInt64}
      {bytes : List UInt8} {elf : ElfBytes} {table : List ProgramHeader} {s s' : Machine V}
      {taskId : UInt64},
      LoadRun platform loader height extra pages nodes bytes elf table s taskId s' →
        ∃ program, LoadedAs platform height extra pages nodes bytes elf table s taskId s' program ∧
          ¬ StackBelow platform.hhdmOffset (.fromUsize platform.levels)
            (program.root platform.hhdmOffset) program.task.trapFrame.registers.sp program.stack
              s'.pmm) ∧
    ∀ {top : UInt64} {p p' : Pmm}, (intStack platform.hhdmOffset).run p = (.ok top, p') →
      ∃ base, (FreeList.claimContinuous platform.hhdmOffset 0x20).run p = (.ok (.ok base), p') ∧
        bytesBelow top 0x20000 = bytesFrom base 0x20000 := by
  refine ⟨fun ran => ?_, fun run => ?_, fun ran => ?_⟩
  · obtain ⟨root, middle, made, claim, -⟩ := startCore_eq_ok ran
    exact ⟨root, middle, made, claim, bytesBelow_ne (by decide) (by decide)⟩
  · obtain ⟨program, made⟩ := run.loadedAs
    exact ⟨program, made, made.not_stackBelow run.ready⟩
  · exact ⟨_, intStack_eq_ok ran, rfl⟩

/-- A core and an interrupt stack of the sample. -/
theorem stack_ends_sample :
    (∃ satp sp p, (startCore loadMap loadMachine.satp).run loadPmm = (.ok (satp, sp), p) ∧
      bytesBelow sp 0x80000 ≠ bytesFrom sp 0x80000) ∧
    ∃ top p base, (intStack loadMap).run loadPmm = (.ok top, p) ∧
      (FreeList.claimContinuous loadMap 0x20).run loadPmm = (.ok (.ok base), p) ∧
      bytesBelow top 0x20000 = bytesFrom base 0x20000 := by
  constructor
  · have cost : rootCost loadPlatform.hhdmOffset 2 loadMachine = 1 := loadMachine_cost
    have supplied : RowStock loadMap
        (rootCost loadPlatform.hhdmOffset 2 loadMachine + ((0x80 : UInt64).toNat + 1))
        (pagesBeside loadNodes) loadPmm :=
      ⟨_, 0x1800, loadMachine_stock, by rw [cost]; decide⟩
    obtain ⟨root, fresh, used, made, begun⟩ : ∃ root fresh used,
        (newWithUpperhalf loadMap loadMachine.satp).run loadPmm = (.ok root, fresh) ∧
          RootLaid loadMap (RowStock loadMap) 2 (pagesBeside loadNodes)
            (currentTable loadMap loadMachine.satp) root used ((0x80 : UInt64).toNat + 1) loadPmm
              fresh :=
      loadMachine_ready.newRoot (rowStock_source loadMap)
        (by rw [loadNodes, framesFrom_length]; decide) supplied
    obtain ⟨sp, last, claim, -⟩ := begun.laid.supplies.claim (by decide)
    have ran : (startCore loadMap loadMachine.satp).run loadPmm =
        (.ok (coreSatp loadMap loadMachine.satp root, sp), last) := by
      rw [startCore, Prog.run_bind_ok made, Prog.run_bind_ok claim,
        Prog.run_bind_ok (unwrap_run _ _), Prog.run_pure]
    obtain ⟨_, _, -, -, apart⟩ := (stack_ends loadPlatform).1 ran
    exact ⟨_, sp, last, ran, apart⟩
  · have row : RowStock loadMap ((0x20 : UInt64).toNat + 1) (pagesBeside loadNodes) loadPmm :=
      ⟨_, 0x1800, loadMachine_stock, by decide⟩
    obtain ⟨first, last, claim, -⟩ := row.claim (by decide)
    have ran : (intStack loadMap).run loadPmm = (.ok (first + 0x20 * 0x1000), last) := by
      rw [intStack, Prog.run_bind_ok claim, Prog.run_bind_ok (unwrap_run _ _), Prog.run_pure]
    obtain ⟨base, claimed, same⟩ := (stack_ends loadPlatform).2.2 ran
    exact ⟨_, last, base, ran, claimed, same⟩

/-- The sample program does not have its stack below the stack pointer that it starts with. -/
theorem load_misplaces_stack : ∃ taskId s' program,
    (load loadPlatform sampleLoader [0x13]).run loadMachine = (.ok taskId, s') ∧
      LoadedAs loadPlatform 2 3000 (pagesBeside loadNodes) loadNodes [0x13] sampleElf [sampleHeader]
        loadMachine taskId s' program ∧
      ¬ StackBelow loadMap (.fromUsize 3) (program.root loadMap)
        program.task.trapFrame.registers.sp program.stack s'.pmm := by
  obtain ⟨taskId, s', run⟩ := loadMachine_run
  obtain ⟨program, made⟩ := run.loadedAs
  have elsewhere := made.not_stackBelow run.ready
  exact ⟨taskId, s', program, run.ran, made, elsewhere⟩

end Lsd
