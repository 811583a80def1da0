import Lsd.Traps.Shim
import Lsd.Lib.Span

/-!
# One layout for the trap frame

The entry of the shim, its exit and `TaskData::load` name the fields of a frame
by three tables of offsets. Here the entry is shown to leave a frame of the
thread's registers where the tables of the exit and of `load` look for them, so
that each of the two resumes the thread as it was.
-/

namespace Lsd

open Riscv Riscv.Reg

/-- The frame of a thread that traps. -/
def savedFrame (s : State) : TrapFrame where
  sepc := s.csr .sepc
  registers := ⟨s.reg ra, s.reg sp, s.reg gp, s.reg tp, s.reg t0, s.reg t1, s.reg t2, s.reg s0,
    s.reg s1, s.reg a0, s.reg a1, s.reg a2, s.reg a3, s.reg a4, s.reg a5, s.reg a6, s.reg a7,
    s.reg s2, s.reg s3, s.reg s4, s.reg s5, s.reg s6, s.reg s7, s.reg s8, s.reg s9, s.reg s10,
    s.reg s11, s.reg t3, s.reg t4, s.reg t5, s.reg t6⟩

namespace Shim

variable {s after core : State}

/-- The scratch area. -/
def scratch (s : State) : UInt64 := s.csr .sscratch

/-- Where the shim puts the frame: at the end of the interrupt stack. -/
def frameAt (s : State) : UInt64 := s.memory (scratch s) + trapFrameSize

/-- The word of a frame for each register, with `sepc` in place of register 0. -/
def frameWord (s : State) (r : Reg) : UInt64 := if r = 0 then s.csr .sepc else s.reg r

/-- The offset of that word. -/
def slot (r : Reg) : UInt64 := UInt64.ofNat (8 * r.val)

/-- The frame of the thread lies at an address when each word lies in its slot. -/
theorem at_iff {memory : Memory} {address : UInt64} :
    TrapFrame.At memory address (savedFrame s) ↔ ∀ r, memory (address + slot r) =
      frameWord s r := by
  have fields : TrapFrame.offsets.zip (savedFrame s).words =
      List.ofFn fun r : Reg => (8 * r.val, frameWord s r) := rfl
  rw [TrapFrame.At, fields]
  exact List.forall_mem_ofFn_iff

/-- A thread begins with its frame, and its table is 264 bytes behind. -/
theorem taskAt_iff {memory : Memory} {address : UInt64} {task : TaskData} :
    TaskData.At memory address task ↔ TrapFrame.At memory address task.trapFrame ∧
      memory (address + 256) = task.taskId ∧ memory (address + 264) = task.taskTable := by
  have start : address + UInt64.ofNat 0 = address := UInt64.add_zero _
  change TrapFrame.At memory (address + UInt64.ofNat 0) task.trapFrame ∧ _ ∧ _ ↔ _
  rw [start]
  rfl

/-- The scratch area and the frame on the interrupt stack do not overlap. -/
structure Placed (s : State) : Prop where
  /-- The scratch area ends with the address space at the latest. -/
  scratchEnd : (scratch s).toNat + 32 ≤ 2 ^ 64
  /-- So does the frame. -/
  frameEnd : (frameAt s).toNat + 256 ≤ 2 ^ 64
  /-- They are apart. -/
  apart : Span.Apart ⟨(scratch s).toNat, 32⟩ ⟨(frameAt s).toNat, 256⟩

/-- The saved stack pointer is not where the return address is saved. -/
theorem Placed.scratchSp (placed : Placed s) : scratch s + 24 ≠ frameAt s + 8 := by
  intro same
  have number := congrArg UInt64.toNat same
  have ends := placed.scratchEnd
  have ends' := placed.frameEnd
  have apart := placed.apart
  rw [UInt64.toNat_add, UInt64.toNat_add] at number
  change (_ + 24) % 2 ^ 64 = (_ + 8) % 2 ^ 64 at number
  simp only [Span.Apart, Span.stop] at apart
  omega

/-- The saved stack pointer is not the end of the interrupt stack. -/
theorem scratchSp_ne (s : State) : scratch s ≠ scratch s + 24 := by
  intro same
  have number := congrArg UInt64.toNat same
  have bound := (scratch s).toNat_lt
  rw [UInt64.toNat_add] at number
  change _ = (_ + 24) % 2 ^ 64 at number
  omega

/-- The first part of the shim saves the return address and the stack pointer of the thread. -/
theorem enter_eq (placed : Placed s) : run enter s =
    (((((((s.setCsr .sscratch (s.reg t6)).setReg t6 (scratch s)).store (scratch s + 24)
      (s.reg sp)).setReg sp (s.memory (scratch s))).setReg sp (frameAt s)).store (frameAt s + 8)
      (s.reg ra)).setReg ra (s.reg sp)).store (frameAt s + 16) (s.reg sp) := by
  have top : Function.update s.memory (scratch s + 24) (s.reg sp) (scratch s) =
      s.memory (scratch s) := Function.update_of_ne (scratchSp_ne s) _ _
  have back : Function.update (Function.update s.memory (scratch s + 24) (s.reg sp)) (frameAt s + 8)
      (s.reg ra) (scratch s + 24) = s.reg sp := by
    rw [Function.update_of_ne placed.scratchSp, Function.update_self]
  rw [frameAt] at back ⊢
  rw [scratch] at top back ⊢
  simp -implicitDefEqProofs (disch := decide) only [enter, run_cons, run_nil, exec,
    State.reg_setReg, State.reg_setReg_of_ne, State.memory_setReg, State.reg_setCsr,
    State.memory_setCsr, State.reg_store, State.memory_store, UInt64.add_zero, top, back]

/-- What is saved is in the slots of the registers. -/
theorem savedAt_savedRegisters (r : Reg) : savedAt savedRegisters (slot r) =
    if 3 ≤ r ∧ r < t6 then some r else none := by
  revert r
  decide

/-- The area of the floating-point registers lies below the frame. -/
theorem savedAt_floatRegisters (r : Reg) : savedAt floatRegisters (264 + slot r) = none := by
  revert r
  decide

/-- Slots are apart. -/
theorem slot_inj {r r' : Reg} (same : slot r = slot r') : r = r' := by
  revert r r'
  decide

/-- A word at a distance from an address. -/
theorem add_sub_self (address distance : UInt64) : address + distance - address = distance := by
  rw [UInt64.add_comm, UInt64.add_sub_cancel]

/-- A word of a frame keeps its value when another one is written. -/
theorem update_slot {memory : Memory} {frame value : UInt64} {r r' : Reg} (other : r' ≠ r) :
    Function.update memory (frame + slot r) value (frame + slot r') = memory (frame + slot r') := by
  refine Function.update_of_ne (fun same => other (slot_inj ?_)) _ _
  rw [← add_sub_self frame (slot r'), same, add_sub_self]

/-- The words of the frame that hold registers, when all but `t6` are saved. -/
theorem saved_word (placed : Placed s) {r : Reg} (inside : 0 < r) (below : r < t6) :
    (run (enter ++ saves sp savedRegisters) s).memory (frameAt s + slot r) = s.reg r := by
  rw [run_append, enter_eq placed, run_saves (by decide)]
  simp -implicitDefEqProofs (disch := decide) only [State.reg_store, State.reg_setReg_of_ne,
    State.reg_setReg, State.memory_setMemory, State.memory_store, State.memory_setReg,
    State.memory_setCsr]
  by_cases kept : 3 ≤ r
  · have row : savedAt savedRegisters (frameAt s + slot r - frameAt s) = some r := by
      rw [add_sub_self, savedAt_savedRegisters, if_pos ⟨kept, below⟩]
    have notRa : r ≠ ra := fun same => absurd (same ▸ kept) (by decide)
    have notSp : r ≠ sp := fun same => absurd (same ▸ kept) (by decide)
    rw [written_of_some row, State.reg_setReg_of_ne notRa, State.reg_store,
      State.reg_setReg_of_ne notSp, State.reg_setReg_of_ne notSp, State.reg_store,
      State.reg_setReg_of_ne below.ne, State.reg_setCsr]
  · have row : savedAt savedRegisters (frameAt s + slot r - frameAt s) = none := by
      rw [add_sub_self, savedAt_savedRegisters, if_neg fun both => kept both.1]
    rw [written_of_none row]
    -- these two words were written by the first part
    have first : ∀ r : Reg, 0 < r → ¬ 3 ≤ r → r = ra ∨ r = sp := by decide
    rcases first r inside kept with rfl | rfl
    · have other : ra ≠ sp := by decide
      have kept := @update_slot
        (Function.update (Function.update s.memory (scratch s + 24) (s.reg sp)) (frameAt s + 8)
          (s.reg ra)) (frameAt s) (s.reg sp) sp ra other
      exact kept.trans (Function.update_self _ _ _)
    · exact Function.update_self _ _ _

/-- What the shim has put in place when it calls the handler: the frame of the thread, at the
address that is the first argument. -/
structure Entered (s called : State) : Prop where
  /-- The first argument. -/
  argument : called.reg a0 = frameAt s
  /-- The stack pointer is at the frame, or below the saved floating-point registers. -/
  stack : called.reg sp =
    if called.reg s0 ≠ called.reg s1 then frameAt s else frameAt s + (-264)
  /-- The frame. -/
  frame : TrapFrame.At called.memory (frameAt s) (savedFrame s)
  /-- `sscratch` points to the scratch area again. -/
  sscratch : called.csr .sscratch = scratch s

/-- The distance of a word of the frame from the area of the floating-point registers. -/
theorem sub_area (frame : UInt64) (r : Reg) : frame + slot r - (frame + (-264)) = 264 + slot r := by
  grind

/-- No word of the frame is where the floating-point control and status register is saved. -/
theorem area_ne (frame : UInt64) (r : Reg) : frame + slot r ≠ frame + (-264) + 256 := by
  intro same
  have apart : ∀ r : Reg, 264 + slot r ≠ 256 := by decide
  apply apart r
  rw [← sub_area frame r, same, add_sub_self]

/-- Saving the floating-point registers leaves the frame above them, and the stack pointer is below
their area. -/
theorem saveFloats_spec (s : State) : (run saveFloats s).reg sp = s.reg sp + (-264) ∧
    (∀ r, r ≠ sp → r ≠ t1 → (run saveFloats s).reg r = s.reg r) ∧
    (∀ csr, csr ≠ .sstatus → (run saveFloats s).csr csr = s.csr csr) ∧
    ∀ r, (run saveFloats s).memory (s.reg sp + slot r) = s.memory (s.reg sp + slot r) := by
  have apart : (floatRegisters.map (·.2)).Nodup := by decide
  rw [saveFloats, ← List.singleton_append, run_append, run_append, run_floatSaves apart]
  refine ⟨?_, fun r notSp notT1 => ?_, fun csr other => ?_, fun r => ?_⟩
  all_goals
    simp -implicitDefEqProofs (disch := first | decide | assumption) only [run_cons, run_nil, exec,
      State.reg_setReg, State.reg_setReg_of_ne, State.memory_setReg, State.csr_setReg,
      State.reg_setCsr, State.memory_setCsr, State.csr_setCsr, State.reg_store, State.memory_store,
      State.csr_store, State.reg_setMemory, State.csr_setMemory, State.memory_setMemory,
      Function.update_of_ne]
  -- what is left is the frame above the area
  have row : savedAt floatRegisters (s.reg sp + slot r - (s.reg sp + (-264))) = none := by
    rw [sub_area, savedAt_floatRegisters]
  rw [Function.update_of_ne (area_ne _ r), written_of_none row]

/-- The last part puts the frame into the first argument, saves `t6` and `sepc`, and swaps `t6` and
`sscratch` back. -/
theorem arguments_spec (s : State) : (run arguments s).reg sp = s.reg sp ∧
    (run arguments s).reg a0 = s.reg sp ∧
    (run arguments s).csr = Function.update s.csr .sscratch (s.reg t6) ∧
    (run arguments s).memory = Function.update (Function.update s.memory (s.reg sp + slot t6)
      (s.csr .sscratch)) (s.reg sp + slot 0) (s.csr .sepc) := by
  have last : slot t6 = 248 := rfl
  have first : slot 0 = 0 := rfl
  rw [last, first]
  refine ⟨?_, ?_, ?_, ?_⟩
  all_goals
    simp -implicitDefEqProofs (disch := decide) only [arguments, run_cons, run_nil, exec,
      State.reg_setReg, State.reg_setReg_of_ne, State.memory_setReg, State.csr_setReg,
      State.reg_setCsr, State.memory_setCsr, State.csr_setCsr, State.reg_store, State.memory_store,
      State.csr_store, Function.update_of_ne]

/-- The state after the registers are saved. -/
theorem saved_spec (placed : Placed s) :
    (run (enter ++ saves sp savedRegisters) s).reg sp = frameAt s ∧
      (run (enter ++ saves sp savedRegisters) s).reg t6 = scratch s ∧
      (run (enter ++ saves sp savedRegisters) s).csr =
        Function.update s.csr .sscratch (s.reg t6) := by
  rw [run_append, enter_eq placed, run_saves (by decide)]
  refine ⟨?_, ?_, ?_⟩
  all_goals
    simp -implicitDefEqProofs (disch := decide) only [State.reg_setMemory, State.csr_setMemory,
      State.reg_store, State.csr_store, State.reg_setReg_of_ne, State.reg_setReg, State.csr_setReg,
      State.csr_setCsr]

/-- The entry of the shim leaves the frame of the thread where its first argument points. -/
theorem entry_spec (placed : Placed s) : Entered s (entry s) := by
  obtain ⟨stack, trap, csrs⟩ := saved_spec placed
  have words := @saved_word s placed
  rw [entry, run_append]
  generalize run (enter ++ saves sp savedRegisters) s = saved at *
  obtain ⟨stack', argument, csrs', memory⟩ := arguments_spec saved
  rw [csrs] at csrs' memory
  rw [stack] at stack' argument memory
  have frame : ∀ r, (run arguments saved).memory (frameAt s + slot r) = frameWord s r := by
    intro r
    rw [memory, frameWord]
    by_cases first : r = 0
    · rw [if_pos first, first, Function.update_self]
      rfl
    · rw [if_neg first, update_slot first]
      by_cases last : r = t6
      · rw [last, Function.update_self, Function.update_self]
      · rw [update_slot last]
        have bounds : ∀ r : Reg, r ≠ 0 → r ≠ t6 → 0 < r ∧ r < t6 := by decide
        exact words (bounds r first last).1 (bounds r first last).2
  have sscratch : (run arguments saved).csr .sscratch = scratch s := by
    rw [csrs', trap, Function.update_self]
  generalize run arguments saved = ready at *
  by_cases clean : ready.reg s0 ≠ ready.reg s1
  · rw [bneOver, if_pos clean]
    exact ⟨argument, by rw [if_pos clean, stack'], at_iff.mpr frame, sscratch⟩
  · rw [bneOver, if_neg clean]
    obtain ⟨low, others, kept, above⟩ := saveFloats_spec ready
    rw [stack'] at low above
    refine ⟨(others a0 (by decide) (by decide)).trans argument, ?_, ?_, ?_⟩
    · rw [others s0 (by decide) (by decide), others s1 (by decide) (by decide), if_neg clean, low]
    · exact at_iff.mpr fun r => (above r).trans (frame r)
    · exact (kept .sscratch (by decide)).trans sscratch

/-- Restoring the floating-point registers leaves memory alone and frees their area. -/
theorem restoreFloats_spec (s : State) : (run restoreFloats s).reg sp = s.reg sp + 264 ∧
    (run restoreFloats s).memory = s.memory ∧
    (run restoreFloats s).csr .sscratch = s.csr .sscratch := by
  obtain ⟨regs, memory, csrs⟩ := run_floatLoads_frame sp floatRegisters s
  have sscratch := csrs .sscratch (by decide)
  rw [restoreFloats, run_append, ← regs, ← memory, ← sscratch]
  generalize run (floatLoads sp floatRegisters) s = loaded
  refine ⟨?_, ?_, ?_⟩
  all_goals
    simp -implicitDefEqProofs (disch := decide) only [run_cons, run_nil, exec, State.reg_setReg,
      State.reg_setReg_of_ne, State.memory_setReg, State.csr_setReg, State.reg_dirty,
      State.memory_dirty, State.csr_dirty, State.reg_setFcsr, State.memory_setFcsr,
      State.csr_setFcsr]

/-- After the handler the shim restores `sepc` from the frame. -/
theorem restoreSepc_spec (s : State) : (run restoreSepc s).reg sp = s.reg sp ∧
    (run restoreSepc s).memory = s.memory ∧
    (run restoreSepc s).csr .sepc = s.memory (s.reg sp + slot 0) ∧
    (run restoreSepc s).csr .sscratch = s.csr .sscratch := by
  have first : slot 0 = 0 := rfl
  rw [first]
  refine ⟨?_, ?_, ?_, ?_⟩
  all_goals
    simp -implicitDefEqProofs (disch := decide) only [restoreSepc, run_cons, run_nil, exec,
      State.reg_setReg, State.reg_setReg_of_ne, State.memory_setReg, State.csr_setReg,
      State.reg_setCsr, State.memory_setCsr, State.csr_setCsr, Function.update_self,
      Function.update_of_ne]

/-- At the end the shim loads the stack pointer and goes on at `sepc`. -/
theorem leave_spec (s : State) : (∀ r, r ≠ sp → (run leave s).reg r = s.reg r) ∧
    (run leave s).reg sp = s.memory (s.reg sp + slot sp) ∧
    (∀ csr, csr ≠ .sstatus → (run leave s).csr csr = s.csr csr) ∧
    (run leave s).pc = s.csr .sepc := by
  obtain ⟨regs, csrs, value, memory⟩ := exec_scD zero 0 sp s
  -- the conditional store is not to the word of the stack pointer
  have second : slot sp = 16 := rfl
  have kept : (exec (.scD zero zero 0 sp) s).memory (s.reg sp + 16) = s.memory (s.reg sp + 16) := by
    have other : sp ≠ 0 := by decide
    rw [memory]
    exact @update_slot s.memory (s.reg sp) value 0 sp other
  rw [leave, run_cons, second, ← kept, ← regs, ← csrs]
  generalize exec (.scD zero zero 0 sp) s = cleared
  refine ⟨fun r other => ?_, ?_, fun csr other => ?_, ?_⟩
  all_goals
    simp -implicitDefEqProofs (disch := first | decide | assumption) only [run_cons, run_nil, exec,
      State.reg_setReg, State.reg_setReg_of_ne, State.csr_setReg, State.reg_setCsr,
      State.csr_setCsr, State.reg_jump, State.csr_jump, State.pc_jump, Function.update_of_ne]

/-- A hart goes on as the thread that trapped. -/
structure Resumes (s later : State) : Prop where
  /-- Every general register has the value of the thread. -/
  regs : ∀ r, later.reg r = s.reg r
  /-- So has `sepc`. -/
  sepc : later.csr .sepc = s.csr .sepc
  /-- And the hart goes on there. -/
  pc : later.pc = s.csr .sepc

/-- The exit of the shim resumes the thread whose frame it finds. -/
theorem exit_spec {frame : UInt64}
    (words : ∀ r, after.memory (frame + slot r) = frameWord s r)
    (stack : after.reg sp = if after.reg s0 ≠ after.reg s1 then frame else frame + (-264)) :
    Resumes s (exit after) ∧ (exit after).csr .sscratch = after.csr .sscratch := by
  have freed : (bneOver s0 s1 restoreFloats after).reg sp = frame ∧
      (bneOver s0 s1 restoreFloats after).memory = after.memory ∧
      (bneOver s0 s1 restoreFloats after).csr .sscratch = after.csr .sscratch := by
    rw [bneOver]
    by_cases clean : after.reg s0 ≠ after.reg s1
    · rw [if_pos clean]
      exact ⟨stack.trans (if_pos clean), rfl, rfl⟩
    · obtain ⟨low, memory, sscratch⟩ := restoreFloats_spec after
      rw [if_neg clean, low, stack, if_neg clean]
      exact ⟨by grind, memory, sscratch⟩
  obtain ⟨base, memory, sscratch⟩ := freed
  rw [exit, run_append, run_append]
  generalize bneOver s0 s1 restoreFloats after = freed at *
  obtain ⟨base', memory', sepc, sscratch'⟩ := restoreSepc_spec freed
  rw [base, memory, words 0] at sepc
  rw [base] at base'
  rw [memory] at memory'
  generalize run restoreSepc freed = started at *
  obtain ⟨memory'', csrs⟩ := run_loads_frame sp restoredRegisters started
  have base'' : (run (loads sp restoredRegisters) started).reg sp = frame :=
    (run_loads_of_notMem (by decide)).trans base'
  have loaded : ∀ r, r ≠ 0 → r ≠ sp →
      (run (loads sp restoredRegisters) started).reg r = s.reg r := by
    intro r nonzero notSp
    have listed : ∀ r : Reg, r ≠ 0 → r ≠ sp → (r, slot r) ∈ restoredRegisters := by decide
    rw [run_loads_of_mem (by decide) (by decide) nonzero (listed r nonzero notSp), memory', base',
      words r, frameWord, if_neg nonzero]
  generalize run (loads sp restoredRegisters) started = full at *
  obtain ⟨others, last, kept, target⟩ := leave_spec full
  refine ⟨⟨fun r => ?_, ?_, ?_⟩, ?_⟩
  · by_cases nonzero : r = 0
    · rw [nonzero, State.reg_zero, State.reg_zero]
    · by_cases notSp : r = sp
      · rw [notSp, last, base'', memory'', memory', words sp]
        rfl
      · rw [others r notSp, loaded r nonzero notSp]
  · rw [kept .sepc (by decide), csrs, sepc]
    rfl
  · rw [target, csrs, sepc]
    rfl
  · rw [kept .sscratch (by decide), csrs, sscratch', sscratch]

/-- The first part of `TaskData::load` loads `sepc` and `satp`. -/
theorem loadTable_spec (s : State) : (run TaskData.loadTable s).reg a0 = s.reg a0 ∧
    (run TaskData.loadTable s).memory = s.memory ∧
    (run TaskData.loadTable s).csr .sepc = s.memory (s.reg a0 + slot 0) ∧
    (run TaskData.loadTable s).csr .satp = s.memory (s.reg a0 + 264) := by
  have first : slot 0 = 0 := rfl
  rw [first]
  refine ⟨?_, ?_, ?_, ?_⟩
  all_goals
    simp -implicitDefEqProofs (disch := decide) only [TaskData.loadTable, run_cons, run_nil, exec,
      State.reg_setReg, State.reg_setReg_of_ne, State.memory_setReg, State.csr_setReg,
      State.reg_setCsr, State.memory_setCsr, State.csr_setCsr, Function.update_self,
      Function.update_of_ne]

/-- `TaskData::load` resumes the thread whose frame it finds, on the table behind the frame. -/
theorem load_spec (words : ∀ r, core.memory (core.reg a0 + slot r) = frameWord s r) :
    Resumes s (TaskData.load core) ∧
      (TaskData.load core).csr .satp = core.memory (core.reg a0 + 264) := by
  obtain ⟨base, memory, sepc, satp⟩ := loadTable_spec core
  rw [words 0] at sepc
  rw [TaskData.load, run_append, run_append]
  generalize run TaskData.loadTable core = tabled at *
  obtain ⟨memory', csrs⟩ := run_loads_frame a0 TaskData.loadedRegisters tabled
  have base' : (run (loads a0 TaskData.loadedRegisters) tabled).reg a0 = core.reg a0 :=
    (run_loads_of_notMem (by decide)).trans base
  have loaded : ∀ r, r ≠ 0 → r ≠ a0 →
      (run (loads a0 TaskData.loadedRegisters) tabled).reg r = s.reg r := by
    intro r nonzero other
    have listed : ∀ r : Reg, r ≠ 0 → r ≠ a0 → (r, slot r) ∈ TaskData.loadedRegisters := by decide
    rw [run_loads_of_mem (by decide) (by decide) nonzero (listed r nonzero other), memory, base,
      words r, frameWord, if_neg nonzero]
  have last := words a0
  rw [← memory, ← memory', ← base'] at last
  rw [← csrs] at sepc satp
  generalize run (loads a0 TaskData.loadedRegisters) tabled = full at *
  have tenth : slot a0 = 80 := rfl
  rw [tenth] at last
  refine ⟨⟨fun r => ?_, ?_, ?_⟩, ?_⟩
  · by_cases own : r = a0
    · rw [own]
      simp -implicitDefEqProofs (disch := decide) only [run_cons, run_nil, exec, State.reg_setReg,
        State.reg_setCsr, State.reg_jump, last]
      rfl
    · simp -implicitDefEqProofs (disch := assumption) only [run_cons, run_nil, exec,
        State.reg_setReg_of_ne, State.reg_setCsr, State.reg_jump]
      by_cases nonzero : r = 0
      · rw [nonzero, State.reg_zero, State.reg_zero]
      · exact loaded r nonzero own
  · simp -implicitDefEqProofs (disch := decide) only [run_cons, run_nil, exec, State.csr_setReg,
      State.csr_setCsr, State.csr_jump, Function.update_of_ne, sepc]
    rfl
  · simp -implicitDefEqProofs only [run_cons, run_nil, exec, State.csr_setReg, State.pc_jump, sepc]
    rfl
  · simp -implicitDefEqProofs (disch := decide) only [run_cons, run_nil, exec, State.csr_setReg,
      State.csr_setCsr, State.csr_jump, Function.update_of_ne, satp]

/-- The registers that a called function leaves as they were. -/
def calleeSaved : List Reg := [sp, s0, s1, s2, s3, s4, s5, s6, s7, s8, s9, s10, s11]

/-- What a handler may do that respects the calling convention and leaves the frame unchanged. -/
structure Conventional (called after : State) : Prop where
  /-- It restores the saved registers. -/
  saved : ∀ r ∈ calleeSaved, after.reg r = called.reg r
  /-- The frame that its first argument points to is as it was. -/
  frame : ∀ r, after.memory (called.reg a0 + slot r) = called.memory (called.reg a0 + slot r)
  /-- It does not use `sscratch`. -/
  sscratch : after.csr .sscratch = called.csr .sscratch

/-- A handler may do nothing. -/
theorem Conventional.refl (called : State) : Conventional called called :=
  ⟨fun _ _ => rfl, fun _ => rfl, rfl⟩

/-- The three tables of offsets agree, whatever the state of the floating-point registers: the entry
of the shim leaves the frame of the thread where its first argument points; after a handler that
leaves the frame alone the exit resumes the thread, with `sscratch` at the same scratch area; and
`TaskData::load` resumes it from a thread that holds the frame, on the table of that thread. -/
theorem frames_agree (placed : Placed s) (conventional : Conventional (entry s) after) :
    TrapFrame.At (entry s).memory ((entry s).reg a0) (savedFrame s) ∧
    (Resumes s (exit after) ∧ (exit after).csr .sscratch = s.csr .sscratch) ∧
    ∀ core task, TaskData.At core.memory (core.reg a0) task → task.trapFrame = savedFrame s →
      Resumes s (TaskData.load core) ∧ (TaskData.load core).csr .satp = task.taskTable := by
  obtain ⟨argument, stack, frame, sscratch⟩ := entry_spec placed
  have words : ∀ r, after.memory (frameAt s + slot r) = frameWord s r := by
    intro r
    have kept := conventional.frame r
    rw [argument] at kept
    exact kept.trans (at_iff.mp frame r)
  have stack' : after.reg sp =
      if after.reg s0 ≠ after.reg s1 then frameAt s else frameAt s + (-264) := by
    have saved : ∀ r ∈ [sp, s0, s1], r ∈ calleeSaved := by decide
    rw [conventional.saved sp (saved sp (by decide)), conventional.saved s0 (saved s0 (by decide)),
      conventional.saved s1 (saved s1 (by decide)), stack]
  obtain ⟨resumes, same⟩ := exit_spec words stack'
  refine ⟨argument ▸ frame, ⟨resumes, ?_⟩, fun core task lies holds => ?_⟩
  · rw [same, conventional.sscratch, sscratch]
    rfl
  · obtain ⟨inside, -, table⟩ := taskAt_iff.mp lies
    rw [holds] at inside
    obtain ⟨resumes, satp⟩ := load_spec (at_iff.mp inside)
    exact ⟨resumes, satp.trans table⟩

/-- A hart that traps with dirty floating-point registers, 100 more in each register, a scratch area
at 4096 and an interrupt stack that ends at 12288. -/
def sample : State where
  x r := 100 + UInt64.ofNat r.val
  f _ := 0
  fcsr := 0
  csr := fun
    | .sscratch => 4096
    | .sstatus => 0x6000
    | _ => 0
  memory address := if address = 4096 then 12288 else 0
  reserved _ := false
  pc := 0

/-- The frame of the sample lies below the end of the interrupt stack. -/
theorem sample_placed : Placed sample := ⟨by decide, by decide, by unfold Span.Apart; decide⟩

/-- The stack pointer of the sample is restored, by the exit as well as from a thread. -/
theorem frames_agree_sample : (exit (entry sample)).reg sp = 102 ∧
    (TaskData.load (entry sample)).reg sp = 102 := by
  have pointer : sample.reg sp = 102 := by decide
  obtain ⟨frame, ⟨resumes, -⟩, loads⟩ := frames_agree sample_placed (.refl (entry sample))
  refine ⟨(resumes.regs sp).trans pointer, ?_⟩
  generalize entry sample = called at frame loads
  have lies : TaskData.At called.memory (called.reg a0)
      ⟨savedFrame sample, called.memory (called.reg a0 + 256),
        called.memory (called.reg a0 + 264), .user, .none, 0, 0, 0⟩ :=
    taskAt_iff.mpr ⟨frame, rfl, rfl⟩
  exact ((loads called _ lies rfl).1.regs sp).trans pointer

end Shim

end Lsd
