import Mathlib

/-!
# RV64 instructions

The instructions that save and restore the registers of a hart: loads, stores,
moves, a few operations on words, and those on control and status registers. An
access is to an aligned double word, and no instruction here traps. Tables of
registers and offsets are stored and loaded as a whole, with one rule for each.
-/

namespace Riscv

/-- There are registers. -/
instance instNeZeroRegisters : NeZero 32 := ⟨by decide⟩

/-- The general registers; number 0 reads as zero. -/
abbrev Reg : Type := Fin 32

namespace Reg

/-- Zero. -/
abbrev zero : Reg := 0
/-- The return address. -/
abbrev ra : Reg := 1
/-- The stack pointer. -/
abbrev sp : Reg := 2
/-- The global pointer. -/
abbrev gp : Reg := 3
/-- The thread pointer. -/
abbrev tp : Reg := 4
/-- A temporary register. -/
abbrev t0 : Reg := 5
/-- A temporary register. -/
abbrev t1 : Reg := 6
/-- A temporary register. -/
abbrev t2 : Reg := 7
/-- A saved register. -/
abbrev s0 : Reg := 8
/-- A saved register. -/
abbrev s1 : Reg := 9
/-- The first argument. -/
abbrev a0 : Reg := 10
/-- The second argument. -/
abbrev a1 : Reg := 11
/-- The third argument. -/
abbrev a2 : Reg := 12
/-- The fourth argument. -/
abbrev a3 : Reg := 13
/-- The fifth argument. -/
abbrev a4 : Reg := 14
/-- The sixth argument. -/
abbrev a5 : Reg := 15
/-- The seventh argument. -/
abbrev a6 : Reg := 16
/-- The eighth argument. -/
abbrev a7 : Reg := 17
/-- A saved register. -/
abbrev s2 : Reg := 18
/-- A saved register. -/
abbrev s3 : Reg := 19
/-- A saved register. -/
abbrev s4 : Reg := 20
/-- A saved register. -/
abbrev s5 : Reg := 21
/-- A saved register. -/
abbrev s6 : Reg := 22
/-- A saved register. -/
abbrev s7 : Reg := 23
/-- A saved register. -/
abbrev s8 : Reg := 24
/-- A saved register. -/
abbrev s9 : Reg := 25
/-- A saved register. -/
abbrev s10 : Reg := 26
/-- A saved register. -/
abbrev s11 : Reg := 27
/-- A temporary register. -/
abbrev t3 : Reg := 28
/-- A temporary register. -/
abbrev t4 : Reg := 29
/-- A temporary register. -/
abbrev t5 : Reg := 30
/-- A temporary register. -/
abbrev t6 : Reg := 31

end Reg

/-- Control and status registers. -/
inductive Csr where
  | sepc | sscratch | sstatus | satp | scause | stval
deriving DecidableEq

/-- A hart and the memory it sees. -/
structure State where
  /-- The general registers. -/
  x : Reg → UInt64
  /-- The floating-point registers. -/
  f : Fin 32 → UInt64
  /-- The floating-point control and status register. -/
  fcsr : UInt64
  /-- The control and status registers. -/
  csr : Csr → UInt64
  /-- The double word at each aligned address. -/
  memory : UInt64 → UInt64
  /-- The addresses that an outstanding reservation covers. -/
  reserved : UInt64 → Bool
  /-- Where the hart goes on after the code. -/
  pc : UInt64

namespace State

variable (s : State)

/-- Read a general register. -/
def reg (r : Reg) : UInt64 := if r = 0 then 0 else s.x r

/-- Write a general register. What is written to register 0 is never read. -/
def setReg (r : Reg) (value : UInt64) : State := { s with x := Function.update s.x r value }

/-- Write a control and status register. -/
def setCsr (c : Csr) (value : UInt64) : State := { s with csr := Function.update s.csr c value }

/-- Replace what is in memory. -/
def setMemory (memory : UInt64 → UInt64) : State := { s with memory := memory }

/-- Store a double word. -/
def store (address value : UInt64) : State :=
  s.setMemory (Function.update s.memory address value)

/-- A write to the floating-point state makes it dirty. -/
def dirty : State := s.setCsr .sstatus (s.csr .sstatus ||| 0x6000)

/-- Write a floating-point register. -/
def setF (r : Fin 32) (value : UInt64) : State := { s with f := Function.update s.f r value }

/-- Write the floating-point control and status register. -/
def setFcsr (value : UInt64) : State := { s with fcsr := value }

/-- Give a reservation up. -/
def release : State := { s with reserved := fun _ => false }

/-- Go on elsewhere. -/
def jump (target : UInt64) : State := { s with pc := target }

variable {s} {r r' : Reg} {c c' : Csr} {value address : UInt64}

/-- Register 0 reads as zero. -/
@[simp] theorem reg_zero : s.reg 0 = 0 := if_pos rfl

/-- A register is read as it was written. -/
theorem reg_setReg (nonzero : r ≠ 0) : (s.setReg r value).reg r = value := by
  rw [reg, if_neg nonzero]
  exact Function.update_self r value s.x

/-- The other registers keep their values. -/
theorem reg_setReg_of_ne (other : r' ≠ r) : (s.setReg r value).reg r' = s.reg r' := by
  have kept : Function.update s.x r value r' = s.x r' := Function.update_of_ne other value s.x
  rw [reg, reg, ← kept]
  rfl

/-- A write to register 0 is lost. -/
@[simp] theorem reg_setReg_zero : (s.setReg 0 value).reg = s.reg := by
  funext r
  by_cases zero : r = 0
  · rw [zero, reg_zero, reg_zero]
  · exact reg_setReg_of_ne zero

@[simp] theorem memory_setReg : (s.setReg r value).memory = s.memory := rfl
@[simp] theorem csr_setReg : (s.setReg r value).csr = s.csr := rfl
@[simp] theorem csr_setCsr :
    (s.setCsr c value).csr = Function.update s.csr c value := rfl
@[simp] theorem reg_setCsr : (s.setCsr c value).reg = s.reg := rfl
@[simp] theorem memory_setCsr : (s.setCsr c value).memory = s.memory := rfl
@[simp] theorem reg_setMemory {memory} : (s.setMemory memory).reg = s.reg := rfl
@[simp] theorem csr_setMemory {memory} : (s.setMemory memory).csr = s.csr := rfl
@[simp] theorem memory_setMemory {memory} : (s.setMemory memory).memory = memory := rfl
@[simp] theorem reg_store : (s.store address value).reg = s.reg := rfl
@[simp] theorem memory_store :
    (s.store address value).memory = Function.update s.memory address value := rfl
@[simp] theorem csr_store : (s.store address value).csr = s.csr := rfl
@[simp] theorem reg_dirty : s.dirty.reg = s.reg := rfl
@[simp] theorem memory_dirty : s.dirty.memory = s.memory := rfl
@[simp] theorem csr_dirty (other : c ≠ .sstatus) : s.dirty.csr c = s.csr c :=
  Function.update_of_ne other _ _
@[simp] theorem reg_setF {f} : (s.setF f value).reg = s.reg := rfl
@[simp] theorem memory_setF {f} : (s.setF f value).memory = s.memory := rfl
@[simp] theorem csr_setF {f} : (s.setF f value).csr = s.csr := rfl
@[simp] theorem reg_setFcsr : (s.setFcsr value).reg = s.reg := rfl
@[simp] theorem memory_setFcsr : (s.setFcsr value).memory = s.memory := rfl
@[simp] theorem csr_setFcsr : (s.setFcsr value).csr = s.csr := rfl
@[simp] theorem reg_release : s.release.reg = s.reg := rfl
@[simp] theorem memory_release : s.release.memory = s.memory := rfl
@[simp] theorem csr_release : s.release.csr = s.csr := rfl
@[simp] theorem reg_jump : (s.jump value).reg = s.reg := rfl
@[simp] theorem csr_jump : (s.jump value).csr = s.csr := rfl
@[simp] theorem pc_jump : (s.jump value).pc = value := rfl

end State

/-- Instructions. -/
inductive Instr where
  /-- Load a double word. -/
  | ld (rd : Reg) (offset : UInt64) (rs : Reg)
  /-- Store a double word. -/
  | sd (rs2 : Reg) (offset : UInt64) (rs1 : Reg)
  /-- Load a floating-point register. -/
  | fld (fd : Fin 32) (offset : UInt64) (rs : Reg)
  /-- Store a floating-point register. -/
  | fsd (fs : Fin 32) (offset : UInt64) (rs : Reg)
  /-- Load a constant. -/
  | li (rd : Reg) (value : UInt64)
  /-- Move. -/
  | mv (rd rs : Reg)
  /-- Add a constant. -/
  | addi (rd rs : Reg) (value : UInt64)
  /-- Shift right. -/
  | srli (rd rs : Reg) (places : UInt64)
  /-- Bitwise conjunction with a constant. -/
  | andi (rd rs : Reg) (value : UInt64)
  /-- Read a control and status register. -/
  | csrr (rd : Reg) (csr : Csr)
  /-- Write a control and status register. -/
  | csrw (csr : Csr) (rs : Reg)
  /-- Swap a control and status register with a general register. -/
  | csrrw (rd : Reg) (csr : Csr) (rs : Reg)
  /-- Set bits of a control and status register. -/
  | csrs (csr : Csr) (rs : Reg)
  /-- Clear bits of a control and status register. -/
  | csrc (csr : Csr) (rs : Reg)
  /-- Read the floating-point control and status register. -/
  | frcsr (rd : Reg)
  /-- Write the floating-point control and status register. -/
  | fscsr (rs : Reg)
  /-- Store a double word if the reservation covers it, and give the reservation up. -/
  | scD (rd rs2 : Reg) (offset : UInt64) (rs1 : Reg)
  /-- Order accesses after changes of page tables. -/
  | sfenceVma
  /-- Return from a trap. -/
  | sret

/-- What `sret` makes of `sstatus`: `SIE` is taken from `SPIE`, which is set, and `SPP` is
cleared. -/
def leaveTrap (sstatus : UInt64) : UInt64 :=
  (sstatus &&& ~~~(0x122 : UInt64)) ||| ((sstatus >>> 4) &&& 0x2) ||| 0x20

/-- Execute one instruction. -/
def exec : Instr → State → State
  | .ld rd offset rs, s => s.setReg rd (s.memory (s.reg rs + offset))
  | .sd rs2 offset rs1, s => s.store (s.reg rs1 + offset) (s.reg rs2)
  | .fld fd offset rs, s => s.dirty.setF fd (s.memory (s.reg rs + offset))
  | .fsd fs offset rs, s => s.store (s.reg rs + offset) (s.f fs)
  | .li rd value, s => s.setReg rd value
  | .mv rd rs, s => s.setReg rd (s.reg rs)
  | .addi rd rs value, s => s.setReg rd (s.reg rs + value)
  | .srli rd rs places, s => s.setReg rd (s.reg rs >>> places)
  | .andi rd rs value, s => s.setReg rd (s.reg rs &&& value)
  | .csrr rd csr, s => s.setReg rd (s.csr csr)
  | .csrw csr rs, s => s.setCsr csr (s.reg rs)
  | .csrrw rd csr rs, s => (s.setCsr csr (s.reg rs)).setReg rd (s.csr csr)
  | .csrs csr rs, s => s.setCsr csr (s.csr csr ||| s.reg rs)
  | .csrc csr rs, s => s.setCsr csr (s.csr csr &&& ~~~s.reg rs)
  | .frcsr rd, s => s.setReg rd s.fcsr
  | .fscsr rs, s => s.dirty.setFcsr (s.reg rs)
  | .scD rd rs2 offset rs1, s =>
    let address := s.reg rs1 + offset
    if s.reserved address then ((s.store address (s.reg rs2)).setReg rd 0).release
    else (s.setReg rd 1).release
  | .sfenceVma, s => s
  | .sret, s => (s.setCsr .sstatus (leaveTrap (s.csr .sstatus))).jump (s.csr .sepc)

/-- Execute a block. -/
def run (block : List Instr) (s : State) : State := block.foldl (fun s instr => exec instr s) s

/-- `bne` over a block: it is passed over when the registers differ. -/
def bneOver (first second : Reg) (block : List Instr) (s : State) : State :=
  if s.reg first ≠ s.reg second then s else run block s

/-- A conditional store without a result register changes at most the word it is for. -/
theorem exec_scD (rs2 : Reg) (offset : UInt64) (rs1 : Reg) (s : State) :
    (exec (.scD 0 rs2 offset rs1) s).reg = s.reg ∧ (exec (.scD 0 rs2 offset rs1) s).csr = s.csr ∧
      ∃ value, (exec (.scD 0 rs2 offset rs1) s).memory =
        Function.update s.memory (s.reg rs1 + offset) value := by
  rw [exec]
  split
  · refine ⟨?_, rfl, s.reg rs2, rfl⟩
    rw [State.reg_release, State.reg_setReg_zero, State.reg_store]
  · refine ⟨?_, rfl, s.memory (s.reg rs1 + offset), ?_⟩
    · rw [State.reg_release, State.reg_setReg_zero]
    · exact (Function.update_eq_self _ _).symm

/-- The first instruction of a block is executed first. -/
theorem run_cons (instr : Instr) (rest : List Instr) (s : State) :
    run (instr :: rest) s = run rest (exec instr s) := rfl

/-- An empty block does nothing. -/
theorem run_nil (s : State) : run [] s = s := rfl

/-- Blocks are executed in turn. -/
theorem run_append (first second : List Instr) (s : State) :
    run (first ++ second) s = run second (run first s) := List.foldl_append

/-- Store the registers of a table at its offsets. -/
def saves (base : Reg) (table : List (Reg × UInt64)) : List Instr :=
  table.map fun (r, offset) => .sd r offset base

/-- Load the registers of a table from its offsets. -/
def loads (base : Reg) (table : List (Reg × UInt64)) : List Instr :=
  table.map fun (r, offset) => .ld r offset base

/-- Store the floating-point registers of a table at its offsets. -/
def floatSaves (base : Reg) (table : List (Fin 32 × UInt64)) : List Instr :=
  table.map fun (f, offset) => .fsd f offset base

/-- Load the floating-point registers of a table from its offsets. -/
def floatLoads (base : Reg) (table : List (Fin 32 × UInt64)) : List Instr :=
  table.map fun (f, offset) => .fld f offset base

/-- The register of a table that is stored at an offset. -/
def savedAt (table : List (Reg × UInt64)) (offset : UInt64) : Option Reg :=
  (table.find? (·.2 = offset)).map (·.1)

section Tables

variable {base : Reg} {table : List (Reg × UInt64)} {s : State}

/-- Memory after a table is written at a base. -/
def written (values : Fin 32 → UInt64) (table : List (Fin 32 × UInt64)) (base : UInt64)
    (memory : UInt64 → UInt64) : UInt64 → UInt64 := fun address =>
  ((savedAt table (address - base)).map values).getD (memory address)

/-- An offset that the table does not have is not written. -/
theorem written_of_none {values : Fin 32 → UInt64} {memory : UInt64 → UInt64} {address : UInt64}
    {base : UInt64} (outside : savedAt table (address - base) = none) :
    written values table base memory address = memory address := by
  rw [written, outside]
  rfl

/-- An offset of the table holds the value of its register. -/
theorem written_of_some {values : Fin 32 → UInt64} {memory : UInt64 → UInt64} {address : UInt64}
    {base : UInt64} {r : Fin 32} (inside : savedAt table (address - base) = some r) :
    written values table base memory address = values r := by
  rw [written, inside]
  rfl

/-- A distance is the offset it is made of. -/
theorem sub_eq_iff {address base offset : UInt64} :
    address - base = offset ↔ address = base + offset := by
  constructor
  · intro same
    rw [← same, UInt64.add_comm, UInt64.sub_add_cancel]
  · intro same
    rw [same, UInt64.add_comm, UInt64.add_sub_cancel]

/-- Writing a row first and then the others, at other offsets, writes the table. -/
theorem written_cons {values : Fin 32 → UInt64} {memory : UInt64 → UInt64} {r : Fin 32}
    {base offset : UInt64} (fresh : offset ∉ table.map (·.2)) :
    written values table base (Function.update memory (base + offset) (values r)) =
      written values ((r, offset) :: table) base memory := by
  funext address
  by_cases here : address = base + offset
  · have distance : address - base = offset := sub_eq_iff.mpr here
    have absent : savedAt table (address - base) = none := by
      rw [savedAt, Option.map_eq_none_iff, List.find?_eq_none]
      intro row listed same
      exact fresh (List.mem_map.mpr ⟨row, listed, (of_decide_eq_true same).trans distance⟩)
    have found : savedAt ((r, offset) :: table) (address - base) = some r := by
      rw [savedAt, List.find?_cons_of_pos (by simpa using distance.symm)]
      rfl
    rw [written_of_none absent, written_of_some found, here, Function.update_self]
  · have distance : ¬ offset = address - base := fun same => here (sub_eq_iff.mp same.symm)
    have passed : savedAt ((r, offset) :: table) (address - base) =
        savedAt table (address - base) := by
      rw [savedAt, List.find?_cons_of_neg (by simpa using distance)]
      rfl
    rw [written, written, passed, Function.update_of_ne here]

/-- Storing a table writes it and changes nothing else. -/
theorem run_saves (apart : (table.map (·.2)).Nodup) :
    run (saves base table) s = s.setMemory (written s.reg table (s.reg base) s.memory) := by
  induction table generalizing s with
  | nil => rfl
  | cons row table ih =>
    obtain ⟨r, offset⟩ := row
    obtain ⟨fresh, rest⟩ := List.nodup_cons.mp apart
    change run (saves base table) (s.store (s.reg base + offset) (s.reg r)) = _
    rw [ih rest, ← written_cons fresh]
    rfl

/-- Storing a table of floating-point registers writes it and changes nothing else. -/
theorem run_floatSaves (apart : (table.map (·.2)).Nodup) :
    run (floatSaves base table) s =
      s.setMemory (written s.f table (s.reg base) s.memory) := by
  induction table generalizing s with
  | nil => rfl
  | cons row table ih =>
    obtain ⟨r, offset⟩ := row
    obtain ⟨fresh, rest⟩ := List.nodup_cons.mp apart
    change run (floatSaves base table) (s.store (s.reg base + offset) (s.f r)) = _
    rw [ih rest, ← written_cons fresh]
    rfl

/-- Loading a table changes no memory and no control and status register. -/
theorem run_loads_frame (base : Reg) (table : List (Reg × UInt64)) (s : State) :
    (run (loads base table) s).memory = s.memory ∧ (run (loads base table) s).csr = s.csr := by
  induction table generalizing s with
  | nil => exact ⟨rfl, rfl⟩
  | cons row table ih => exact ih (exec (.ld row.1 row.2 base) s)

/-- Loading a table leaves the registers that it does not name. -/
theorem run_loads_of_notMem {r : Reg} (absent : r ∉ table.map (·.1)) :
    (run (loads base table) s).reg r = s.reg r := by
  induction table generalizing s with
  | nil => rfl
  | cons row table ih =>
    obtain ⟨other, rest⟩ := not_or.mp (List.mem_cons.not.mp absent)
    exact (ih rest).trans (State.reg_setReg_of_ne other)

/-- Loading a table that does not name the base loads each register from its offset. -/
theorem run_loads_of_mem {r : Reg} {offset : UInt64} (apart : (table.map (·.1)).Nodup)
    (fixed : base ∉ table.map (·.1)) (nonzero : r ≠ 0) (listed : (r, offset) ∈ table) :
    (run (loads base table) s).reg r = s.memory (s.reg base + offset) := by
  induction table generalizing s with
  | nil => nomatch listed
  | cons row table ih =>
    obtain ⟨fresh, rest⟩ := List.nodup_cons.mp apart
    obtain ⟨other, fixed⟩ := not_or.mp (List.mem_cons.not.mp fixed)
    change (run (loads base table) (s.setReg row.1 (s.memory (s.reg base + row.2)))).reg r = _
    rcases List.mem_cons.mp listed with rfl | listed
    · exact (run_loads_of_notMem fresh).trans (State.reg_setReg nonzero)
    · rw [ih rest fixed listed, State.reg_setReg_of_ne other]
      rfl

/-- Loading floating-point registers changes no general register, no memory and no control and
status register but `sstatus`. -/
theorem run_floatLoads_frame (base : Reg) (table : List (Fin 32 × UInt64)) (s : State) :
    (run (floatLoads base table) s).reg = s.reg ∧
    (run (floatLoads base table) s).memory = s.memory ∧
      ∀ csr, csr ≠ .sstatus → (run (floatLoads base table) s).csr csr = s.csr csr := by
  induction table generalizing s with
  | nil => exact ⟨rfl, rfl, fun _ _ => rfl⟩
  | cons row table ih =>
    obtain ⟨regs, memory, csrs⟩ := ih (exec (.fld row.1 row.2 base) s)
    refine ⟨regs, memory, fun csr other => (csrs csr other).trans ?_⟩
    exact Function.update_of_ne other _ _

end Tables

end Riscv
