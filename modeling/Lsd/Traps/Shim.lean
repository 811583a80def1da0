import Lsd.Lib.Riscv
import Lsd.Traps.Task

/-!
# The trap shim in assembly

The two halves of `stvec_trap_shim` and `TaskData::load`, instruction by
instruction, and where `repr(C)` puts the fields that they name by their offsets.
`TRAP_FRAME_SIZE` is the size of `TrapFrame`, negated.
-/

namespace Lsd

open Riscv Riscv.Reg

/-- The offsets that `repr(C)` gives to fields of these sizes and alignments, from an offset on. -/
def fieldOffsets : Nat → List (Nat × Nat) → List Nat
  | _, [] => []
  | offset, (size, align) :: rest =>
    let start := (offset + align - 1) / align * align
    start :: fieldOffsets (start + size) rest

/-- The sizes and alignments of the fields of `GeneralRegisters`. -/
def GeneralRegisters.layout : List (Nat × Nat) := List.replicate 31 (8, 8)

/-- The fields of `TrapFrame`. -/
def TrapFrame.layout : List (Nat × Nat) := [(8, 8), (248, 8)]

/-- The fields of `TaskData` up to `task_table`. -/
def TaskData.layout : List (Nat × Nat) := [(256, 8), (8, 8), (8, 8)]

/-- The registers in the order of the fields. -/
def GeneralRegisters.words (g : GeneralRegisters) : List UInt64 :=
  [g.ra, g.sp, g.gp, g.tp, g.t0, g.t1, g.t2, g.s0, g.s1, g.a0, g.a1, g.a2, g.a3, g.a4, g.a5, g.a6,
    g.a7, g.s2, g.s3, g.s4, g.s5, g.s6, g.s7, g.s8, g.s9, g.s10, g.s11, g.t3, g.t4, g.t5, g.t6]

/-- The fields of a frame in their order. -/
def TrapFrame.words (frame : TrapFrame) : List UInt64 := frame.sepc :: frame.registers.words

/-- The offsets of the fields of a frame. -/
def TrapFrame.offsets : List Nat :=
  match fieldOffsets 0 TrapFrame.layout with
  | [sepc, registers] => sepc :: (fieldOffsets 0 GeneralRegisters.layout).map (registers + ·)
  | _ => []

/-- A frame lies at an address. -/
def TrapFrame.At (memory : Memory) (address : UInt64) (frame : TrapFrame) : Prop :=
  ∀ field ∈ TrapFrame.offsets.zip frame.words, memory (address + UInt64.ofNat field.1) = field.2

/-- A thread lies at an address, up to its `task_table`. -/
def TaskData.At (memory : Memory) (address : UInt64) (task : TaskData) : Prop :=
  match fieldOffsets 0 TaskData.layout with
  | [frame, id, table] => TrapFrame.At memory (address + UInt64.ofNat frame) task.trapFrame ∧
    memory (address + UInt64.ofNat id) = task.taskId ∧
    memory (address + UInt64.ofNat table) = task.taskTable
  | _ => False

namespace Shim

/-- `TRAP_FRAME_SIZE`. -/
def trapFrameSize : UInt64 := -256

/-- The shim until the return address and the stack pointer of the thread are saved. -/
def enter : List Instr := [
  .csrrw t6 .sscratch t6,
  .sd sp 24 t6,
  .ld sp 0 t6,
  .addi sp sp trapFrameSize,
  .sd ra 8 sp,
  .ld ra 24 t6,
  .sd ra 16 sp]

/-- The other registers that are saved. -/
def savedRegisters : List (Reg × UInt64) := [
  (gp, 24), (tp, 32), (t0, 40), (t1, 48), (t2, 56), (s0, 64), (s1, 72), (a0, 80), (a1, 88),
  (a2, 96), (a3, 104), (a4, 112), (a5, 120), (a6, 128), (a7, 136), (s2, 144), (s3, 152),
  (s4, 160), (s5, 168), (s6, 176), (s7, 184), (s8, 192), (s9, 200), (s10, 208), (s11, 216),
  (t3, 224), (t4, 232), (t5, 240)]

/-- The registers of the kernel are loaded, `t6` and `sepc` are saved, and the arguments of the
handler are put in place; `s0` and `s1` say whether the floating-point registers are dirty. -/
def arguments : List Instr := [
  .ld tp 8 t6,
  .ld gp 16 t6,
  .csrrw t6 .sscratch t6,
  .sd t6 248 sp,
  .csrr t6 .sepc,
  .sd t6 0 sp,
  .mv a0 sp,
  .csrr a1 .scause,
  .csrr a2 .stval,
  .csrr s0 .sstatus,
  .srli s0 s0 13,
  .andi s0 s0 3,
  .li s1 3]

/-- The floating-point registers in their area. -/
def floatRegisters : List (Fin 32 × UInt64) := [
  (0, 0), (1, 8), (2, 16), (3, 24), (4, 32), (5, 40), (6, 48), (7, 56), (8, 64), (9, 72), (10, 80),
  (11, 88), (12, 96), (13, 104), (14, 112), (15, 120), (16, 128), (17, 136), (18, 144), (19, 152),
  (20, 160), (21, 168), (22, 176), (23, 184), (24, 192), (25, 200), (26, 208), (27, 216), (28, 224),
  (29, 232), (30, 240), (31, 248)]

/-- Dirty floating-point registers are saved. -/
def saveFloats : List Instr :=
  .addi sp sp (-264) :: floatSaves sp floatRegisters ++
    [.frcsr t1, .sd t1 256 sp, .li t1 ((0b01 : UInt64) <<< 13), .csrc .sstatus t1]

/-- Saved floating-point registers are restored. -/
def restoreFloats : List Instr :=
  floatLoads sp floatRegisters ++ [.ld t1 256 sp, .fscsr t1, .addi sp sp 264]

/-- `sepc` is restored and interrupts are enabled after `sret`. -/
def restoreSepc : List Instr := [
  .ld t6 0 sp,
  .csrw .sepc t6,
  .li t6 ((1 : UInt64) <<< 5),
  .csrs .sstatus t6]

/-- The registers that are restored before the stack pointer. -/
def restoredRegisters : List (Reg × UInt64) := [
  (ra, 8), (gp, 24), (tp, 32), (t0, 40), (t1, 48), (t2, 56), (s0, 64), (s1, 72), (a0, 80), (a1, 88),
  (a2, 96), (a3, 104), (a4, 112), (a5, 120), (a6, 128), (a7, 136), (s2, 144), (s3, 152),
  (s4, 160), (s5, 168), (s6, 176), (s7, 184), (s8, 192), (s9, 200), (s10, 208), (s11, 216),
  (t3, 224), (t4, 232), (t5, 240), (t6, 248)]

/-- The stack pointer is restored and the trap is left. -/
def leave : List Instr := [
  .scD zero zero 0 sp,
  .ld sp 16 sp,
  .sret]

/-- `stvec_trap_shim` up to the call of `trap_handler`. -/
def entry (s : State) : State :=
  bneOver s0 s1 saveFloats (run (enter ++ saves sp savedRegisters ++ arguments) s)

/-- `stvec_trap_shim` from the return of `trap_handler` on. -/
def exit (s : State) : State :=
  run (restoreSepc ++ loads sp restoredRegisters ++ leave) (bneOver s0 s1 restoreFloats s)

end Shim

namespace TaskData

/-- `sepc` and `satp` are loaded. -/
def loadTable : List Instr := [
  .ld t0 0 a0,
  .csrw .sepc t0,
  .ld t0 264 a0,
  .csrw .satp t0,
  .sfenceVma]

/-- The registers that are loaded before `a0`. -/
def loadedRegisters : List (Reg × UInt64) := [
  (1, 8), (2, 16), (3, 24), (4, 32), (5, 40), (6, 48), (7, 56), (8, 64), (9, 72),
    (11, 88), (12, 96),
  (13, 104), (14, 112), (15, 120), (16, 128), (17, 136), (18, 144), (19, 152), (20, 160), (21, 168),
  (22, 176), (23, 184), (24, 192), (25, 200), (26, 208), (27, 216), (28, 224), (29, 232), (30, 240),
  (31, 248)]

/-- `TaskData::load`: `a0` points to the thread. -/
def load (s : State) : State :=
  run (loadTable ++ loads a0 loadedRegisters ++ [.ld a0 80 a0, .sret]) s

end TaskData

end Lsd
