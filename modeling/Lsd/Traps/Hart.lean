import Lsd.Traps.Stepwise

/-!
# The hart around the trap handler

What the hardware and `stvec_trap_shim` do around `trap_handler`. A trap disables
interrupts and remembers in `sstatus` where it came from; the shim puts the trap
frame on the interrupt stack, and enables interrupts again for the thread it
returns to. In the handler an interrupt is taken only where `sstatus` enables it.
The shim also keeps the floating-point registers, when the hart says that they
have been written.
-/

namespace Lsd

open Program

variable {V : Type}

namespace Machine

/-- `SIE`: whether supervisor interrupts are enabled. -/
def sie (s : Machine V) : Bool := getBit 1 s.sstatus

/-- `SPP`: whether the last trap came from the kernel. -/
def spp (s : Machine V) : Bool := getBit 8 s.sstatus

/-- `FS`: whether the floating-point registers are off, initial, clean or dirty. -/
def fs (s : Machine V) : UInt64 := getBits 14 13 s.sstatus

/-- What the hardware does at the entry of a trap: `SPIE` remembers `SIE`, which is cleared, and
`SPP` where the trap came from. What the shim stores next is a part of `Hart.Step`. -/
def enterTrap (s : Machine V) (supervisor : Bool) : Machine V :=
  { s with sstatus := setBit 8 (setBit 1 (setBit 5 s.sstatus s.sie) false) supervisor }

/-- The end of the shim: it sets `SPIE`, and `sret` takes `SIE` from it and clears `SPP`. -/
def leaveTrap (s : Machine V) : Machine V :=
  { s with sstatus := setBit 8 (setBit 1 (setBit 5 s.sstatus true) true) false }

end Machine

/-- A hart, in user mode or in the trap handler. -/
structure Hart (V : Type) where
  /-- The machine. -/
  machine : Machine V
  /-- What is left of the handler, unless the hart is in user mode. -/
  handler : Option (Steps V Unit)

/-- What a hart does next. -/
inductive Move where
  /-- The thread runs. -/
  | user
  /-- The thread traps. -/
  | trap (scause : UInt64)
  /-- The handler makes an access. -/
  | kernel
  /-- An interrupt is taken in the handler. -/
  | interrupt (scause : UInt64)
  /-- The handler returns to the thread. -/
  | sret

/-- One step of a hart. A trap leaves in memory what the shim has stored on the interrupt stack. An
interrupt in the handler finds the stack of the handler in use and puts its own frame there, so
nothing is left to return to. -/
inductive Hart.Step (platform : Platform V) : Hart V → Move → Hart V → Prop
  | user (machine : Machine V) (frame : TrapFrame) (memory : Memory) :
    Step platform ⟨machine, none⟩ .user
      ⟨{ machine with frame := frame, pmm := { machine.pmm with memory := memory } }, none⟩
  | trap (machine : Machine V) (memory : Memory) (rounds : Nat → Nat) (external : External V)
      (scause stval : UInt64) :
    Step platform ⟨machine, none⟩ (.trap scause)
      ⟨{ machine.enterTrap false with pmm := { machine.pmm with memory := memory } },
        some (Stepwise.trapHandler rounds platform external scause stval)⟩
  | kernel {machine later : Machine V} {script next : Steps V Unit}
      (stepped : script.step machine = some (next, later)) :
    Step platform ⟨machine, some script⟩ .kernel ⟨later, some next⟩
  | interrupt (machine : Machine V) (script : Steps V Unit) (frame : TrapFrame) (memory : Memory)
      (rounds : Nat → Nat) (external : External V) (scause stval : UInt64)
      (enabled : machine.sie = true)
      (source : scause = 0x8000000000000005 ∨ scause = 0x8000000000000009) :
    Step platform ⟨machine, some script⟩ (.interrupt scause)
      ⟨{ machine.enterTrap true with
          frame := frame, pmm := { machine.pmm with memory := memory } },
        some (Stepwise.trapHandler rounds platform external scause stval)⟩
  | sret (machine : Machine V) (home : machine.spp = false) :
    Step platform ⟨machine, some (.done ())⟩ .sret ⟨machine.leaveTrap, none⟩

/-- The floating-point registers and `fcsr`. -/
structure FloatRegisters where
  /-- `f0` to `f31`. -/
  f : Fin 32 → UInt64
  /-- `fcsr`. -/
  fcsr : UInt64
deriving DecidableEq

/-- A machine with its floating-point registers. -/
structure FloatMachine (V : Type) where
  /-- The machine. -/
  machine : Machine V
  /-- Its floating-point registers. -/
  float : FloatRegisters

/-- Change the machine. -/
def onMachine {α : Type} (program : Kernel (Machine V) α) : Kernel (FloatMachine V) α :=
  program.within (·.machine) fun s machine => { s with machine := machine }

/-- Write `FS`. -/
def setFs (value : UInt64) : Kernel (Machine V) Unit :=
  Prog.update fun s => { s with sstatus := setBits 14 13 s.sstatus value }

/-- `stvec_trap_shim`: dirty registers are saved on the stack and `FS` is told that they are clean;
after the handler they are loaded from there, by which the hart takes them for dirty again. -/
def stvecTrapShim (platform : Platform V) (devices : Devices V) (scause stval : UInt64) :
    Kernel (FloatMachine V) Unit := do
  onMachine (Prog.update (·.enterTrap false))
  let s0 ← Prog.read (·.machine.fs)
  let saved ← Prog.read (·.float)
  Prog.only (s0 = 3)
    (onMachine (Prog.update fun s => { s with sstatus := setBit 13 s.sstatus false }))
  onMachine (trapHandler platform devices scause stval)
  Prog.only (s0 = 3) do
    Prog.update fun s => { s with float := saved }
    onMachine (setFs 3)
  onMachine (Prog.update (·.leaveTrap))

end Lsd
