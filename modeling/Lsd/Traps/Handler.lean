import Lsd.Arch.Syscalls

/-!
# The trap handler

`traps::trap_handler` and the dispatch of `traps::plic`: what the kernel does
between the entry of a trap and the return to user mode.
-/

namespace Lsd

open Program

/-- `Trap`, with the causes that the handler tells apart by their numbers. -/
inductive Trap where
  | userSoftwareInterrupt | supervisorSoftwareInterrupt | machineSoftwareInterrupt
  | userTimerInterrupt | supervisorTimerInterrupt | machineTimerInterrupt
  | userExternalInterrupt | supervisorExternalInterrupt | machineExternalInterrupt
  | instructionAddressMisaligned | instructionAccessFault | illegalInstruction | breakpoint
  | loadAddressMisaligned | loadAccessFault | storeAddressMisaligned | storeAccessFault
  | userModeEnvironmentCall | supervisorModeEnvironmentCall | machineModeEnvironmentCall
  | instructionPageFault | loadPageFault | storePageFault | reserved
deriving DecidableEq

/-- `Trap::from_cause`. -/
def Trap.fromCause : UInt64 → Trap
  | 0x8000000000000000 => .userSoftwareInterrupt
  | 0x8000000000000001 => .supervisorSoftwareInterrupt
  | 0x8000000000000003 => .machineSoftwareInterrupt
  | 0x8000000000000004 => .userTimerInterrupt
  | 0x8000000000000005 => .supervisorTimerInterrupt
  | 0x8000000000000007 => .machineTimerInterrupt
  | 0x8000000000000008 => .userExternalInterrupt
  | 0x8000000000000009 => .supervisorExternalInterrupt
  | 0x800000000000000B => .machineExternalInterrupt
  | 0 => .instructionAddressMisaligned
  | 1 => .instructionAccessFault
  | 2 => .illegalInstruction
  | 3 => .breakpoint
  | 4 => .loadAddressMisaligned
  | 5 => .loadAccessFault
  | 6 => .storeAddressMisaligned
  | 7 => .storeAccessFault
  | 8 => .userModeEnvironmentCall
  | 9 => .supervisorModeEnvironmentCall
  | 11 => .machineModeEnvironmentCall
  | 12 => .instructionPageFault
  | 13 => .loadPageFault
  | 15 => .storePageFault
  | _ => .reserved

variable {V : Type}

/-- What an external interrupt finds: the interrupt the controller hands over and the handlers. -/
structure Devices (V : Type) where
  /-- The number of the claimed interrupt. -/
  claim : Option Nat
  /-- `INT_HANDLERS`. -/
  handlers : Nat → Nat → Kernel (Machine V) Unit

/-- The handler of interrupts nobody asked for. -/
def unknown (id : Nat) : Kernel (Machine V) Unit :=
  Prog.stop (.panic ("Unknown external interrupt " ++ hex (UInt64.ofNat id)))

/-- The devices when the serial port interrupts with a byte, as number `id`. -/
def Devices.serial (id : Nat) (input : UInt8) : Devices V where
  claim := some id
  handlers := fun number => if number = id then fun _ => uartHandler input else unknown

/-- `handle_external`. -/
def handleExternal (devices : Devices V) : Kernel (Machine V) Unit :=
  match devices.claim with
  | none => Prog.stop (.panic "No claim available")
  | some id => do
    checkIndex 64 id
    devices.handlers id id

/-- `trap_handler`. A timer interrupt first sets the timer anew, in the firmware outside the
machine, which is taken to succeed. Other traps are reported and end in a loop that pauses for
ever. -/
def trapHandler (platform : Platform V) (devices : Devices V) (scause stval : UInt64) :
    Kernel (Machine V) Unit :=
  match Trap.fromCause scause with
  | .supervisorTimerInterrupt => advanceTask
  | .storePageFault =>
    if stval = 0xffffffff90000000 then print "Failed to map UART, using HHDM UART\n"
    else Prog.stop .unfinished
  | .supervisorExternalInterrupt => handleExternal devices
  | .userModeEnvironmentCall => do
    setFrame fun regs => { regs with sepc := regs.sepc + 4 }
    syscallCore platform
  | .breakpoint => do
    lockWrite
    TaskQueue.currentTaskMut fun curTask => { curTask with waitingOn := .breakpoint }
    unlockWrite
    advanceTask
  | _ => Prog.stop .unfinished

end Lsd
