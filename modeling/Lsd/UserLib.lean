import Lsd.Traps.Task

/-!
# The user library

`lsd_lib` on threads: code in user mode that makes a system call and goes on from
the registers it finds when it is resumed.
-/

namespace Lsd.UserLib

/-- User code that makes system calls. -/
inductive UserCode where
  /-- Call the kernel with these values in `a0` and `a1`, and go on from the registers. -/
  | ecall (a0 a1 : UInt64) (resume : TrapFrame → UserCode)
  /-- Call the function that the thread was made for, and go on. -/
  | call (next : UserCode)
  /-- Return to the caller. -/
  | returns
  /-- What stands behind a call that does not return. -/
  | unreachable

/-- How the code goes on when it is resumed with these registers. -/
def UserCode.resume (frame : TrapFrame) : UserCode → UserCode
  | .ecall _ _ resume => resume frame
  | code => code

/-- `spawn_thread_raw`, with what its caller does with the two numbers. -/
def spawnThreadRaw (next : UInt64 × UInt64 → UserCode) : UserCode :=
  .ecall 1 2 fun frame => next (frame.registers.a0, frame.registers.a1)

/-- `drop_thread`. -/
def dropThread : UserCode := .ecall 1 3 fun _ => .unreachable

/-- `spawn_thread`. -/
def spawnThread : UserCode :=
  spawnThreadRaw fun ids => if ids.2 ≠ 0 then .call dropThread else .returns

end Lsd.UserLib
