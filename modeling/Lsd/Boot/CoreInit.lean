import Lsd.Memory.PageTable

/-!
# Starting the other cores

`smp_init` hands a root table and a stack to each secondary core through the one
static `CORE_INIT`, and `core_main` picks them up. The boot core and the started
cores take their steps in any order; a step is one access to `CORE_INIT`.
-/

namespace Lsd

open Program

/-- `CoreInit`. -/
structure CoreInit where
  /-- The stack for the core. -/
  sp : UInt64
  /-- The `satp` for the core. -/
  satp : Satp
  /-- Whether a core has taken both. -/
  claimed : Bool
deriving DecidableEq

/-- The `satp` that `smp_init` makes for a new root table. -/
def coreSatp (hhdm : UInt64) (satp : Satp) (newTable : UInt64) : Satp :=
  (satp.setPpn ((newTable - hhdm) >>> 12)).setMode 9

/-- What `smp_init` hands to each secondary core. -/
structure CoreValues where
  /-- The `satp` of a core. -/
  satp : Nat → Satp
  /-- Its stack. -/
  sp : Nat → UInt64

/-- What `smp_init` claims for the first `count` secondary cores: frames that the frame list hands
out once. -/
structure CoreFrames (hhdm : UInt64) (count : Nat) where
  /-- The table that `new_with_upperhalf` returns for a core. -/
  table : Nat → UInt64
  /-- The stack that `claim_continuous` returns for it. -/
  stack : Nat → UInt64
  /-- The `satp` register of the boot core. -/
  satp : Satp
  /-- The direct map begins at a page. -/
  mapAligned : hhdm % 4096 = 0
  /-- A table is a page. -/
  aligned : ∀ core < count, table core % 4096 = 0
  /-- A table has a physical address. -/
  short : ∀ core < count, (table core - hhdm).toNat < 2 ^ 56
  /-- No table is claimed twice. -/
  tablesApart : ∀ core < count, ∀ other < count, table core = table other → core = other
  /-- No stack is claimed twice. -/
  stacksApart : ∀ core < count, ∀ other < count, stack core = stack other → core = other

/-- What `smp_init` hands out of the claimed frames. -/
def CoreFrames.values {hhdm : UInt64} {count : Nat} (frames : CoreFrames hhdm count) : CoreValues :=
  ⟨fun core => coreSatp hhdm frames.satp (frames.table core), frames.stack⟩

/-- Where the boot core is in a round of `smp_init`. -/
inductive BootPhase where
  /-- It writes `CORE_INIT.satp`. -/
  | satp
  /-- It writes `CORE_INIT.sp`. -/
  | sp
  /-- It starts the core. -/
  | start
  /-- It waits until the core has claimed. -/
  | wait
  /-- It stores to `CORE_INIT.claimed`. -/
  | store
deriving DecidableEq

/-- Where a secondary core is in `core_main`. -/
inductive CorePhase where
  /-- It is not started. -/
  | off
  /-- It reads `CORE_INIT.satp`. -/
  | started
  /-- It runs on its table and reads `CORE_INIT.sp`. -/
  | tabled (satp : Satp)
  /-- It runs on its stack and stores to `CORE_INIT.claimed`. -/
  | stacked (satp : Satp) (sp : UInt64)
  /-- It has claimed. -/
  | claimed (satp : Satp) (sp : UInt64)
deriving DecidableEq

/-- The cores of the machine. -/
structure Smp where
  /-- `CORE_INIT`. -/
  coreInit : CoreInit
  /-- The secondary core of the round. -/
  round : Nat
  /-- Where the boot core is in the round. -/
  phase : BootPhase
  /-- The secondary cores. -/
  cores : Nat → CorePhase

namespace Smp

variable (values : CoreValues) (count : Nat)

/-- The machine before `smp_init`. -/
def init : Smp := ⟨⟨0, 0, false⟩, 0, .satp, fun _ => .off⟩

/-- The next step of `smp_init`, while there is a core to start. -/
def bootStep (s : Smp) : Option Smp :=
  if s.round < count then
    match s.phase with
    | .satp =>
      some { s with
        coreInit := { s.coreInit with satp := values.satp s.round }, phase := .sp }
    | .sp =>
      some { s with
        coreInit := { s.coreInit with sp := values.sp s.round }, phase := .start }
    | .start =>
      some { s with cores := Function.update s.cores s.round .started, phase := .wait }
    | .wait => if s.coreInit.claimed then some { s with phase := .store } else some s
    | .store =>
      some { s with
        coreInit := { s.coreInit with claimed := true }, round := s.round + 1, phase := .satp }
  else none

/-- The next step of `core_main` on a core. -/
def coreStep (core : Nat) (s : Smp) : Option Smp :=
  match s.cores core with
  | .started =>
    some { s with cores := Function.update s.cores core (.tabled s.coreInit.satp) }
  | .tabled satp =>
    some { s with cores := Function.update s.cores core (.stacked satp s.coreInit.sp) }
  | .stacked satp sp =>
    some { s with
      coreInit := { s.coreInit with claimed := true }
      cores := Function.update s.cores core (.claimed satp sp) }
  | _ => none

/-- A step of the boot core, or of a secondary core. -/
def step (s : Smp) : Option Nat → Option Smp
  | none => bootStep values count s
  | some core => coreStep core s

end Smp

end Lsd
