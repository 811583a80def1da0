import Lsd.Traps.Hart
import Lsd.Verif.Coherence

/-!
# Floating-point registers of the threads

The shim puts the floating-point registers back as the trap found them, whatever
thread the handler switched to, and no entry of the queue has a place for them.
So the threads share one set of registers: a thread finds what it left only as
long as no other thread has written them in the meantime.
-/

namespace Lsd

open Program Transition

variable {V : Type} {platform : Platform V} {devices : Devices V} {scause stval : UInt64}

/-- Code on the machine leaves the floating-point registers alone. -/
theorem keeps_onMachine {α : Type} (program : Kernel (Machine V) α) :
    Prog.Keeps FloatMachine.float (onMachine program) := fun _ => rfl

/-- The shim puts the floating-point registers back as it found them. -/
theorem stvecTrapShim_float {before after : FloatMachine V}
    (ran : (stvecTrapShim platform devices scause stval).run before = (.ok (), after)) :
    after.float = before.float := by
  obtain ⟨_, entered, first, ran⟩ := Prog.run_bind_eq_ok ran
  have found : entered.float = before.float := (keeps_onMachine _).of_run first
  rw [Prog.run_bind_ok (Prog.run_read _ _), Prog.run_bind_ok (Prog.run_read _ _)] at ran
  obtain ⟨_, cleared, clearing, ran⟩ := Prog.run_bind_eq_ok ran
  obtain ⟨_, handled, handling, ran⟩ := Prog.run_bind_eq_ok ran
  obtain ⟨_, restored, restoring, leaving⟩ := Prog.run_bind_eq_ok ran
  have left : after.float = restored.float := (keeps_onMachine _).of_run leaving
  have kept : handled.float = cleared.float := (keeps_onMachine _).of_run handling
  by_cases dirty : entered.machine.fs = 3
  · rw [Prog.run_only_pos dirty, Prog.run_bind_ok (Prog.run_update _ _)] at restoring
    have back : restored.float = FloatMachine.float ⟨handled.machine, entered.float⟩ :=
      (keeps_onMachine (setFs 3)).of_run restoring
    rw [left, back, found]
  · rw [Prog.run_only_neg dirty] at clearing restoring
    obtain ⟨-, rfl⟩ := Prod.mk.inj clearing
    obtain ⟨-, rfl⟩ := Prod.mk.inj restoring
    rw [left, kept, found]

/-- A machine with what the thread of each entry of the queue left in the floating-point registers
when it last trapped, if it has. -/
structure Floating (V : Type) where
  /-- The machine and the registers. -/
  now : FloatMachine V
  /-- What the threads left, entry by entry. -/
  left : List (Option FloatRegisters)

/-- What the hart does. -/
inductive Phase where
  /-- The thread runs. -/
  | user
  /-- It traps, and the shim returns to a thread. -/
  | trap (scause : UInt64)
deriving DecidableEq

namespace Floating

/-- The number of the running thread's entry. -/
def cur (s : Floating V) : Nat := s.now.machine.cur

/-- The trap is the call with this subcall of the calls for tasks. -/
def Calls (s : Floating V) (scause subcall : UInt64) : Prop :=
  scause = 8 ∧ s.now.machine.frame.registers.a0 = 1 ∧ s.now.machine.frame.registers.a1 = subcall

/-- Whether it is can be seen on the registers. -/
instance (s : Floating V) (scause subcall : UInt64) : Decidable (s.Calls scause subcall) :=
  inferInstanceAs (Decidable (_ ∧ _))

/-- What the threads left after a trap: the entries move as in the queue. -/
def leaves (s : Floating V) (scause : UInt64) : List (Option FloatRegisters) :=
  let saved := s.left.set s.cur (some s.now.float)
  if s.Calls scause 2 then saved ++ [none]
  else if s.Calls scause 3 then swapRemove saved s.cur
  else saved

/-- A thread runs and may write the floating-point registers, which the hart then takes for dirty,
unless they are off; or it traps. -/
def Step (platform : Platform V) (before : Floating V) (phase : Phase)
    (after : Floating V) : Prop :=
  match phase with
  | .user => ∃ frame memory float,
    (float ≠ before.now.float → before.now.machine.fs ≠ 0) ∧ after = ⟨⟨{ before.now.machine with
      frame := frame
      pmm := { before.now.machine.pmm with memory := memory }
      sstatus := if float = before.now.float then before.now.machine.sstatus
        else setBits 14 13 before.now.machine.sstatus 3 }, float⟩, before.left⟩
  | .trap scause => after.left = before.leaves scause ∧ ∃ devices stval,
    (stvecTrapShim platform devices scause stval).run before.now = (.ok (), after.now)

/-- The running thread finds what it left when it last trapped. -/
def Resumed (s : Floating V) : Prop :=
  ∀ float, s.left[s.cur]? = some (some float) → s.now.float = float

/-- A step in which a thread writes the floating-point registers only while no other thread of the
queue has trapped before. -/
def Alone (platform : Platform V) (before : Floating V) (phase : Phase)
    (after : Floating V) : Prop :=
  before.Step platform phase after ∧
    (phase = .user → after.now.float ≠ before.now.float →
      ∀ (index : Nat) (float : FloatRegisters), index ≠ before.cur →
        before.left[index]? ≠ some (some float))

/-- The other threads of the queue left what is in the registers. -/
def Agrees (s : Floating V) : Prop :=
  ∀ (index : Nat) (float : FloatRegisters), index ≠ s.cur →
    s.left[index]? = some (some float) → s.now.float = float

/-- An element that is left after the removal of another one was there before. -/
theorem getElem?_swapRemove {α : Type} {elements : List α} {index i : Nat} {element : α}
    (found : (swapRemove elements index)[i]? = some element) :
    ∃ place : Nat, elements[place]? = some element := by
  unfold swapRemove at found
  cases last : elements.getLast? with
  | none => simp [last] at found
  | some final =>
    rw [last] at found
    rw [List.getLast?_eq_getElem?] at last
    simp only [List.getElem?_dropLast, List.length_set, List.getElem?_set] at found
    split at found
    · split at found
      · split at found
        · exact ⟨_, last.trans found⟩
        · nomatch found
      · exact ⟨i, found⟩
    · nomatch found

/-- After a trap every thread of the queue that has trapped left what is in the registers, when that
was so of the other threads before. -/
theorem Agrees.trap {before after : Floating V} (agrees : before.Agrees)
    (step : before.Step platform (.trap scause) after) :
    ∀ (index : Nat) (float : FloatRegisters), after.left[index]? = some (some float) →
      after.now.float = float := by
  obtain ⟨leaves, devices, stval, ran⟩ := step
  have saved : ∀ (index : Nat) (float : FloatRegisters),
      (before.left.set before.cur (some before.now.float))[index]? = some (some float) →
        before.now.float = float := by
    intro index float found
    rw [List.getElem?_set] at found
    by_cases here : before.cur = index
    · rw [if_pos here] at found
      split at found
      · exact Option.some.inj (Option.some.inj found)
      · nomatch found
    · rw [if_neg here] at found
      exact agrees index float (fun same => here same.symm) found
  intro index float found
  rw [stvecTrapShim_float ran]
  rw [leaves, Floating.leaves] at found
  split at found
  · rw [List.getElem?_append] at found
    split at found
    · exact saved index float found
    · rw [List.getElem?_singleton] at found
      split at found
      · nomatch Option.some.inj found
      · nomatch found
  · split at found
    · obtain ⟨place, there⟩ := getElem?_swapRemove found
      exact saved place float there
    · exact saved index float found

/-- The other threads still left what is in the registers. -/
theorem Agrees.step {before after : Floating V} {phase : Phase} (agrees : before.Agrees)
    (step : before.Alone platform phase after) : after.Agrees := by
  obtain ⟨moved, alone⟩ := step
  cases phase with
  | trap scause => exact fun index float _ => Agrees.trap agrees moved index float
  | user =>
    obtain ⟨frame, memory, float, -, rfl⟩ := moved
    intro index left other found
    by_cases same : float = before.now.float
    · rw [show float = _ from same]
      exact agrees index left other found
    · exact absurd found (alone rfl same index left other)

/-- When each thread writes the floating-point registers only while no other thread of the queue has
trapped before, a thread finds what it left whenever it is resumed. And whatever the threads do, the
resumed thread finds what it left if and only if the thread that trapped had the same in the
registers. -/
theorem float_isolated {first last : Floating V} {phases : List Phase}
    (fresh : ∀ left ∈ first.left, left = none) (run : Run (Alone platform) first phases last) :
    (∀ scause after, last.Step platform (.trap scause) after → after.Resumed) ∧
      ∀ (before after : Floating V) (scause : UInt64) (float : FloatRegisters),
        before.Step platform (.trap scause) after → after.left[after.cur]? = some (some float) →
          (after.now.float = float ↔ before.now.float = float) := by
  have agrees : last.Agrees := by
    induction run with
    | nil =>
      intro index float _ found
      nomatch fresh _ (List.mem_of_getElem? found)
    | snoc _ step ih => exact ih.step step
  constructor
  · intro scause after step float found
    exact Agrees.trap agrees step after.cur float found
  · intro before after scause float step _
    obtain ⟨-, devices, stval, ran⟩ := step
    rw [stvecTrapShim_float ran]

end Floating

/-- Registers with one value in `f0`, and zero elsewhere. -/
def sampleFloat (value : UInt64) : FloatRegisters :=
  ⟨fun number => if number.val = 0 then value else 0, 0⟩

/-- Two tasks, of which the first runs, with the floating-point registers on. -/
def sampleFloating : Floating UInt64 :=
  ⟨⟨{ sampleMachine 0 0 0 with sstatus := 0x2000 }, sampleFloat 0⟩, [none, none]⟩

/-- After a timer interrupt. -/
def Floating.afterTimer (s : Floating UInt64) : Floating UInt64 :=
  ⟨((stvecTrapShim samplePlatform noDevices 0x8000000000000005 0).run s.now).2,
    s.leaves 0x8000000000000005⟩

/-- After the running thread has written `f0`. -/
def Floating.afterWrite (s : Floating UInt64) (value : UInt64) : Floating UInt64 :=
  ⟨⟨{ s.now.machine with sstatus := setBits 14 13 s.now.machine.sstatus 3 },
    sampleFloat value⟩, s.left⟩

/-- A timer interrupt is a trap. -/
theorem Floating.afterTimer_step {s : Floating UInt64}
    (returns : ((stvecTrapShim samplePlatform noDevices 0x8000000000000005 0).run
    s.now).1 = .ok ()) :
    s.Step samplePlatform (.trap 0x8000000000000005) s.afterTimer :=
  ⟨rfl, noDevices, 0, Prod.ext returns rfl⟩

/-- Another value is a write. -/
theorem Floating.afterWrite_step {s : Floating UInt64} {value : UInt64}
    (other : sampleFloat value ≠ s.now.float) (on : s.now.machine.fs ≠ 0) :
    s.Step samplePlatform .user (s.afterWrite value) := by
  refine ⟨s.now.machine.frame, s.now.machine.pmm.memory, sampleFloat value, fun _ => on, ?_⟩
  rw [if_neg other]
  rfl

/-- The first thread traps, and finds what it left when the second one has trapped. -/
theorem float_isolated_timer :
    let last := sampleFloating.afterTimer
    (∀ scause after, last.Step samplePlatform (.trap scause) after → after.Resumed) ∧
      ∀ (before after : Floating UInt64) (scause : UInt64) (float : FloatRegisters),
        before.Step samplePlatform (.trap scause) after →
          after.left[after.cur]? = some (some float) →
            (after.now.float = float ↔ before.now.float = float) := by
  intro last
  have run : Run (Floating.Alone samplePlatform) sampleFloating ([] ++ [.trap 0x8000000000000005])
      last := .snoc (.nil _) ⟨Floating.afterTimer_step rfl, fun user => nomatch user⟩
  exact Floating.float_isolated (by simp [sampleFloating]) run

/-- The first thread traps with zero in `f0`, the second one writes 1 and traps, and the first one
finds 1. -/
theorem float_shared :
    let second := sampleFloating.afterTimer
    let writing := second.afterWrite 1
    let third := writing.afterTimer
    (∀ left ∈ sampleFloating.left, left = none) ∧
      Run (Floating.Step samplePlatform) sampleFloating
        [.trap 0x8000000000000005, .user, .trap 0x8000000000000005] third ∧
      third.left[third.cur]? = some (some (sampleFloat 0)) ∧ third.now.float = sampleFloat 1 ∧
      ¬ third.Resumed := by
  intro second writing third
  have other : sampleFloat 1 ≠ sampleFloat 0 := by decide
  have first : sampleFloating.Step samplePlatform (.trap 0x8000000000000005) second :=
    Floating.afterTimer_step rfl
  have kept : second.now.float = sampleFloat 0 := by
    obtain ⟨-, devices, stval, ran⟩ := first
    exact stvecTrapShim_float ran
  have write : second.Step samplePlatform .user writing :=
    Floating.afterWrite_step (kept ▸ other) (by decide +kernel)
  have last : writing.Step samplePlatform (.trap 0x8000000000000005) third :=
    Floating.afterTimer_step (by decide +kernel)
  have run : Run (Floating.Step samplePlatform) sampleFloating
      ((([] ++ [.trap 0x8000000000000005]) ++ [.user]) ++ [.trap 0x8000000000000005]) third :=
    .snoc (.snoc (.snoc (.nil _) first) write) last
  have found : third.now.float = sampleFloat 1 := by
    obtain ⟨-, devices, stval, ran⟩ := last
    exact stvecTrapShim_float ran
  have left : third.left[third.cur]? = some (some (sampleFloat 0)) := by decide +kernel
  exact ⟨by simp [sampleFloating], run, left, found,
    fun resumed => other (found.symm.trans (resumed _ left))⟩

end Lsd
