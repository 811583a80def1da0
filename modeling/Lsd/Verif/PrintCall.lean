import Lsd.Verif.Coherence
import Lsd.Verif.PageTree

/-!
# What the print call emits

Subcall `[0][1]` walks the table of the task for its pointer, once, and goes on
from there in the direct map. The walk asks no leaf for its permissions, so the
call emits what a task maps and may not read; and it emits the bytes behind the
first one wherever the next page of the buffer lies.
-/

namespace Lsd

open Program Radix

variable {V : Type} {platform : Platform V} {devices : Devices V} {stval : UInt64}
  {s t : Machine V} {virt : VirtualAddress} {start : PhysicalAddress}

section Walk

variable {hhdm root : UInt64} {memory : Memory}

/-- The tables that branches lead to, from a root on. -/
inductive TableOf (hhdm : UInt64) (memory : Memory) (root : UInt64) : UInt64 → Prop where
  /-- The root. -/
  | root : TableOf hhdm memory root root
  /-- A table under a branch. -/
  | branch {table : UInt64} {index : Nat} (upper : TableOf hhdm memory root table)
    (bound : index < 512)
    (leads : PageEntry.isBranch (memory (wordOf table index)) = true) :
    TableOf hhdm memory root (PageEntry.table hhdm (memory (wordOf table index)))

/-- A walk changes nothing. -/
theorem walkLoop_keeps (steps : Nat) (table : UInt64) (level : PageLevel) :
    Prog.Keeps id (walkLoop hhdm virt steps table level) := by
  induction steps generalizing table level with
  | zero => exact .stop _
  | succ steps ih =>
    unfold walkLoop
    apply Prog.Keeps.bind (.ite (.pure _) (.stop _))
    intro _
    apply Prog.Keeps.bind (.read _)
    intro entry
    exact .ite (.pure _) (.ite (ih _ _) (.pure _))

/-- A walk ends the same way where the tables are the same. -/
theorem walkLoop_same {s t : Pmm}
    (same : Kept {table | TableOf hhdm s.memory root table} s.memory t.memory)
    {steps : Nat} {table : UInt64} (level : PageLevel) (inside : TableOf hhdm s.memory root table) :
    ((walkLoop hhdm virt steps table level).run t).1 =
      ((walkLoop hhdm virt steps table level).run s).1 := by
  induction steps generalizing table level with
  | zero => rfl
  | succ steps ih =>
    by_cases bound : (virt.index level).toNat < 512
    · have entry := same table inside (virt.index level).toNat bound
      rw [walkLoop, Prog.run_bind_ok (run_checkIndex bound),
        Prog.run_bind_ok (run_checkIndex bound),
        Prog.run_bind_ok (Prog.run_read _ _), Prog.run_bind_ok (Prog.run_read _ _), entry]
      split
      · rfl
      · split
        · next branch => exact ih level.below (.branch inside bound branch)
        · rfl
    · rw [walkLoop, checkIndex, if_neg bound, Prog.run_bind_stop (Prog.run_stop _ _),
        Prog.run_bind_stop (Prog.run_stop _ _)]

end Walk

section Contents

variable {memory : Memory} {place other : UInt64}

/-- The word that holds a byte decides the byte. -/
theorem byteAt_congr {later : Memory}
    (word : later (place - place % 8) = memory (place - place % 8)) :
    byteAt later place = byteAt memory place := by
  rw [byteAt, byteAt, word]

/-- The bytes of a word in which one bit is set. -/
theorem byte_of_bit (first second : Fin 8) :
    (((1 : UInt64) <<< (UInt64.ofNat first.val * 8)) >>> (UInt64.ofNat second.val * 8)).toUInt8 =
      if first = second then 1 else 0 := by
  revert first second
  decide

/-- The offset of a byte in its word. -/
theorem offset_eq (place : UInt64) : ∃ offset : Fin 8, place % 8 = UInt64.ofNat offset.val := by
  have bound : place.toNat % 8 < 8 := Nat.mod_lt _ (by decide)
  refine ⟨⟨place.toNat % 8, bound⟩, UInt64.toNat_inj.mp ?_⟩
  rw [UInt64.toNat_mod, UInt64.toNat_ofNat_of_lt' (bound.trans (by decide))]
  rfl

/-- Two different bytes come to differ when one word that holds the first of them is changed. -/
theorem exists_distinguishing (memory : Memory) (apart : place ≠ other) :
    ∃ word, byteAt (memory.store (place - place % 8) word) place ≠
      byteAt (memory.store (place - place % 8) word) other := by
  obtain ⟨first, here⟩ := offset_eq place
  obtain ⟨second, there⟩ := offset_eq other
  have read : ∀ word, byteAt (memory.store (place - place % 8) word) place =
      (word >>> (UInt64.ofNat first.val * 8)).toUInt8 := by
    intro word
    rw [byteAt, Memory.store, Function.update_self, here]
  by_cases same : other - other % 8 = place - place % 8
  · refine ⟨1 <<< (UInt64.ofNat first.val * 8), ?_⟩
    rw [read, byteAt, same, Memory.store, Function.update_self, there, byte_of_bit, byte_of_bit,
      if_pos rfl]
    have offsets : first ≠ second := by
      rintro rfl
      rw [here, there] at same
      exact apart (UInt64.sub_left_inj _ |>.mp same).symm
    rw [if_neg offsets]
    decide
  · have kept : ∀ word, byteAt (memory.store (place - place % 8) word) other = byteAt
        memory other :=
      fun word => byteAt_congr (Function.update_of_ne same _ _)
    by_cases one : byteAt memory other = 1
    · refine ⟨0, ?_⟩
      rw [read, kept, one, UInt64.zero_shiftRight]
      decide
    · refine ⟨1 <<< (UInt64.ofNat first.val * 8), ?_⟩
      rw [read, kept, byte_of_bit, if_pos rfl]
      exact fun equal => one equal.symm

end Contents

namespace Machine

/-- What `virt_to_phys` finds for an address. -/
def translated (platform : Platform V) (s : Machine V) (virt : VirtualAddress) :
    Except Stop (Except String PhysicalAddress) :=
  ((virtToPhys platform.hhdmOffset platform.levels s.satp virt).run s.pmm).1

/-- The byte of the direct map at a physical address. -/
def physByte (platform : Platform V) (s : Machine V) (phys : PhysicalAddress) : UInt8 :=
  byteAt s.pmm.memory (phys + platform.hhdmOffset)

/-- The machine after some bytes were written to the serial port. -/
def emit (s : Machine V) (bytes : List UInt8) : Machine V := { s with uart := s.uart ++ bytes }

/-- Whether the registers ask for the print call. -/
def AsksPrint (s : Machine V) : Prop := s.frame.registers.a0 = 0 ∧ s.frame.registers.a1 = 1

/-- The bytes of the direct map from a physical address on, as many as the call asks for. -/
def physBytes (platform : Platform V) (s : Machine V) (start : PhysicalAddress) : List UInt8 :=
  (List.range s.frame.registers.a3.toNat).map fun i => s.physByte platform (start + UInt64.ofNat i)

/-- How the print call ends, from what the walk for its pointer finds. -/
def printOutcome : Except Stop (Except String PhysicalAddress) → Except Stop Unit
  | .ok (.ok _) => .ok ()
  | .ok (.error message) =>
    .error (.panic ("called `Result::unwrap()` on an `Err` value: " ++ quoted message))
  | .error reason => .error reason

/-- What the print call emits, from what the walk for its pointer finds. -/
def printed (platform : Platform V) (s : Machine V) :
    Except Stop (Except String PhysicalAddress) → List UInt8
  | .ok (.ok start) => s.physBytes platform start
  | .ok (.error _) => []
  | .error _ => []

/-- The machine after nothing was emitted. -/
theorem emit_nil (s : Machine V) : s.emit [] = s := by
  unfold emit
  rw [List.append_nil]

/-- What was emitted tells the machines apart. -/
theorem emit_inj {bytes others : List UInt8} (same : s.emit bytes = s.emit others) :
    bytes = others := List.append_cancel_left (congrArg Machine.uart same)

/-- The loop of the print call emits its bytes in order. -/
theorem emitLoop_run (indices : List Nat) (byte : Memory → Nat → UInt8) (s : Machine V) :
    (indices.forM fun i => do
      let memory ← Prog.read fun s : Machine V => s.pmm.memory
      putByte (byte memory i)).run s = (.ok (), s.emit (indices.map (byte s.pmm.memory))) := by
  induction indices generalizing s with
  | nil => exact congrArg (Prod.mk _) s.emit_nil.symm
  | cons i rest ih =>
    have first : (do
        let memory ← Prog.read fun s : Machine V => s.pmm.memory
        putByte (byte memory i)).run s = (.ok (), s.emit [byte s.pmm.memory i]) := rfl
    refine (Prog.run_bind_ok first).trans ((ih _).trans ?_)
    simp [emit]

/-- Text of the kernel goes to the serial port. -/
theorem print_run (text : String) (s : Machine V) : (print text).run s =
    (.ok (), s.emit (text.toList.map fun character => UInt8.ofNat character.toNat)) := by
  unfold print
  generalize text.toList = characters
  induction characters generalizing s with
  | nil => exact congrArg (Prod.mk _) s.emit_nil.symm
  | cons character rest ih =>
    have first : (putByte (UInt8.ofNat character.toNat)).run s =
      (.ok (), s.emit [UInt8.ofNat character.toNat]) := rfl
    refine (Prog.run_bind_ok first).trans ((ih _).trans ?_)
    simp [emit]

/-- Code on memory that returned changed the memory only. -/
theorem onPmm_eq_ok {α : Type} {program : Kernel Pmm α} {value : α} {s' : Machine V}
    (ran : (onPmm program).run s = (.ok value, s')) :
    program.run s.pmm = (.ok value, s'.pmm) ∧ s' = { s with pmm := s'.pmm } := by
  obtain ⟨result, rfl⟩ := Prod.mk.inj (ran.symm.trans rfl : (_, s') = ((program.run s.pmm).1,
    { s with pmm := (program.run s.pmm).2 }))
  exact ⟨Prod.ext result.symm rfl, rfl⟩

/-- A result that was unwrapped was there. -/
theorem unwrap_eq_ok {σ α : Type} {result : Except String α} {debug : String → String} {value : α}
    {state later : σ} (ran : (unwrap result debug).run state = (.ok value, later)) :
    result = .ok value ∧ later = state := by
  cases result with
  | error message =>
    rw [unwrap, Prog.run_stop] at ran
    cases ran
  | ok found =>
    rw [unwrap, Prog.run_pure] at ran
    obtain ⟨same, rfl⟩ := Prod.mk.inj ran
    exact ⟨congrArg Except.ok (Except.ok.inj same), rfl⟩

/-- A number that an arena gave. -/
theorem allocFrom_eq_ok {arena size number : UInt64} {s' : Machine V}
    (ran : (allocFrom platform arena size).run s = (.ok number, s')) :
    ∃ arenas, (platform.vmem.alloc arena size).run s.arenas = (.ok (.ok number), arenas) ∧
      s' = { s with arenas := arenas } := by
  obtain ⟨result, _, asked, ran⟩ := Prog.run_bind_eq_ok ran
  obtain ⟨rfl, rfl⟩ := unwrap_eq_ok ran
  obtain ⟨given, same⟩ := Prod.mk.inj (asked.symm.trans rfl : (_, s') =
    (((platform.vmem.alloc arena size).run s.arenas).1,
      { s with arenas := ((platform.vmem.alloc arena size).run s.arenas).2 }))
  exact ⟨_, Prod.ext given.symm rfl, same⟩

/-- The print call. -/
theorem printString_run (s : Machine V) : (printString platform).run s =
    (printOutcome (s.translated platform s.frame.registers.a2),
      s.emit (s.printed platform (s.translated platform s.frame.registers.a2))) := by
  have walk : (onPmm (virtToPhys platform.hhdmOffset platform.levels s.satp
      s.frame.registers.a2)).run s = (s.translated platform s.frame.registers.a2, s) := by
    have kept : ((virtToPhys platform.hhdmOffset platform.levels s.satp
        s.frame.registers.a2).run s.pmm).2 = s.pmm := walkLoop_keeps walkLimit _ _ s.pmm
    exact Prod.ext rfl (congrArg (fun pmm => { s with pmm := pmm }) kept)
  unfold printString
  rw [Prog.run_bind_ok (Prog.run_read _ _), Prog.run_bind_ok (Prog.run_read _ _)]
  generalize s.translated platform s.frame.registers.a2 = found at walk
  match found with
  | .error reason =>
    rw [Prog.run_bind_stop walk, printOutcome, printed, emit_nil]
  | .ok (.error message) =>
    rw [Prog.run_bind_ok walk, unwrap, Prog.run_bind_stop (Prog.run_stop _ _),
      printOutcome, printed,
      emit_nil]
  | .ok (.ok start) =>
    rw [Prog.run_bind_ok walk, unwrap, Prog.run_bind_ok (Prog.run_pure _ _), printOutcome, printed]
    rw [emitLoop_run _ fun memory i => byteAt memory (start + platform.hhdmOffset + UInt64.ofNat i)]
    have bytes : s.physBytes platform start = (List.range s.frame.registers.a3.toNat).map fun i =>
        byteAt s.pmm.memory (start + platform.hhdmOffset + UInt64.ofNat i) := by
      apply List.map_congr_left
      intro i _
      rw [physByte, UInt64.add_assoc, UInt64.add_comm (.ofNat i), ← UInt64.add_assoc]
    rw [bytes]

/-- A trap that asks for the print call. -/
theorem AsksPrint.trap (asks : s.AsksPrint) : (trapHandler platform devices 8 stval).run s =
    (printOutcome (s.translated platform s.frame.registers.a2),
      s.afterCall.emit (s.printed platform (s.translated platform s.frame.registers.a2))) := by
  obtain ⟨root, sub⟩ := asks
  have call : (syscallCore platform).run s.afterCall = (printString platform).run s.afterCall := by
    simp [syscallCore, kernelIo, Prog.run_bind, afterCall, root, sub]
  rw [trapHandler_call, call, printString_run]
  rfl

/-- Two machines whose current tasks have the same registers and the same page table. -/
structure SameTask (platform : Platform V) (s t : Machine V) : Prop where
  /-- The registers are the same. -/
  registers : t.frame.registers = s.frame.registers
  /-- The root of the page table is the same. -/
  root : currentTable platform.hhdmOffset t.satp = currentTable platform.hhdmOffset s.satp
  /-- The tables are the same. -/
  tables : Kept {table | TableOf platform.hhdmOffset s.pmm.memory
    (currentTable platform.hhdmOffset s.satp) table} s.pmm.memory t.pmm.memory

/-- Tasks with the same registers make the same call. -/
theorem SameTask.asks (same : SameTask platform s t) (asks : s.AsksPrint) : t.AsksPrint := by
  unfold AsksPrint
  rw [same.registers]
  exact asks

/-- Tasks with the same page table find the same. -/
theorem SameTask.translated (same : SameTask platform s t) (virt : VirtualAddress) :
    t.translated platform virt = s.translated platform virt := by
  unfold Machine.translated virtToPhys
  rw [same.root]
  exact walkLoop_same same.tables _ .root

/-- For a pointer that is mapped, two machines emit the same exactly when they agree on the bytes of
the direct map from its translation on. -/
theorem physBytes_eq_iff (length : t.frame.registers.a3 = s.frame.registers.a3) :
    t.physBytes platform start = s.physBytes platform start ↔
      ∀ i < s.frame.registers.a3.toNat, t.physByte platform (start + UInt64.ofNat i) =
        s.physByte platform (start + UInt64.ofNat i) := by
  unfold physBytes
  rw [length, List.map_inj_left]
  exact forall_congr' fun i => imp_congr_left List.mem_range

/-- Whether the bytes of the buffer of a print call follow each other in the direct map. -/
def BufferConsecutive (platform : Platform V) (s : Machine V) : Prop :=
  ∀ start, s.translated platform s.frame.registers.a2 = .ok (.ok start) →
    ∀ i < s.frame.registers.a3.toNat,
      s.translated platform (s.frame.registers.a2 + UInt64.ofNat i) =
        .ok (.ok (start + UInt64.ofNat i))

end Machine

open Machine

/-- Two machines whose current tasks have the same registers and the same page table, and that agree
on all pages mapped in it, whatever the flags of the page, end a print call the same way and emit
the same bytes. -/
theorem print_emits_mapped (asks : s.AsksPrint) (same : SameTask platform s t)
    (pages : ∀ virt phys, s.translated platform virt = .ok (.ok phys) →
      t.physByte platform phys = s.physByte platform phys)
    (consecutive : s.BufferConsecutive platform) :
    ∃ outcome bytes,
      (trapHandler platform devices 8 stval).run s = (outcome, s.afterCall.emit bytes) ∧
        (trapHandler platform devices 8 stval).run t = (outcome, t.afterCall.emit bytes) := by
  have asks' : t.AsksPrint := same.asks asks
  have bytes : t.printed platform (s.translated platform s.frame.registers.a2) =
      s.printed platform (s.translated platform s.frame.registers.a2) := by
    match found : s.translated platform s.frame.registers.a2 with
    | .error _ => rfl
    | .ok (.error _) => rfl
    | .ok (.ok start) =>
      apply (physBytes_eq_iff (congrArg GeneralRegisters.a3 same.registers)).mpr
      intro i bound
      exact pages _ _ (consecutive start found i bound)
  refine ⟨_, _, asks.trap, ?_⟩
  rw [asks'.trap, same.translated, same.registers, bytes]

section Leak

/-- A machine whose current task asks for a print call. -/
def samplePrint (memory : Memory) (pointer length : UInt64) : Machine UInt64 :=
  { sampleMachine 0 0 1 with
    pmm := ⟨FreeList.null, memory⟩
    satp := 0x80000
    frame := { (default : TrapFrame) with
      registers := { (default : GeneralRegisters) with
        a1 := 1
        a2 := pointer
        a3 := length } } }

/-- The root table of the samples. -/
def leakRoot : UInt64 := 0xffff800080000000

/-- A page of the task, at physical address 512 GiB. -/
def userLeaf : PageEntry := 0x2000000013

/-- The direct map, which is not the task's. -/
def directLeaf : PageEntry := 0x7

/-- A root table with a page of the task and perhaps the direct map, and a word of the kernel. -/
def leakMemory (direct : PageEntry) (secret : UInt64) : Memory :=
  ((Memory.store (fun _ => 0) (wordOf leakRoot 0) userLeaf).store (wordOf leakRoot 256)
    direct).store 0xffff800000001000 secret

variable {direct : PageEntry} {secret pointer length : UInt64}

/-- The entries of the root table. -/
theorem leakMemory_root {index : Nat} (bound : index < 512) :
    leakMemory direct secret (wordOf leakRoot index) =
      if index = 0 then userLeaf else if index = 256 then direct else 0 := by
  have words : ∀ other < 512, wordOf leakRoot index = wordOf leakRoot other → index = other :=
    fun other small same => (wordOf_inj (by decide) (by decide) bound small same).2
  have apart : wordOf leakRoot index ≠ 0xffff800000001000 := by
    intro same
    have clash : (0xffff800000001000 : UInt64) = wordOf 0xffff800000001000 0 := rfl
    exact absurd (wordOf_inj (by decide) (by decide) bound (by decide)
      (same.trans clash)).1 (by decide)
  unfold leakMemory Memory.store
  rw [Function.update_of_ne apart]
  by_cases first : index = 0
  · rw [first, if_pos rfl, Function.update_of_ne (by decide), Function.update_self]
  · rw [if_neg first]
    by_cases last : index = 256
    · rw [last, if_pos rfl, Function.update_self]
    · rw [if_neg last, Function.update_of_ne fun same => last (words 256 (by decide) same),
        Function.update_of_ne fun same => first (words 0 (by decide) same)]

/-- The word of the kernel is nowhere else. -/
theorem leakMemory_elsewhere {place : UInt64} (apart : place ≠ 0xffff800000001000)
    (secret other : UInt64) : leakMemory direct secret place = leakMemory direct other place := by
  unfold leakMemory Memory.store
  rw [Function.update_of_ne apart, Function.update_of_ne apart]

/-- The root table that the samples name. -/
theorem samplePrint_root {memory : Memory} :
    currentTable samplePlatform.hhdmOffset (samplePrint memory pointer length).satp = leakRoot := by
  change currentTable 0xffff800000000000 0x80000 = leakRoot
  decide +kernel

/-- The root table has no branches. -/
theorem leakMemory_tables {table : UInt64} (page : direct = 0 ∨ direct = directLeaf)
    (inside : TableOf 0xffff800000000000 (leakMemory direct secret) leakRoot table) :
    table = leakRoot := by
  induction inside with
  | root => rfl
  | branch upper bound leads same =>
    subst same
    rw [leakMemory_root bound] at leads
    split at leads
    · exact absurd leads (by decide)
    · split at leads
      · rcases page with rfl | rfl
        · exact absurd leads (by decide)
        · exact absurd leads (by decide)
      · exact absurd leads (by decide)

/-- Two samples have the same page table. -/
theorem sameTask_leakMemory (page : direct = 0 ∨ direct = directLeaf) (secret other : UInt64) :
    SameTask samplePlatform (samplePrint (leakMemory direct secret) pointer length)
      (samplePrint (leakMemory direct other) pointer length) := by
  refine ⟨rfl, ?_, ?_⟩
  · rw [samplePrint_root, samplePrint_root]
  · rw [samplePrint_root]
    intro table member index bound
    obtain rfl : table = leakRoot := leakMemory_tables page member
    exact (leakMemory_root bound).trans (leakMemory_root bound).symm

/-- The slots of the root table. -/
theorem leakMemory_slot (page : direct = 0 ∨ direct = directLeaf) {index : Nat}
    (bound : index < 512) :
    slots 0xffff800000000000 (leakMemory direct secret) leakRoot index = .empty ∨
      slots 0xffff800000000000 (leakMemory direct secret) leakRoot index = .leaf userLeaf ∨
      (direct = directLeaf ∧
        slots 0xffff800000000000 (leakMemory direct secret) leakRoot index = .leaf directLeaf) := by
  rw [slots, leakMemory_root bound]
  split
  · exact .inr (.inl (slot_leaf (by decide)))
  · split
    · rcases page with rfl | rfl
      · exact .inl slot_zero
      · exact .inr (.inr ⟨rfl, slot_leaf (by decide)⟩)
    · exact .inl slot_zero

/-- The leaves of the sample. -/
theorem leakMemory_leaf (page : direct = 0 ∨ direct = directLeaf) {high : Nat} {leaf : PageEntry}
    (found : leafOf 0xffff800000000000 (leakMemory direct secret) 4 leakRoot virt =
      some (high, leaf)) :
    (high = 4 ∧ leaf = userLeaf) ∨ (direct = directLeaf ∧ leaf = directLeaf) := by
  rcases leakMemory_slot page (virt.path_lt 4) with empty | user | ⟨kernel, other⟩
  · rw [leafOf, find_empty empty] at found
    cases found
  · rw [leafOf, find_leaf user] at found
    obtain ⟨rfl, rfl⟩ := Prod.mk.inj (Option.some.inj found)
    exact .inl ⟨rfl, rfl⟩
  · rw [leafOf, find_leaf other] at found
    obtain ⟨-, rfl⟩ := Prod.mk.inj (Option.some.inj found)
    exact .inr ⟨kernel, rfl⟩

/-- The walk in the sample ends at its leaf. -/
theorem leakMemory_translated (page : direct = 0 ∨ direct = directLeaf) :
    (samplePrint (leakMemory direct secret) pointer length).translated samplePlatform virt =
      .ok (resultOf virt
        (leafOf 0xffff800000000000 (leakMemory direct secret) 4 leakRoot virt)) := by
  unfold translated virtToPhys
  rw [samplePrint_root]
  have sound : (slots 0xffff800000000000 (leakMemory direct secret) leakRoot (virt.path 4)).Sound
      (Tree (slots 0xffff800000000000 (leakMemory direct secret)) 512 3) := by
    rcases leakMemory_slot page (virt.path_lt 4) with empty | user | ⟨-, other⟩
    · rw [empty]
      trivial
    · rw [user]
      trivial
    · rw [other]
      trivial
  have enough : 3 < walkLimit := by
    unfold walkLimit
    omega
  have ran := walkLoop_run (s := ⟨FreeList.null, leakMemory direct secret⟩) sound
    (rfl : PageLevel.level4.asUsize = 3 + 1) enough
  exact congrArg Prod.fst ran

/-- The page of the task lies beyond the first 512 GiB. -/
theorem userLeaf_far {phys : PhysicalAddress}
    (result : resultOf virt (some (4, userLeaf)) = .ok phys) :
    phys.toNat.testBit 39 = true := by
  rw [← Except.ok.inj result, UInt64.toNat_or, Nat.testBit_or]
  have page : (userLeaf.getPpn <<< 12 &&& ~~~(PageLevel.fromUsize 4).mask).toNat.testBit
      39 = true := by
    decide
  rw [page, Bool.true_or]

/-- The samples agree beyond the first 512 GiB. -/
theorem leakMemory_far {phys : PhysicalAddress} (high : phys.toNat.testBit 39 = true)
    (secret other : UInt64) :
    (samplePrint (leakMemory direct other) pointer length).physByte samplePlatform phys =
      (samplePrint (leakMemory direct secret) pointer length).physByte samplePlatform phys := by
  apply byteAt_congr
  have apart : phys + samplePlatform.hhdmOffset - (phys + samplePlatform.hhdmOffset) % 8 ≠
      0xffff800000001000 := by
    intro same
    have word := congrArg UInt64.toNat same
    rw [UInt64.toNat_sub, UInt64.toNat_mod, UInt64.toNat_add] at word
    have offset : samplePlatform.hhdmOffset.toNat = 0xffff800000000000 := rfl
    rw [offset] at word
    simp only [UInt64.reduceToNat] at word
    have small : phys.toNat < 2 ^ 39 := by
      have := phys.toNat_lt
      omega
    rw [Nat.testBit_lt_two_pow small] at high
    nomatch high
  have memory : ∀ secret, (samplePrint (leakMemory direct secret) pointer length).pmm.memory =
      leakMemory direct secret := fun _ => rfl
  rw [memory, memory]
  exact leakMemory_elsewhere apart other secret

/-- Two machines that differ in a word which the task does not map print the same five bytes. -/
theorem print_emits_mapped_user :
    let s := samplePrint (leakMemory 0 65) 0 5
    let t := samplePrint (leakMemory 0 66) 0 5
    ∃ outcome bytes,
      (trapHandler samplePlatform noDevices 8 0).run s = (outcome, s.afterCall.emit bytes) ∧
        (trapHandler samplePlatform noDevices 8 0).run t = (outcome, t.afterCall.emit bytes) := by
  intro s t
  have asks : s.AsksPrint := ⟨rfl, rfl⟩
  have mapped : ∀ virt phys, s.translated samplePlatform virt = .ok (.ok phys) →
      t.physByte samplePlatform phys = s.physByte samplePlatform phys := by
    intro virt phys found
    rw [leakMemory_translated (.inl rfl)] at found
    have result := Except.ok.inj found
    cases leaf : leafOf 0xffff800000000000 (leakMemory 0 65) 4 leakRoot virt with
    | none =>
      rw [leaf] at result
      nomatch result
    | some place =>
      rw [leaf] at result
      rcases leakMemory_leaf (.inl rfl) leaf with ⟨height, user⟩ | ⟨clash, -⟩
      · rw [show place = (4, userLeaf) from Prod.ext height user] at result
        exact leakMemory_far (userLeaf_far result) 65 66
      · exact absurd clash (by decide)
  have consecutive : s.BufferConsecutive samplePlatform := by
    have places : ∀ i < 5, s.translated samplePlatform (s.frame.registers.a2 + UInt64.ofNat i) =
        .ok (.ok (0x8000000000 + UInt64.ofNat i)) := by
      decide +kernel
    have first : s.translated samplePlatform s.frame.registers.a2 = .ok (.ok 0x8000000000) :=
      places 0 (by decide)
    intro start found i bound
    obtain rfl : start = 0x8000000000 := Except.ok.inj (Except.ok.inj (found.symm.trans first))
    exact places i bound
  exact print_emits_mapped asks (sameTask_leakMemory (.inl rfl) 65 66) mapped consecutive

/-- The bytes of the pages that a task may read, by their physical addresses. -/
def Machine.Readable (platform : Platform V) (s : Machine V) (phys : PhysicalAddress) : Prop :=
  ∃ virt high leaf,
    leafOf platform.hhdmOffset s.pmm.memory platform.levels
      (currentTable platform.hhdmOffset s.satp) virt = some (high, leaf) ∧
      leaf.getUser = true ∧ leaf.getRead = true ∧ resultOf virt (some (high, leaf)) = .ok phys

/-- Two machines agree on the registers and the page table of the current task and on every page
that the task may read; they differ in a word of the kernel, and the print call emits it. -/
theorem print_emits_kernel_word :
    let s := samplePrint (leakMemory directLeaf 65) 0xffff800000001000 1
    let t := samplePrint (leakMemory directLeaf 66) 0xffff800000001000 1
    s.AsksPrint ∧ SameTask samplePlatform s t ∧
      (∀ phys, s.Readable samplePlatform phys →
        t.physByte samplePlatform phys = s.physByte samplePlatform phys) ∧
      ((trapHandler samplePlatform noDevices 8 0).run s).2.uart = [65] ∧
      ((trapHandler samplePlatform noDevices 8 0).run t).2.uart = [66] := by
  intro s t
  refine ⟨⟨rfl, rfl⟩, sameTask_leakMemory (.inr rfl) 65 66,
    ?_, by decide +kernel, by decide +kernel⟩
  rintro phys ⟨virt, high, leaf, found, user, -, result⟩
  rw [samplePrint_root] at found
  rcases leakMemory_leaf (.inr rfl) found with ⟨rfl, rfl⟩ | ⟨-, rfl⟩
  · exact leakMemory_far (userLeaf_far result) 65 66
  · exact absurd user (by decide)

end Leak

namespace Machine

/-- Whether a byte of the direct map belongs to a table of the current task. -/
def InTables (platform : Platform V) (s : Machine V) (phys : PhysicalAddress) : Prop :=
  InPages {table | TableOf platform.hhdmOffset s.pmm.memory
      (currentTable platform.hhdmOffset s.satp) table}
    (phys + platform.hhdmOffset - (phys + platform.hhdmOffset) % 8)

/-- The print call emits, in order, the bytes at the translations of the addresses of its buffer. -/
def PrintsBuffer (platform : Platform V) (devices : Devices V) (stval : UInt64) (s : Machine V) :
    Prop :=
  ∃ bytes, (trapHandler platform devices 8 stval).run s = (.ok (), s.afterCall.emit bytes) ∧
    bytes.length = s.frame.registers.a3.toNat ∧
    ∀ i < s.frame.registers.a3.toNat, ∃ phys,
      s.translated platform (s.frame.registers.a2 + UInt64.ofNat i) = .ok (.ok phys) ∧
        bytes[i]? = some (s.physByte platform phys)

/-- Whether the pointer is mapped, and each byte of the buffer lies as far from the first one in the
direct map as in the buffer. Of two bytes of the page table itself it is enough that they are
equal. -/
def BufferAdjacent (platform : Platform V) (s : Machine V) : Prop :=
  ∃ start, s.translated platform s.frame.registers.a2 = .ok (.ok start) ∧
    ∀ i < s.frame.registers.a3.toNat, ∃ phys,
      s.translated platform (s.frame.registers.a2 + UInt64.ofNat i) = .ok (.ok phys) ∧
        (phys = start + UInt64.ofNat i ∨
          (s.InTables platform phys ∧ s.InTables platform (start + UInt64.ofNat i) ∧
            s.physByte platform phys = s.physByte platform (start + UInt64.ofNat i)))

/-- A byte of the tables is the same for tasks with the same page table. -/
theorem SameTask.physByte (same : SameTask platform s t) {phys : PhysicalAddress}
    (inside : s.InTables platform phys) : t.physByte platform phys = s.physByte platform phys := by
  obtain ⟨table, member, index, bound, word⟩ := inside
  apply byteAt_congr
  rw [word]
  exact same.tables table member index bound

/-- The machine with one word of the memory replaced. -/
def withWord (s : Machine V) (place word : UInt64) : Machine V :=
  { s with pmm := { s.pmm with memory := s.pmm.memory.store place word } }

/-- A word outside the tables may be replaced. -/
theorem sameTask_withWord {phys : PhysicalAddress} (outside : ¬ s.InTables platform phys)
    (word : UInt64) : SameTask platform s
      (s.withWord (phys + platform.hhdmOffset - (phys + platform.hhdmOffset) % 8) word) := by
  refine ⟨rfl, rfl, fun table member index bound => Function.update_of_ne ?_ _ _⟩
  exact fun clash => outside ⟨table, member, index, bound, clash.symm⟩

/-- Of two different bytes that are not both in the tables, one can be changed so that they
differ. -/
theorem exists_sameTask_ne {phys other : PhysicalAddress} (apart : phys ≠ other)
    (outside : ¬ (s.InTables platform phys ∧ s.InTables platform other)) :
    ∃ t, SameTask platform s t ∧ t.physByte platform phys ≠ t.physByte platform other := by
  have places : phys + platform.hhdmOffset ≠ other + platform.hhdmOffset := fun same =>
    apart ((UInt64.add_left_inj _).mp same)
  by_cases inside : s.InTables platform phys
  · have free : ¬ s.InTables platform other := fun also => outside ⟨inside, also⟩
    obtain ⟨word, differ⟩ := exists_distinguishing s.pmm.memory places.symm
    exact ⟨_, sameTask_withWord free word, differ.symm⟩
  · obtain ⟨word, differ⟩ := exists_distinguishing s.pmm.memory places
    exact ⟨_, sameTask_withWord inside word, differ⟩

/-- When a print call returns, its pointer is mapped and the bytes are those of the direct map. -/
theorem AsksPrint.returned {bytes : List UInt8} (asks : s.AsksPrint)
    (ran : (trapHandler platform devices 8 stval).run s = (.ok (), s.afterCall.emit bytes)) :
    ∃ start, s.translated platform s.frame.registers.a2 = .ok (.ok start) ∧
      bytes = s.physBytes platform start := by
  obtain ⟨ended, emitted⟩ := Prod.mk.inj (ran.symm.trans asks.trap)
  match found : s.translated platform s.frame.registers.a2 with
  | .error _ =>
    rw [found] at ended
    nomatch ended
  | .ok (.error _) =>
    rw [found] at ended
    nomatch ended
  | .ok (.ok start) =>
    rw [found] at emitted
    exact ⟨start, rfl, emit_inj emitted⟩

/-- A byte of the direct map that was emitted. -/
theorem physBytes_getElem? {i : Nat} (bound : i < s.frame.registers.a3.toNat) :
    (s.physBytes platform start)[i]? = some (s.physByte platform (start + UInt64.ofNat i)) := by
  unfold physBytes
  rw [List.getElem?_map, List.getElem?_range bound]
  rfl

end Machine

/-- Whatever the memory holds outside the page table of the task, a print call emits the bytes at
the translations of the addresses of its buffer: this is so if and only if the pointer is mapped and
the buffer lies on adjacent frames. -/
theorem print_reads_buffer (asks : s.AsksPrint) :
    (∀ t, SameTask platform s t → t.PrintsBuffer platform devices stval) ↔
      s.BufferAdjacent platform := by
  constructor
  · intro prints
    have here : SameTask platform s s := ⟨rfl, rfl, fun _ _ _ _ => rfl⟩
    obtain ⟨bytes, ran, -, each⟩ := prints s here
    obtain ⟨start, found, rfl⟩ := asks.returned ran
    refine ⟨start, found, fun i bound => ?_⟩
    obtain ⟨phys, mapped, emitted⟩ := each i bound
    rw [physBytes_getElem? bound] at emitted
    refine ⟨phys, mapped, ?_⟩
    by_contra neither
    obtain ⟨apart, notBoth⟩ := not_or.mp neither
    have outside : ¬ (s.InTables platform phys ∧
        s.InTables platform (start + UInt64.ofNat i)) := fun both =>
      notBoth ⟨both.1, both.2, (Option.some.inj emitted).symm⟩
    obtain ⟨t, same, differ⟩ := exists_sameTask_ne apart outside
    have asks' : t.AsksPrint := same.asks asks
    obtain ⟨bytes, ran, -, each⟩ := prints t same
    obtain ⟨start', found', rfl⟩ := asks'.returned ran
    rw [same.registers] at each found'
    obtain ⟨phys', mapped', emitted'⟩ := each i bound
    rw [same.translated] at mapped' found'
    obtain rfl : start = start' := Except.ok.inj (Except.ok.inj (found.symm.trans found'))
    obtain rfl : phys = phys' := Except.ok.inj (Except.ok.inj (mapped.symm.trans mapped'))
    rw [physBytes_getElem? (same.registers ▸ bound)] at emitted'
    exact differ (Option.some.inj emitted').symm
  · rintro ⟨start, found, each⟩ t same
    have asks' : t.AsksPrint := same.asks asks
    have found' : t.translated platform t.frame.registers.a2 = .ok (.ok start) := by
      rw [same.translated, same.registers, found]
    refine ⟨t.physBytes platform start, ?_, ?_, ?_⟩
    · rw [asks'.trap, found']
      rfl
    · rw [physBytes, List.length_map, List.length_range]
    · intro i bound
      rw [physBytes_getElem? bound]
      rw [same.registers] at bound
      obtain ⟨phys, mapped, next | ⟨inside, also, equal⟩⟩ := each i bound
      · refine ⟨phys, ?_, ?_⟩
        · rw [same.translated, same.registers, mapped]
        · rw [next]
      · refine ⟨phys, ?_, ?_⟩
        · rw [same.translated, same.registers, mapped]
        · rw [same.physByte inside, same.physByte also, equal]

section Crossing

/-- A buffer of two bytes in the page of the task is read. -/
theorem print_reads_buffer_user :
    let s := samplePrint (leakMemory 0 65) 0 2
    ∀ t, SameTask samplePlatform s t → t.PrintsBuffer samplePlatform noDevices 0 := by
  intro s
  have first : s.translated samplePlatform 0 = .ok (.ok 0x8000000000) := by decide +kernel
  have second : s.translated samplePlatform 1 = .ok (.ok 0x8000000001) := by decide +kernel
  have adjacent : s.BufferAdjacent samplePlatform := by
    refine ⟨0x8000000000, first, fun i bound => ?_⟩
    have either : i = 0 ∨ i = 1 := by
      have : i < 2 := bound
      omega
    rcases either with rfl | rfl
    · exact ⟨0x8000000000, first, .inl rfl⟩
    · exact ⟨0x8000000001, second, .inl rfl⟩
  exact (print_reads_buffer (s := s) ⟨rfl, rfl⟩).mpr adjacent

/-- A table chain that maps the first two pages to frames that are not adjacent, with a byte at the
end of the first page, one at the start of the second and one behind the first frame. -/
def crossingMemory : Memory := fun address =>
  if address = 0xffff800080000000 then 0x20000401
  else if address = 0xffff800080001000 then 0x20000801
  else if address = 0xffff800080002000 then 0x20000c01
  else if address = 0xffff800080003000 then 0x24000017
  else if address = 0xffff800080003008 then 0x24800017
  else if address = 0xffff800090000ff8 then 0x4100000000000000
  else if address = 0xffff800092000000 then 0x42
  else if address = 0xffff800090001000 then 0x43
  else 0

/-- A buffer of two bytes crosses into a page whose frame is not the next one: the second byte that
is emitted is the one behind the first frame. -/
theorem print_crosses_frames :
    let s := samplePrint crossingMemory 0xfff 2
    s.AsksPrint ∧ s.translated samplePlatform 0xfff = .ok (.ok 0x90000fff) ∧
      s.translated samplePlatform (0xfff + 1) = .ok (.ok 0x92000000) ∧
      s.physByte samplePlatform 0x90000fff = 65 ∧ s.physByte samplePlatform 0x92000000 = 66 ∧
      ((trapHandler samplePlatform noDevices 8 0).run s).2.uart = [65, 67] ∧
      ¬ s.PrintsBuffer samplePlatform noDevices 0 := by
  intro s
  have emitted : ((trapHandler samplePlatform noDevices 8 0).run s).2.uart = [65, 67] := by
    decide +kernel
  have second : s.translated samplePlatform (0xfff + 1) = .ok (.ok 0x92000000) := by decide +kernel
  refine ⟨⟨rfl, rfl⟩, by decide +kernel, second, by decide +kernel, by decide +kernel, emitted, ?_⟩
  rintro ⟨bytes, ran, -, each⟩
  rw [ran] at emitted
  obtain ⟨phys, mapped, byte⟩ := each 1 (by decide)
  obtain rfl : 0x92000000 = phys := Except.ok.inj (Except.ok.inj (second.symm.trans mapped))
  rw [show bytes = [65, 67] from emitted] at byte
  exact absurd byte (by decide +kernel)

end Crossing

end Lsd
