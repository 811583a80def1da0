import Lsd.Userspace
import Lsd.Verif.FrameSupply
import Lsd.Verif.PrintCall

/-!
# Filling the frames of a segment

The loader writes a segment byte by byte: the bytes of the file, and zeroes only
when the file has none. What a store of one byte does to the bytes of memory is
proved once; the loops then leave the file in front, and behind it whatever the
frames held.
-/

namespace Lsd

open Program

section Bytes

variable {memory : Memory} {address other : UInt64} {byte : UInt8}

/-- A byte of memory, bit by bit. -/
theorem testBit_byteAt (bit : Nat) (bound : bit < 8) : (byteAt memory address).toNat.testBit bit =
    (memory (address - address % 8)).toNat.testBit (8 * (address.toNat % 8) + bit) := by
  have small : (address % 8 * 8).toNat = 8 * (address.toNat % 8) := by
    rw [UInt64.toNat_mul, UInt64.toNat_mod]
    change address.toNat % 8 * 8 % 2 ^ 64 = _
    omega
  have shift : 8 * (address.toNat % 8) % 64 = 8 * (address.toNat % 8) := by omega
  rw [byteAt, UInt64.toNat_toUInt8, UInt64.toNat_shiftRight, small, Nat.testBit_mod_two_pow,
    Nat.testBit_shiftRight, shift]
  simp [bound]

/-- Bytes with the same bits are the same. -/
theorem byte_ext {first second : UInt8}
    (same : ∀ bit < 8, first.toNat.testBit bit = second.toNat.testBit bit) : first = second := by
  refine UInt8.toNat_inj.mp (Nat.eq_of_testBit_eq fun bit => ?_)
  by_cases bound : bit < 8
  · exact same bit bound
  · have high : 2 ^ 8 ≤ 2 ^ bit := Nat.pow_le_pow_right (by decide) (Nat.not_lt.mp bound)
    rw [Nat.testBit_lt_two_pow (first.toNat_lt.trans_le high),
      Nat.testBit_lt_two_pow (second.toNat_lt.trans_le high)]

/-- A byte that was stored is read back. -/
theorem byteAt_storeByte : byteAt (memory.storeByte address byte) address = byte := by
  refine byte_ext fun bit bound => ?_
  have offset : (address % 8).toNat = address.toNat % 8 := by
    rw [UInt64.toNat_mod]
    rfl
  have inside : 8 * (address.toNat % 8) ≤ 8 * (address.toNat % 8) + bit ∧
      8 * (address.toNat % 8) + bit ≤ 8 * (address.toNat % 8) + 7 := by omega
  rw [testBit_byteAt bit bound, Memory.storeByte, Memory.store, Function.update_self,
    setByte, offset,
    testBit_setBits (by omega) (by omega), if_pos inside, Nat.add_sub_cancel_left,
    UInt8.toNat_toUInt64]

/-- A word whose bytes are zero is zero. -/
theorem word_of_bytes (aligned : address % 8 = 0)
    (zero : ∀ place < 8, byteAt memory (address + UInt64.ofNat place) = 0) :
    memory address = 0 := by
  refine word_ext fun bit => ?_
  have word : address.toNat % 8 = 0 := by
    have numbers := congrArg UInt64.toNat aligned
    rwa [UInt64.toNat_mod] at numbers
  rw [UInt64.toNat_zero, Nat.zero_testBit]
  by_cases inside : bit < 64
  · have place : (address + UInt64.ofNat (bit / 8)).toNat = address.toNat + bit / 8 := by
      have bound := address.toNat_lt
      rw [UInt64.toNat_add, UInt64.toNat_ofNat']
      omega
    have offset : (address + UInt64.ofNat (bit / 8)) % 8 = UInt64.ofNat (bit / 8) := by
      apply UInt64.toNat_inj.mp
      rw [UInt64.toNat_mod, place, UInt64.toNat_ofNat']
      change (_ + _) % 8 = _
      omega
    have found := @testBit_byteAt memory (address + UInt64.ofNat (bit / 8)) (bit % 8) (by omega)
    rw [zero (bit / 8) (by omega), offset, UInt64.add_sub_cancel, place] at found
    have same : 8 * ((address.toNat + bit / 8) % 8) + bit % 8 = bit := by omega
    rw [same] at found
    exact found.symm.trans (Nat.zero_testBit _)
  · refine Nat.testBit_lt_two_pow (Nat.lt_of_lt_of_le (memory address).toNat_lt ?_)
    exact Nat.pow_le_pow_right (by decide) (Nat.not_lt.mp inside)

/-- A store of a byte leaves the other bytes alone. -/
theorem byteAt_storeByte_ne (apart : other ≠ address) :
    byteAt (memory.storeByte address byte) other = byteAt memory other := by
  by_cases place : other - other % 8 = address - address % 8
  · refine byte_ext fun bit bound => ?_
    have offset : (address % 8).toNat = address.toNat % 8 := by
      rw [UInt64.toNat_mod]
      rfl
    -- two bytes of one word differ in their offsets
    have different : other.toNat % 8 ≠ address.toNat % 8 := by
      intro same
      have remainder : other % 8 = address % 8 := by
        apply UInt64.toNat_inj.mp
        rw [UInt64.toNat_mod, UInt64.toNat_mod]
        exact same
      rw [remainder] at place
      rw [← UInt64.sub_add_cancel other (address % 8), place, UInt64.sub_add_cancel] at apart
      exact apart rfl
    have outside : ¬ (8 * (address.toNat % 8) ≤ 8 * (other.toNat % 8) + bit ∧
        8 * (other.toNat % 8) + bit ≤ 8 * (address.toNat % 8) + 7) := by omega
    rw [testBit_byteAt bit bound, testBit_byteAt bit bound, place, Memory.storeByte, Memory.store,
      Function.update_self, setByte, offset, testBit_setBits (by omega) (by omega), if_neg outside]
  · exact byteAt_congr (Function.update_of_ne place _ _)

/-- A store of a byte changes the word that holds it. -/
theorem storeByte_ne (apart : other ≠ address - address % 8) :
    memory.storeByte address byte other = memory other := Function.update_of_ne apart _ _

/-- The word that holds a byte of a run of frames is a word of one of them. -/
theorem byte_inPages {base : UInt64} {count offset : Nat} (aligned : base % 4096 = 0)
    (bound : offset < count * 4096) :
    InPages {frame | frame ∈ framesFrom base count}
      (base + UInt64.ofNat offset - (base + UInt64.ofNat offset) % 8) := by
  refine ⟨base + UInt64.ofNat (offset / 4096 * 4096), mem_framesFrom.mpr ⟨offset / 4096, ?_, rfl⟩,
    offset % 4096 / 8, by omega, ?_⟩
  · exact Nat.div_lt_of_lt_mul (Nat.mul_comm count 4096 ▸ bound)
  · have page := aligned_toNat aligned
    have parts : UInt64.ofNat (offset / 4096 * 4096) + UInt64.ofNat (8 * (offset % 4096 / 8)) =
        UInt64.ofNat (offset - offset % 8) := by
      rw [← UInt64.ofNat_add]
      congr 1
      omega
    have rest : (base + UInt64.ofNat offset) % 8 = UInt64.ofNat (offset % 8) := by
      apply UInt64.toNat_inj.mp
      rw [UInt64.toNat_mod, UInt64.toNat_add, UInt64.toNat_ofNat', UInt64.toNat_ofNat']
      change (_ % 2 ^ 64) % 8 = _
      omega
    have whole : UInt64.ofNat offset =
        UInt64.ofNat (offset - offset % 8) + UInt64.ofNat (offset % 8) := by
      rw [← UInt64.ofNat_add]
      congr 1
      omega
    rw [wordOf, UInt64.add_assoc, parts, rest, whole, ← UInt64.add_assoc, UInt64.add_sub_cancel]

/-- A byte past the first two words of its page lies in no link of a frame. -/
theorem byte_not_link {base : UInt64} {nodes : List UInt64} {offset : Nat}
    (aligned : base % 4096 = 0)
    (frames : ∀ node ∈ nodes, node % 4096 = 0) (past : 16 ≤ offset % 4096) :
    ¬ LinkWords nodes (base + UInt64.ofNat offset - (base + UInt64.ofNat offset) % 8) := by
  have page := aligned_toNat aligned
  have low : (base + UInt64.ofNat offset) % 8 ≤ base + UInt64.ofNat offset := by
    rw [UInt64.le_iff_toNat_le, UInt64.toNat_mod]
    exact Nat.mod_le _ _
  have word : 16 ≤ (base + UInt64.ofNat
      offset - (base + UInt64.ofNat offset) % 8).toNat % 4096 := by
    rw [UInt64.toNat_sub_of_le _ _ low, UInt64.toNat_mod, UInt64.toNat_add, UInt64.toNat_ofNat']
    change 16 ≤ (_ - _ % 8) % 4096
    omega
  rintro ⟨node, listed, first | second⟩
  · have := aligned_toNat (frames node listed)
    rw [first] at word
    omega
  · have := aligned_toNat (frames node listed)
    rw [second, UInt64.toNat_add] at word
    change 16 ≤ (_ + 8) % 2 ^ 64 % 4096 at word
    omega

end Bytes

/-- Some bytes from an address on were written, and nothing else. -/
structure Written (base : UInt64) (content : Nat → UInt8) (count : Nat)
    (old new : Memory) : Prop where
  /-- They are there. -/
  bytes : ∀ offset < count, byteAt new (base + UInt64.ofNat offset) = content offset
  /-- Other bytes are as they were. -/
  others : ∀ address, (∀ offset < count, address ≠ base + UInt64.ofNat offset) →
    byteAt new address = byteAt old address
  /-- Other words are as they were. -/
  words : ∀ address, (∀ offset < count, address ≠
    base + UInt64.ofNat offset - (base + UInt64.ofNat offset) % 8) → new address = old address

section Fill

variable {base current : UInt64} {content : Nat → UInt8} {count : Nat} {old new : Memory}
  {bytes : List UInt8} {entry : ProgramHeader} {s s' : Pmm}

/-- Different offsets are different addresses. -/
theorem offset_ne {first second : Nat} (firstShort : first < 2 ^ 64) (secondShort : second < 2 ^ 64)
    (apart : first ≠ second) : base + UInt64.ofNat first ≠ base + UInt64.ofNat second := by
  intro same
  rw [UInt64.add_right_inj] at same
  have numbers := congrArg UInt64.toNat same
  rw [UInt64.toNat_ofNat', UInt64.toNat_ofNat', Nat.mod_eq_of_lt firstShort,
    Nat.mod_eq_of_lt secondShort] at numbers
  exact apart numbers

/-- One byte more. -/
theorem Written.next (written : Written base content count old new) (short : count < 2 ^ 64) :
    Written base content (count + 1) old
      (new.storeByte (base + UInt64.ofNat count) (content count)) := by
  constructor
  · intro offset bound
    rcases Nat.lt_succ_iff_lt_or_eq.mp bound with before | rfl
    · have apart : base + UInt64.ofNat offset ≠ base + UInt64.ofNat count :=
        offset_ne (before.trans short) short (Nat.ne_of_lt before)
      rw [byteAt_storeByte_ne apart]
      exact written.bytes offset before
    · exact byteAt_storeByte
  · intro address apart
    rw [byteAt_storeByte_ne (apart count (Nat.lt_succ_self count))]
    exact written.others address fun offset bound => apart offset (Nat.lt_succ_of_lt bound)
  · intro address apart
    rw [storeByte_ne (apart count (Nat.lt_succ_self count))]
    exact written.words address fun offset bound => apart offset (Nat.lt_succ_of_lt bound)

/-- A loop that stores one byte in each round. -/
theorem storeLoop_written {round : Nat → Kernel Pmm Unit} (short : count ≤ 2 ^ 64)
    (ran : ((List.range count).forM round).run s = (.ok (), s'))
    (rounds : ∀ offset < count, ∀ before after, (round offset).run before = (.ok (), after) →
      after = { before with
        memory := before.memory.storeByte (base + UInt64.ofNat offset) (content offset) }) :
    s'.regionList = s.regionList ∧ Written base content count s.memory s'.memory := by
  have start : s.regionList = s.regionList ∧ Written base content 0 s.memory s.memory :=
    ⟨rfl, fun _ none => absurd none (Nat.not_lt_zero _), fun _ _ => rfl, fun _ _ => rfl⟩
  refine Prog.run_range_ok (fun done p => p.regionList = s.regionList ∧
    Written base content done s.memory p.memory) ran start ?_
  intro offset bound before after ⟨list, written⟩ round
  rw [rounds offset bound before after round]
  exact ⟨list, written.next (bound.trans_le short)⟩

/-- What the frames of a segment hold when it was filled. -/
structure Filled (bytes : List UInt8) (entry : ProgramHeader) (current : UInt64)
    (old new : Memory) :
    Prop where
  /-- In front there are the bytes of the file. -/
  file : ∀ offset < entry.pFilesz.toNat, byteAt new (current + UInt64.ofNat offset) =
    bytes.getD (UInt64.ofNat offset + entry.pOffset).toNat 0
  /-- A segment without bytes in the file is zero. -/
  zero : entry.pFilesz = 0 → ∀ offset < entry.pMemsz.toNat,
    byteAt new (current + UInt64.ofNat offset) = 0
  /-- Behind the bytes of the file nothing was written. -/
  stale : entry.pFilesz ≠ 0 → ∀ offset < 2 ^ 64, entry.pFilesz.toNat ≤ offset →
    byteAt new (current + UInt64.ofNat offset) = byteAt old (current + UInt64.ofNat offset)
  /-- Words that hold no byte of the segment are as they were. -/
  words : ∀ address, (∀ offset < max entry.pFilesz.toNat entry.pMemsz.toNat, address ≠
    current + UInt64.ofNat offset - (current + UInt64.ofNat offset) % 8) → new address = old address

/-- An index that was checked is in range. -/
theorem checkIndex_eq_ok {length index : Nat}
    (ran : (checkIndex length index).run s = (.ok (), s')) :
    index < length ∧ s' = s := by
  unfold checkIndex at ran
  split at ran
  · next bound => exact ⟨bound, (Prod.mk.inj ran).2.symm⟩
  · nomatch ran

/-- What `load` does to the frames that it claimed for a segment. -/
theorem fillSegment_fills (ran : (fillSegment bytes entry current).run s = (.ok (), s')) :
    s'.regionList = s.regionList ∧ Filled bytes entry current s.memory s'.memory := by
  obtain ⟨⟨⟩, middle, zeroes, copy⟩ := Prog.run_bind_eq_ok ran
  have copied : s'.regionList = middle.regionList ∧ Written current
      (fun offset => bytes.getD (UInt64.ofNat offset + entry.pOffset).toNat 0) entry.pFilesz.toNat
      middle.memory s'.memory := by
    apply storeLoop_written (Nat.le_of_lt entry.pFilesz.toNat_lt) copy
    intro offset bound before after round
    obtain ⟨⟨⟩, checked, check, store⟩ := Prog.run_bind_eq_ok round
    obtain ⟨-, rfl⟩ := checkIndex_eq_ok check
    exact (Prod.mk.inj store).2.symm
  obtain ⟨list, written⟩ := copied
  by_cases none : entry.pFilesz = 0
  · rw [Prog.run_only_pos none] at zeroes
    have cleared : middle.regionList = s.regionList ∧
        Written current (fun _ => 0) entry.pMemsz.toNat s.memory middle.memory :=
      storeLoop_written (Nat.le_of_lt entry.pMemsz.toNat_lt) zeroes
        fun offset _ before after round => (Prod.mk.inj round).2.symm
    obtain ⟨list', zeroed⟩ := cleared
    have nothing : entry.pFilesz.toNat = 0 := by rw [none]; rfl
    rw [nothing] at written
    have nowhere : ∀ address : UInt64, ∀ offset < 0, address ≠ current + UInt64.ofNat offset :=
      fun _ _ bound => absurd bound (Nat.not_lt_zero _)
    refine ⟨list.trans list', ?_, ?_, fun some => absurd none some, ?_⟩
    · intro offset bound
      exact absurd (nothing ▸ bound) (Nat.not_lt_zero _)
    · intro _ offset bound
      rw [written.others _ (nowhere _), zeroed.bytes offset bound]
    · intro address apart
      rw [written.words address fun _ bound => absurd bound (Nat.not_lt_zero _)]
      exact zeroed.words address fun offset bound => apart offset (lt_max_of_lt_right bound)
  · rw [Prog.run_only_neg none] at zeroes
    obtain ⟨-, rfl⟩ := Prod.mk.inj zeroes
    refine ⟨list, written.bytes, fun zero => absurd zero none, ?_, ?_⟩
    · intro _ offset short past
      apply written.others
      exact fun other bound =>
        offset_ne short (bound.trans_le (Nat.le_of_lt entry.pFilesz.toNat_lt)) (by omega)
    · intro address apart
      exact written.words address fun offset bound => apart offset (lt_max_of_lt_left bound)

/-- Filling the frames of a segment changes words of these frames only. -/
theorem Filled.changed (filled : Filled bytes entry current old new) (aligned : current % 4096 = 0)
    (fits : max entry.pFilesz.toNat entry.pMemsz.toNat ≤ count * 4096) :
    ChangedWithin {frame | frame ∈ framesFrom current count} old new := by
  intro address outside
  refine filled.words address fun offset bound same => outside ?_
  rw [same]
  exact byte_inPages aligned (bound.trans_le fits)

end Fill

end Lsd
