import Lsd.Memory.Vmm

/-!
# Bit ranges of page-table words

What the generated getters read from what the setters wrote, bit by bit, and from
that what the entries made by `map` and `clone_table_range` stand for: a branch
leads to the table whose page number it was given, a leaf holds the physical page
and stays a leaf whatever declared flags are added.
-/

namespace Lsd

open Program

section Ranges

variable {msb lsb : Nat} {word value : UInt64}

/-- A getter reads the bits of its range. -/
theorem testBit_getBits (bit : Nat) : (getBits msb lsb word).toNat.testBit bit =
    (decide (bit < msb + 1 - lsb) && word.toNat.testBit (lsb + bit)) := by
  have below : word.toNat / 2 ^ lsb % 2 ^ (msb + 1 - lsb) < 2 ^ 64 :=
    Nat.lt_of_le_of_lt ((Nat.mod_le _ _).trans (Nat.div_le_self _ _)) word.toNat_lt
  rw [getBits, UInt64.toNat_ofNat_of_lt' below, Nat.testBit_mod_two_pow, Nat.testBit_div_two_pow,
    Nat.add_comm bit lsb]

/-- A getter reads the number in its range. -/
theorem toNat_getBits : (getBits msb lsb word).toNat =
    word.toNat / 2 ^ lsb % 2 ^ (msb + 1 - lsb) := by
  have below : word.toNat / 2 ^ lsb % 2 ^ (msb + 1 - lsb) < 2 ^ 64 :=
    Nat.lt_of_le_of_lt ((Nat.mod_le _ _).trans (Nat.div_le_self _ _)) word.toNat_lt
  rw [getBits, UInt64.toNat_ofNat_of_lt' below]

/-- A setter replaces the bits of its range and keeps the others. -/
theorem testBit_setBits (range : lsb ≤ msb) (fits : msb < 64) (bit : Nat) :
    (setBits msb lsb word value).toNat.testBit bit =
      if lsb ≤ bit ∧ bit ≤ msb then value.toNat.testBit (bit - lsb)
      else word.toNat.testBit bit := by
  obtain ⟨size, width⟩ : ∃ size, msb + 1 = lsb + size := ⟨msb + 1 - lsb, by omega⟩
  have size_eq : msb + 1 - lsb = size := by omega
  have low : word.toNat % 2 ^ lsb < 2 ^ lsb := Nat.mod_lt _ (Nat.two_pow_pos _)
  have middle : value.toNat % 2 ^ size < 2 ^ size := Nat.mod_lt _ (Nat.two_pow_pos _)
  have nested : word.toNat % 2 ^ lsb + value.toNat % 2 ^ size * 2 ^ lsb +
      word.toNat / 2 ^ (lsb + size) * 2 ^ (lsb + size) =
      2 ^ lsb * (2 ^ size * (word.toNat / 2 ^ (lsb + size)) + value.toNat % 2 ^ size) +
        word.toNat % 2 ^ lsb := by
    rw [Nat.pow_add]
    ring
  rw [setBits, size_eq, width, nested, UInt64.toNat_ofNat', Nat.testBit_mod_two_pow,
    Nat.testBit_two_pow_mul_add _ low, Nat.testBit_two_pow_mul_add _ middle,
    Nat.testBit_mod_two_pow, Nat.testBit_mod_two_pow, Nat.testBit_div_two_pow]
  by_cases high : bit < 64
  · rcases Nat.lt_or_ge bit lsb with before | after
    · simp [high, before, Nat.not_le.mpr before]
    · rcases Nat.lt_or_ge msb bit with past | inside
      · have shift : bit - lsb - size + (lsb + size) = bit := by omega
        simp [high, Nat.not_lt.mpr after, Nat.not_le.mpr past,
          show ¬ bit - lsb < size by omega, shift]
      · simp [high, Nat.not_lt.mpr after, after, inside, show bit - lsb < size by omega]
  · have past : word.toNat.testBit bit = false :=
      Nat.testBit_lt_two_pow (word.toNat_lt.trans_le (Nat.pow_le_pow_right (by decide) (by omega)))
    simp [high, past, show ¬ bit ≤ msb by omega]

/-- Words with the same bits are the same. -/
theorem word_ext {first second : UInt64}
    (same : ∀ bit, first.toNat.testBit bit = second.toNat.testBit bit) : first = second :=
  UInt64.toNat_inj.mp (Nat.eq_of_testBit_eq same)

/-- A getter reads back what a setter of the same range wrote. -/
theorem getBits_setBits (range : lsb ≤ msb) (fits : msb < 64)
    (short : value.toNat < 2 ^ (msb + 1 - lsb)) :
    getBits msb lsb (setBits msb lsb word value) = value := by
  apply word_ext
  intro bit
  rw [testBit_getBits, testBit_setBits range fits]
  by_cases inside : bit < msb + 1 - lsb
  · simp [inside, show lsb + bit ≤ msb by omega]
  · have past : value.toNat.testBit bit = false :=
      Nat.testBit_lt_two_pow (short.trans_le (Nat.pow_le_pow_right (by decide) (by omega)))
    simp [inside, past]

/-- A getter of a flag outside the range of a setter reads what was there. -/
theorem getBit_setBits (range : lsb ≤ msb) (fits : msb < 64) {index : Nat}
    (outside : index < lsb ∨ msb < index) :
    getBit index (setBits msb lsb word value) = getBit index word := by
  rw [getBit, testBit_setBits range fits, if_neg (by omega), getBit]

/-- A getter reads past a setter of a range that it does not meet. -/
theorem getBits_setBits_apart {high low : Nat} (range : lsb ≤ msb) (fits : msb < 64)
    (outside : high < lsb ∨ msb < low) :
    getBits high low (setBits msb lsb word value) = getBits high low word := by
  apply word_ext
  intro bit
  rw [testBit_getBits, testBit_getBits]
  by_cases inside : bit < high + 1 - low
  · rw [testBit_setBits range fits, if_neg (by omega)]
  · simp [inside]

/-- Setting a flag sets it. -/
theorem getBit_setBit (index : Nat) (fits : index < 64) (flag : Bool) :
    getBit index (setBit index word flag) = flag := by
  rw [getBit, setBit, testBit_setBits (Nat.le_refl _) fits, if_pos ⟨Nat.le_refl _, Nat.le_refl _⟩,
    Nat.sub_self]
  cases flag <;> rfl

end Ranges

section Frames

variable {hhdm frame : UInt64}

/-- A page number shifted back to an address. -/
theorem toNat_shiftLeft_page {number : UInt64} (short : number.toNat < 2 ^ 44) :
    (number <<< 12).toNat = number.toNat * 4096 := by
  have fits : number.toNat * 4096 < 2 ^ 64 := by omega
  rw [UInt64.toNat_shiftLeft, Nat.shiftLeft_eq]
  exact Nat.mod_eq_of_lt fits

/-- A page number read from an entry is short. -/
theorem toNat_getPpn_lt (entry : PageEntry) : entry.getPpn.toNat < 2 ^ 44 := by
  rw [PageEntry.getPpn, toNat_getBits]
  exact Nat.mod_lt _ (Nat.two_pow_pos _)

/-- The page number of a frame in the direct map, and back. -/
theorem shift_page (aligned : hhdm % 4096 = 0) (frameAligned : frame % 4096 = 0)
    (short : (frame - hhdm).toNat < 2 ^ 56) :
    ((frame - hhdm) >>> 12).toNat < 2 ^ 44 ∧
      (((frame - hhdm) >>> 12) <<< 12) + hhdm = frame := by
  have base := aligned_toNat aligned
  have page := aligned_toNat frameAligned
  have number : ((frame - hhdm) >>> 12).toNat = (frame - hhdm).toNat / 4096 := by
    rw [UInt64.toNat_shiftRight, Nat.shiftRight_eq_div_pow]
    rfl
  have small : ((frame - hhdm) >>> 12).toNat < 2 ^ 44 := by omega
  have whole : (frame - hhdm).toNat % 4096 = 0 := by
    rw [UInt64.toNat_sub]
    omega
  have back : ((frame - hhdm) >>> 12) <<< 12 = frame - hhdm := by
    apply UInt64.toNat_inj.mp
    rw [toNat_shiftLeft_page small, number]
    omega
  exact ⟨small, by rw [back, UInt64.sub_add_cancel]⟩

/-- The table of an entry is a page. -/
theorem table_aligned (aligned : hhdm % 4096 = 0) (entry : PageEntry) :
    entry.table hhdm % 4096 = 0 := by
  have base := aligned_toNat aligned
  have short := toNat_getPpn_lt entry
  apply UInt64.toNat_inj.mp
  simp only [PageEntry.table, UInt64.toNat_mod, UInt64.toNat_add, UInt64.reduceToNat,
    toNat_shiftLeft_page short]
  omega

end Frames

section Entries

variable {hhdm frame : UInt64} {entry : PageEntry}

/-- Setting the page number keeps every flag of the lower bits. -/
theorem getBit_setPpn {index : Nat} (low : index < 10) (number : UInt64) :
    getBit index (entry.setPpn number) = getBit index entry :=
  getBit_setBits (by decide) (by decide) (.inl low)

/-- An entry that is given a page number leads to that page. -/
theorem table_setPpn (aligned : hhdm % 4096 = 0) (frameAligned : frame % 4096 = 0)
    (short : (frame - hhdm).toNat < 2 ^ 56) :
    PageEntry.table hhdm (entry.setPpn ((frame - hhdm) >>> 12)) = frame := by
  obtain ⟨small, back⟩ := shift_page aligned frameAligned short
  rw [PageEntry.table, PageEntry.getPpn, PageEntry.setPpn,
    getBits_setBits (by decide) (by decide) small, back]

/-- A branch that is given a page number is still a branch. -/
theorem isBranch_setPpn (number : UInt64) :
    (entry.setPpn number).isBranch = entry.isBranch := by
  simp only [PageEntry.isBranch, PageEntry.getValid, PageEntry.getRead, PageEntry.getWrite,
    PageEntry.getExec, PageEntry.getUser, PageEntry.getAccessed, PageEntry.getDirty]
  rw [getBit_setPpn (by decide), getBit_setPpn (by decide), getBit_setPpn (by decide),
    getBit_setPpn (by decide), getBit_setPpn (by decide), getBit_setPpn (by decide),
    getBit_setPpn (by decide)]

/-- An entry made valid. -/
theorem getBit_setValid {index : Nat} (other : index ≠ 0) :
    getBit index (entry.setValid true) = getBit index entry :=
  getBit_setBits (by decide) (by decide) (.inr (by omega))

/-- The page number of an entry made valid. -/
theorem getPpn_setValid : (entry.setValid true).getPpn = entry.getPpn :=
  getBits_setBits_apart (by decide) (by decide) (.inr (by decide))

/-- An entry made valid is valid. -/
theorem getValid_setValid : (entry.setValid true).getValid = true :=
  getBit_setBit 0 (by decide) true

/-- An entry that is not valid and in which all flags are clear that tell a branch from a leaf. -/
def PageEntry.isBlank (entry : PageEntry) : Bool :=
  !entry.getValid && (!entry.getRead && !entry.getWrite && !entry.getExec && !entry.getUser &&
    !entry.getAccessed && !entry.getDirty)

/-- The flags of a blank entry. -/
theorem isBlank_flags (blank : entry.isBlank = true) :
    getBit 0 entry = false ∧ getBit 1 entry = false ∧ getBit 2 entry = false ∧
      getBit 3 entry = false ∧ getBit 4 entry = false ∧ getBit 6 entry = false ∧
      getBit 7 entry = false := by
  simp only [PageEntry.isBlank, Bool.and_eq_true, Bool.not_eq_true'] at blank
  obtain ⟨valid, ⟨⟨⟨⟨⟨read, write⟩, exec⟩, user⟩, accessed⟩, dirty⟩⟩ := blank
  exact ⟨valid, read, write, exec, user, accessed, dirty⟩

/-- The entry that `map` makes of a blank one for a new table is a branch to that table. -/
theorem newBranch_spec (aligned : hhdm % 4096 = 0) (frameAligned : frame % 4096 = 0)
    (short : (frame - hhdm).toNat < 2 ^ 56) (blank : entry.isBlank = true) :
    ((entry.setPpn ((frame - hhdm) >>> 12)).setValid true).isBranch = true ∧
      PageEntry.table hhdm ((entry.setPpn ((frame - hhdm) >>> 12)).setValid true) = frame := by
  constructor
  · obtain ⟨-, read, write, exec, user, accessed, dirty⟩ := isBlank_flags blank
    simp only [PageEntry.isBranch, getValid_setValid, PageEntry.getRead, PageEntry.getWrite,
      PageEntry.getExec, PageEntry.getUser, PageEntry.getAccessed, PageEntry.getDirty]
    rw [getBit_setValid (by decide), getBit_setValid (by decide), getBit_setValid (by decide),
      getBit_setValid (by decide), getBit_setValid (by decide), getBit_setValid (by decide),
      getBit_setPpn (by decide), getBit_setPpn (by decide), getBit_setPpn (by decide),
      getBit_setPpn (by decide), getBit_setPpn (by decide), getBit_setPpn (by decide), read, write,
      exec, user, accessed, dirty]
    rfl
  · rw [PageEntry.table, getPpn_setValid]
    exact table_setPpn aligned frameAligned short

/-- Declared flags have no bit in the page number. -/
theorem declared_page (flags : PageFlags) {bit : Nat} (low : 10 ≤ bit) (high : bit ≤ 53) :
    flags.bits.toNat.testBit bit = false := by
  have mask : declaredFlags.toNat / 2 ^ 10 % 2 ^ 44 = 0 := by decide
  have clear : (declaredFlags.toNat / 2 ^ 10 % 2 ^ 44).testBit (bit - 10) = false := by
    rw [mask, Nat.zero_testBit]
  rw [Nat.testBit_mod_two_pow, Nat.testBit_div_two_pow, Nat.sub_add_cancel low] at clear
  rw [← flags.declared, UInt64.toNat_and, Nat.testBit_and]
  rw [decide_eq_true (show bit - 10 < 44 by omega), Bool.true_and] at clear
  rw [clear, Bool.and_false]

/-- The flags of the leaf that `map` writes are the flags it was given. -/
theorem getBit_leafEntry (phys : PhysicalAddress) (flags : PageFlags) {index : Nat}
    (other : index ≠ 0) (low : index < 10) :
    getBit index (leafEntry phys flags) = getBit index flags.bits := by
  have empty : getBit index ((0 : PageEntry).setPpn (PhysicalAddress.getPpn phys)) = false := by
    rw [getBit_setPpn low]
    exact Nat.zero_testBit index
  rw [leafEntry, getBit_setValid other, getBit, UInt64.toNat_or, Nat.testBit_or]
  rw [getBit] at empty
  rw [empty, Bool.false_or, getBit]

/-- The entry that `map` writes is a leaf. -/
theorem isLeaf_leafEntry (phys : PhysicalAddress) {flags : PageFlags} (maps : flags.Maps) :
    (leafEntry phys flags).isLeaf = true := by
  rw [PageFlags.Maps] at maps
  simp only [PageEntry.isLeaf, PageEntry.getRead, PageEntry.getWrite, PageEntry.getExec]
  rw [getBit_leafEntry phys flags (by decide) (by decide),
    getBit_leafEntry phys flags (by decide) (by decide),
    getBit_leafEntry phys flags (by decide) (by decide), maps, leafEntry, getValid_setValid,
    Bool.and_self]

/-- The leaf that `map` writes holds the physical page, of an address of at most 56 bits. -/
theorem toNat_leafEntry_page (phys : PhysicalAddress) (flags : PageFlags) :
    ((leafEntry phys flags).getPpn <<< 12).toNat = phys.toNat / 4096 % 2 ^ 44 * 4096 := by
  have number : (PhysicalAddress.getPpn phys).toNat = phys.toNat / 4096 % 2 ^ 44 := by
    rw [PhysicalAddress.getPpn, toNat_getBits]
    norm_num
  have small : (PhysicalAddress.getPpn phys).toNat < 2 ^ 44 := by omega
  have ppn : (leafEntry phys flags).getPpn = PhysicalAddress.getPpn phys := by
    rw [leafEntry, getPpn_setValid]
    have number : getBits 53 10 (setBits 53 10 0 (PhysicalAddress.getPpn phys)) =
        PhysicalAddress.getPpn phys := getBits_setBits (by decide) (by decide) small
    refine Eq.trans ?_ number
    apply word_ext
    intro bit
    rw [PageEntry.getPpn, testBit_getBits, testBit_getBits, UInt64.toNat_or, Nat.testBit_or]
    by_cases inside : bit < 44
    · rw [declared_page flags (by omega) (by omega), Bool.or_false]
      rfl
    · simp [inside]
  rw [ppn, toNat_shiftLeft_page small, number]

/-- The leaf that `map` writes is a leaf, and holds the physical page. -/
theorem leafEntry_spec {phys : PhysicalAddress} {flags : PageFlags} (maps : flags.Maps)
    (aligned : phys.toNat % 4096 = 0) (short : phys.toNat < 2 ^ 56) :
    (leafEntry phys flags).isLeaf = true ∧ (leafEntry phys flags).getPpn <<< 12 = phys := by
  refine ⟨isLeaf_leafEntry phys maps, UInt64.toNat_inj.mp ?_⟩
  rw [toNat_leafEntry_page]
  omega

end Entries

end Lsd
