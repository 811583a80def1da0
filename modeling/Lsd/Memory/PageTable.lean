import Lsd.Memory.Pmm

/-!
# Page-table words

The words of `memory::vmm` and `memory`: page-table entries, `satp` and the two
kinds of address, with the bit ranges that the source declares for them, and the
page levels that name the tables of a walk.
-/

namespace Lsd

open Program

/-- A range of bits of a word, as the generated getters read it. -/
def getBits (msb lsb : Nat) (word : UInt64) : UInt64 :=
  UInt64.ofNat (word.toNat / 2 ^ lsb % 2 ^ (msb + 1 - lsb))

/-- A word with a range of bits replaced by the low bits of a value, as the generated setters
write it. -/
def setBits (msb lsb : Nat) (word value : UInt64) : UInt64 :=
  UInt64.ofNat (word.toNat % 2 ^ lsb + value.toNat % 2 ^ (msb + 1 - lsb) * 2 ^ lsb +
    word.toNat / 2 ^ (msb + 1) * 2 ^ (msb + 1))

/-- One bit of a word, as a getter of a flag reads it. -/
def getBit (index : Nat) (word : UInt64) : Bool := word.toNat.testBit index

/-- A word with one bit replaced, as a setter of a flag writes it. -/
def setBit (index : Nat) (word : UInt64) (value : Bool) : UInt64 :=
  setBits index index word (if value then 1 else 0)

/-- A word in hexadecimal. -/
def hex (word : UInt64) : String := "0x" ++ String.ofList (Nat.toDigits 16 word.toNat)

/-- `PageLevel`. -/
inductive PageLevel where
  | level5 | level4 | level3 | level2 | level1 | pageOffset
deriving DecidableEq, Repr

/-- `PageLevel::from_usize`. -/
def PageLevel.fromUsize : Nat → PageLevel
  | 1 => .level1
  | 2 => .level2
  | 3 => .level3
  | 4 => .level4
  | 5 => .level5
  | _ => .pageOffset

/-- `PageLevel::as_usize`. -/
def PageLevel.asUsize : PageLevel → Nat
  | .level1 => 1
  | .level2 => 2
  | .level3 => 3
  | .level4 => 4
  | .level5 => 5
  | .pageOffset => 0

/-- The level that the loops continue with. Below the page offset the subtraction wraps to a
number that names the page offset again. -/
def PageLevel.below (level : PageLevel) : PageLevel := .fromUsize (level.asUsize - 1)

/-- `PageSize::from_level`. -/
def PageSize.fromLevel : PageLevel → PageSize
  | .level1 => .small
  | .level2 => .medium
  | .level3 => .large
  | .level4 => .huge
  | .level5 => .colossal
  | .pageOffset => .none

/-- `PageLevel::as_page_size`. -/
def PageLevel.asPageSize : PageLevel → PageSize
  | .level1 => .small
  | .level2 => .medium
  | .level3 => .large
  | .level4 => .huge
  | .level5 => .colossal
  | .pageOffset => .none

/-- `PageType`. -/
inductive PageType where
  | bare | sv39 | sv48 | sv57
deriving DecidableEq, Repr

/-- `PageType::hhdm_offset`. -/
def PageType.hhdmOffset : PageType → UInt64
  | .bare => 0x00
  | .sv39 => 0xffffffc000000000
  | .sv48 => 0xffff800000000000
  | .sv57 => 0xff00000000000000

/-- `PageType::from_levels`. -/
def PageType.fromLevels : PageLevel → PageType
  | .level3 => .sv39
  | .level4 => .sv48
  | .level5 => .sv57
  | _ => .bare

/-- The number of a `PageType`, which `satp` takes as its mode. -/
def PageType.toMode : PageType → UInt64
  | .bare => 0
  | .sv39 => 8
  | .sv48 => 9
  | .sv57 => 10

/-- `VirtualAddress`. -/
abbrev VirtualAddress : Type := UInt64

/-- `PhysicalAddress`. -/
abbrev PhysicalAddress : Type := UInt64

/-- `VirtualAddress::index`. -/
def VirtualAddress.index (virt : VirtualAddress) : PageLevel → UInt64
  | .level1 => getBits 20 12 virt
  | .level2 => getBits 29 21 virt
  | .level3 => getBits 38 30 virt
  | .level4 => getBits 47 39 virt
  | .level5 => getBits 56 48 virt
  | .pageOffset => getBits 11 0 virt

/-- `VirtualAddress::set_index`. -/
def VirtualAddress.setIndex (virt : VirtualAddress) (index : PageLevel) (val : UInt64) :
    VirtualAddress :=
  match index with
  | .level1 => setBits 20 12 virt val
  | .level2 => setBits 29 21 virt val
  | .level3 => setBits 38 30 virt val
  | .level4 => setBits 47 39 virt val
  | .level5 => setBits 56 48 virt val
  | .pageOffset => setBits 11 0 virt val

/-- `PhysicalAddress::get_ppn`. -/
def PhysicalAddress.getPpn (phys : PhysicalAddress) : UInt64 := getBits 55 12 phys

/-- The bits that `PageFlags` declares. -/
def declaredFlags : UInt64 := 0x600000000000003e

/-- `PageFlags`: a union of declared flags. -/
structure PageFlags where
  /-- `PageFlags::bits`. -/
  bits : UInt64
  /-- Only declared bits are set. -/
  declared : bits &&& declaredFlags = bits

namespace PageFlags

/-- `PageFlags::READ`. -/
def read : PageFlags := ⟨0b000010, rfl⟩

/-- `PageFlags::WRITE`. -/
def write : PageFlags := ⟨0b000100, rfl⟩

/-- `PageFlags::EXECUTE`. -/
def execute : PageFlags := ⟨0b001000, rfl⟩

/-- `PageFlags::USER`. -/
def user : PageFlags := ⟨0b010000, rfl⟩

/-- `PageFlags::GLOBAL`. -/
def global : PageFlags := ⟨0b100000, rfl⟩

/-- The union of two sets of flags. -/
def union (first second : PageFlags) : PageFlags :=
  ⟨first.bits ||| second.bits, by
    apply UInt64.toBitVec_inj.mp
    rw [UInt64.toBitVec_and, UInt64.toBitVec_or, BitVec.and_or_distrib_right,
      ← UInt64.toBitVec_and, ← UInt64.toBitVec_and, first.declared, second.declared]⟩

/-- Flags that make an entry a leaf: at least one of `READ`, `WRITE` and `EXECUTE`. -/
def Maps (flags : PageFlags) : Prop :=
  getBit 1 flags.bits || getBit 2 flags.bits || getBit 3 flags.bits

end PageFlags

/-- `PageEntry`. -/
abbrev PageEntry : Type := UInt64

namespace PageEntry

/-- `PageEntry::get_valid`. -/
def getValid (entry : PageEntry) : Bool := getBit 0 entry

/-- `PageEntry::set_valid`. -/
def setValid (entry : PageEntry) (value : Bool) : PageEntry := setBit 0 entry value

/-- `PageEntry::get_read`. -/
def getRead (entry : PageEntry) : Bool := getBit 1 entry

/-- `PageEntry::get_write`. -/
def getWrite (entry : PageEntry) : Bool := getBit 2 entry

/-- `PageEntry::get_exec`. -/
def getExec (entry : PageEntry) : Bool := getBit 3 entry

/-- `PageEntry::get_user`. -/
def getUser (entry : PageEntry) : Bool := getBit 4 entry

/-- `PageEntry::get_accessed`. -/
def getAccessed (entry : PageEntry) : Bool := getBit 6 entry

/-- `PageEntry::get_dirty`. -/
def getDirty (entry : PageEntry) : Bool := getBit 7 entry

/-- `PageEntry::get_ppn`. -/
def getPpn (entry : PageEntry) : UInt64 := getBits 53 10 entry

/-- `PageEntry::set_ppn`. -/
def setPpn (entry : PageEntry) (value : UInt64) : PageEntry := setBits 53 10 entry value

/-- `PageEntry::is_branch`. -/
def isBranch (entry : PageEntry) : Bool :=
  entry.getValid && (!entry.getRead && !entry.getWrite && !entry.getExec && !entry.getUser &&
    !entry.getAccessed && !entry.getDirty)

/-- `PageEntry::is_leaf`. -/
def isLeaf (entry : PageEntry) : Bool :=
  entry.getValid && (entry.getRead || entry.getWrite || entry.getExec)

/-- `PageEntry::table`: the table that a branch points to, in the direct map. -/
def table (hhdm : UInt64) (entry : PageEntry) : UInt64 := (entry.getPpn <<< 12) + hhdm

end PageEntry

/-- `Satp`. -/
abbrev Satp : Type := UInt64

namespace Satp

/-- `Satp::get_ppn`. -/
def getPpn (satp : Satp) : UInt64 := getBits 43 0 satp

/-- `Satp::set_ppn`. -/
def setPpn (satp : Satp) (value : UInt64) : Satp := setBits 43 0 satp value

/-- `Satp::set_asid`. -/
def setAsid (satp : Satp) (value : UInt64) : Satp := setBits 59 44 satp value

/-- `Satp::set_mode`. -/
def setMode (satp : Satp) (value : UInt64) : Satp := setBits 63 60 satp value

end Satp

/-- `current_table`: the root table that `satp` names, in the direct map. -/
def currentTable (hhdm : UInt64) (satp : Satp) : UInt64 := (satp.getPpn <<< 12) + hhdm

/-- A copy of the entries of a table. -/
abbrev TableCopy : Type := Nat → PageEntry

/-- `read_volatile` of a whole table. -/
def readTable (memory : Memory) (table : UInt64) : TableCopy := fun index =>
  memory (wordOf table index)

/-- `write_volatile` of a whole table. -/
def writeTable (memory : Memory) (table : UInt64) (copy : TableCopy) : Memory := fun address =>
  let offset := (address - table).toNat
  if offset < 4096 ∧ offset % 8 = 0 then copy (offset / 8) else memory address

/-- The bounds check of indexing an array. -/
def checkIndex {σ : Type} (length index : Nat) : Kernel σ Unit :=
  if index < length then pure ()
  else Prog.stop
    (.panic s!"index out of bounds: the len is {length} but the index is {index}")

end Lsd
