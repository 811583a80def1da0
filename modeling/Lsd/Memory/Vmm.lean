import Lsd.Memory.PageTable

/-!
# Page tables

`memory::vmm` on page tables: `map` makes the tables on the way to a page,
`unmap` takes a page out, `virt_to_phys` walks, `clone_table_range` copies a
tree. Each loop is the loop of the source with the number of its iterations
bounded by `walkLimit`, which no ending loop reaches: a page number has 44 bits,
so a longer walk has come back to a table and goes round for ever.
-/

namespace Lsd

open Program

/-- More iterations than there are tables. -/
def walkLimit : Nat := 2 ^ 45

/-- Read a whole table. -/
def loadTable (table : UInt64) : Kernel Pmm TableCopy :=
  Prog.read fun s => readTable s.memory table

/-- Write a whole table. -/
def storeTable (table : UInt64) (copy : TableCopy) : Kernel Pmm Unit :=
  Prog.update fun s => { s with memory := writeTable s.memory table copy }

/-- The leaf that `map` writes. -/
def leafEntry (phys : PhysicalAddress) (flags : PageFlags) : PageEntry :=
  let entry : PageEntry := PageEntry.setPpn 0 phys.getPpn
  let entry : PageEntry := entry ||| flags.bits
  entry.setValid true

/-- The loop of `map` at a table of some level. -/
def mapLoop (hhdm : UInt64) (virt : VirtualAddress) (phys : PhysicalAddress)
    (targetLevel : PageLevel) (flags : PageFlags) : Nat → UInt64 → PageLevel → Kernel Pmm Unit
  | 0, _, _ => Prog.stop .unfinished
  | steps + 1, table, level => do
    let tableIndex := (virt.index level).toNat
    let tableCopy ← loadTable table
    checkIndex 512 tableIndex
    if level = targetLevel then
      storeTable table (Function.update tableCopy tableIndex (leafEntry phys flags))
    else do
      let entry : PageEntry := tableCopy tableIndex
      let next ←
        if entry.isBranch then pure ((entry.getPpn <<< 12) + hhdm)
        else if entry.isLeaf then
          let pointer := hex table
          Prog.stop (.panic s!"Didnt expect leaf at index {tableIndex} of table {pointer}")
        else if !entry.getValid then do
          let newTable ← FreeList.claim hhdm
          storeTable newTable fun _ => 0
          let newTablePhys := newTable - hhdm
          let entry : PageEntry := (entry.setPpn (newTablePhys >>> 12)).setValid true
          storeTable table (Function.update tableCopy tableIndex entry)
          pure newTable
        else pure table
      mapLoop hhdm virt phys targetLevel flags steps next level.below

/-- `map`. -/
def map (hhdm table : UInt64) (virt : VirtualAddress) (phys : PhysicalAddress)
    (level targetLevel : PageLevel) (flags : PageFlags) : Kernel Pmm Unit :=
  mapLoop hhdm virt phys targetLevel flags walkLimit table level

/-- The entries that the debug format of a table shows. -/
def dumpTable (copy : TableCopy) : String :=
  String.join ((List.range 512).map fun index =>
    if (copy index).getValid then
      let word := hex (copy index)
      s!"index {index}: {word}" ++ if index < 511 then ",\n" else ""
    else "")

/-- The loop of `unmap` at a table of some level. -/
def unmapLoop (hhdm : UInt64) (virt : VirtualAddress) (targetLevel : PageLevel) :
    Nat → UInt64 → PageLevel → Kernel Pmm PhysicalAddress
  | 0, _, _ => Prog.stop .unfinished
  | steps + 1, table, level => do
    let tableIndex := (virt.index level).toNat
    let tableCopy ← loadTable table
    checkIndex 512 tableIndex
    let entry : PageEntry := tableCopy tableIndex
    if level = targetLevel then
      if !entry.isLeaf then Prog.stop (.panic "No leaf found while unmapping")
      else do
        storeTable table (Function.update tableCopy tableIndex 0)
        pure (entry.getPpn <<< 12)
    else if entry.isLeaf then Prog.stop (.panic "Unexpected entry")
    else if entry.isBranch then
      unmapLoop hhdm virt targetLevel steps ((entry.getPpn <<< 12) + hhdm) level.below
    else
      let address := hex virt
      let pointer := hex table
      let dump := dumpTable tableCopy
      let word := hex entry
      Prog.stop (.panic
        s!"No entry found for virt {address}\ntable {pointer}\ndump: {dump}\nentry {word}")

/-- `unmap`. -/
def unmap (hhdm table : UInt64) (virt : VirtualAddress) (level targetLevel : PageLevel) :
    Kernel Pmm PhysicalAddress :=
  unmapLoop hhdm virt targetLevel walkLimit table level

/-- The bits of an address that lie inside a page of a level. -/
def PageLevel.mask : PageLevel → UInt64
  | .level1 => 0xfff
  | .level2 => 0x1fffff
  | .level3 => 0x3fffffff
  | .level4 => 0x7fffffffff
  | .level5 => 0xffffffffffff
  | .pageOffset => 0

/-- The loop of `virt_to_phys` at a table of some level. -/
def walkLoop (hhdm : UInt64) (virt : VirtualAddress) :
    Nat → UInt64 → PageLevel → Kernel Pmm (Except String PhysicalAddress)
  | 0, _, _ => Prog.stop .unfinished
  | steps + 1, table, level => do
    let tableIndex := (virt.index level).toNat
    checkIndex 512 tableIndex
    let entry : PageEntry ← Prog.read fun s => s.memory (wordOf table tableIndex)
    if entry.isLeaf then
      let addr := entry.getPpn <<< 12
      pure (.ok (addr &&& ~~~level.mask ||| virt &&& level.mask))
    else if entry.isBranch then walkLoop hhdm virt steps (entry.table hhdm) level.below
    else pure (.error "Table not found")

/-- `virt_to_phys`, through the table that `satp` names. -/
def virtToPhys (hhdm : UInt64) (levels : Nat) (satp : Satp) (virt : VirtualAddress) :
    Kernel Pmm (Except String PhysicalAddress) :=
  walkLoop hhdm virt walkLimit (currentTable hhdm satp) (.fromUsize levels)

/-- One round of `clone_table_range`; `recurse` is its call on the tables below. -/
def cloneEntry (hhdm : UInt64) (recurse : UInt64 → UInt64 → Kernel Pmm Unit) (src dest : UInt64)
    (index : Nat) : Kernel Pmm Unit := do
  let loadEntry (table : UInt64) : Kernel Pmm PageEntry :=
    Prog.read fun s => s.memory (wordOf table index)
  let storeDest (entry : PageEntry) : Kernel Pmm Unit :=
    Prog.update fun s => { s with memory := s.memory.store (wordOf dest index) entry }
  let srcEntry ← loadEntry src
  if srcEntry.isBranch then do
    storeDest srcEntry
    let newTableAlloc ← FreeList.claim hhdm
    let newPhys := newTableAlloc - hhdm
    let destEntry ← loadEntry dest
    storeDest (destEntry.setPpn (newPhys >>> 12))
    let srcEntry ← loadEntry src
    recurse (srcEntry.table hhdm) newTableAlloc
  else if srcEntry.isLeaf then storeDest srcEntry
  else storeDest 0

/-- `clone_table_range` over a list of indices, for branches nested at most `depth` deep. -/
def cloneIndices (hhdm : UInt64) : Nat → UInt64 → UInt64 → List Nat → Kernel Pmm Unit
  | 0, src, dest, indices =>
    indices.forM (cloneEntry hhdm (fun _ _ => Prog.stop .unfinished) src dest)
  | depth + 1, src, dest, indices =>
    indices.forM (cloneEntry hhdm
      (fun old new => cloneIndices hhdm depth old new (List.range 512)) src dest)

/-- `clone_table_range` of the indices `start..stop`. -/
def cloneTableRange (hhdm src dest : UInt64) (start stop : Nat) : Kernel Pmm Unit :=
  cloneIndices hhdm walkLimit src dest (List.range' start (stop - start))

/-- `new_with_upperhalf`. -/
def newWithUpperhalf (hhdm : UInt64) (satp : Satp) : Kernel Pmm UInt64 := do
  let newTable ← FreeList.claim hhdm
  cloneTableRange hhdm (currentTable hhdm satp) newTable 256 512
  pure newTable

end Lsd
