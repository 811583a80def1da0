import Lsd.Verif.FrameSupply
import Lsd.Verif.PageTree

/-!
# Mapping and unmapping a page

`map` and `unmap` are edits of the page-table tree along the indices of the
address. Each branch of the two loops has its own lemma; the induction over the
height of the tree then says what a whole call does to every walk. Frames for new
tables come from a supply, and all that is asked of it is that the frames it
hands out lie outside the tables in use.
-/

namespace Lsd

open Program Radix

section Tables

variable {hhdm table page value : UInt64} {memory : Memory} {index other : Nat}

/-- Writing back a table with one entry changed stores that entry. -/
theorem writeTable_update {copy : TableCopy} (bound : index < 512)
    (same : ∀ other < 512, copy other = memory (wordOf table other)) :
    writeTable memory table (Function.update copy index value) =
      memory.store (wordOf table index) value := by
  funext address
  rw [writeTable, Memory.store]
  by_cases inside : (address - table).toNat < 4096 ∧ (address - table).toNat % 8 = 0
  · obtain ⟨number, whole⟩ : ∃ number, (address - table).toNat = 8 * number :=
      ⟨(address - table).toNat / 8, by omega⟩
    have small : number < 512 := by omega
    rw [if_pos inside, whole, Nat.mul_div_cancel_left _ (by decide), eq_wordOf whole]
    by_cases first : number = index
    · rw [first, Function.update_self, Function.update_self]
    · have apart : wordOf table number ≠ wordOf table index := by
        intro clash
        have numbers := congrArg (fun x => (x - table).toNat) clash
        simp only [wordOf_sub small, wordOf_sub bound] at numbers
        omega
      rw [Function.update_of_ne first, Function.update_of_ne apart, same number small]
  · have apart : address ≠ wordOf table index := by
      rintro rfl
      rw [wordOf_sub bound] at inside
      omega
    rw [if_neg inside, Function.update_of_ne apart]

/-- A blank table has only zero entries. -/
theorem writeTable_blank (bound : index < 512) :
    writeTable memory table (fun _ => 0) (wordOf table index) = 0 := by
  have offset : (wordOf table index - table).toNat = 8 * index := wordOf_sub bound
  rw [writeTable]
  exact if_pos (by omega)

/-- Writing a table leaves the rest of the memory alone. -/
theorem writeTable_changed (copy : TableCopy) :
    ChangedWithin {table} memory (writeTable memory table copy) := by
  intro address out
  rw [writeTable]
  refine if_neg fun inside => out ⟨table, rfl, (address - table).toNat / 8, by omega, ?_⟩
  exact eq_wordOf (Nat.mul_div_cancel' (Nat.dvd_of_mod_eq_zero inside.2)).symm

/-- The slot of an entry that was stored. -/
theorem slots_store :
    slots hhdm (memory.store (wordOf table index) value) table index =
      PageEntry.slot hhdm value := by
  rw [slots, Memory.store, Function.update_self]

/-- Storing an entry keeps every other slot. -/
theorem slots_store_ne (aligned : table % 4096 = 0) (pageAligned : page % 4096 = 0)
    (bound : index < 512) (small : other < 512) (apart : page ≠ table ∨ other ≠ index) :
    slots hhdm (memory.store (wordOf table index) value) page other =
      slots hhdm memory page other := by
  have distinct : wordOf page other ≠ wordOf table index := by
    intro same
    obtain ⟨samePage, sameIndex⟩ := wordOf_inj pageAligned aligned small bound same
    exact apart.elim (fun other => other samePage) (fun other => other sameIndex)
  rw [slots, slots, Memory.store, Function.update_of_ne distinct]

/-- The memory after a blank table was attached to an entry that held some word. -/
def attachBlank (hhdm : UInt64) (memory : Memory) (table : UInt64) (index : Nat) (entry : PageEntry)
    (frame : UInt64) : Memory :=
  (writeTable memory frame fun _ => 0).store (wordOf table index)
    ((entry.setPpn ((frame - hhdm) >>> 12)).setValid true)

variable {pages : Set UInt64} {old : Memory} {frame : UInt64}

/-- A blank table keeps the words of all other pages. -/
theorem writeTable_kept (pagesAligned : ∀ page ∈ pages, page % 4096 = 0)
    (fresh : FreshFrame hhdm pages frame)
    (kept : Kept pages old memory)
    (member : page ∈ pages) (bound : index < 512) (copy : TableCopy) :
    writeTable memory frame copy (wordOf page index) = old (wordOf page index) := by
  have single : ∀ other ∈ ({frame} : Set UInt64), other % 4096 = 0 := fun other same =>
    same ▸ fresh.aligned
  have apart : page ∉ ({frame} : Set UInt64) := fun same => fresh.outside (same ▸ member)
  rw [(writeTable_changed copy).word single (pagesAligned page member) bound apart,
    kept page member index bound]

/-- The words after a blank table was attached. -/
theorem attachBlank_words (entry : PageEntry) (pagesAligned : ∀ page ∈ pages, page % 4096 = 0)
    (fresh : FreshFrame hhdm pages frame) (kept : Kept pages old memory) (member : table ∈ pages)
    (bound : index < 512) :
    (∀ other < 512, attachBlank hhdm memory table index entry frame (wordOf frame other) = 0) ∧
      attachBlank hhdm memory table index entry frame (wordOf table index) =
        (entry.setPpn ((frame - hhdm) >>> 12)).setValid true ∧
      (∀ page ∈ pages, ∀ other < 512, page ≠ table ∨ other ≠ index →
        attachBlank hhdm memory table index entry frame (wordOf page other) =
          old (wordOf page other)) ∧
      ChangedWithin (insert frame pages) memory
        (attachBlank hhdm memory table index entry frame) := by
  have tableAligned := pagesAligned table member
  refine ⟨fun other small => ?_, Function.update_self .., fun page inside other small apart => ?_,
    ?_⟩
  · have distinct : wordOf frame other ≠ wordOf table index := fun same =>
      fresh.outside ((wordOf_inj fresh.aligned tableAligned small bound same).1 ▸ member)
    rw [attachBlank, Memory.store, Function.update_of_ne distinct, writeTable_blank small]
  · have distinct : wordOf page other ≠ wordOf table index := by
      intro same
      obtain ⟨samePage, sameIndex⟩ :=
        wordOf_inj (pagesAligned page inside) tableAligned small bound same
      exact apart.elim (fun other => other samePage) fun other => other sameIndex
    rw [attachBlank, Memory.store, Function.update_of_ne distinct,
      writeTable_kept pagesAligned fresh kept inside small]
  · have blanked : ChangedWithin (insert frame pages) memory (writeTable memory frame fun _ => 0) :=
      (writeTable_changed _).mono (Set.singleton_subset_iff.mpr (Set.mem_insert frame pages))
    exact blanked.trans (ChangedWithin.store _ (Set.mem_insert_of_mem _ member) bound _)

/-- What a claimed frame becomes when it is attached: a blank table under one entry. -/
theorem attachBlank_spec {entry : PageEntry} (mapAligned : hhdm % 4096 = 0)
    (pagesAligned : ∀ page ∈ pages, page % 4096 = 0) (fresh : FreshFrame hhdm pages frame)
    (kept : Kept pages old memory)
    (member : table ∈ pages) (bound : index < 512) (blank : entry.isBlank = true) :
    (∀ other < 512,
      slots hhdm (attachBlank hhdm memory table index entry frame) frame other = .empty) ∧
      slots hhdm (attachBlank hhdm memory table index entry frame) table index = .branch frame ∧
      (∀ page ∈ pages, ∀ other < 512, page ≠ table ∨ other ≠ index →
        attachBlank hhdm memory table index entry frame (wordOf page other) =
          old (wordOf page other)) ∧
      ChangedWithin (insert frame pages) memory
        (attachBlank hhdm memory table index entry frame) := by
  obtain ⟨branch, leads⟩ := newBranch_spec mapAligned fresh.aligned fresh.short blank
  obtain ⟨empty, attached, others, changed⟩ :=
    attachBlank_words entry pagesAligned fresh kept member bound
  refine ⟨fun other small => ?_, ?_, others, changed⟩
  · rw [slots, empty other small, slot_zero]
  · rw [slots, attached, slot_branch branch, leads]

end Tables

section Loop

/-- Reading a table changes nothing. -/
theorem run_loadTable (table : UInt64) (s : Pmm) :
    (loadTable table).run s = (.ok (readTable s.memory table), s) := rfl

/-- Writing a table changes the memory. -/
theorem run_storeTable (table : UInt64) (copy : TableCopy) (s : Pmm) :
    (storeTable table copy).run s = (.ok (), { s with memory := writeTable s.memory table copy }) :=
  rfl

variable {hhdm : UInt64} {virt : VirtualAddress} {phys : PhysicalAddress} {target level : PageLevel}
  {flags : PageFlags} {steps height : Nat} {table : UInt64} {s : Pmm}

/-- At its target level `map` writes the leaf. -/
theorem mapLoop_target (at_height : level.asUsize = height + 1) (here : level = target) :
    (mapLoop hhdm virt phys target flags (steps + 1) table level).run s =
      (.ok (), { s with
        memory := s.memory.store (wordOf table (virt.path (height + 1)))
          (leafEntry phys flags) }) := by
  have bound := virt.path_lt (height + 1)
  rw [mapLoop, virt.toNat_index at_height, Prog.run_bind_ok (run_loadTable _ _),
    Prog.run_bind_ok (run_checkIndex bound), if_pos here, run_storeTable,
    writeTable_update bound fun other _ => (rfl : readTable s.memory table other = _)]

/-- Above its target level `map` follows a branch. -/
theorem mapLoop_branch (at_height : level.asUsize = height + 1) (above : level ≠ target)
    {entry : PageEntry} (read : s.memory (wordOf table (virt.path (height + 1))) = entry)
    (branch : entry.isBranch = true) :
    (mapLoop hhdm virt phys target flags (steps + 1) table level).run s =
      (mapLoop hhdm virt phys target flags steps (entry.table hhdm) level.below).run s := by
  have bound := virt.path_lt (height + 1)
  rw [mapLoop, virt.toNat_index at_height, Prog.run_bind_ok (run_loadTable _ _),
    Prog.run_bind_ok (run_checkIndex bound), if_neg above]
  simp only [readTable, read]
  rw [if_pos branch, Prog.run_bind_ok (Prog.run_pure _ _)]
  rfl

/-- Above its target level `map` panics at a leaf, for a reason that depends on the entry only. -/
theorem mapLoop_stops (at_height : level.asUsize = height + 1) (above : level ≠ target)
    {entry : PageEntry} (leaf : entry.isLeaf = true) :
    ∃ message, ∀ t : Pmm, t.memory (wordOf table (virt.path (height + 1))) = entry →
      (mapLoop hhdm virt phys target flags (steps + 1) table level).run t =
        (.error (.panic message), t) := by
  have bound := virt.path_lt (height + 1)
  have notBranch := isBranch_eq_false_of_isLeaf leaf
  let index := virt.path (height + 1)
  let pointer := hex table
  refine ⟨s!"Didnt expect leaf at index {index} of table {pointer}", fun t read => ?_⟩
  rw [mapLoop, virt.toNat_index at_height, Prog.run_bind_ok (run_loadTable _ _),
    Prog.run_bind_ok (run_checkIndex bound), if_neg above]
  simp only [readTable, read]
  rw [if_neg (by rw [notBranch]; decide), if_pos leaf, Prog.run_bind_stop (Prog.run_stop _ _)]

/-- Above its target level `map` panics at a leaf, before it has written anything. -/
theorem mapLoop_leaf (at_height : level.asUsize = height + 1) (above : level ≠ target)
    {entry : PageEntry} (read : s.memory (wordOf table (virt.path (height + 1))) = entry)
    (leaf : entry.isLeaf = true) :
    ∃ message, (mapLoop hhdm virt phys target flags (steps + 1) table level).run s =
      (.error (.panic message), s) := by
  obtain ⟨message, stops⟩ := mapLoop_stops at_height above leaf
  exact ⟨message, stops s read⟩

/-- Above its target level `map` stays at the table where an entry is valid, but neither a branch
nor a leaf. -/
theorem mapLoop_through (at_height : level.asUsize = height + 1) (above : level ≠ target)
    {entry : PageEntry} (read : s.memory (wordOf table (virt.path (height + 1))) = entry)
    (notBranch : ¬ entry.isBranch = true) (notLeaf : ¬ entry.isLeaf = true)
    (valid : entry.getValid = true) :
    (mapLoop hhdm virt phys target flags (steps + 1) table level).run s =
      (mapLoop hhdm virt phys target flags steps table level.below).run s := by
  have bound := virt.path_lt (height + 1)
  rw [mapLoop, virt.toNat_index at_height, Prog.run_bind_ok (run_loadTable _ _),
    Prog.run_bind_ok (run_checkIndex bound), if_neg above]
  simp only [readTable, read]
  rw [if_neg notBranch, if_neg notLeaf, if_neg (by rw [valid]; decide),
    Prog.run_bind_ok (Prog.run_pure _ _)]

/-- Above its target level `map` attaches a blank table to an entry that is not valid. -/
theorem mapLoop_invalid (at_height : level.asUsize = height + 1) (above : level ≠ target)
    {entry : PageEntry} (read : s.memory (wordOf table (virt.path (height + 1))) = entry)
    (invalid : entry.getValid = false) {frame : UInt64} {s' : Pmm}
    (claimed : (FreeList.claim hhdm).run s = (.ok frame, s'))
    (kept : ∀ index < 512, writeTable s'.memory frame (fun _ => 0) (wordOf table index) =
      s.memory (wordOf table index)) :
    (mapLoop hhdm virt phys target flags (steps + 1) table level).run s =
      (mapLoop hhdm virt phys target flags steps frame level.below).run
        { s' with
          memory := attachBlank hhdm s'.memory table (virt.path (height + 1)) entry frame } := by
  have bound := virt.path_lt (height + 1)
  have notBranch : ¬ entry.isBranch = true := by simp [PageEntry.isBranch, invalid]
  have notLeaf : ¬ entry.isLeaf = true := by simp [PageEntry.isLeaf, invalid]
  rw [mapLoop, virt.toNat_index at_height, Prog.run_bind_ok (run_loadTable _ _),
    Prog.run_bind_ok (run_checkIndex bound), if_neg above]
  rw [attachBlank, ← writeTable_update bound fun index small => (kept index small).symm]
  have same : (fun index => s.memory (wordOf table index)) = readTable s.memory table := rfl
  simp only [readTable, read]
  rw [if_neg notBranch, if_neg notLeaf, if_pos (by rw [invalid]; rfl)]
  simp only [Prog.run_bind, claimed]
  rfl

/-- At its target level `unmap` takes a leaf out and returns its page. -/
theorem unmapLoop_target (at_height : level.asUsize = height + 1) (here : level = target)
    {entry : PageEntry} (read : s.memory (wordOf table (virt.path (height + 1))) = entry)
    (leaf : entry.isLeaf = true) :
    (unmapLoop hhdm virt target (steps + 1) table level).run s =
      (.ok (entry.getPpn <<< 12), { s with
        memory := s.memory.store (wordOf table (virt.path (height + 1))) 0 }) := by
  have bound := virt.path_lt (height + 1)
  rw [unmapLoop, virt.toNat_index at_height, Prog.run_bind_ok (run_loadTable _ _),
    Prog.run_bind_ok (run_checkIndex bound), if_pos here]
  rw [← writeTable_update bound fun other _ => (rfl : readTable s.memory table other = _)]
  simp only [readTable, read]
  rw [if_neg (by rw [leaf]; decide), Prog.run_bind_ok (run_storeTable _ _ _), Prog.run_pure]

/-- What a panic shows of a table depends on its entries only. -/
theorem dumpTable_congr {first second : TableCopy}
    (same : ∀ other < 512, first other = second other) : dumpTable first = dumpTable second := by
  rw [dumpTable, dumpTable]
  refine congrArg String.join (List.map_congr_left fun other member => ?_)
  rw [same other (List.mem_range.mp member)]

/-- What `unmap` says where it finds no entry. -/
def noEntryPanic (virt : VirtualAddress) (table : UInt64) (entry : PageEntry) (dump : String) :
    String :=
  let address := hex virt
  let pointer := hex table
  let word := hex entry
  s!"No entry found for virt {address}\ntable {pointer}\ndump: {dump}\nentry {word}"

/-- Where `unmap` neither takes out a leaf nor follows a branch it panics, for a reason that depends
on the words of the table only. -/
theorem unmapLoop_stops (at_height : level.asUsize = height + 1) {entry : PageEntry}
    (read : s.memory (wordOf table (virt.path (height + 1))) = entry)
    (neither : ¬ if level = target then entry.isLeaf = true else entry.isBranch = true) :
    ∃ message, ∀ t : Pmm,
      (∀ index < 512, t.memory (wordOf table index) = s.memory (wordOf table index)) →
      (unmapLoop hhdm virt target (steps + 1) table level).run t =
        (.error (.panic message), t) := by
  have bound := virt.path_lt (height + 1)
  by_cases here : level = target
  · rw [if_pos here] at neither
    refine ⟨"No leaf found while unmapping", fun t same => ?_⟩
    have there : readTable t.memory table (virt.path (height + 1)) = entry :=
      (same _ bound).trans read
    rw [unmapLoop, virt.toNat_index at_height, Prog.run_bind_ok (run_loadTable _ _),
      Prog.run_bind_ok (run_checkIndex bound), if_pos here, there, if_pos (by simpa using neither)]
    rfl
  · rw [if_neg here] at neither
    by_cases leaf : entry.isLeaf = true
    · refine ⟨"Unexpected entry", fun t same => ?_⟩
      have there : readTable t.memory table (virt.path (height + 1)) = entry :=
        (same _ bound).trans read
      rw [unmapLoop, virt.toNat_index at_height, Prog.run_bind_ok (run_loadTable _ _),
        Prog.run_bind_ok (run_checkIndex bound), if_neg here, there, if_pos leaf]
      rfl
    · refine ⟨noEntryPanic virt table entry (dumpTable (readTable s.memory table)),
        fun t same => ?_⟩
      have there : readTable t.memory table (virt.path (height + 1)) = entry :=
        (same _ bound).trans read
      have shown : dumpTable (readTable s.memory table) = dumpTable (readTable t.memory table) :=
        dumpTable_congr fun other small => (same other small).symm
      rw [unmapLoop, virt.toNat_index at_height, Prog.run_bind_ok (run_loadTable _ _),
        Prog.run_bind_ok (run_checkIndex bound), if_neg here, there, if_neg leaf, if_neg neither,
        shown]
      rfl

/-- At its target level `unmap` panics without a leaf. -/
theorem unmapLoop_noLeaf (at_height : level.asUsize = height + 1) (here : level = target)
    {entry : PageEntry} (read : s.memory (wordOf table (virt.path (height + 1))) = entry)
    (notLeaf : entry.isLeaf = false) :
    ∃ message, (unmapLoop hhdm virt target (steps + 1) table level).run s =
      (.error (.panic message), s) := by
  obtain ⟨message, stops⟩ := unmapLoop_stops (s := s) at_height read
    (by rw [if_pos here, notLeaf]; decide)
  exact ⟨message, stops s fun _ _ => rfl⟩

/-- Above its target level `unmap` follows a branch. -/
theorem unmapLoop_branch (at_height : level.asUsize = height + 1) (above : level ≠ target)
    {entry : PageEntry} (read : s.memory (wordOf table (virt.path (height + 1))) = entry)
    (branch : entry.isBranch = true) :
    (unmapLoop hhdm virt target (steps + 1) table level).run s =
      (unmapLoop hhdm virt target steps (entry.table hhdm) level.below).run s := by
  have bound := virt.path_lt (height + 1)
  rw [unmapLoop, virt.toNat_index at_height, Prog.run_bind_ok (run_loadTable _ _),
    Prog.run_bind_ok (run_checkIndex bound), if_neg above]
  simp only [readTable, read]
  rw [if_neg (by rw [isLeaf_eq_false_of_isBranch branch]; decide), if_pos branch]
  rfl

/-- Above its target level `unmap` panics where there is no branch. -/
theorem unmapLoop_noBranch (at_height : level.asUsize = height + 1) (above : level ≠ target)
    {entry : PageEntry} (read : s.memory (wordOf table (virt.path (height + 1))) = entry)
    (notBranch : entry.isBranch = false) :
    ∃ message, (unmapLoop hhdm virt target (steps + 1) table level).run s =
      (.error (.panic message), s) := by
  obtain ⟨message, stops⟩ := unmapLoop_stops (s := s) at_height read
    (by rw [if_neg above, notBranch]; decide)
  exact ⟨message, stops s fun _ _ => rfl⟩

end Loop

section Map

variable {hhdm : UInt64} {virt : VirtualAddress} {phys : PhysicalAddress} {target : PageLevel}
  {flags : PageFlags}

/-- A walk of `map` that meets a leaf above its target panics and has changed nothing. -/
theorem mapLoop_covered {steps height : Nat} {table : UInt64} {level : PageLevel} {s : Pmm}
    (at_height : level.asUsize = height + 1) (enough : height < steps)
    (sound : (slots hhdm s.memory table (virt.path (height + 1))).Sound
      (Tree (slots hhdm s.memory) 512 height))
    (covered : Covered hhdm s.memory (height + 1) table virt target) :
    ∃ message, (mapLoop hhdm virt phys target flags steps table level).run s =
      (.error (.panic message), s) := by
  induction steps generalizing height table level with
  | zero => omega
  | succ steps ih =>
    obtain ⟨high, entry, found, above⟩ := covered
    have low := find_le found
    have apart : level ≠ target := by
      rintro rfl
      omega
    rcases sound_cases sound with zero | leaf | ⟨branch, -, below⟩
    · rw [leafOf, find_empty (by rw [slots, zero, slot_zero])] at found
      cases found
    · exact mapLoop_leaf at_height apart rfl leaf
    · cases height with
      | zero => exact below.elim
      | succ height =>
        rw [mapLoop_branch at_height apart rfl branch]
        refine ih (PageLevel.asUsize_below at_height) (by omega)
          (below.sound _ (virt.path_lt (height + 1))) ⟨high, entry, ?_, above⟩
        rw [leafOf, ← find_branch (slot_branch branch)]
        exact found

/-- What a call of `map` or `unmap` makes of the tables under one entry. -/
abbrev Edits (hhdm : UInt64) (virt : VirtualAddress) (target : PageLevel)
    (content : Option (Nat × PageEntry)) (pages fresh : Set UInt64) (height : Nat) (table : UInt64)
    (old new : Memory) : Prop :=
  Edited 512 virt.path target.asUsize content pages fresh height table (slots hhdm old)
    (slots hhdm new)

/-- Whether a call of `map` or `unmap` only adds tables under the entry that the address takes. -/
abbrev Grows (hhdm : UInt64) (virt : VirtualAddress) (fresh : Set UInt64) (height : Nat)
    (table : UInt64) (old new : Memory) : Prop :=
  Grown 512 virt.path fresh height table (slots hhdm old) (slots hhdm new)

/-- What a table and its pages in use say of the child that one of its entries leads to. -/
theorem limbs_below {memory : Memory} {height index next : Nat} {table child : UInt64}
    {pages : Set UInt64} (slot : slots hhdm memory table index = .branch child)
    (limbs : PageLimbs hhdm memory {index} (height + 1) table)
    (inUse : reached hhdm memory (height + 1) table index ⊆ pages) (bound : next < 512) :
    (Tree (slots hhdm memory) 512 (height + 1) child ∧
      tables (slots hhdm memory) 512 (height + 1) child ⊆ pages ∧
      table ∉ tables (slots hhdm memory) 512 (height + 1) child) ∧
    PageLimbs hhdm memory {next} height child ∧ child ∈ pages ∧
      reached hhdm memory height child next ⊆ pages := by
  have sound := limbs.sound _ rfl
  have acyclic := limbs.acyclic _ rfl
  rw [reached, slot, Slot.under_branch] at inUse
  rw [slot, Slot.under_branch] at acyclic
  rw [slot] at sound
  exact ⟨⟨sound, inUse, acyclic⟩, Limbs.mono sound (Set.singleton_subset_iff.mpr bound),
    inUse mem_tables_self, (under_subset bound).trans inUse⟩

/-- What a call of `map` leaves behind, under one entry of a table. -/
structure Mapped (hhdm : UInt64) (stock : Nat → Set UInt64 → Pmm → Prop) (virt : VirtualAddress)
    (target : PageLevel) (content : Option (Nat × PageEntry)) (pages fresh : Set UInt64)
    (extra height : Nat) (table : UInt64) (s s' : Pmm) : Prop where
  /-- The tables it made were not in use. -/
  unused : Disjoint fresh pages
  /-- They are pages. -/
  aligned : ∀ page ∈ fresh, page % 4096 = 0
  /-- Pages in use that the entry does not reach keep their words. -/
  kept : Kept (pages \ insert table (reached hhdm s.memory height table (virt.path (height + 1))))
    s.memory s'.memory
  /-- The table keeps its other words. -/
  beside : ∀ index < 512, index ≠ virt.path (height + 1) →
    s'.memory (wordOf table index) = s.memory (wordOf table index)
  /-- The tables are edited along the address. -/
  edits : Edits hhdm virt target content pages fresh height table s.memory s'.memory
  /-- Further frames are left. -/
  supplies : stock extra (pages ∪ fresh) s'

/-- A state with one word of a table set to zero. -/
def Pmm.zeroWord (s : Pmm) (table : UInt64) (index : Nat) : Pmm :=
  { s with memory := s.memory.store (wordOf table index) 0 }

section Steps

variable {stock : Nat → Set UInt64 → Pmm → Prop} {steps height extra : Nat} {table : UInt64}
  {level : PageLevel} {pages : Set UInt64} {s : Pmm} {content : Option (Nat × PageEntry)}

/-- A word that is zero is not changed by setting it to zero. -/
theorem zeroWord_eq {index : Nat} (zero : s.memory (wordOf table index) = 0) :
    s.zeroWord table index = s := by
  unfold Pmm.zeroWord Memory.store
  rw [Function.update_eq_self_iff.mpr zero.symm]

/-- Zero is blank. -/
theorem isBlank_zero : PageEntry.isBlank 0 = true := by decide

/-- At its target level `map` writes the leaf. -/
theorem mapped_target (source : FrameSource hhdm stock) (maps : flags.Maps)
    (at_height : level.asUsize = height + 1) (here : level = target)
    (pagesAligned : ∀ page ∈ pages, page % 4096 = 0) (member : table ∈ pages)
    (supplied : stock extra pages s) :
    ∃ s', (mapLoop hhdm virt phys target flags (steps + 1) table level).run s = (.ok (), s') ∧
      Mapped hhdm stock virt target (some (target.asUsize, leafEntry phys flags)) pages
        ∅ extra height
        table s s' ∧
      (target.asUsize = 1 → Grows hhdm virt ∅ height table s.memory s'.memory) := by
  have tableAligned := pagesAligned table member
  have small := virt.path_lt (height + 1)
  have top : target.asUsize = height + 1 := here ▸ at_height
  have leaf := isLeaf_leafEntry phys maps
  refine ⟨_, mapLoop_target at_height here,
    ⟨Set.empty_disjoint _, fun _ => False.elim, ?_, ?_, ?_, ?_⟩, fun lowest => ?_⟩
  · apply (Kept.store _ pagesAligned tableAligned small _).mono
    intro page inside
    exact ⟨inside.1, fun same => inside.2 (.inl same)⟩
  · intro index bound other
    apply Function.update_of_ne
    exact fun same => other (wordOf_inj tableAligned tableAligned bound small same).2
  · rw [Edits, top]
    refine Edited.write (.leaf (leafEntry phys flags)) (fun _ => rfl) (fun _ => trivial) ?_
      (fun index bound other => ?_) (fun page inside index bound => ?_) fun other same => ?_
    · rw [slots_store, slot_leaf leaf]
    · exact slots_store_ne tableAligned tableAligned small bound (.inr other)
    · exact slots_store_ne tableAligned (pagesAligned page inside.1) small bound (.inl inside.2)
    · refine find_leaf ?_
      rw [same, slots_store, slot_leaf leaf]
  · rw [Set.union_empty]
    exact source.write supplied (ChangedWithin.store _ member small _)
  · obtain rfl : height = 0 := by omega
    exact .lowest

/-- Above its target level `map` makes a table under a blank entry and goes on there; the outcome is
as if the entry had been zero. -/
theorem mapped_attach (source : FrameSource hhdm stock) (mapAligned : hhdm % 4096 = 0)
    (at_height : level.asUsize = height + 2) (here : level ≠ target)
    (above : target.asUsize ≤ height + 1)
    (pagesAligned : ∀ page ∈ pages, page % 4096 = 0) (member : table ∈ pages)
    (blank : PageEntry.isBlank (s.memory (wordOf table (virt.path (height + 2)))) = true)
    {count : Nat}
    (supplied : stock (count + 1) pages s)
    (below : ∀ (frame : UInt64) (s₁ : Pmm), frame % 4096 = 0 → frame ∉ pages →
      (∀ index < 512, slots hhdm s₁.memory frame index = .empty) →
      stock count (insert frame pages) s₁ →
      ∃ s' taken, (mapLoop hhdm virt phys target flags steps frame level.below).run s₁ =
          (.ok (), s') ∧
        Mapped hhdm stock virt target content (insert frame pages) taken extra height frame s₁ s' ∧
        (target.asUsize = 1 → Grows hhdm virt taken height frame s₁.memory s'.memory)) :
    ∃ s' fresh, (mapLoop hhdm virt phys target flags (steps + 1) table level).run s = (.ok (), s') ∧
      Mapped hhdm stock virt target content pages fresh extra (height + 1) table
        (s.zeroWord table (virt.path (height + 2))) s' ∧
      (target.asUsize = 1 → Grows hhdm virt fresh (height + 1) table
        (s.zeroWord table (virt.path (height + 2))).memory s'.memory) := by
  have tableAligned := pagesAligned table member
  have small := virt.path_lt (height + 2)
  obtain ⟨frame, s₁, claimed, fresh, kept, rest⟩ := source.next supplied (ChangedWithin.refl _ _)
  obtain ⟨empty, attached, same, changed⟩ :=
    attachBlank_spec mapAligned pagesAligned fresh kept member small blank
  obtain ⟨s', taken, ran, mapped, grown⟩ := below frame _ fresh.aligned fresh.outside empty
    (source.write rest changed)
  have apart : ∀ page ∈ pages, page ≠ frame := fun page used clash => fresh.outside (clash ▸ used)
  -- the tables in use, from before the claim to the end
  have nothing : reached hhdm (attachBlank hhdm s₁.memory table (virt.path (height + 2))
      (s.memory (wordOf table (virt.path (height + 2)))) frame) height frame
      (virt.path (height + 1)) = ∅ := by
    rw [reached, empty _ (virt.path_lt _)]
    rfl
  have later : ∀ page ∈ pages, ∀ index < 512, s'.memory (wordOf page index) =
      attachBlank hhdm s₁.memory table (virt.path (height + 2))
        (s.memory (wordOf table (virt.path (height + 2)))) frame (wordOf page index) := by
    intro page used index bound
    refine mapped.kept page ⟨Set.mem_insert_of_mem _ used, ?_⟩ index bound
    rw [nothing]
    rintro (clash | none)
    · exact apart page used clash
    · exact none
  have zeroed : ∀ page ∈ pages, ∀ index < 512, page ≠ table ∨ index ≠ virt.path (height + 2) →
      (s.zeroWord table (virt.path (height + 2))).memory (wordOf page index) =
        s.memory (wordOf page index) := by
    intro page used index bound other
    apply Function.update_of_ne
    intro clash
    obtain ⟨samePage, sameIndex⟩ :=
      wordOf_inj (pagesAligned page used) tableAligned bound small clash
    exact other.elim (fun differ => differ samePage) fun differ => differ sameIndex
  have blanked : slots hhdm (s.zeroWord table (virt.path (height + 2))).memory table
      (virt.path (height + 2)) = .empty := slots_store.trans slot_zero
  refine ⟨s', insert frame taken, ?_, ⟨?_, ?_, ?_, ?_, ?_, ?_⟩, fun lowest => ?_⟩
  · rw [mapLoop_invalid at_height here rfl (isBlank_flags blank).1 claimed fun index bound =>
      writeTable_kept pagesAligned fresh kept member bound _]
    exact ran
  · refine Set.disjoint_left.mpr fun page inside used => ?_
    rcases inside with rfl | inside
    · exact fresh.outside used
    · exact Set.disjoint_left.mp mapped.unused inside (Set.mem_insert_of_mem _ used)
  · exact Set.forall_mem_insert.mpr ⟨fresh.aligned, mapped.aligned⟩
  · intro page inside index bound
    have other : page ≠ table := fun clash => inside.2 (.inl clash)
    rw [later page inside.1 index bound, same page inside.1 index bound (.inl other),
      zeroed page inside.1 index bound (.inl other)]
  · intro index bound other
    rw [later table member index bound, same table member index bound (.inr other),
      zeroed table member index bound (.inr other)]
  · refine mapped.edits.attach blanked empty attached (fun page used index bound other => ?_)
      fresh.outside member mapped.unused virt.path_lt above
    have word := (same page used index bound other).trans (zeroed page used index bound other).symm
    exact congrArg (PageEntry.slot hhdm) word
  · rw [Set.union_insert, ← Set.insert_union]
    exact mapped.supplies
  · exact (grown lowest).attach mapped.edits blanked empty attached fresh.outside
      member virt.path_lt

/-- A table whose entries are all zero is ready for a walk of `map`. -/
theorem blank_ready {memory : Memory} {frame : UInt64}
    (empty : ∀ index < 512, slots hhdm memory frame index = .empty) :
    PageLimbs hhdm memory {virt.path (height + 1)} height frame ∧
      reached hhdm memory height frame (virt.path (height + 1)) = ∅ ∧
      ¬ Covered hhdm memory (height + 1) frame virt target := by
  have small := virt.path_lt (height + 1)
  have tree : Limbs _ _ (Tree _ 512 height) (tables _ 512 height) frame := (blank_tree empty).1
  refine ⟨tree.mono (Set.singleton_subset_iff.mpr small), ?_, ?_⟩
  · rw [reached, empty _ small]
    rfl
  · rintro ⟨high, entry, found, -⟩
    rw [leafOf, find_empty (empty _ small)] at found
    cases found

/-- A walk of `map` that meets no leaf above its target writes the leaf there, making the tables
that it lacks out of claimed frames on its way. -/
theorem mapLoop_maps (source : FrameSource hhdm stock) (mapAligned : hhdm % 4096 = 0)
    (maps : flags.Maps) (positive : 1 ≤ target.asUsize) (at_height : level.asUsize = height + 1)
    (enough : height < steps) (reach : target.asUsize ≤ height + 1)
    (limbs : PageLimbs hhdm s.memory {virt.path (height + 1)} height table)
    (pagesAligned : ∀ page ∈ pages, page % 4096 = 0) (member : table ∈ pages)
    (inUse : reached hhdm s.memory height table (virt.path (height + 1)) ⊆ pages)
    (supplied : stock (missing (slots hhdm s.memory) virt.path target.asUsize (height + 1) table +
      extra) pages s)
    (uncovered : ¬ Covered hhdm s.memory (height + 1) table virt target) :
    ∃ s' fresh, (mapLoop hhdm virt phys target flags steps table level).run s = (.ok (), s') ∧
      Mapped hhdm stock virt target (some (target.asUsize, leafEntry phys flags)) pages fresh extra
        height table s s' ∧
      (target.asUsize = 1 → Grows hhdm virt fresh height table s.memory s'.memory) := by
  induction steps generalizing height table level pages s with
  | zero => omega
  | succ steps ih =>
    by_cases here : level = target
    · have rest : stock extra pages s := source.mono supplied (Nat.le_add_left _ _)
      obtain ⟨s', ran, mapped⟩ := mapped_target source maps at_height here pagesAligned member rest
      exact ⟨s', ∅, ran, mapped⟩
    · have above : target.asUsize ≤ height := by
        have apart : target.asUsize ≠ height + 1 := fun same =>
          here (PageLevel.asUsize_inj (at_height.trans same.symm))
        omega
      cases height with
      | zero => omega
      | succ height =>
        have sound := limbs.sound _ rfl
        rcases sound_cases sound with zero | leaf | ⟨branch, -, below⟩
        · have blank : PageEntry.isBlank
              (s.memory (wordOf table (virt.path (height + 2)))) = true := by
            rw [zero]
            exact isBlank_zero
          have more : missing (slots hhdm s.memory) virt.path target.asUsize
            (height + 2) table + extra =
              height + 1 - target.asUsize + extra + 1 := by
            rw [missing_above above fun child branch => by rw [slots, zero] at branch; cases branch]
            omega
          rw [more] at supplied
          suffices attached : ∃ s' fresh,
              (mapLoop hhdm virt phys target flags (steps + 1) table level).run s = (.ok (), s') ∧
                Mapped hhdm stock virt target
                  (some (target.asUsize, leafEntry phys flags)) pages fresh
                  extra (height + 1) table (s.zeroWord table (virt.path (height + 2))) s' ∧
                (target.asUsize = 1 → Grows hhdm virt fresh (height + 1) table
                  (s.zeroWord table (virt.path (height + 2))).memory s'.memory) by
            rwa [zeroWord_eq zero] at attached
          apply mapped_attach source mapAligned at_height here above pagesAligned member
            blank supplied
          intro frame s₁ frameAligned outside empty supplied
          obtain ⟨tree, nothing, uncovered⟩ := blank_ready empty
          exact ih (PageLevel.asUsize_below at_height) (by omega) above tree
            (Set.forall_mem_insert.mpr ⟨frameAligned, pagesAligned⟩) (Set.mem_insert _ _)
            (nothing ▸ Set.empty_subset _)
            (source.mono supplied (Nat.add_le_add_right missing_le _)) uncovered
        · refine absurd ⟨height + 2, _, find_leaf (slot_leaf leaf), ?_⟩ uncovered
          omega
        · have slot : slots hhdm s.memory table (virt.path (height + 2)) = _ := slot_branch branch
          obtain ⟨⟨tree, within, inside⟩, limbs', member', inUse'⟩ :=
            limbs_below slot limbs inUse (virt.path_lt (height + 1))
          rw [mapLoop_branch at_height here rfl branch]
          rw [missing_branch above slot] at supplied
          obtain ⟨s', fresh, ran, mapped, grown⟩ :=
            ih (PageLevel.asUsize_below at_height) (by omega)
            above limbs' pagesAligned member' inUse' supplied
            (by
              rintro ⟨high, entry, found, past⟩
              exact uncovered ⟨high, entry, (find_branch slot).trans found, past⟩)
          refine ⟨s', fresh, ran,
            ⟨mapped.unused, mapped.aligned, ?_, ?_, mapped.edits.descend slot tree
            within inside member mapped.unused virt.path_lt above, mapped.supplies⟩, fun lowest =>
              (grown lowest).descend mapped.edits slot tree within inside member virt.path_lt⟩
          · apply mapped.kept.mono
            intro page outside
            refine ⟨outside.1, fun under => outside.2 (.inr ?_)⟩
            rw [reached, slot, Slot.under_branch]
            rcases under with same | under
            · exact same ▸ mem_tables_self
            · exact under_subset (virt.path_lt _) under
          · intro index bound _
            refine mapped.kept table ⟨member, ?_⟩ index bound
            rintro (same | under)
            · exact inside (same ▸ mem_tables_self)
            · exact inside (under_subset (virt.path_lt _) under)

/-- A walk of `map` that begins at a blank entry makes a table there, whatever the other bits of the
entry were. -/
theorem mapLoop_makes (source : FrameSource hhdm stock) (mapAligned : hhdm % 4096 = 0)
    (maps : flags.Maps) (positive : 1 ≤ target.asUsize) (at_height : level.asUsize = height + 2)
    (enough : height < steps) (above : target.asUsize ≤ height + 1)
    (blank : PageEntry.isBlank (s.memory (wordOf table (virt.path (height + 2)))) = true)
    (pagesAligned : ∀ page ∈ pages, page % 4096 = 0) (member : table ∈ pages)
    (supplied : stock (height + 2 - target.asUsize + extra) pages s) :
    ∃ s' fresh, (mapLoop hhdm virt phys target flags (steps + 1) table level).run s = (.ok (), s') ∧
      Mapped hhdm stock virt target (some (target.asUsize, leafEntry phys flags)) pages fresh extra
        (height + 1) table (s.zeroWord table (virt.path (height + 2))) s' ∧
      (target.asUsize = 1 → Grows hhdm virt fresh (height + 1) table
        (s.zeroWord table (virt.path (height + 2))).memory s'.memory) := by
  have here : level ≠ target := by
    rintro rfl
    omega
  have more : height + 2 - target.asUsize + extra = height + 1 - target.asUsize + extra + 1 := by
    omega
  rw [more] at supplied
  apply mapped_attach source mapAligned at_height here above pagesAligned member blank supplied
  intro frame s₁ frameAligned outside empty supplied
  obtain ⟨tree, nothing, uncovered⟩ := blank_ready empty
  exact mapLoop_maps source mapAligned maps positive
    (PageLevel.asUsize_below at_height) enough above
    tree (Set.forall_mem_insert.mpr ⟨frameAligned, pagesAligned⟩) (Set.mem_insert _ _)
    (nothing ▸ Set.empty_subset _)
    (source.mono supplied (Nat.add_le_add_right missing_le _)) uncovered

end Steps

/-- A walk of `map` with as many claims as it may need edits the tables. -/
theorem mapLoop_edits (phys : PhysicalAddress) (mapAligned : hhdm % 4096 = 0) (maps : flags.Maps)
    (positive : 1 ≤ target.asUsize) {steps height : Nat} {table : UInt64} {level : PageLevel}
    {pages : Set UInt64} {s : Pmm} (at_height : level.asUsize = height + 1)
    (enough : height < steps) (reach : target.asUsize ≤ height + 1)
    (limbs : PageLimbs hhdm s.memory {virt.path (height + 1)} height table)
    (pagesAligned : ∀ page ∈ pages, page % 4096 = 0) (member : table ∈ pages)
    (inUse : reached hhdm s.memory height table (virt.path (height + 1)) ⊆ pages)
    (supplied : Supplies hhdm (height + 1 - target.asUsize) pages s)
    (uncovered : ¬ Covered hhdm s.memory (height + 1) table virt target) :
    ∃ s' fresh, (mapLoop hhdm virt phys target flags steps table level).run s = (.ok (), s') ∧
      Disjoint fresh pages ∧
      Edits hhdm virt target (some (target.asUsize, leafEntry phys flags)) pages fresh height table
        s.memory s'.memory := by
  have needed : Supplies hhdm (missing (slots hhdm s.memory) virt.path target.asUsize (height + 1)
      table + 0) pages s := supplied.mono missing_le
  obtain ⟨s', fresh, ran, mapped, -⟩ := mapLoop_maps (supplies_source hhdm) mapAligned maps positive
    at_height enough reach limbs pagesAligned member inUse needed uncovered
  exact ⟨s', fresh, ran, mapped.unused, mapped.edits⟩

/-- What a walk of `unmap` that took out a leaf has changed. -/
structure Unmapped (hhdm : UInt64) (virt : VirtualAddress) (target : PageLevel) (pages : Set UInt64)
    (height : Nat) (table : UInt64) (s s' : Pmm) : Prop where
  /-- The leaf is gone. -/
  edits : Edits hhdm virt target none pages ∅ height table s.memory s'.memory
  /-- No table is gone with a small page. -/
  grows : target.asUsize = 1 → Grows hhdm virt ∅ height table s.memory s'.memory
  /-- The frame list is the same. -/
  list : s'.regionList = s.regionList
  /-- Only tables were written. -/
  changed : ChangedWithin
    (insert table (reached hhdm s.memory height table (virt.path (height + 1))))
    s.memory s'.memory
  /-- The table keeps its other words. -/
  beside : ∀ index < 512, index ≠ virt.path (height + 1) →
    s'.memory (wordOf table index) = s.memory (wordOf table index)

/-- `unmap` takes out a leaf at its target level. It writes to the table that held the leaf only,
and keeps the frame list and all tables. -/
theorem unmapLoop_edits (positive : 1 ≤ target.asUsize) {steps height : Nat} {table : UInt64}
    {level : PageLevel} {pages : Set UInt64} {s : Pmm} {entry : PageEntry}
    (at_height : level.asUsize = height + 1) (enough : height < steps)
    (reach : target.asUsize ≤ height + 1)
    (limbs : PageLimbs hhdm s.memory {virt.path (height + 1)} height table)
    (pagesAligned : ∀ page ∈ pages, page % 4096 = 0) (member : table ∈ pages)
    (inUse : reached hhdm s.memory height table (virt.path (height + 1)) ⊆ pages)
    (found : leafOf hhdm s.memory (height + 1) table virt = some (target.asUsize, entry)) :
    ∃ s', (unmapLoop hhdm virt target steps table level).run s = (.ok (entry.getPpn <<< 12), s') ∧
      Unmapped hhdm virt target pages height table s s' := by
  have tableAligned := pagesAligned table member
  have small := virt.path_lt (height + 1)
  induction steps generalizing height table level with
  | zero => omega
  | succ steps ih =>
    have sound := limbs.sound _ rfl
    by_cases here : level = target
    · have top : target.asUsize = height + 1 := here ▸ at_height
      rcases sound_cases sound with zero | leaf | ⟨branch, -, -⟩
      · rw [leafOf, find_empty (by rw [slots, zero, slot_zero])] at found
        cases found
      · rw [leafOf, find_leaf (slot_leaf leaf)] at found
        obtain ⟨-, same⟩ : _ ∧ s.memory (wordOf table (virt.path (height + 1))) = entry := by
          simpa using found
        refine ⟨_, unmapLoop_target at_height here same (same ▸ leaf), ?_, fun lowest => ?_, rfl,
          ChangedWithin.store _ (Set.mem_insert _ _) small _, fun index bound other => ?_⟩
        · rw [Edits, top]
          refine Edited.write .empty (fun _ => rfl) (fun _ => trivial) ?_
            (fun index bound other => ?_) (fun page inside index bound => ?_) fun other same => ?_
          · rw [slots_store, slot_zero]
          · exact slots_store_ne tableAligned tableAligned small bound (.inr other)
          · exact slots_store_ne tableAligned (pagesAligned page inside.1) small bound
              (.inl inside.2)
          · refine find_empty ?_
            rw [same, slots_store, slot_zero]
        · obtain rfl : height = 0 := by omega
          exact .lowest
        · apply Function.update_of_ne
          exact fun clash => other (wordOf_inj tableAligned tableAligned bound small clash).2
      · rw [leafOf, find_branch (slot_branch branch)] at found
        have := find_le found
        omega
    · have above : target.asUsize ≤ height := by
        have apart : target.asUsize ≠ height + 1 := fun same =>
          here (PageLevel.asUsize_inj (at_height.trans same.symm))
        omega
      cases height with
      | zero => omega
      | succ height =>
        rcases sound_cases sound with zero | leaf | ⟨branch, -, below⟩
        · rw [leafOf, find_empty (by rw [slots, zero, slot_zero])] at found
          cases found
        · rw [leafOf, find_leaf (slot_leaf leaf)] at found
          obtain ⟨high, -⟩ : height + 2 = target.asUsize ∧ _ := by simpa using found
          omega
        · have slot : slots hhdm s.memory table (virt.path (height + 2)) = _ := slot_branch branch
          obtain ⟨⟨tree, within, inside⟩, limbs', member', inUse'⟩ :=
            limbs_below slot limbs inUse (virt.path_lt (height + 1))
          rw [unmapLoop_branch at_height here rfl branch]
          obtain ⟨s', ran, edited, grown, list, changed, -⟩ :=
            ih (PageLevel.asUsize_below at_height)
            (by omega) above limbs' member' inUse' ((find_branch slot).symm.trans found)
            (pagesAligned _ member') (virt.path_lt (height + 1))
          have whole : reached hhdm s.memory (height + 1) table (virt.path (height + 2)) =
              tables (slots hhdm s.memory) 512 (height + 1) _ := congrArg (Slot.under _) slot
          have written := changed.mono (Set.insert_subset mem_tables_self
            (under_subset (virt.path_lt (height + 1))))
          refine ⟨s', ran, edited.descend slot tree within inside member (Set.empty_disjoint _)
            virt.path_lt above, fun lowest => (grown lowest).descend edited slot tree within inside
              member virt.path_lt, list, ?_, fun index bound _ => ?_⟩
          · rw [whole]
            exact written.mono (Set.subset_insert _ _)
          · exact written.word (fun page reached => pagesAligned page (within reached)) tableAligned
              bound inside

/-- `unmap` panics where no leaf stands at its target level, and has changed nothing. -/
theorem unmapLoop_refused {steps height : Nat} {table : UInt64} {level : PageLevel} {s : Pmm}
    (at_height : level.asUsize = height + 1) (enough : height < steps)
    (sound : (slots hhdm s.memory table (virt.path (height + 1))).Sound
      (Tree (slots hhdm s.memory) 512 height))
    (absent : ∀ entry, leafOf hhdm s.memory (height + 1) table virt ≠
      some (target.asUsize, entry)) :
    ∃ message, (unmapLoop hhdm virt target steps table level).run s =
      (.error (.panic message), s) := by
  induction steps generalizing height table level with
  | zero => omega
  | succ steps ih =>
    by_cases here : level = target
    · have top : target.asUsize = height + 1 := here ▸ at_height
      by_cases leaf : PageEntry.isLeaf (s.memory (wordOf table (virt.path (height + 1)))) = true
      · refine absurd ?_ (absent (s.memory (wordOf table (virt.path (height + 1)))))
        rw [top]
        exact find_leaf (slot_leaf leaf)
      · exact unmapLoop_noLeaf at_height here rfl (Bool.not_eq_true _ ▸ leaf)
    · by_cases branch :
          PageEntry.isBranch (s.memory (wordOf table (virt.path (height + 1)))) = true
      · have slot : slots hhdm s.memory table (virt.path (height + 1)) = _ := slot_branch branch
        rw [slot] at sound
        cases height with
        | zero => exact sound.elim
        | succ height =>
          rw [unmapLoop_branch at_height here rfl branch]
          exact ih (PageLevel.asUsize_below at_height) (by omega)
            (Limbs.sound sound _ (virt.path_lt (height + 1)))
            fun entry found => absent entry ((find_branch slot).trans found)
      · exact unmapLoop_noBranch at_height here rfl (Bool.not_eq_true _ ▸ branch)

end Map

end Lsd
