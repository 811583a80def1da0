import Lsd.Verif.FreshTable
import Lsd.Verif.Touched

/-!
# Heights of tables

Whether an entry leads to a table is told from its flags alone. The walks keep to
tables as long as every entry of a table that looks like a branch leads to a table
one height below: the height says which pages are tables, and how many levels a
walk from there can go down. `map` and `unmap` keep the heights when the entry that
`map` writes does not look like a branch and the list has a frame to spare.
-/

namespace Lsd

open Program Twin

/-- Heights of the pages that are tables: a branch leads to a table one height below. -/
structure Ranked (hhdm : UInt64) (memory : Memory) (rank : UInt64 → Nat) : Prop where
  /-- Tables are pages. -/
  aligned : ∀ page, 0 < rank page → page % 4096 = 0
  /-- A branch of a table leads to a table. -/
  below : ∀ page, 0 < rank page → ∀ index < 512,
    PageEntry.isBranch (memory (wordOf page index)) = true →
      0 < rank (PageEntry.table hhdm (memory (wordOf page index))) ∧
        rank (PageEntry.table hhdm (memory (wordOf page index))) + 1 = rank page

/-- The pages that are tables. -/
def ranked (rank : UInt64 → Nat) : Set UInt64 := {page | 0 < rank page}

/-- A list with more than one node begins with two of them. -/
theorem exists_two {nodes : List UInt64} (several : 1 < nodes.length) :
    ∃ first second rest, nodes = first :: second :: rest := by
  cases nodes with
  | nil => simp at several
  | cons first rest =>
    cases rest with
    | nil => simp at several
    | cons second rest => exact ⟨first, second, rest, rfl⟩

/-- Writing the same table in two memories is alike. -/
theorem alike_writeTable {writes : Set UInt64} {old other new newer : Memory} {frame : UInt64}
    {copy : TableCopy} (alike : Alike writes old other new newer)
    (inside : ∀ index < 512, wordOf frame index ∈ writes) :
    Alike writes old other (writeTable new frame copy) (writeTable newer frame copy) := by
  intro place
  rw [writeTable, writeTable]
  split
  · next within =>
    have word := eq_wordOf (Nat.mul_div_cancel' (Nat.dvd_of_mod_eq_zero within.2)).symm
    have bound : (place - frame).toNat / 8 < 512 := by omega
    exact .inl ⟨word ▸ inside _ bound, rfl⟩
  · exact alike place

section Walk

variable {hhdm table : UInt64} {virt : VirtualAddress} {rank : UInt64 → Nat} {s t : Pmm}
  {steps height : Nat} {level target : PageLevel}

/-- A leaf or a branch in a table, seen from a state with the same tables. -/
theorem Twins.entry {pages : Set UInt64} {nodes : List UInt64} (twins : Twins pages nodes s t)
    (member : table ∈ pages) : t.memory (wordOf table (virt.path (height + 1))) =
      s.memory (wordOf table (virt.path (height + 1))) :=
  twins.word member (virt.path_lt (height + 1))

/-- `virt_to_phys` follows a branch. -/
theorem walkLoop_branch (at_height : level.asUsize = height + 1) {entry : PageEntry}
    (read : s.memory (wordOf table (virt.path (height + 1))) = entry)
    (branch : entry.isBranch = true) :
    (walkLoop hhdm virt (steps + 1) table level).run s =
      (walkLoop hhdm virt steps (entry.table hhdm) level.below).run s := by
  rw [walkLoop, virt.toNat_index at_height, Prog.run_bind_ok (run_checkIndex (virt.path_lt _)),
    Prog.run_bind_ok (Prog.run_read _ _), read,
    if_neg (by rw [isLeaf_eq_false_of_isBranch branch]; decide), if_pos branch]

/-- What `virt_to_phys` makes of an entry that is no branch. -/
def walkEnd (virt : VirtualAddress) (level : PageLevel) (entry : PageEntry) :
    Except String PhysicalAddress :=
  if entry.isLeaf then .ok (entry.getPpn <<< 12 &&& ~~~level.mask ||| virt &&& level.mask)
  else .error "Table not found"

/-- `virt_to_phys` ends at an entry that is no branch. -/
theorem walkLoop_last (at_height : level.asUsize = height + 1) {entry : PageEntry}
    (read : s.memory (wordOf table (virt.path (height + 1))) = entry)
    (notBranch : ¬ entry.isBranch = true) :
    (walkLoop hhdm virt (steps + 1) table level).run s =
      (.ok (walkEnd virt level entry), s) := by
  rw [walkLoop, virt.toNat_index at_height, Prog.run_bind_ok (run_checkIndex (virt.path_lt _)),
    Prog.run_bind_ok (Prog.run_read _ _), read, if_neg notBranch, walkEnd]
  split <;> rfl

/-- `virt_to_phys` ends after at most as many steps as its table is high, and depends on the words
of tables only. -/
theorem walkLoop_ends (virt : VirtualAddress) (tree : Ranked hhdm s.memory rank)
    (at_height : level.asUsize = height + 1)
    (ranks : rank table = height + 1) :
    ∃ result, ∀ steps, height < steps → ∀ t, Twins (ranked rank) [] s t →
      (walkLoop hhdm virt steps table level).run t = (.ok result, t) := by
  -- the induction is on the height of the table, which every branch brings down by one
  induction height using Nat.strong_induction_on generalizing table level with
  | _ height ih =>
  have positive : 0 < rank table := by omega
  by_cases branch : PageEntry.isBranch (s.memory (wordOf table (virt.path (height + 1)))) = true
  · obtain ⟨above, one⟩ := tree.below table positive _ (virt.path_lt (height + 1)) branch
    obtain ⟨lower, rfl⟩ : ∃ lower, height = lower + 1 := ⟨height - 1, by omega⟩
    obtain ⟨result, ends⟩ := ih lower (Nat.lt_succ_self lower) (PageLevel.asUsize_below at_height)
      (Nat.succ_injective (one.trans ranks))
    refine ⟨result, fun steps enough t twins => ?_⟩
    obtain ⟨fewer, rfl⟩ : ∃ fewer, steps = fewer + 1 := ⟨steps - 1, by omega⟩
    rw [walkLoop_branch at_height (twins.entry positive) branch]
    exact ends fewer (by omega) t twins
  · refine ⟨walkEnd virt level (s.memory (wordOf table (virt.path (height + 1)))),
      fun steps enough t twins => ?_⟩
    obtain ⟨fewer, rfl⟩ : ∃ fewer, steps = fewer + 1 := ⟨steps - 1, by omega⟩
    exact walkLoop_last at_height (twins.entry positive) branch

/-- Storing an entry that is no branch in a table keeps the heights. -/
theorem Ranked.store (tree : Ranked hhdm s.memory rank) {index : Nat} {entry : PageEntry}
    (notBranch : ¬ entry.isBranch = true) :
    Ranked hhdm (s.memory.store (wordOf table index) entry) rank := by
  refine ⟨tree.aligned, fun page inside other small => ?_⟩
  by_cases here : wordOf page other = wordOf table index
  · rw [here, Memory.store, Function.update_self]
    exact fun branch => absurd branch notBranch
  · rw [Memory.store, Function.update_of_ne here]
    exact tree.below page inside other small

/-- `unmap` keeps the heights, leaves the frame list alone, and touches only words of tables. -/
theorem unmapLoop_touches (virt : VirtualAddress) (target : PageLevel)
    (tree : Ranked hhdm s.memory rank) (at_height : level.asUsize = height + 1)
    (ranks : rank table = height + 1) (enough : height < steps) :
    ∃ result s', (unmapLoop hhdm virt target steps table level).run s = (result, s') ∧
      s'.regionList = s.regionList ∧ Ranked hhdm s'.memory rank ∧
      TouchesOnly (ranked rank) [] (cells (ranked rank) [])
        (unmapLoop hhdm virt target steps table level) s := by
  induction height using Nat.strong_induction_on generalizing table level steps with
  | _ height ih =>
  have positive : 0 < rank table := by omega
  have bound := virt.path_lt (height + 1)
  obtain ⟨fewer, rfl⟩ : ∃ fewer, steps = fewer + 1 := ⟨steps - 1, by omega⟩
  by_cases neither : ¬ if level = target
      then PageEntry.isLeaf (s.memory (wordOf table (virt.path (height + 1)))) = true
      else PageEntry.isBranch (s.memory (wordOf table (virt.path (height + 1)))) = true
  · obtain ⟨message, stops⟩ := @unmapLoop_stops hhdm virt target level fewer height table s
      at_height _ rfl neither
    exact ⟨_, s, stops s fun _ _ => rfl, rfl, tree, .rest fun t twins =>
      stops t fun _ small => twins.word positive small⟩
  rw [not_not] at neither
  by_cases here : level = target
  · rw [if_pos here] at neither
    refine ⟨_, _, unmapLoop_target at_height here rfl neither, rfl, tree.store (by decide), ?_⟩
    exact .store (mem_cells positive bound) fun t twins =>
      unmapLoop_target at_height here (twins.entry positive) neither
  · rw [if_neg here] at neither
    obtain ⟨above, one⟩ := tree.below table positive _ bound neither
    obtain ⟨lower, rfl⟩ : ∃ lower, height = lower + 1 := ⟨height - 1, by omega⟩
    obtain ⟨result, s', ran, list, kept, touches⟩ := ih lower (Nat.lt_succ_self lower)
      (PageLevel.asUsize_below at_height) (Nat.succ_injective (one.trans ranks))
      (Nat.lt_of_succ_lt_succ enough)
    refine ⟨result, s', (unmapLoop_branch at_height here rfl neither).trans ran, list, kept, ?_⟩
    exact touches.congr fun t twins =>
      unmapLoop_branch at_height here (twins.entry positive) neither

/-- Attaching a blank table keeps the heights, and the new table is one below. -/
theorem Ranked.attach {memory : Memory} {frame : UInt64} {index : Nat} {entry : PageEntry}
    (mapAligned : hhdm % 4096 = 0) (tree : Ranked hhdm s.memory rank)
    (fresh : FreshFrame hhdm (ranked rank) frame) (kept : Kept (ranked rank) s.memory memory)
    (above : 1 < rank table) (bound : index < 512) :
    Ranked hhdm (attachBlank hhdm memory table index entry frame)
      (Function.update rank frame (rank table - 1)) := by
  obtain ⟨empty, attached, others, -⟩ := attachBlank_words entry tree.aligned fresh kept
    (show table ∈ ranked rank from Nat.lt_of_succ_lt above) bound
  have old : ∀ page, 0 < rank page → page ≠ frame := fun page positive same =>
    fresh.outside (same ▸ positive)
  constructor
  case aligned =>
    intro page positive
    by_cases new : page = frame
    · exact new ▸ fresh.aligned
    · rw [Function.update_of_ne new] at positive
      exact tree.aligned page positive
  case below =>
    intro page positive other small
    by_cases new : page = frame
    · rw [new, empty other small]
      exact fun branch => absurd branch (by decide)
    · rw [Function.update_of_ne new] at positive ⊢
      by_cases here : page = table ∧ other = index
      · obtain ⟨rfl, rfl⟩ := here
        rw [attached, PageEntry.table, getPpn_setValid]
        have leads := @table_setPpn hhdm frame entry mapAligned fresh.aligned fresh.short
        rw [PageEntry.table] at leads
        rw [leads, Function.update_self]
        exact fun _ => ⟨by omega, by omega⟩
      · rw [others page positive other small (by tauto)]
        intro branch
        obtain ⟨lower, one⟩ := tree.below page positive other small branch
        rw [Function.update_of_ne (old _ lower)]
        exact ⟨lower, one⟩

/-- The tables that `map` makes on its way from a table down to its target. -/
def lacking (hhdm : UInt64) (memory : Memory) (virt : VirtualAddress) (target : Nat) :
    Nat → UInt64 → Nat
  | 0, _ => 0
  | height + 1, table =>
    let entry : PageEntry := memory (wordOf table (virt.path (height + 1)))
    if height + 1 ≤ target then 0
    else if entry.isBranch then lacking hhdm memory virt target height (entry.table hhdm)
    else if entry.isLeaf then 0
    else if entry.getValid then lacking hhdm memory virt target height table
    else height + 1 - target

/-- At most one table is made for each height above the target. -/
theorem lacking_le {memory : Memory} {goal : Nat} :
    lacking hhdm memory virt goal height table ≤ height - goal := by
  induction height generalizing table with
  | zero => exact Nat.zero_le _
  | succ height ih =>
    rw [lacking]
    split
    · exact Nat.zero_le _
    · split
      · exact ih.trans (by omega)
      · split
        · exact Nat.zero_le _
        · split
          · exact ih.trans (by omega)
          · exact Nat.le_refl _

/-- Whether the entry that `map` writes with some flags is told from a branch. -/
def PageFlags.Tells (flags : PageFlags) : Prop := flags.Maps ∨ getBit 4 flags.bits = true

/-- The entry that `map` writes is no branch then. -/
theorem isBranch_leafEntry (phys : PhysicalAddress) {flags : PageFlags} (tells : flags.Tells) :
    ¬ PageEntry.isBranch (leafEntry phys flags) = true := by
  rcases tells with maps | user
  · rw [isBranch_eq_false_of_isLeaf (isLeaf_leafEntry phys maps)]
    decide
  · have kept : PageEntry.getUser (leafEntry phys flags) = true :=
      (getBit_leafEntry phys flags (by decide) (by decide)).trans user
    simp [PageEntry.isBranch, kept]

/-- What a call of `map` makes of the heights and the frame list. -/
structure Made (hhdm : UInt64) (rank later : UInt64 → Nat) (taken rest : List UInt64)
    (tells : Prop) (s' : Pmm) : Prop where
  /-- Tables keep their heights. -/
  ranks : ∀ page, 0 < rank page → later page = rank page
  /-- The frames that were taken are tables now. -/
  tables : ranked later = ranked rank ∪ {page | page ∈ taken}
  /-- The other frames are left. -/
  stock : Stock hhdm (ranked later) s' rest
  /-- Branches lead to tables, if the entry that was written is told from a branch. -/
  tree : tells → Ranked hhdm s'.memory later

variable {phys : PhysicalAddress} {flags : PageFlags} {nodes : List UInt64}

/-- The state after `map` took the first frame for a table, with another frame behind it. -/
def Pmm.attach (hhdm : UInt64) (s : Pmm) (table : UInt64) (index : Nat) (entry : PageEntry)
    (frame behind : UInt64) : Pmm :=
  ⟨⟨behind, s.regionList.tail, s.regionList.len - 1⟩,
    attachBlank hhdm (s.memory.store behind 0) table index entry frame⟩

section Attach

variable {frame behind : UInt64} {rest : List UInt64} {entry : PageEntry} {index : Nat}

/-- Taking the first frame of the stock leaves the tables alone. -/
theorem Stock.kept_claim {pages : Set UInt64}
    (stock : Stock hhdm pages s (frame :: behind :: rest)) :
    Kept pages s.memory (s.memory.store behind 0) := by
  intro page member other small
  have aligned := (stock.holds.frames behind (by simp)).aligned
  refine Function.update_of_ne (fun same => ?_) _ _
  rw [← wordOf_zero behind] at same
  have clash := (wordOf_inj (stock.pagesAligned page member) aligned small (by decide) same).1
  exact stock.apart behind (by simp) (clash ▸ member)

/-- The tables after one more was made. -/
theorem ranked_update {height : Nat} (positive : 0 < height) :
    ranked (Function.update rank frame height) = insert frame (ranked rank) := by
  ext page
  by_cases new : page = frame
  · subst new
    simp [ranked, positive]
  · simp [ranked, new]

/-- The stock after the first frame became a table. -/
theorem Stock.attach (stock : Stock hhdm (ranked rank) s (frame :: behind :: rest))
    (above : 1 < rank table) (bound : index < 512) :
    Stock hhdm (ranked (Function.update rank frame (rank table - 1)))
      (s.attach hhdm table index entry frame behind) (behind :: rest) := by
  obtain ⟨s₁, ran, -, -, -, later⟩ := stock.claim
  obtain ⟨-, rfl⟩ := Prod.mk.inj
    ((FreeList.claim_run stock.holds (stock.inMap behind (by simp)).1).symm.trans ran)
  rw [ranked_update (by omega)]
  have member : table ∈ ranked rank := Nat.lt_of_succ_lt above
  exact later.write (attachBlank_words entry stock.pagesAligned (stock.fresh List.mem_cons_self)
    stock.kept_claim member bound).2.2.2

/-- States with the same tables and list still have them after the first frame became a table. -/
theorem Twins.attach (stock : Stock hhdm (ranked rank) s (frame :: behind :: rest))
    (twins : Twins (ranked rank) (frame :: behind :: rest) s t)
    (above : 1 < rank table) (bound : index < 512) :
    Twins (ranked (Function.update rank frame (rank table - 1))) (behind :: rest)
        (s.attach hhdm table index entry frame behind)
        (t.attach hhdm table index entry frame behind) ∧
      Alike (cells (ranked (Function.update rank frame (rank table - 1)))
          (frame :: behind :: rest)) s.memory t.memory
        (s.attach hhdm table index entry frame behind).memory
        (t.attach hhdm table index entry frame behind).memory := by
  have member : table ∈ ranked rank := Nat.lt_of_succ_lt above
  have fresh := stock.fresh List.mem_cons_self
  rw [ranked_update (by omega)]
  have alike : Alike (cells (insert frame (ranked rank)) (frame :: behind :: rest))
      s.memory t.memory (s.attach hhdm table index entry frame behind).memory
      (t.attach hhdm table index entry frame behind).memory := by
    refine Alike.update (alike_writeTable (Alike.refl.update ?_) fun other small => ?_) ?_
    · exact .inr ⟨behind, by simp, .inl rfl⟩
    · exact mem_cells (Set.mem_insert _ _) small
    · exact mem_cells (Set.mem_insert_of_mem _ member) bound
  refine ⟨⟨?_, ?_⟩, alike⟩
  · rw [Pmm.attach, Pmm.attach, twins.list]
  · rintro address (⟨page, inside, other, small, rfl⟩ | ⟨node, listed, link⟩)
    · rcases inside with rfl | inside
      · -- the new table is blank in both states
        have blank := fun {u : Pmm} (later : Stock hhdm (ranked rank) u (page :: behind :: rest)) =>
          (attachBlank_words entry later.pagesAligned fresh later.kept_claim member
            bound).1 other small
        exact (blank (twins.stock stock)).trans (blank stock).symm
      · exact alike.agree (twins.word inside small)
    · exact alike.agree (twins.words _ (.inr ⟨node, List.mem_cons_of_mem _ listed, link⟩))

/-- Above its target level `map` makes the first frame of the stock a table under an entry that is
not valid. -/
theorem mapLoop_attach (stock : Stock hhdm (ranked rank) s (frame :: behind :: rest))
    (at_height : level.asUsize = height + 1) (above : level ≠ target) (positive : 0 < rank table)
    (read : s.memory (wordOf table (virt.path (height + 1))) = entry)
    (invalid : entry.getValid = false) :
    (mapLoop hhdm virt phys target flags (steps + 1) table level).run s =
      (mapLoop hhdm virt phys target flags steps frame level.below).run
        (s.attach hhdm table (virt.path (height + 1)) entry frame behind) := by
  have inMap := (stock.inMap behind (by simp)).1
  exact mapLoop_invalid at_height above read invalid (FreeList.claim_run stock.holds inMap)
    fun other small => writeTable_kept stock.pagesAligned (stock.fresh List.mem_cons_self)
      stock.kept_claim positive small _

end Attach

/-- `map` with enough frames: it touches the words of tables, those that it makes included, and the
links of the frame list only. -/
theorem mapLoop_touches (phys : PhysicalAddress) (flags : PageFlags)
    (mapAligned : hhdm % 4096 = 0) (low : 1 ≤ target.asUsize)
    (tree : Ranked hhdm s.memory rank) (stock : Stock hhdm (ranked rank) s nodes)
    (at_height : level.asUsize = height + 1) (reach : target.asUsize ≤ height + 1)
    (ranks : height + 1 ≤ rank table) (enough : height < steps)
    (spare : lacking hhdm s.memory virt target.asUsize (height + 1) table < nodes.length) :
    ∃ result s' later taken rest, nodes = taken ++ rest ∧
      (mapLoop hhdm virt phys target flags steps table level).run s = (result, s') ∧
      Made hhdm rank later taken rest flags.Tells s' ∧
      TouchesOnly (ranked rank) nodes (cells (ranked later) nodes)
        (mapLoop hhdm virt phys target flags steps table level) s := by
  -- the level goes down by one in each round, whether or not the table changes
  induction height using Nat.strong_induction_on generalizing table level steps s rank nodes with
  | _ height ih =>
  have positive : 0 < rank table := by omega
  have bound := virt.path_lt (height + 1)
  have nothing : ranked rank = ranked rank ∪ {page | page ∈ ([] : List UInt64)} := by simp
  obtain ⟨fewer, rfl⟩ : ∃ fewer, steps = fewer + 1 := ⟨steps - 1, by omega⟩
  by_cases here : level = target
  · refine ⟨_, _, rank, [], nodes, rfl, mapLoop_target at_height here, ⟨fun _ _ => rfl, nothing,
      stock.write (ChangedWithin.store _ positive bound _), fun tells =>
        tree.store (isBranch_leafEntry phys tells)⟩, ?_⟩
    exact .store (mem_cells positive bound) fun t twins => mapLoop_target at_height here
  have above : target.asUsize ≤ height := by
    have apart : target.asUsize ≠ height + 1 := fun same =>
      here (PageLevel.asUsize_inj (at_height.trans same.symm))
    omega
  obtain ⟨height, rfl⟩ : ∃ lower, height = lower + 1 := ⟨height - 1, by omega⟩
  have further : ¬ height + 1 + 1 ≤ target.asUsize := by omega
  have at_lower := PageLevel.asUsize_below at_height
  have less : height < fewer := by omega
  rw [lacking, if_neg further] at spare
  by_cases branch : PageEntry.isBranch (s.memory (wordOf table (virt.path (height + 2)))) = true
  · rw [if_pos branch] at spare
    obtain ⟨lower, one⟩ := tree.below table positive _ bound branch
    obtain ⟨result, s', later, taken, rest, parts, ran, made, touches⟩ :=
      ih height (Nat.lt_succ_self height) tree stock at_lower above (by omega)
        less spare
    refine ⟨result, s', later, taken, rest, parts,
      (mapLoop_branch at_height here rfl branch).trans ran, made, ?_⟩
    exact touches.congr fun t twins => mapLoop_branch at_height here (twins.entry positive) branch
  rw [if_neg branch] at spare
  by_cases leaf : PageEntry.isLeaf (s.memory (wordOf table (virt.path (height + 2)))) = true
  · obtain ⟨message, stops⟩ := @mapLoop_stops hhdm virt phys target level flags fewer (height + 1)
      table at_height here _ leaf
    exact ⟨_, s, rank, [], nodes, rfl, stops s rfl, ⟨fun _ _ => rfl, nothing, stock, fun _ => tree⟩,
      .rest fun t twins => stops t (twins.entry positive)⟩
  rw [if_neg leaf] at spare
  by_cases valid : PageEntry.getValid (s.memory (wordOf table (virt.path (height + 2)))) = true
  · rw [if_pos valid] at spare
    obtain ⟨result, s', later, taken, rest, parts, ran, made, touches⟩ :=
      ih height (Nat.lt_succ_self height) tree stock at_lower above (by omega)
        less spare
    refine ⟨result, s', later, taken, rest, parts,
      (mapLoop_through at_height here rfl branch leaf valid).trans ran, made, ?_⟩
    exact touches.congr fun t twins =>
      mapLoop_through at_height here (twins.entry positive) branch leaf valid
  rw [if_neg valid] at spare
  rw [Bool.not_eq_true] at valid
  have several : 1 < nodes.length := by omega
  obtain ⟨a, b, rest, rfl⟩ := exists_two several
  have deep : 1 < rank table := by omega
  have fresh := stock.fresh List.mem_cons_self
  have height_a : Function.update rank a (rank table - 1) a = rank table - 1 :=
    Function.update_self ..
  have fewer_left : lacking hhdm (s.attach hhdm table (virt.path (height + 2))
      (s.memory (wordOf table (virt.path (height + 2)))) a b).memory virt target.asUsize
        (height + 1) a < (b :: rest).length := by
    refine Nat.lt_of_le_of_lt lacking_le ?_
    rw [List.length_cons] at spare
    omega
  obtain ⟨result, s', later, taken, left, parts, ran, made, touches⟩ :=
    ih height (Nat.lt_succ_self height)
      (tree.attach mapAligned fresh stock.kept_claim deep bound) (stock.attach deep bound)
      at_lower above (by omega) less fewer_left
  have tables : ranked later = ranked rank ∪ {page | page ∈ a :: taken} := by
    rw [made.tables, ranked_update (by omega)]
    ext page
    simp [or_assoc, or_comm, or_left_comm]
  refine ⟨result, s', later, a :: taken, left, by rw [parts, List.cons_append],
    (mapLoop_attach stock at_height here positive rfl valid).trans ran,
    ⟨fun page inside => ?_, tables, made.stock, made.tree⟩, ?_⟩
  · have old : page ≠ a := fun same => fresh.outside (same ▸ inside)
    have before : Function.update rank a (rank table - 1) page = rank page :=
      Function.update_of_ne old _ _
    rw [← before]
    exact made.ranks page (before ▸ inside)
  · have wider : cells (ranked later) (b :: rest) ⊆ cells (ranked later) (a :: b :: rest) :=
      cells_mono subset_rfl (List.subset_cons_self ..)
    have grown : cells (ranked (Function.update rank a (rank table - 1))) (a :: b :: rest) ⊆
        cells (ranked later) (a :: b :: rest) :=
      cells_mono (made.tables ▸ Set.subset_union_left) (List.Subset.refl _)
    refine (touches.mono wider).after (fun u => u.attach hhdm table (virt.path (height + 2))
      (s.memory (wordOf table (virt.path (height + 2)))) a b) ?_ ?_
    · intro t twins
      exact mapLoop_attach (twins.stock stock) at_height here positive (twins.entry positive)
        valid
    · intro t twins
      obtain ⟨twins', alike⟩ := twins.attach stock deep bound
      exact ⟨twins', alike.mono grown⟩

/-- A `map` that has gone below its target does not return. -/
theorem mapLoop_past {s' : Pmm} (past : level.asUsize < target.asUsize) :
    (mapLoop hhdm virt phys target flags steps table level).run s ≠ (.ok (), s') := by
  induction steps generalizing table level s with
  | zero => exact fun ran => by cases ran
  | succ steps ih =>
    intro ran
    have here : level ≠ target := by
      rintro rfl
      exact Nat.lt_irrefl _ past
    have lower : level.below.asUsize ≤ level.asUsize := by cases level <;> decide
    rw [mapLoop] at ran
    obtain ⟨copy, s₁, _, ran⟩ := Prog.run_bind_eq_ok ran
    obtain ⟨_, s₂, _, ran⟩ := Prog.run_bind_eq_ok ran
    rw [if_neg here] at ran
    dsimp only at ran
    -- whichever table comes next, the loop goes on one level lower
    split at ran
    · obtain ⟨next, s₃, _, ran⟩ := Prog.run_bind_eq_ok ran
      exact ih (lower.trans_lt past) ran
    · split at ran
      · obtain ⟨next, s₃, _, ran⟩ := Prog.run_bind_eq_ok ran
        exact ih (lower.trans_lt past) ran
      · split at ran
        · obtain ⟨frame, s₃, _, ran⟩ := Prog.run_bind_eq_ok ran
          obtain ⟨_, s₄, _, ran⟩ := Prog.run_bind_eq_ok ran
          obtain ⟨_, s₅, _, ran⟩ := Prog.run_bind_eq_ok ran
          obtain ⟨next, s₆, _, ran⟩ := Prog.run_bind_eq_ok ran
          exact ih (lower.trans_lt past) ran
        · obtain ⟨next, s₃, _, ran⟩ := Prog.run_bind_eq_ok ran
          exact ih (lower.trans_lt past) ran

end Walk

end Lsd
