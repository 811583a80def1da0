import Lsd.Verif.PrintCall
import Lsd.Verif.Coherence
import Lsd.Verif.RootTable

/-!
# Extending the heap

Subcall `[1][1]` claims a frame for each page of the range that the arena gave it
and maps it with `map`. It starts from the physical address of the root table,
where every other path adds the offset of the direct map. The loop is followed
here for any root, one page at a time; what the call does to the tree of the task
is then a question of which root it was.
-/

namespace Lsd

open Program Radix

/-- The flags of a heap page. -/
def heapFlags : PageFlags := (PageFlags.read.union .write).union .user

/-- Pages in use while the heap is extended: those that the list did not hold, the frames of the
heap and the tables that were made. -/
def heapPages (given frames : List UInt64) (made : Set UInt64) : Set UInt64 :=
  pagesBeside given ∪ {frame | frame ∈ frames} ∪ made

/-- What the loop of the heap call has made of the tree under a root after some pages. -/
structure Extended (hhdm : UInt64) (given : List UInt64) (known : Set Nat) (height : Nat)
    (root vaddr : UInt64) (before : Pmm) (left : Nat) (frames : List UInt64) (made : Set UInt64)
    (later : Set Nat) (p : Pmm) : Prop where
  /-- The frames were in the list. -/
  listed : ∀ frame ∈ frames, frame ∈ given
  /-- They differ. -/
  nodup : frames.Nodup
  /-- So were the tables that were made. -/
  madeListed : ∀ page ∈ made, page ∈ given
  /-- No frame of the heap is one of them. -/
  apart : ∀ page ∈ made, page ∉ frames
  /-- The known entries lead to trees. -/
  rooted : Rooted hhdm later (heapPages given frames made) height root p.memory
  /-- They are the entries known before and those of the pages. -/
  tops : ∀ page < frames.length, (pageAt vaddr page).path (height + 1) ∈ later
  /-- What was known is known. -/
  more : known ⊆ later
  /-- The other entries of the root keep their words. -/
  beside : ∀ index < 512, index ∉ later →
    p.memory (wordOf root index) = before.memory (wordOf root index)
  /-- The tree has its old tables and those that were made. -/
  grown : footprint (slots hhdm p.memory) 512 later height root ⊆
    footprint (slots hhdm before.memory) 512 known height root ∪ made
  /-- Every page comes to its frame. -/
  mapped : ∀ page (bound : page < frames.length) (virt : VirtualAddress),
    SamePath 1 (height + 1) (pageAt vaddr page).path virt.path →
      leafOf hhdm p.memory (height + 1) root virt =
        some (1, leafEntry (frames.get ⟨page, bound⟩ - hhdm) heapFlags)
  /-- Other addresses come to where they came before. -/
  across : ∀ virt : VirtualAddress,
    (∀ page < frames.length, ¬ SamePath 1 (height + 1) (pageAt vaddr page).path virt.path) →
      leafOf hhdm p.memory (height + 1) root virt =
        leafOf hhdm before.memory (height + 1) root virt
  /-- Only tables and links were written. -/
  unwritten : ∀ address,
    ¬ InPages (footprint (slots hhdm before.memory) 512 known height root ∪ made) address →
      ¬ LinkWords given address → p.memory address = before.memory address
  /-- Further frames are left. -/
  supplies : StockedFrom hhdm given before.memory left (heapPages given frames made) p

section Loop

variable {hhdm root vaddr frame : UInt64} {given frames : List UInt64} {known later : Set Nat}
  {height left : Nat} {before p q p' : Pmm} {made : Set UInt64} {level : PageLevel}

/-- The pages in use after one more page. -/
theorem heapPages_next (fresh : Set UInt64) :
    insert frame (heapPages given frames made) ∪ fresh =
      heapPages given (frames ++ [frame]) (made ∪ fresh) := by
  ext page
  simp only [heapPages, Set.mem_union, Set.mem_insert_iff, Set.mem_ofPred_eq, List.mem_append,
    List.mem_singleton]
  tauto

/-- Before the first page nothing has changed. -/
theorem Extended.start (rooted : Rooted hhdm known (pagesBeside given) height root before.memory)
    (stock : Stock hhdm (pagesBeside given) before given) (enough : left < given.length) :
    Extended hhdm given known height root vaddr before left [] ∅ known before := by
  have pages : heapPages given [] ∅ = pagesBeside given := by
    ext page
    simp [heapPages]
  constructor
  case listed => simp
  case nodup => exact List.nodup_nil
  case madeListed => simp
  case apart => simp
  case rooted => rwa [pages]
  case tops => simp
  case more => rfl
  case beside => exact fun _ _ _ => rfl
  case grown => exact Set.subset_union_left
  case mapped => exact fun _ bound => absurd bound (Nat.not_lt_zero _)
  case across => exact fun _ _ => rfl
  case unwritten => exact fun _ _ _ => rfl
  case supplies =>
    rw [pages]
    exact ⟨given, stock, enough, List.Subset.refl _, fun _ _ _ => rfl⟩

/-- One page of the loop. -/
theorem Extended.next (mapAligned : hhdm % 4096 = 0) (at_height : level.asUsize = height + 1)
    (tall : 1 ≤ height)
    (others : ∀ index < 512, index ∉ known →
      PageEntry.isBlank (before.memory (wordOf root index)) = true)
    (new : ∀ page < frames.length, ¬ SamePath 1 (height + 1) (pageAt vaddr page).path
      (pageAt vaddr frames.length).path)
    (extended : Extended hhdm given known height root vaddr before (left + height + 1) frames made
      later p)
    (claimed : (FreeList.claim hhdm).run p = (.ok frame, q))
    (ran : (map hhdm root (pageAt vaddr frames.length) (frame - hhdm) level
    .level1 heapFlags).run q =
      (.ok (), p')) :
    ∃ more latest, Extended hhdm given known height root vaddr before left (frames ++ [frame]) more
      latest p' := by
  obtain ⟨_, _, done, fresh, kept, listed, links, supplied⟩ := extended.supplies.claim
  obtain ⟨same, rfl⟩ := Prod.mk.inj (claimed.symm.trans done)
  obtain rfl := Except.ok.inj same
  obtain ⟨nodes, stock, -⟩ := id supplied
  obtain ⟨still, same, walks⟩ := extended.rooted.kept (kept.mono extended.rooted.inUse)
  have rootUsed := extended.rooted.member
  -- an entry that is not known is still blank
  have blank : ∀ index < 512, index ∉ later →
      PageEntry.isBlank (p.memory (wordOf root index)) = true := by
    intro index bound out
    rw [extended.beside index bound out]
    exact others index bound fun member => out (extended.more member)
  have small := (pageAt vaddr frames.length).path_lt (height + 1)
  have ready : (pageAt vaddr frames.length).path (height + 1) ∈ later ∨
      PageEntry.isBlank (q.memory (wordOf root ((pageAt vaddr frames.length).path (height + 1)))) =
        true := by
    by_cases known : (pageAt vaddr frames.length).path (height + 1) ∈ later
    · exact .inl known
    · rw [kept root rootUsed _ small]
      exact .inr (blank _ small known)
  have maps : heapFlags.Maps := rfl
  have enough : StockedFrom hhdm given before.memory
      (height + 1 - PageLevel.level1.asUsize + left)
        (insert frame (heapPages given frames made)) q := by
    rw [Nat.add_comm] at supplied
    exact supplied
  have wider := still.mono (Set.subset_insert frame _)
  have positive : 1 ≤ PageLevel.level1.asUsize := Nat.le_refl 1
  have reach : PageLevel.level1.asUsize ≤ height := tall
  have source := stockedFrom_source hhdm given before.memory
  have needed := source.enough enough (pageAt vaddr frames.length) root
  obtain ⟨taken, outcome, -⟩ := wider.map source mapAligned maps positive at_height reach
    stock.pagesAligned ready needed ran
  have pages : insert frame (heapPages given frames made) ∪ taken =
      heapPages given (frames ++ [frame]) (made ∪ taken) := heapPages_next taken
  have takenUnused : ∀ page ∈ taken, page ∉ insert frame (heapPages given frames made) :=
    fun page inside => Set.disjoint_left.mp outcome.unused inside
  have reachedBefore := outcome.grown
  rw [same] at reachedBefore
  refine ⟨made ∪ taken, insert ((pageAt vaddr frames.length).path (height + 1)) later, ?_⟩
  constructor
  case listed =>
    intro other member
    rcases List.mem_append.mp member with old | single
    · exact extended.listed other old
    · exact List.mem_singleton.mp single ▸ listed
  case nodup =>
    refine extended.nodup.append (List.nodup_singleton frame) ?_
    intro other old single
    rw [List.mem_singleton.mp single] at old
    exact fresh.outside (.inl (.inr old))
  case madeListed =>
    rintro page (old | inside)
    · exact extended.madeListed page old
    · by_contra out
      exact takenUnused page inside (.inr (.inl (.inl ⟨outcome.aligned page inside, out⟩)))
  case apart =>
    rintro page (old | inside) member
    · rcases List.mem_append.mp member with first | single
      · exact extended.apart page old first
      · rw [List.mem_singleton.mp single] at old
        exact fresh.outside (.inr old)
    · rcases List.mem_append.mp member with first | single
      · exact takenUnused page inside (.inr (.inl (.inr first)))
      · exact takenUnused page inside (.inl (List.mem_singleton.mp single))
  case rooted =>
    rw [← pages]
    exact outcome.rooted
  case tops =>
    intro page bound
    rw [List.length_append, List.length_singleton] at bound
    rcases Nat.lt_succ_iff_lt_or_eq.mp bound with old | rfl
    · exact .inr (extended.tops page old)
    · exact .inl rfl
  case more => exact extended.more.trans (Set.subset_insert _ _)
  case beside =>
    intro index bound out
    have other : index ≠ (pageAt vaddr frames.length).path (height + 1) :=
      fun same => out (.inl same)
    rw [outcome.beside index bound other, kept root rootUsed index bound]
    exact extended.beside index bound fun member => out (.inr member)
  case grown =>
    rintro page inside
    rcases reachedBefore inside with old | new
    · exact (extended.grown old).imp id .inl
    · exact .inr (.inr new)
  case mapped =>
    intro page bound virt along
    rcases Nat.lt_succ_iff_lt_or_eq.mp (by simpa using bound) with old | rfl
    · have first : virt.path (height + 1) = (pageAt vaddr page).path (height + 1) :=
        along _ (Nat.le_add_left _ _) (Nat.le_refl _)
      have inside : virt.path (height + 1) ∈ later := first ▸ extended.tops page old
      rw [outcome.across virt (.inr inside) fun other => new page old (along.trans other.symm),
        walks virt inside, extended.mapped page old virt along]
      simp [List.getElem_append_left old]
    · rw [outcome.along virt along]
      simp
      rfl
  case across =>
    intro virt apart
    have earlier : ∀ page < frames.length,
        ¬ SamePath 1 (height + 1) (pageAt vaddr page).path virt.path := fun page bound =>
      apart page (by rw [List.length_append]; omega)
    have last := apart frames.length (by simp)
    rw [← extended.across virt earlier]
    by_cases inside : virt.path (height + 1) ∈
        insert ((pageAt vaddr frames.length).path (height + 1)) later
    · rw [outcome.across virt inside last]
      by_cases known : virt.path (height + 1) ∈ later
      · exact walks virt known
      · have invalid := (isBlank_flags (blank _ (virt.path_lt _) known)).1
        have word := kept root rootUsed _ (virt.path_lt (height + 1))
        rw [leafOf_invalid invalid, leafOf_invalid (word ▸ invalid)]
    · have known : virt.path (height + 1) ∉ later := fun member => inside (.inr member)
      have invalid := (isBlank_flags (blank _ (virt.path_lt _) known)).1
      have word := outcome.beside _ (virt.path_lt (height + 1)) fun same => inside (.inl same)
      rw [kept root rootUsed _ (virt.path_lt _)] at word
      rw [leafOf_invalid invalid, leafOf_invalid (word ▸ invalid)]
  case unwritten =>
    intro address outside links'
    have unlinked : q.memory address = p.memory address := links address links'
    have unwritten := extended.unwritten address (fun ⟨page, member, inside⟩ =>
      outside ⟨page, member.imp id .inl, inside⟩) links'
    by_cases used : InPages (insert frame (heapPages given frames made)) address
    · obtain ⟨page, member, index, bound, rfl⟩ := used
      rw [outcome.kept page ⟨member, ?_⟩ index bound, unlinked, unwritten]
      rw [same]
      intro table
      exact outside ⟨page, (extended.grown table).imp id .inl, index, bound, rfl⟩
    · obtain ⟨_, -, -, -, untouched⟩ := outcome.supplies
      refine untouched address ?_ links'
      rintro ⟨page, member | new, inside⟩
      · exact used ⟨page, member, inside⟩
      · exact outside ⟨page, .inr (.inr new), inside⟩
  case supplies =>
    rw [← pages]
    exact outcome.supplies

end Loop

/-- What the loop of the heap call does to memory. -/
def heapLoop (hhdm : UInt64) (level : PageLevel) (table vaddr : UInt64) (indices : List Nat) :
    Kernel Pmm Unit :=
  indices.forM fun page => do
    let claimed ← FreeList.claim hhdm
    map hhdm table (pageAt vaddr page) (claimed - hhdm) level .level1 heapFlags

variable {V : Type} {platform : Platform V} {devices : Devices V} {stval : UInt64}
  {s s' : Machine V} {task : TaskData}

namespace Machine

/-- The number of pages that a heap call asks for. -/
def heapCount (s : Machine V) : Nat := (s.frame.registers.a2.toNat + 4095) / 4096

/-- Whether a trap asks for the heap call. -/
def AsksHeap (s : Machine V) : Prop :=
  s.frame.registers.a0 = 1 ∧ s.frame.registers.a1 = 1 ∧ 0 < s.frame.registers.a2.toNat

/-- The size that the heap call asks the arena for. -/
def heapBytes (s : Machine V) : UInt64 :=
  (s.frame.registers.a2 / 0x1000 + if 0 < s.frame.registers.a2 % 0x1000 then 1 else 0) * 0x1000

end Machine

/-- The loop of the heap call, its messages included. -/
theorem heapLoop_of_ok {level : PageLevel} {table vaddr : UInt64} {indices : List Nat}
    (ran : (indices.forM fun i => do
      let virt := vaddr + UInt64.ofNat (i * 0x1000)
      let line := "Test with vaddr " ++ hex virt ++ "\n"
      print line
      let claimed ← onPmm (FreeList.claim platform.hhdmOffset)
      let phys := claimed - platform.hhdmOffset
      print line
      let flags := (PageFlags.read.union .write).union .user
      print line
      onPmm (map platform.hhdmOffset table virt phys level .level1 flags)
      print line).run s = (.ok (), s')) :
    (heapLoop platform.hhdmOffset level table vaddr indices).run s.pmm = (.ok (), s'.pmm) ∧
      s'.frame = s.frame := by
  induction indices generalizing s with
  | nil =>
    obtain ⟨-, rfl⟩ := Prod.mk.inj ran
    exact ⟨rfl, rfl⟩
  | cons page rest ih =>
    obtain ⟨⟨⟩, middle, round, later⟩ := Prog.run_bind_eq_ok ran
    rw [Prog.run_bind_ok (Machine.print_run _ _)] at round
    obtain ⟨frame, claimed, first, round⟩ := Prog.run_bind_eq_ok round
    obtain ⟨taken, same⟩ := Machine.onPmm_eq_ok first
    rw [Prog.run_bind_ok (Machine.print_run _ _), Prog.run_bind_ok (Machine.print_run _ _)] at round
    obtain ⟨⟨⟩, written, second, last⟩ := Prog.run_bind_eq_ok round
    obtain ⟨mapped, same'⟩ := Machine.onPmm_eq_ok second
    rw [Machine.print_run] at last
    obtain ⟨-, rfl⟩ := Prod.mk.inj last
    obtain ⟨rest, frames⟩ := ih later
    refine ⟨?_, ?_⟩
    · have one : (do
          let claimed ← FreeList.claim platform.hhdmOffset
          map platform.hhdmOffset table (pageAt vaddr page) (claimed - platform.hhdmOffset) level
            .level1 heapFlags).run s.pmm = (.ok (), written.pmm) :=
        (Prog.run_bind_ok taken).trans mapped
      exact (Prog.run_bind_ok one).trans rest
    · rw [frames]
      change written.frame = s.frame
      rw [same']
      change claimed.frame = s.frame
      rw [same]
      rfl

/-- The parts of a heap call that returned. -/
theorem extendHeap_eq_ok (current : s.tasks.queue[s.cur]? = some task)
    (ran : (extendHeap platform).run s = (.ok (), s')) :
    ∃ vaddr arenas, (platform.vmem.alloc task.vmm s.heapBytes).run s.arenas =
        (.ok (.ok vaddr), arenas) ∧
      s'.frame.registers.a0 = vaddr ∧
      (heapLoop platform.hhdmOffset (.fromUsize platform.levels)
        (task.taskTable.getPpn <<< 12) vaddr
        (List.range (if vaddr < vaddr + s.heapBytes then
          ((vaddr + s.heapBytes - vaddr).toNat + 0xfff) / 0x1000 else 0))).run s.pmm =
            (.ok (), s'.pmm) := by
  rw [extendHeap, Prog.run_bind_ok (Prog.run_read _ _)] at ran
  obtain ⟨⟨⟩, locked, taken, afterLock⟩ := Prog.run_bind_eq_ok ran
  obtain rfl := lockRead_eq_ok taken
  obtain ⟨found, _, reading, afterTask⟩ := Prog.run_bind_eq_ok afterLock
  obtain ⟨entry, rfl⟩ := currentTask_eq_ok reading
  obtain rfl := Option.some.inj (entry.symm.trans current)
  obtain ⟨vaddr, _, asked, afterAlloc⟩ := Prog.run_bind_eq_ok afterTask
  obtain ⟨arenas, served, rfl⟩ := Machine.allocFrom_eq_ok asked
  rw [Prog.run_bind_ok (setFrame_run _ _), Prog.run_bind_ok (Machine.print_run _ _)] at afterAlloc
  obtain ⟨⟨⟩, middle, looped, afterLoop⟩ := Prog.run_bind_eq_ok afterAlloc
  rw [Prog.run_bind_ok (Machine.print_run _ _)] at afterLoop
  obtain ⟨-, rfl⟩ := Prod.mk.inj afterLoop
  obtain ⟨pages, frames⟩ := heapLoop_of_ok looped
  refine ⟨vaddr, arenas, served, ?_, pages⟩
  have register := congrArg (fun frame : TrapFrame => frame.registers.a0) frames
  exact register

section Call

variable {hhdm root vaddr : UInt64} {level : PageLevel} {nodes : List UInt64} {known : Set Nat}
  {height count : Nat} {before p : Pmm}

/-- The loop of the heap call, from the tree that it starts in. -/
theorem heapLoop_extends (mapAligned : hhdm % 4096 = 0) (at_height : level.asUsize = height + 1)
    (tall : 1 ≤ height) (tree : RootTree hhdm known (pagesBeside nodes) height root before.memory)
    (stock : Stock hhdm (pagesBeside nodes) before nodes)
    (enough : count * (height + 1) < nodes.length)
    (inRange : vaddr.toNat + count * 4096 ≤ 2 ^ pageBits (height + 2))
    (ran : (heapLoop hhdm level root vaddr (List.range count)).run before = (.ok (), p)) :
    ∃ frames made later, frames.length = count ∧
      Extended hhdm nodes known height root vaddr before 0 frames made later p := by
  have short : height + 1 ≤ 5 := at_height ▸ level.asUsize_le
  have start : Extended hhdm nodes known height root vaddr before (count * (height + 1)) [] ∅ known
      before := .start tree.rooted stock enough
  have whole := Prog.run_range_ok (fun done p => ∃ frames made later, frames.length = done ∧
    Extended hhdm nodes known height root vaddr before ((count - done) * (height + 1)) frames made
      later p) ran ⟨[], ∅, known, List.length_nil, start⟩ ?_
  · rwa [Nat.sub_self, Nat.zero_mul] at whole
  · rintro page bound p p' ⟨frames, made, later, rfl, extended⟩ round
    obtain ⟨frame, q, claimed, mapped⟩ := Prog.run_bind_eq_ok round
    have left : (count - frames.length) * (height + 1) =
        (count - (frames.length + 1)) * (height + 1) + height + 1 := by
      obtain ⟨rest, more⟩ : ∃ rest, count = frames.length + 1 + rest :=
        ⟨count - (frames.length + 1), by omega⟩
      subst more
      rw [Nat.add_sub_cancel_left, Nat.add_assoc, Nat.add_sub_cancel_left]
      ring
    rw [left] at extended
    have new : ∀ page < frames.length, ¬ SamePath 1 (height + 1) (pageAt vaddr page).path
        (pageAt vaddr frames.length).path := fun page low =>
      pageAt_apart inRange short (low.trans bound) bound (Nat.ne_of_lt low)
    obtain ⟨more, latest, next⟩ :=
      extended.next mapAligned at_height tall tree.blank new claimed mapped
    exact ⟨frames ++ [frame], more, latest, by simp, next⟩

/-- Whether an address goes to a physical address through a leaf that the user may read and
write. -/
def UserMapped (hhdm : UInt64) (level : PageLevel) (root : UInt64) (s : Pmm) (virt : VirtualAddress)
    (phys : PhysicalAddress) : Prop :=
  translate hhdm level root s virt = .ok (.ok phys) ∧
    ∃ high entry, leafOf hhdm s.memory level.asUsize root virt = some (high, entry) ∧
      entry.getRead = true ∧ entry.getWrite = true ∧ entry.getUser = true

/-- The user may read and write what a heap leaf maps. -/
theorem heapLeaf_flags (phys : PhysicalAddress) :
    PageEntry.getRead (leafEntry phys heapFlags) = true ∧
      PageEntry.getWrite (leafEntry phys heapFlags) = true ∧
      PageEntry.getUser (leafEntry phys heapFlags) = true := by
  rw [PageEntry.getRead, PageEntry.getWrite, PageEntry.getUser,
    getBit_leafEntry phys heapFlags (by decide) (by decide),
    getBit_leafEntry phys heapFlags (by decide) (by decide),
    getBit_leafEntry phys heapFlags (by decide) (by decide)]
  decide

/-- A range of pages was mapped by the tree under a root, and nothing else was done to memory. -/
structure HeapExtended (hhdm : UInt64) (level : PageLevel) (root : UInt64) (nodes : List UInt64)
    (vaddr : UInt64) (before after : Pmm) (frames : List UInt64) (made : Set UInt64) : Prop where
  /-- The frames were in the list. -/
  listed : ∀ frame ∈ frames, frame ∈ nodes
  /-- They differ. -/
  nodup : frames.Nodup
  /-- The new tables were in the list as well, and are no frames of the heap. -/
  madeListed : ∀ page ∈ made, page ∈ nodes ∧ page ∉ frames
  /-- Every page goes to its frame. -/
  mapped : ∀ page (bound : page < frames.length) (virt : VirtualAddress),
    SamePage level .level1 (pageAt vaddr page) virt →
      UserMapped hhdm level root after virt (frames.get ⟨page, bound⟩ - hhdm + virt % 4096)
  /-- Other addresses go where they went before. -/
  others : ∀ virt : VirtualAddress,
    (∀ page < frames.length, ¬ SamePage level .level1 (pageAt vaddr page) virt) →
      translate hhdm level root after virt = translate hhdm level root before virt
  /-- Only tables and links were written. -/
  unwritten : ∀ address,
    ¬ InPages (tables (slots hhdm before.memory) 512 level.asUsize root ∪ made) address →
      ¬ LinkWords nodes address → after.memory address = before.memory address

variable {left : Nat} {frames : List UInt64} {made later : Set UInt64} {latest : Set Nat}

/-- After some pages every entry of the root still leads to a tree or is blank. -/
theorem Extended.tree (tree : RootTree hhdm known (pagesBeside nodes) height root before.memory)
    (extended : Extended hhdm nodes known height root vaddr before left frames made latest p) :
    RootTree hhdm latest (heapPages nodes frames made) height root p.memory := by
  refine ⟨extended.rooted, fun index bound out => ?_⟩
  rw [extended.beside index bound out]
  exact tree.blank index bound fun member => out (extended.more member)

/-- What the loop of the heap call made of the tree that it started in. -/
theorem Extended.heapExtended (mapAligned : hhdm % 4096 = 0)
    (at_height : level.asUsize = height + 1)
    (tree : RootTree hhdm known (pagesBeside nodes) height root before.memory)
    (stock : Stock hhdm (pagesBeside nodes) before nodes)
    (extended : Extended hhdm nodes known height root vaddr before left frames made latest p) :
    HeapExtended hhdm level root nodes vaddr before p frames made := by
  have positive : 1 ≤ PageLevel.level1.asUsize := Nat.le_refl 1
  have one : PageLevel.level1.asUsize = 0 + 1 := rfl
  have maps : heapFlags.Maps := rfl
  have way : ∀ virt other, SamePage level .level1 virt other ↔
      SamePath 1 (height + 1) virt.path other.path := by
    intro virt other
    rw [samePage_iff positive, at_height]
    rfl
  refine ⟨extended.listed, extended.nodup, fun page inside => ⟨extended.madeListed page inside,
    extended.apart page inside⟩, fun page bound virt same => ?_, fun virt apart => ?_,
    fun address outside links => ?_⟩
  · have found := extended.mapped page bound virt ((way _ _).mp same)
    have listed := extended.listed _ (List.get_mem frames ⟨page, bound⟩)
    generalize frames.get ⟨page, bound⟩ = frame at found listed
    have aligned : (frame - hhdm) % 4096 = 0 := by
      have base := aligned_toNat mapAligned
      have whole := aligned_toNat (stock.holds.frames frame listed).aligned
      apply UInt64.toNat_inj.mp
      rw [UInt64.toNat_mod, UInt64.toNat_sub]
      change _ % 4096 = 0
      omega
    have result : resultOf virt
      (some (PageLevel.level1.asUsize, leafEntry (frame - hhdm) heapFlags)) =
        .ok (frame - hhdm + virt % 4096) :=
      resultOf_leaf one maps aligned (stock.inMap frame listed).2
    rw [one] at result
    refine ⟨?_, 1, leafEntry (frame - hhdm) heapFlags, at_height ▸ found, heapLeaf_flags _⟩
    rw [(extended.tree tree).translate_eq at_height, found, result]
  · rw [(extended.tree tree).translate_eq at_height, tree.translate_eq at_height,
      extended.across virt fun page bound same => apart page bound ((way _ _).mpr same)]
  · refine extended.unwritten address ?_ links
    rintro ⟨page, table | new, inside⟩
    · refine outside ⟨page, .inl ?_, inside⟩
      rw [at_height]
      exact table.imp id fun ⟨index, member, reached⟩ =>
        ⟨index, tree.rooted.bound index member, reached⟩
    · exact outside ⟨page, .inr new, inside⟩

/-- The loop leaves a tree alone that shares no table with the one it extends. -/
theorem Extended.keeps_other {other : UInt64} {otherKnown : Set Nat}
    (extended : Extended hhdm nodes known height root vaddr before left frames made latest p)
    (tree : RootTree hhdm known (pagesBeside nodes) height root before.memory)
    (stock : Stock hhdm (pagesBeside nodes) before nodes)
    (kept : RootTree hhdm otherKnown (pagesBeside nodes) height other before.memory)
    (apart : Disjoint (footprint (slots hhdm before.memory) 512 known height root)
      (footprint (slots hhdm before.memory) 512 otherKnown height other))
    (at_height : level.asUsize = height + 1) (virt : VirtualAddress) :
    translate hhdm level other p virt = translate hhdm level other before virt := by
  have words : Kept (footprint (slots hhdm before.memory) 512 otherKnown height other) before.memory
      p.memory := by
    intro page inside index bound
    have used := kept.rooted.inUse inside
    apply extended.unwritten
    · rintro ⟨table, member, i, small, same⟩
      rcases member with old | new
      · have aligned := (tree.rooted.inUse old).1
        obtain ⟨rfl, -⟩ := wordOf_inj used.1 aligned bound small same
        exact Set.disjoint_left.mp apart old inside
      · have listed := extended.madeListed table new
        have aligned := (stock.holds.frames table listed).aligned
        obtain ⟨rfl, -⟩ := wordOf_inj used.1 aligned bound small same
        exact used.2 listed
    · exact not_linkWords stock.holds.frames used.1 bound used.2
  obtain ⟨rooted, -, walks⟩ := kept.rooted.kept words
  have tree' : RootTree hhdm otherKnown (pagesBeside nodes) height other p.memory := by
    refine ⟨rooted, fun index bound out => ?_⟩
    rw [words other (.inl rfl) index bound]
    exact kept.blank index bound out
  rw [tree'.translate_eq at_height, kept.translate_eq at_height]
  by_cases known : virt.path (height + 1) ∈ otherKnown
  · rw [walks virt known]
  · have invalid := (isBlank_flags (kept.blank _ (virt.path_lt _) known)).1
    have later := (isBlank_flags (tree'.blank _ (virt.path_lt _) known)).1
    rw [leafOf_invalid invalid, leafOf_invalid later]

end Call

section Trap

variable {level : PageLevel} {height : Nat} {nodes : List UInt64} {known otherKnown : Set Nat}

/-- A trap that asks for the heap call. -/
theorem Machine.AsksHeap.trap (asks : s.AsksHeap) : (trapHandler platform devices 8 stval).run s =
    (extendHeap platform).run s.afterCall := by
  obtain ⟨root, sub, -⟩ := asks
  rw [trapHandler_call]
  simp [syscallCore, kernelTask, Prog.run_bind, Machine.afterCall, root, sub]

/-- The size that the heap call asks for holds its pages. -/
theorem toNat_heapBytes (short : s.heapCount < 2 ^ 52) :
    s.heapBytes.toNat = s.heapCount * 4096 := by
  unfold Machine.heapCount at short
  have digits := Nat.div_add_mod s.frame.registers.a2.toNat 4096
  have bound := s.frame.registers.a2.toNat_lt
  have rest : (0 < s.frame.registers.a2 % 0x1000) = (0 < s.frame.registers.a2.toNat % 4096) := by
    rw [UInt64.lt_iff_toNat_lt, UInt64.toNat_mod]
    rfl
  unfold Machine.heapBytes Machine.heapCount
  rw [UInt64.toNat_mul, UInt64.toNat_add, UInt64.toNat_div]
  simp only [rest]
  split
  · change ((_ / 4096 + 1) % 2 ^ 64 * 4096) % 2 ^ 64 = _
    omega
  · change ((_ / 4096 + 0) % 2 ^ 64 * 4096) % 2 ^ 64 = _
    omega

/-- An arena of pages in an address space of some bits gives whole pages of it. -/
def ServesPages (vmem : Vmem V) (arena : UInt64) (bits : Nat) : Prop :=
  ∀ arenas size base later, (vmem.alloc arena size).run arenas = (.ok (.ok base), later) →
    base.toNat % 4096 = 0 ∧ base.toNat + size.toNat ≤ 2 ^ bits

/-- A heap call asks for a page at least. -/
theorem Machine.AsksHeap.positive (asks : s.AsksHeap) : 0 < s.heapCount := by
  have bytes := asks.2.2
  unfold Machine.heapCount
  omega

/-- The pages that the loop of the heap call goes through. -/
theorem heapRange {vaddr : UInt64} (asks : s.AsksHeap) (short : s.heapCount < 2 ^ 52)
    (inRange : vaddr.toNat + s.heapBytes.toNat ≤ 2 ^ 57) :
    (if vaddr < vaddr + s.heapBytes then
      ((vaddr + s.heapBytes - vaddr).toNat + 0xfff) / 0x1000 else 0) = s.heapCount := by
  have some := asks.positive
  have bytes := toNat_heapBytes short
  have sum : (vaddr + s.heapBytes).toNat = vaddr.toNat + s.heapBytes.toNat := by
    rw [UInt64.toNat_add]
    omega
  have above : vaddr < vaddr + s.heapBytes := by
    rw [UInt64.lt_iff_toNat_lt, sum]
    omega
  rw [if_pos above, UInt64.toNat_sub_of_le _ _ (UInt64.le_iff_toNat_le.mpr (by omega)), sum, bytes]
  omega

/-- What a heap call does to the tree under the address that it takes for the root of the task. -/
theorem heapCall_extends (mapAligned : platform.hhdmOffset % 4096 = 0)
    (levels : platform.levels = height + 1) (tall : 1 ≤ height) (short : height + 1 ≤ 5)
    (asks : s.AsksHeap) (current : s.tasks.queue[s.cur]? = some task)
    (serves : ServesPages platform.vmem task.vmm (pageBits (height + 2)))
    (stock : Stock platform.hhdmOffset (pagesBeside nodes) s.pmm nodes)
    (enough : s.heapCount * (height + 1) < nodes.length)
    (found : RootTree platform.hhdmOffset otherKnown (pagesBeside nodes) height
      (task.taskTable.getPpn <<< 12) s.pmm.memory)
    (ran : (trapHandler platform devices 8 stval).run s = (.ok (), s')) :
    (∃ arenas, (platform.vmem.alloc task.vmm s.heapBytes).run s.arenas =
        (.ok (.ok s'.frame.registers.a0), arenas)) ∧
      ∃ frames made later, frames.length = s.heapCount ∧
        Extended platform.hhdmOffset nodes otherKnown height (task.taskTable.getPpn <<< 12)
          s'.frame.registers.a0 s.pmm 0 frames made later s'.pmm := by
  have at_height : (PageLevel.fromUsize platform.levels).asUsize = height + 1 := by
    rw [levels, PageLevel.asUsize_fromUsize short]
  have small : s.heapCount < 2 ^ 52 :=
    calc s.heapCount ≤ s.heapCount * (height + 1) := Nat.le_mul_of_pos_right _ (Nat.succ_pos _)
      _ < nodes.length := enough
      _ ≤ 2 ^ 52 := stock.holds.length_le
  rw [asks.trap] at ran
  have entry : s.afterCall.tasks.queue[s.afterCall.cur]? = some task := current
  obtain ⟨vaddr, arenas, served, register, loop⟩ := extendHeap_eq_ok entry ran
  obtain ⟨-, inRange⟩ := serves _ _ _ _ served
  have bytes : s.afterCall.heapBytes = s.heapBytes := rfl
  rw [bytes] at inRange loop
  have limit : 2 ^ pageBits (height + 2) ≤ 2 ^ 57 :=
    Nat.pow_le_pow_right (by decide) (by rw [pageBits]; omega)
  rw [heapRange asks small (inRange.trans limit)] at loop
  rw [toNat_heapBytes small] at inRange
  rw [register]
  refine ⟨⟨arenas, served⟩, ?_⟩
  exact heapLoop_extends mapAligned at_height tall found stock enough inRange loop

/-- What the heap call promises: the pages that it returns are mapped by the table of the task, each
to a frame of its own. -/
def Machine.HeapMapped (platform : Platform V) (nodes : List UInt64) (root : UInt64)
    (s s' : Machine V) : Prop :=
  ∃ frames made, frames.length = s.heapCount ∧
    HeapExtended platform.hhdmOffset (.fromUsize platform.levels) root nodes s'.frame.registers.a0
      s.pmm s'.pmm frames made

/-- A range that was mapped translates. -/
theorem Machine.HeapMapped.goes {root : UInt64}
    (mapped : Machine.HeapMapped platform nodes root s s') (positive : 0 < s.heapCount) :
    ∃ phys, translate platform.hhdmOffset (.fromUsize platform.levels) root s'.pmm
      (pageAt s'.frame.registers.a0 0) = .ok (.ok phys) := by
  obtain ⟨frames, made, length, extended⟩ := mapped
  have way : SamePage (.fromUsize platform.levels) .level1 (pageAt s'.frame.registers.a0 0)
      (pageAt s'.frame.registers.a0 0) := fun _ _ _ => rfl
  exact ⟨_, (extended.mapped 0 (length ▸ positive) _ way).1⟩

/-- Whether the range that the arena gives a heap call is not mapped under a root. -/
def Machine.GivesUnmapped (platform : Platform V) (root : UInt64) (task : TaskData)
    (s : Machine V) :
    Prop :=
  ∀ base later, (platform.vmem.alloc task.vmm s.heapBytes).run s.arenas = (.ok (.ok base), later) →
    ∀ page < s.heapCount, translate platform.hhdmOffset (.fromUsize platform.levels) root s.pmm
      (pageAt base page) = .ok (.error "Table not found")

/-- After a heap call the pages that it returned are mapped by the table of the task if the direct
map has no offset. With an offset they are not, when the range that the arena gave was not mapped
before and the address of the root without the offset is the root of a tree of its own. The table of
the task is well formed beside the frame list, which holds more frames than the call may take. -/
theorem heap_extended_iff (mapAligned : platform.hhdmOffset % 4096 = 0)
    (levels : platform.levels = height + 1) (tall : 1 ≤ height) (short : height + 1 ≤ 5)
    (asks : s.AsksHeap) (current : s.tasks.queue[s.cur]? = some task)
    (serves : ServesPages platform.vmem task.vmm (pageBits (height + 2)))
    (stock : Stock platform.hhdmOffset (pagesBeside nodes) s.pmm nodes)
    (enough : s.heapCount * (height + 1) < nodes.length)
    (tree : RootTree platform.hhdmOffset known (pagesBeside nodes) height
      (currentTable platform.hhdmOffset task.taskTable) s.pmm.memory)
    (ran : (trapHandler platform devices 8 stval).run s = (.ok (), s')) :
    (platform.hhdmOffset = 0 → Machine.HeapMapped platform nodes
      (currentTable platform.hhdmOffset task.taskTable) s s') ∧
    (Machine.GivesUnmapped platform (currentTable platform.hhdmOffset task.taskTable) task s →
      ∀ otherKnown, RootTree platform.hhdmOffset otherKnown (pagesBeside nodes) height
        (task.taskTable.getPpn <<< 12) s.pmm.memory →
      (platform.hhdmOffset ≠ 0 →
        Disjoint (footprint (slots platform.hhdmOffset s.pmm.memory) 512 otherKnown height
            (task.taskTable.getPpn <<< 12))
          (footprint (slots platform.hhdmOffset s.pmm.memory) 512 known height
            (currentTable platform.hhdmOffset task.taskTable))) →
      (Machine.HeapMapped platform nodes (currentTable platform.hhdmOffset task.taskTable) s s' ↔
        platform.hhdmOffset = 0)) := by
  have at_height : (PageLevel.fromUsize platform.levels).asUsize = height + 1 := by
    rw [levels, PageLevel.asUsize_fromUsize short]
  have enough' : platform.hhdmOffset = 0 → Machine.HeapMapped platform nodes
      (currentTable platform.hhdmOffset task.taskTable) s s' := by
    intro offset
    have same : currentTable platform.hhdmOffset task.taskTable = task.taskTable.getPpn <<< 12 := by
      rw [currentTable, offset, UInt64.add_zero]
    rw [same] at tree ⊢
    obtain ⟨-, frames, made, later, length, extended⟩ :=
      heapCall_extends mapAligned levels tall short asks current serves stock enough tree ran
    exact ⟨frames, made, length, extended.heapExtended mapAligned at_height tree stock⟩
  refine ⟨enough', fun unmapped otherKnown found apart => ⟨fun mapped => ?_, enough'⟩⟩
  obtain ⟨⟨arenas, served⟩, frames, made, later, length, extended⟩ :=
    heapCall_extends mapAligned levels tall short asks current serves stock enough found ran
  by_contra offset
  obtain ⟨phys, goes⟩ := mapped.goes asks.positive
  rw [extended.keeps_other found stock tree (apart offset) at_height,
    unmapped _ _ served 0 asks.positive] at goes
  cases goes

end Trap

section Sample

open FreeList (sampleMap)

/-- A platform of three levels whose arenas give one page. -/
def pagePlatform (hhdm : UInt64) : Platform UInt64 where
  hhdmOffset := hhdm
  levels := 3
  vmem := ⟨fun _ size => pure (if size = 0x1000 then .ok 0x40000000 else .error "no memory")⟩

/-- Its arenas give whole pages. -/
theorem pagePlatform_serves (hhdm arena : UInt64) :
    ServesPages (pagePlatform hhdm).vmem arena (pageBits 4) := by
  intro arenas size base later served
  have outcome : ((.ok (if size = 0x1000 then .ok 0x40000000 else .error "no memory"), arenas) :
      Except Stop (Except String UInt64) × UInt64) = (.ok (.ok base), later) := served
  split at outcome
  · next page =>
    subst page
    obtain ⟨same, -⟩ := Prod.mk.inj outcome
    obtain rfl := Except.ok.inj (Except.ok.inj same)
    decide
  · nomatch outcome

/-- The frames of the list of a machine whose task asks for heap. -/
def heapNodes (hhdm : UInt64) : List UInt64 := framesFrom (0x80000000 + hhdm) 5

/-- A task whose table is the frame 0x80010000. -/
def heapTask : TaskData := { sampleTask 0 with taskTable := 0x80010 }

/-- It asks for a byte of heap. -/
def heapMachine (hhdm : UInt64) : Machine UInt64 where
  pmm := row (0x80000000 + hhdm) 5 0
  arenas := 0
  currentUserTask := .free ⟨[heapTask], 0⟩
  inputAwaitList := .free []
  frame := { callFrame 1 1 with registers := { (callFrame 1 1).registers with a2 := 1 } }
  satp := 0x80010
  sstatus := 0
  uart := []

section Outcome

variable {hhdm root : UInt64}

/-- The list of the machine starts at a page. -/
theorem heapBase_aligned (either : hhdm = 0 ∨ hhdm = sampleMap) :
    (0x80000000 + hhdm) % 4096 = 0 := by
  rcases either with rfl | rfl <;> decide

/-- A page beside the list is an empty root. -/
theorem heapMachine_tree (either : hhdm = 0 ∨ hhdm = sampleMap) (page : root % 4096 = 0)
    (out : root ∉ heapNodes hhdm) :
    RootTree hhdm ∅ (pagesBeside (heapNodes hhdm)) 2 root (heapMachine hhdm).pmm.memory := by
  have zero : ∀ index < 512, (heapMachine hhdm).pmm.memory (wordOf root index) = 0 :=
    fun index bound => rowMemory_beside (heapBase_aligned either) page bound out
  constructor
  · have empty : Rooted hhdm ∅ {root} 2 root (heapMachine hhdm).pmm.memory :=
      .of_empty (fun _ none => none.elim) fun _ none => none.elim
    exact empty.mono (Set.singleton_subset_iff.mpr ⟨page, out⟩)
  · intro index bound _
    rw [zero index bound]
    exact isBlank_zero

/-- It maps nothing. -/
theorem heapMachine_unmapped (either : hhdm = 0 ∨ hhdm = sampleMap) (page : root % 4096 = 0)
    (out : root ∉ heapNodes hhdm) (virt : VirtualAddress) :
    translate hhdm (.fromUsize 3) root (heapMachine hhdm).pmm virt =
      .ok (.error "Table not found") := by
  have at_height : (PageLevel.fromUsize 3).asUsize = 2 + 1 := rfl
  have tree := heapMachine_tree either page out
  exact translate_invalid at_height
    (isBlank_flags (tree.blank _ (virt.path_lt 3) (Set.notMem_empty _))).1

/-- The frames of the list are a stock. -/
theorem heapMachine_stock (either : hhdm = 0 ∨ hhdm = sampleMap) :
    Stock hhdm (pagesBeside (heapNodes hhdm)) (heapMachine hhdm).pmm (heapNodes hhdm) := by
  have nonzero : 0x80000000 + hhdm ≠ 0 := by
    rcases either with rfl | rfl <;> decide
  have fits : (0x80000000 + hhdm).toNat + 5 * 4096 ≤ 2 ^ 64 := by
    rcases either with rfl | rfl <;> decide
  apply Stock.beside (row_holds (heapBase_aligned either) nonzero fits (by decide))
  have inMap : ((heapNodes hhdm).all fun node =>
      decide (hhdm ≤ node ∧ (node - hhdm).toNat < 2 ^ 56)) = true := by
    rcases either with rfl | rfl <;> decide
  exact fun node member => of_decide_eq_true (List.all_eq_true.mp inMap node member)

/-- The call returns. -/
theorem heapMachine_runs (either : hhdm = 0 ∨ hhdm = sampleMap) : ∃ after,
    (trapHandler (pagePlatform hhdm) noDevices 8 0).run (heapMachine hhdm) = (.ok (), after) := by
  have returned : ((trapHandler (pagePlatform hhdm) noDevices 8 0).run (heapMachine hhdm)).1.isOk =
      true := by
    rcases either with rfl | rfl <;> decide +kernel
  revert returned
  generalize (trapHandler (pagePlatform hhdm) noDevices 8 0).run (heapMachine hhdm) = outcome
  rintro returned
  obtain ⟨result, after⟩ := outcome
  cases result with
  | ok value => exact ⟨after, rfl⟩
  | error stop => cases returned

end Outcome

/-- On a direct map without an offset the page that the call returns is mapped. -/
theorem heap_extended_flat :
    ∃ after, (trapHandler (pagePlatform 0) noDevices 8 0).run (heapMachine 0) = (.ok (), after) ∧
      Machine.HeapMapped (pagePlatform 0) (heapNodes 0) (currentTable 0 heapTask.taskTable)
        (heapMachine 0) after := by
  have flat : (0 : UInt64) = 0 ∨ (0 : UInt64) = sampleMap := .inl rfl
  obtain ⟨after, ran⟩ := heapMachine_runs flat
  have asks : (heapMachine 0).AsksHeap := ⟨rfl, rfl, by decide⟩
  have current : (heapMachine 0).tasks.queue[(heapMachine 0).cur]? = some heapTask := rfl
  have page : currentTable 0 heapTask.taskTable % 4096 = 0 := by decide
  have out : currentTable 0 heapTask.taskTable ∉ heapNodes 0 := by decide
  have tree := heapMachine_tree flat page out
  have count : (heapMachine 0).heapCount * 3 < (heapNodes 0).length := by decide
  exact ⟨after, ran, (heap_extended_iff (by decide) (by rfl) (by decide) (by decide) asks current
    (pagePlatform_serves 0 heapTask.vmm) (heapMachine_stock flat) count tree ran).1 rfl⟩

/-- With the offset of the sample map the call returns a page that the table of the task does not
map. -/
theorem heap_unmapped_offset :
    ∃ after, (trapHandler (pagePlatform sampleMap) noDevices 8 0).run (heapMachine sampleMap) =
        (.ok (), after) ∧
      ¬ Machine.HeapMapped (pagePlatform sampleMap) (heapNodes sampleMap)
        (currentTable sampleMap heapTask.taskTable) (heapMachine sampleMap) after := by
  have offset : sampleMap = 0 ∨ sampleMap = sampleMap := .inr rfl
  obtain ⟨after, ran⟩ := heapMachine_runs offset
  have asks : (heapMachine sampleMap).AsksHeap := ⟨rfl, rfl, by decide⟩
  have current : (heapMachine sampleMap).tasks.queue[(heapMachine sampleMap).cur]? =
      some heapTask :=
    rfl
  have page : currentTable sampleMap heapTask.taskTable % 4096 = 0 := by decide
  have out : currentTable sampleMap heapTask.taskTable ∉ heapNodes sampleMap := by decide
  have wrongPage : heapTask.taskTable.getPpn <<< 12 % 4096 = 0 := by decide
  have wrongOut : heapTask.taskTable.getPpn <<< 12 ∉ heapNodes sampleMap := by decide
  have tree := heapMachine_tree offset page out
  have found := heapMachine_tree offset wrongPage wrongOut
  have stock := heapMachine_stock offset
  have count : (heapMachine sampleMap).heapCount * 3 < (heapNodes sampleMap).length := by decide
  have serves := pagePlatform_serves sampleMap heapTask.vmm
  obtain ⟨-, frames, made, later, -, extended⟩ := heapCall_extends (by decide) (by rfl) (by decide)
    (by decide) asks current serves stock count found ran
  -- without known entries each root is all that it reaches
  have apart : Disjoint
      (footprint (slots sampleMap (heapMachine sampleMap).pmm.memory) 512 ∅ 2
        (heapTask.taskTable.getPpn <<< 12))
      (footprint (slots sampleMap (heapMachine sampleMap).pmm.memory) 512 ∅ 2
        (currentTable sampleMap heapTask.taskTable)) := by
    rw [footprint_of_empty fun _ none => none.elim, footprint_of_empty fun _ none => none.elim,
      Set.disjoint_singleton]
    decide
  refine ⟨after, ran, fun mapped => ?_⟩
  obtain ⟨phys, goes⟩ := mapped.goes asks.positive
  have at_height : (PageLevel.fromUsize 3).asUsize = 2 + 1 := rfl
  have moved := extended.keeps_other found stock tree apart at_height
    (pageAt after.frame.registers.a0 0)
  cases (heapMachine_unmapped offset page out _).symm.trans (moved.symm.trans goes)

end Sample

end Lsd
