import Lsd.Verif.ArenaAlloc
import Lsd.Verif.FrameSearch

/-!
# Allocations that are freed

`Vmm::free` reads each frame back out of its leaf and puts it in front of the list.
After it every address goes where it went before the allocation, and the list has
all frames again that did not become tables. It has them in another order: a run
of frames comes back with the last frame first, where the search for a run does
not see it.
-/

namespace Lsd

open Program Radix

/-- What `Vmm::free` has made of the tree and the list after some pages: `back` are the frames that
are in the list again, the last of them first. -/
structure Freed (hhdm : UInt64) (height : Nat) (root base : UInt64) (left back : List UInt64)
    (known : Set Nat) (s p : Pmm) : Prop where
  /-- The list has them in front. -/
  stock : Stock hhdm (footprint (slots hhdm s.memory) 512 known height root) p (back ++ left)
  /-- The entries of the root are known or blank. -/
  tree : RootTree hhdm known (footprint (slots hhdm s.memory) 512 known height root) height root
    p.memory
  /-- The root reaches the same tables. -/
  tables : footprint (slots hhdm p.memory) 512 known height root =
    footprint (slots hhdm s.memory) 512 known height root
  /-- Their pages are gone. -/
  gone : ∀ step < back.length, ∀ virt : VirtualAddress,
    SamePath 1 (height + 1) (pageAt base step).path virt.path →
      leafOf hhdm p.memory (height + 1) root virt = none
  /-- Other addresses go where they went before. -/
  still : ∀ virt : VirtualAddress,
    (∀ step < back.length, ¬ SamePath 1 (height + 1) (pageAt base step).path virt.path) →
      leafOf hhdm p.memory (height + 1) root virt = leafOf hhdm s.memory (height + 1) root virt

/-- A range that is allocated: its pages lead to frames that are neither free nor tables. -/
structure Lent (hhdm : UInt64) (height : Nat) (root base : UInt64) (flags : PageFlags)
    (claimed left : List UInt64) (known : Set Nat) (s : Pmm) : Prop where
  /-- The address space has that many pages. -/
  fits : claimed.length ≤ 512 ^ (height + 1)
  /-- The list is well formed. -/
  stock : Stock hhdm (pagesBeside left) s left
  /-- The entries of the root are known or blank. -/
  tree : RootTree hhdm known (pagesBeside left) height root s.memory
  /-- The frames are frames. -/
  frames : ∀ frame ∈ claimed, IsFrame frame
  /-- They lie in the direct map. -/
  inMap : ∀ frame ∈ claimed, hhdm ≤ frame ∧ (frame - hhdm).toNat < 2 ^ 56
  /-- They differ. -/
  nodup : claimed.Nodup
  /-- They are not free. -/
  leftApart : ∀ frame ∈ left, frame ∉ claimed
  /-- They are no tables. -/
  apart : ∀ frame ∈ claimed, frame ∉ footprint (slots hhdm s.memory) 512 known height root
  /-- Every page leads to its frame. -/
  leads : ∀ newer frame older, claimed = newer ++ frame :: older → ∀ virt : VirtualAddress,
    SamePath 1 (height + 1) (pageAt base older.length).path virt.path →
      leafOf hhdm s.memory (height + 1) root virt = some (1, leafEntry (frame - hhdm) flags)

section Freed

variable {hhdm root base frame : UInt64} {level : PageLevel}
    {nodes claimed left newer back : List UInt64}
  {known : Set Nat} {height : Nat} {flags : PageFlags} {s s' p : Pmm} {virt : VirtualAddress}

/-- What was just allocated is lent. -/
theorem Allocated.lent (short : height ≤ 4) (stock : Stock hhdm (pagesBeside nodes) s nodes)
    (fits : claimed.length ≤ 512 ^ (height + 1))
    (allocated : Allocated hhdm nodes height root base flags claimed claimed left known s s') :
    Lent hhdm height root base flags claimed left known s' where
  fits := fits
  stock := allocated.stock
  tree := allocated.tree
  frames frame member := stock.holds.frames frame (allocated.listed frame member)
  inMap frame member := stock.inMap frame (allocated.listed frame member)
  nodup := allocated.nodup
  leftApart := allocated.leftApart
  apart := allocated.apart
  leads newer frame older parts virt along := by
    rw [allocated.walks]
    exact leafAfter_page (by omega) fits parts along

/-- Before the first page. -/
theorem Lent.freed (lent : Lent hhdm height root base flags claimed left known s) :
    Freed hhdm height root base left [] known s s := by
  have beside := lent.tree.rooted.inUse
  constructor
  case stock => exact lent.stock.fewer beside
  case tree => exact ⟨⟨lent.tree.rooted.bound, lent.tree.rooted.limbs, subset_rfl⟩, lent.tree.blank⟩
  case tables => rfl
  case gone => exact fun _ bound => absurd bound (Nat.not_lt_zero _)
  case still => exact fun _ _ => rfl

/-- One page: its frame comes back. -/
theorem Freed.next (mapAligned : hhdm % 4096 = 0) (at_height : level.asUsize = height + 1)
    (short : height ≤ 4) (maps : flags.Maps) (parts : claimed = newer ++ frame :: back)
    (lent : Lent hhdm height root base flags claimed left known s)
    (freed : Freed hhdm height root base left back known s p) :
    ∃ p', (freePage hhdm level root base back.length).run p = (.ok (), p') ∧
      Freed hhdm height root base left (frame :: back) known s p' := by
  have member : frame ∈ claimed := parts ▸ List.mem_append_right _ List.mem_cons_self
  have isFrame := lent.frames frame member
  have inMap := lent.inMap frame member
  have page := isFrame.physical mapAligned inMap.1
  -- the pages of the range differ
  have length : back.length < claimed.length := by
    rw [parts, List.length_append, List.length_cons]
    omega
  have fits := lent.fits
  have apart : ∀ step < back.length,
      ¬ SamePath 1 (height + 1) (pageAt base step).path (pageAt base back.length).path :=
    fun step bound => pages_apart (by omega) (by omega) (by omega) bound.ne
  have found : leafOf hhdm p.memory (height + 1) root (pageAt base back.length) =
      some (1, leafEntry (frame - hhdm) flags) := by
    rw [freed.still _ apart]
    exact lent.leads newer frame back parts _ fun _ _ _ => rfl
  obtain ⟨p₁, unmapped, outcome⟩ := freed.tree.unmap at_height freed.stock.pagesAligned found
  have state : p₁ = { p with memory := p₁.memory } := by rw [← outcome.list]
  have changed := outcome.changed
  rw [freed.tables] at changed
  have written := freed.stock.write changed
  rw [← state] at written
  -- the frame is neither in the list nor a table
  have fresh : frame ∉ back ++ left := by
    rw [List.mem_append]
    rintro (old | rest)
    · have nodup := lent.nodup
      rw [parts] at nodup
      exact (List.nodup_cons.mp (List.nodup_append.mp nodup).2.1).1 old
    · exact lent.leftApart frame rest member
  obtain ⟨p₂, pulled, later, kept⟩ := written.pull isFrame inMap fresh (lent.apart frame member)
  obtain ⟨tree, tables, walks⟩ := outcome.tree.kept kept
  refine ⟨p₂, ?_, later, tree, ?_, fun step bound virt along => ?_, fun virt across => ?_⟩
  · have address : (leafEntry (frame - hhdm) flags).getPpn <<< 12 + hhdm = frame := by
      rw [(leafEntry_spec maps page inMap.2).2]
      grind
    rw [freePage]
    rw [pageAt] at unmapped
    rw [Prog.run_bind_ok unmapped, address]
    exact pulled
  · rw [tables, outcome.tables, freed.tables]
  · rw [walks virt]
    by_cases here : SamePath 1 (height + 1) (pageAt base back.length).path virt.path
    · exact outcome.gone virt here
    · rw [outcome.still virt here]
      rcases Nat.lt_succ_iff_lt_or_eq.mp bound with before | rfl
      · exact freed.gone step before virt along
      · exact absurd along here
  · rw [walks virt, outcome.still virt (across back.length (Nat.lt_succ_self _))]
    exact freed.still virt fun step bound => across step (Nat.lt_succ_of_lt bound)

/-- The loop of `Vmm::free` returns for a range that is lent, and has given all frames back. -/
theorem Lent.freePages (mapAligned : hhdm % 4096 = 0) (at_height : level.asUsize = height + 1)
    (short : height ≤ 4) (maps : flags.Maps)
    (lent : Lent hhdm height root base flags claimed left known s) :
    ∃ p, ((List.range claimed.length).forM (freePage hhdm level root base)).run s = (.ok (), p) ∧
      Freed hhdm height root base left claimed known s p := by
  have whole := @Prog.run_range_returns _ _ claimed.length (freePage hhdm level root base) s
    (fun done p => ∃ newer back, claimed = newer ++ back ∧ back.length = done ∧
      Freed hhdm height root base left back known s p)
    ⟨claimed, [], by simp, rfl, lent.freed⟩ ?_
  · obtain ⟨p, ran, newer, back, parts, length, freed⟩ := whole
    have latest : newer = [] := by
      have whole := congrArg List.length parts
      rw [List.length_append] at whole
      exact List.length_eq_zero_iff.mp (by omega)
    rw [latest, List.nil_append] at parts
    exact ⟨p, ran, parts ▸ freed⟩
  · rintro step bound q ⟨newer, back, parts, rfl, freed⟩
    obtain ⟨newer, frame, rfl⟩ : ∃ init last, newer = init ++ [last] := by
      rcases List.eq_nil_or_concat newer with rfl | ⟨init, last, rfl⟩
      · rw [parts, List.nil_append] at bound
        exact absurd bound (Nat.lt_irrefl _)
      · exact ⟨init, last, by simp⟩
    rw [List.append_assoc, List.singleton_append] at parts
    obtain ⟨after, ran, freed⟩ := freed.next mapAligned at_height short maps parts lent
    exact ⟨after, ran, newer, frame :: back, parts, rfl, freed⟩

/-- The loop of `Vmm::free` returns, and has given all frames back. -/
theorem Allocated.freePages (mapAligned : hhdm % 4096 = 0) (at_height : level.asUsize = height + 1)
    (short : height ≤ 4) (maps : flags.Maps) (stock : Stock hhdm (pagesBeside nodes) s nodes)
    (fits : claimed.length ≤ 512 ^ (height + 1))
    (allocated : Allocated hhdm nodes height root base flags claimed claimed left known s s') :
    ∃ p, ((List.range claimed.length).forM (freePage hhdm level root base)).run s' = (.ok (), p) ∧
      Freed hhdm height root base left claimed known s' p :=
  (allocated.lent short stock fits).freePages mapAligned at_height short maps

end Freed

/-- A range that an arena gave to `alloc` can be freed right away. -/
def Arena.Frees {V Strategy Layout : Type} (arena : Arena V Strategy Layout) : Prop :=
  ∀ (size : UInt64) (strategy : Strategy) (v v' : V) (base : UInt64),
    (arena.alloc size strategy).run v = (.ok (.ok base), v') →
      ∃ v'', (arena.free base size).run v' = (.ok (), v'')

/-- A kernel after an allocation was undone: tables may be left behind, and nothing else. -/
structure Undone (hhdm : UInt64) (level : PageLevel) (nodes : List UInt64) (height : Nat)
    (root : UInt64) (s s' : Pmm) (nodes' : List UInt64) (known : Set Nat) : Prop where
  /-- The list is well formed. -/
  holds : s'.Holds nodes'
  /-- Every frame is in it once. -/
  nodup : nodes'.Nodup
  /-- The entries of the root are known or blank. -/
  tree : RootTree hhdm known (pagesBeside nodes') height root s'.memory
  /-- Every address goes where it went before. -/
  goes : ∀ virt : VirtualAddress, translate hhdm level root s' virt =
    translate hhdm level root s virt
  /-- The list has the frames that it had, but for those that are tables now. -/
  frames : ∀ frame, frame ∈ nodes' ↔
    frame ∈ nodes ∧ frame ∉ footprint (slots hhdm s'.memory) 512 known height root

section Undone

variable {hhdm root base : UInt64} {level : PageLevel} {nodes claimed left : List UInt64}
  {first known : Set Nat} {height : Nat} {flags : PageFlags} {s s' p : Pmm}

/-- When all frames are back, the allocation is undone. -/
theorem Freed.undone (at_height : level.asUsize = height + 1)
    (tree : RootTree hhdm first (pagesBeside nodes) height root s.memory)
    (unmapped : ∀ step < claimed.length, translate hhdm level root s (pageAt base step) =
      .ok (.error "Table not found"))
    (allocated : Allocated hhdm nodes height root base flags claimed claimed left known s s')
    (freed : Freed hhdm height root base left claimed known s' p) :
    Undone hhdm level nodes height root s p (claimed ++ left) known := by
  have frames : ∀ frame, frame ∈ claimed ++ left ↔
      frame ∈ nodes ∧ frame ∉ footprint (slots hhdm p.memory) 512 known height root := by
    intro frame
    rw [freed.tables, List.mem_append]
    constructor
    · rintro (back | rest)
      · exact ⟨allocated.listed frame back, allocated.apart frame back⟩
      · exact ⟨allocated.remains frame rest,
          fun table => (allocated.tree.rooted.inUse table).2 rest⟩
    · rintro ⟨listed, unused⟩
      rcases allocated.spent frame listed with rest | back | table
      · exact .inr rest
      · exact .inl back
      · exact absurd table unused
  -- no address of the range came to a leaf before
  have nothing : ∀ step < claimed.length, ∀ virt : VirtualAddress,
      SamePath 1 (height + 1) (pageAt base step).path virt.path →
        leafOf hhdm s.memory (height + 1) root virt = none := by
    intro step bound virt along
    cases found : leafOf hhdm s.memory (height + 1) root virt with
    | none => rfl
    | some leaf =>
      have reached : leafOf hhdm s.memory (height + 1) root (pageAt base step) = some leaf :=
        find_samePath along.symm (one_le_of_find found) found
      have missed := unmapped step bound
      rw [tree.translate_eq at_height, reached] at missed
      nomatch missed
  have walks : ∀ virt : VirtualAddress, leafOf hhdm p.memory (height + 1) root virt =
      leafOf hhdm s.memory (height + 1) root virt := by
    intro virt
    by_cases inside : ∃ step < claimed.length,
        SamePath 1 (height + 1) (pageAt base step).path virt.path
    · obtain ⟨step, bound, along⟩ := inside
      rw [freed.gone step bound virt along, nothing step bound virt along]
    · have apart : ∀ step < claimed.length,
          ¬ SamePath 1 (height + 1) (pageAt base step).path virt.path :=
        fun step bound along => inside ⟨step, bound, along⟩
      rw [freed.still virt apart, allocated.walks, leafAfter_beside apart]
  have inUse : footprint (slots hhdm p.memory) 512 known height root ⊆
      pagesBeside (claimed ++ left) := by
    intro page table
    refine ⟨freed.stock.pagesAligned page (freed.tables ▸ table), fun member => ?_⟩
    exact ((frames page).mp member).2 table
  constructor
  case holds => exact freed.stock.holds
  case nodup => exact freed.stock.holds.nodup
  case tree => exact ⟨⟨freed.tree.rooted.bound, freed.tree.rooted.limbs, inUse⟩, freed.tree.blank⟩
  case goes =>
    intro virt
    rw [freed.tree.translate_eq at_height, tree.translate_eq at_height, walks]
  case frames => exact frames

end Undone

section Calls

variable {V Strategy Layout : Type} {vmm : Vmm V Strategy Layout} {platform : Platform V}
  {size base : UInt64} {strategy : Strategy} {phys : Option PhysicalAddress} {contiguous : Bool}
  {flags : PageFlags} {s s' s'' : Machine V} {nodes : List UInt64} {known : Set Nat} {height : Nat}

/-- `Vmm::free` runs its loop on the memory. -/
theorem Vmm.free_run {v : V} {p : Pmm}
    (given : (vmm.arena.free base size).run s.arenas = (.ok (), v))
    (looped : ((List.range (pageSteps size)).forM (freePage platform.hhdmOffset
      (.fromUsize platform.levels) (currentTable platform.hhdmOffset s.satp) base)).run s.pmm =
        (.ok (), p)) :
    (vmm.free platform base size).run s = (.ok (), { s with arenas := v, pmm := p }) := by
  have first : (onArenas (vmm.arena.free base size)).run s = (.ok (), { s with arenas := v }) :=
    Prog.run_within given
  rw [free, Prog.run_bind_ok first, Vmm.freePages, Prog.run_bind_ok (Prog.run_read _ _)]
  exact Prog.run_within looped

/-- `Vmm::free` gives back what `Vmm::alloc` took: for pages that were not mapped it returns, every
address goes where it went before, and the list has all its frames but for those that have become
tables, each of them once. -/
theorem free_undoes_alloc (ready : ArenaReady platform s nodes known height)
    (inSpace : vmm.arena.InSpace platform.levels) (frees : vmm.arena.Frees) (maps : flags.Maps)
    (unmapped : ∀ step < pageSteps size, translate platform.hhdmOffset (.fromUsize platform.levels)
      (currentTable platform.hhdmOffset s.satp) s.pmm (pageAt base step) =
        .ok (.error "Table not found"))
    (ran : (vmm.alloc platform size strategy contiguous flags).run s = (.ok (.ok (base, phys)), s'))
    (remain : s.pmm.taken s'.pmm < nodes.length) :
    ∃ s'' nodes' later, (vmm.free platform base size).run s' = (.ok (), s'') ∧ s''.satp = s.satp ∧
      Undone platform.hhdmOffset (.fromUsize platform.levels) nodes height
        (currentTable platform.hhdmOffset s.satp) s.pmm s''.pmm nodes' later := by
  obtain ⟨fits, same, asked, claimed, left, later, length, allocated, -⟩ :=
    Vmm.alloc_allocated ready inSpace maps ran remain
  obtain ⟨v, given⟩ := frees _ _ _ _ _ asked
  rw [← length] at fits unmapped
  obtain ⟨p, looped, freed⟩ := allocated.freePages ready.mapAligned ready.at_height ready.short maps
    ready.stock fits
  rw [length, ← same] at looped
  exact ⟨_, claimed ++ left, later, Vmm.free_run given looped, same,
    freed.undone ready.at_height ready.tree unmapped allocated⟩

end Calls

section Order

open FreeList Window

variable {hhdm base : UInt64} {run left : List UInt64} {count : Nat}

/-- A run with the last frame first goes down. -/
theorem framesFrom_descends (base : UInt64) (count : Nat) :
    (framesFrom base count).reverse.IsChain fun frame next => frame = next + 0x1000 := by
  rw [List.isChain_reverse]
  induction count generalizing base with
  | zero => exact .nil
  | succ count ih =>
    cases count with
    | zero => exact .singleton _
    | succ count => exact List.isChain_cons_cons.mpr ⟨rfl, ih (base + 0x1000)⟩

/-- A search for frames that go up passes a run that goes down. -/
theorem first_behind_run (wide : 2 ≤ count) (long : 2 ≤ run.length)
    (descends : run.IsChain fun frame next => frame = next + 0x1000) (nodup : (run ++ left).Nodup) :
    first (fun _ => true) adjacentFrames count (run ++ left) =
      (first (fun _ => true) adjacentFrames count left).map fun (pre, window, post) =>
        (run ++ pre, window, post) := by
  apply first_behind
  rintro pre post rfl nonempty ⟨enough, -, ascends⟩
  obtain ⟨frame, rest, rfl⟩ := List.exists_cons_of_ne_nil nonempty
  -- the frame behind it in the list is the one above it
  obtain ⟨next, others, behind⟩ : ∃ next others, rest ++ left = next :: others := by
    rcases whole : rest ++ left with _ | ⟨next, others⟩
    · rw [List.cons_append, whole, List.length_singleton] at enough
      omega
    · exact ⟨next, others, rfl⟩
  obtain ⟨more, rfl⟩ : ∃ more, count = more + 2 := ⟨count - 2, by omega⟩
  rw [List.cons_append, behind, List.take_succ_cons, List.take_succ_cons,
    List.isChain_cons_cons] at ascends
  have above : frame + 0x1000 = next := by simpa [adjacentFrames] using ascends.1
  rcases List.eq_nil_or_concat pre with rfl | ⟨earlier, last, rfl⟩
  · -- the first frame of the run is the highest
    cases rest with
    | nil => simp at long
    | cons second rest =>
      obtain ⟨rfl, -⟩ := List.cons_eq_cons.mp behind
      rw [List.nil_append, List.isChain_cons_cons] at descends
      have below := descends.1
      rw [← above] at below
      grind
  · -- the frame above any other is in front of it
    rw [List.concat_eq_append, List.append_assoc, List.singleton_append] at descends
    have front : last = frame + 0x1000 := by
      have pair := (List.isChain_append.mp descends).2.1
      exact (List.isChain_cons_cons.mp pair).1
    rw [List.concat_eq_append, List.append_assoc, List.append_assoc, List.singleton_append,
      List.cons_append, behind] at nodup
    have once := (List.nodup_cons.mp (List.nodup_append.mp nodup).2.1).1
    exact once (by simp [front, above])

/-- A search finds a run behind frames that go down exactly where the list behind them has a run
early enough. -/
theorem claimContinuous_behind {s : Pmm} {frames : UInt64} (holds : s.Holds (run ++ left))
    (wide : 2 ≤ frames.toNat) (long : 2 ≤ run.length)
    (descends : run.IsChain fun frame next => frame = next + 0x1000) :
    (∃ base s', (claimContinuous hhdm frames).run s = (.ok (.ok base), s')) ↔
      ∃ pre window next post, EarliestRun (fun _ => True) frames.toNat left pre window
        (next :: post) := by
  have several : frames ≠ 1 := fun one => absurd wide (by rw [one]; decide)
  have positive : frames ≠ 0 := fun zero => absurd wide (by rw [zero]; decide)
  have isFrame : ∀ node ∈ left, IsFrame node := fun node member =>
    holds.frames node (List.mem_append_right _ member)
  have runs : ∀ {pre window post : List UInt64},
      first (fun _ => true) adjacentFrames frames.toNat left = some (pre, window, post) ↔
        EarliestRun (fun _ => True) frames.toNat left pre window post := by
    intro pre window post
    have same : (fun _ : UInt64 => true = true) = fun _ => True := by simp
    rw [← same]
    exact first_iff isFrame (by omega)
  have whole := first_behind_run wide long descends holds.nodup
  cases found : first (fun _ => true) adjacentFrames frames.toNat left with
  | none =>
    rw [found] at whole
    have refused := @claimWindow_none hhdm frames _ s _ holds several fun _ => whole
    constructor
    · rintro ⟨base, s', ran⟩
      cases refused.symm.trans ran
    · rintro ⟨pre, window, next, post, earliest⟩
      rw [runs.mpr earliest] at found
      cases found
  | some parts =>
    obtain ⟨pre, window, post⟩ := parts
    rw [found] at whole
    cases post with
    | nil =>
      have stopped := claimWindow_tail hhdm holds several positive whole
      constructor
      · rintro ⟨base, s', ran⟩
        rw [claimContinuous] at ran
        rw [ran] at stopped
        cases stopped
      · rintro ⟨pre', window', next, post, earliest⟩
        rw [runs.mpr earliest] at found
        cases found
    | cons next post =>
      obtain ⟨base, s', ran, -⟩ := claimWindow_spec hhdm holds several positive whole
      exact ⟨fun _ => ⟨pre, window, next, post, runs.mp found⟩, fun _ => ⟨base, s', ran⟩⟩

end Order

section Calls

variable {V Strategy Layout : Type} {vmm : Vmm V Strategy Layout} {platform : Platform V}
  {size base : UInt64} {strategy : Strategy} {phys : Option PhysicalAddress} {flags : PageFlags}
  {s s' s'' : Machine V} {nodes : List UInt64} {known : Set Nat} {height : Nat}

/-- After a run of frames was allocated and freed a run of that length can be claimed exactly when
the list that the allocation left has one that ends before the list does. -/
theorem claim_after_free_iff (ready : ArenaReady platform s nodes known height)
    (inSpace : vmm.arena.InSpace platform.levels) (maps : flags.Maps) (wide : 2 ≤ pageSteps size)
    (ran : (vmm.alloc platform size strategy true flags).run s = (.ok (.ok (base, phys)), s'))
    (remain : s.pmm.taken s'.pmm < nodes.length)
    (freed : (vmm.free platform base size).run s' = (.ok (), s'')) :
    (∃ claim p, (FreeList.claimContinuous platform.hhdmOffset (framesOf size)).run s''.pmm =
        (.ok (.ok claim), p)) ↔
      ∃ pre window next post, EarliestRun (fun _ => True) (pageSteps size) s'.pmm.entries pre
        window (next :: post) := by
  obtain ⟨fits, same, -, claimed, left, later, length, allocated, run⟩ :=
    Vmm.alloc_allocated ready inSpace maps ran remain
  obtain ⟨claim, -, descending⟩ := run rfl
  obtain ⟨p, looped, given⟩ := allocated.freePages ready.mapAligned ready.at_height ready.short maps
    ready.stock (by rwa [length])
  rw [length, ← same] at looped
  have memory : s''.pmm = p := by
    obtain ⟨⟨⟩, s₁, asked, pages⟩ := Prog.run_bind_eq_ok freed
    obtain ⟨-, kept⟩ := onArenas_eq_ok asked
    have done := Vmm.free_run (onArenas_eq_ok asked).1 looped
    rw [freed] at done
    exact congrArg Machine.pmm (Prod.mk.inj done).2
  rw [memory, allocated.stock.holds.entries, ← toNat_framesOf]
  apply claimContinuous_behind given.stock.holds
  · rwa [toNat_framesOf]
  · rwa [length]
  · rw [descending]
    exact framesFrom_descends claim _

end Calls

section Sample

open FreeList (sampleMap)

/-- Ranges of the sample arena can be freed. -/
theorem pairVmm_frees : pairVmm.arena.Frees := fun _ _ _ v' _ _ => ⟨v', rfl⟩

/-- The machine maps nothing. -/
theorem heapMachine_untranslated (virt : VirtualAddress) :
    translate sampleMap (.fromUsize 3) (currentTable sampleMap (heapMachine sampleMap).satp)
      (heapMachine sampleMap).pmm virt = .ok (.error "Table not found") := by
  have at_height : (PageLevel.fromUsize 3).asUsize = 2 + 1 := rfl
  have blank := heapMachine_ready.tree.blank _ (virt.path_lt 3) (Set.notMem_empty _)
  exact translate_invalid at_height (isBlank_flags blank).1

/-- Two pages are allocated and freed again. -/
theorem free_undoes_alloc_pair : ∃ s' s'' nodes' later,
    (pairVmm.alloc (pagePlatform sampleMap) 0x2000 () false .read).run (heapMachine sampleMap) =
        (.ok (.ok (0x40000000, none)), s') ∧
      (pairVmm.free (pagePlatform sampleMap) 0x40000000 0x2000).run s' = (.ok (), s'') ∧
      Undone sampleMap (.fromUsize 3) (heapNodes sampleMap) 2
        (currentTable sampleMap (heapMachine sampleMap).satp) (heapMachine sampleMap).pmm s''.pmm
        nodes' later := by
  let outcome := (pairVmm.alloc (pagePlatform sampleMap) 0x2000 () false .read).run
    (heapMachine sampleMap)
  have ran : outcome = (.ok (.ok (0x40000000, none)), outcome.2) := Prod.ext (by decide +kernel) rfl
  have remain : (heapMachine sampleMap).pmm.taken outcome.2.pmm < (heapNodes sampleMap).length := by
    decide +kernel
  obtain ⟨s'', nodes', later, freed, -, undone⟩ := @free_undoes_alloc UInt64 Unit UInt64 pairVmm
    (pagePlatform sampleMap) 0x2000 0x40000000 () none false .read (heapMachine sampleMap) outcome.2
    (heapNodes sampleMap) ∅ 2 heapMachine_ready pairVmm_inSpace pairVmm_frees rfl
    (fun _ _ => heapMachine_untranslated _) ran remain
  exact ⟨outcome.2, s'', nodes', later, ran, freed, undone⟩

/-- The frames of a list of eight. -/
def wideNodes : List UInt64 := framesFrom (0x80000000 + sampleMap) 8

/-- The machine with that list. -/
def wideMachine : Machine UInt64 :=
  { heapMachine sampleMap with pmm := row (0x80000000 + sampleMap) 8 0 }

/-- Its table is empty. -/
theorem wideMachine_ready :
    ArenaReady (pagePlatform sampleMap) wideMachine wideNodes ∅ 2 where
  mapAligned := by decide
  levels := rfl
  tall := by decide
  short := by decide
  stock := by
    apply Stock.beside (row_holds (by decide) (by decide) (by decide) (by decide))
    have inMap : (wideNodes.all fun node =>
        decide (sampleMap ≤ node ∧ (node - sampleMap).toNat < 2 ^ 56)) = true := by decide
    exact fun node member => of_decide_eq_true (List.all_eq_true.mp inMap node member)
  tree := by
    have page : currentTable sampleMap wideMachine.satp % 4096 = 0 := by decide
    have out : currentTable sampleMap wideMachine.satp ∉ wideNodes := by decide
    constructor
    case rooted =>
      have empty : Rooted sampleMap ∅ {currentTable sampleMap wideMachine.satp} 2
          (currentTable sampleMap wideMachine.satp) wideMachine.pmm.memory :=
        .of_empty (fun _ absent => absent.elim) fun _ absent => absent.elim
      exact empty.mono (Set.singleton_subset_iff.mpr ⟨page, out⟩)
    case blank =>
      intro index bound _
      have zero : wideMachine.pmm.memory
          (wordOf (currentTable sampleMap wideMachine.satp) index) = 0 :=
        rowMemory_beside (by decide) page bound out
      exact (congrArg PageEntry.isBlank zero).trans isBlank_zero

/-- An allocation of two pages from the list of eight frames leaves four that go up, and two of
these are claimed after the free. -/
theorem claim_after_free_wide : ∃ s' s'',
    (pairVmm.alloc (pagePlatform sampleMap) 0x2000 () true .read).run wideMachine =
        (.ok (.ok (0x40000000, some 0x80000000)), s') ∧
      (pairVmm.free (pagePlatform sampleMap) 0x40000000 0x2000).run s' = (.ok (), s'') ∧
      ∃ claim p, (FreeList.claimContinuous sampleMap (framesOf 0x2000)).run s''.pmm =
        (.ok (.ok claim), p) := by
  let outcome := (pairVmm.alloc (pagePlatform sampleMap) 0x2000 () true .read).run wideMachine
  let later := (pairVmm.free (pagePlatform sampleMap) 0x40000000 0x2000).run outcome.2
  have ran : outcome = (.ok (.ok (0x40000000, some 0x80000000)), outcome.2) :=
    Prod.ext (by decide +kernel) rfl
  have freed : later = (.ok (), later.2) := Prod.ext (by decide +kernel) rfl
  have remain : wideMachine.pmm.taken outcome.2.pmm < wideNodes.length := by decide +kernel
  have left : outcome.2.pmm.entries = framesFrom (0x80004000 + sampleMap) 4 := by decide +kernel
  have whole := @claim_after_free_iff UInt64 Unit UInt64 pairVmm (pagePlatform sampleMap) 0x2000
    0x40000000 () (some 0x80000000) .read wideMachine outcome.2 later.2 wideNodes ∅ 2
    wideMachine_ready pairVmm_inSpace rfl (by decide) ran remain freed
  refine ⟨outcome.2, later.2, ran, freed, whole.mpr ?_⟩
  rw [left]
  have run : FrameRun (pageSteps 0x2000) (framesFrom (0x80004000 + sampleMap) 4) []
      [0x80004000 + sampleMap, 0x80005000 + sampleMap]
      [0x80006000 + sampleMap, 0x80007000 + sampleMap] := by
    constructor
    case parts => decide
    case length => rfl
    case ascending => decide
  exact ⟨[], _, _, _, run, fun _ _ => trivial, fun _ _ _ _ _ => Nat.zero_le _⟩

/-- After a run of two pages was allocated and freed the list holds two adjacent frames among three,
and a search for two does not find them. -/
theorem claim_after_free_refused :
    ArenaReady (pagePlatform sampleMap) (heapMachine sampleMap) (heapNodes sampleMap) ∅ 2 ∧
      ∃ s' s'', (pairVmm.alloc (pagePlatform sampleMap) 0x2000 () true .read).run
          (heapMachine sampleMap) = (.ok (.ok (0x40000000, some 0x80000000)), s') ∧
        (pairVmm.free (pagePlatform sampleMap) 0x40000000 0x2000).run s' = (.ok (), s'') ∧
        s''.pmm.entries =
          [0x80001000 + sampleMap, 0x80000000 + sampleMap, 0x80004000 + sampleMap] ∧
        ((FreeList.claimContinuous sampleMap 2).run s''.pmm).1 =
          .ok (.error "Couldnt find contiguous frames out of 3 frames") := by
  let outcome := (pairVmm.alloc (pagePlatform sampleMap) 0x2000 () true .read).run
    (heapMachine sampleMap)
  let later := (pairVmm.free (pagePlatform sampleMap) 0x40000000 0x2000).run outcome.2
  have ran : outcome = (.ok (.ok (0x40000000, some 0x80000000)), outcome.2) :=
    Prod.ext (by decide +kernel) rfl
  have freed : later = (.ok (), later.2) := Prod.ext (by decide +kernel) rfl
  have entries : later.2.pmm.entries =
      [0x80001000 + sampleMap, 0x80000000 + sampleMap, 0x80004000 + sampleMap] := by decide +kernel
  have refused : ((FreeList.claimContinuous sampleMap 2).run later.2.pmm).1 =
      .ok (.error "Couldnt find contiguous frames out of 3 frames") := by decide +kernel
  exact ⟨heapMachine_ready, outcome.2, later.2, ran, freed, entries, refused⟩

end Sample

end Lsd
