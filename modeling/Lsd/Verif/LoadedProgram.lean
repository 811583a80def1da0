import Lsd.Verif.ProgramLoad

/-!
# A loaded program

Where every address of a new program goes when `load` has returned: the kernel's
half as in the current table, the pages of the segments and of the stack to the
frames that were claimed for them, the last placement of a page deciding, and
everything else nowhere. The stack comes to lie under an entry of the root that no
segment uses.
-/

namespace Lsd

open Program Radix Placement

/-- What the loader places at one of the four pages of a stack. -/
def stackPlacement (vaddr paddr : UInt64) (i : Nat) : Placement where
  page := vaddr + UInt64.ofNat (i * 0x200000)
  target := .level2
  phys := paddr + UInt64.ofNat (i * 0x200000)
  flags := (PageFlags.read.union .write).union .user

/-- The first pages of a stack, the last of them first. -/
def stackPlacements (vaddr paddr : UInt64) : Nat → List Placement
  | 0 => []
  | count + 1 => stackPlacement vaddr paddr count :: stackPlacements vaddr paddr count

/-- The placements of some pages of a stack. -/
theorem mem_stackPlacements {vaddr paddr : UInt64} {count : Nat} {placement : Placement} :
    placement ∈ stackPlacements vaddr paddr count ↔
      ∃ i < count, placement = stackPlacement vaddr paddr i := by
  induction count with
  | zero => simp [stackPlacements]
  | succ count ih =>
    rw [stackPlacements, List.mem_cons, ih]
    constructor
    · rintro (rfl | ⟨i, bound, rfl⟩)
      · exact ⟨count, Nat.lt_succ_self count, rfl⟩
      · exact ⟨i, Nat.lt_succ_of_lt bound, rfl⟩
    · rintro ⟨i, bound, rfl⟩
      rcases Nat.lt_succ_iff_lt_or_eq.mp bound with before | rfl
      · exact .inr ⟨i, before, rfl⟩
      · exact .inl rfl

section Span

variable {level : PageLevel} {height index : Nat} {virt : VirtualAddress}

/-- The span of an entry of a root, as numbers. -/
theorem toNat_entrySpan (at_height : level.asUsize = height + 1) (small : index < 512) :
    (entrySpan level index).1.toNat = index * 2 ^ pageBits (height + 1) ∧
      (entrySpan level index).2.toNat = 2 ^ pageBits (height + 1) := by
  have number : (UInt64.ofNat index).toNat % 512 = index := by
    rw [UInt64.toNat_ofNat']
    omega
  rw [pageBits, ← at_height]
  cases level with
  | pageOffset => cases at_height
  | level1 | level2 | level3 | level4 | level5 =>
    refine ⟨?_, rfl⟩
    change (UInt64.ofNat (0 % _ + (UInt64.ofNat index).toNat % 512 * _ + 0 / _ * _)).toNat = _
    rw [number, UInt64.toNat_ofNat']
    simp only [PageLevel.asUsize, Nat.reduceSub, Nat.reduceMul, Nat.reduceAdd, Nat.reducePow,
      Nat.zero_mod, Nat.zero_div, Nat.zero_mul]
    omega

/-- The addresses of a span take the entry that it belongs to. -/
theorem path_of_entrySpan (at_height : level.asUsize = height + 1) (small : index < 512)
    (low : (entrySpan level index).1.toNat ≤ virt.toNat)
    (high : virt.toNat < (entrySpan level index).1.toNat + (entrySpan level index).2.toNat) :
    virt.path (height + 1) = index := by
  obtain ⟨first, size⟩ := toNat_entrySpan at_height small
  rw [first, size, ← Nat.succ_mul] at high
  rw [first] at low
  rw [VirtualAddress.path, Nat.div_eq_of_lt_le low high, Nat.mod_eq_of_lt small]

end Span

variable {V : Type} {platform : Platform V} {loader : Loader V} {bytes : List UInt8}
  {s s' : Machine V} {height : Nat} {pages : Set UInt64} {nodes : List UInt64}

/-- A state in which a program can be loaded into a table of its own: the kernel's half of the
current table leads to trees, the frames of the list are free, and the frame that the new root is
made of holds no entry in its lower half. -/
structure LoadReady (platform : Platform V) (height : Nat) (pages : Set UInt64)
    (nodes : List UInt64)
    (s : Machine V) : Prop where
  /-- The direct map begins at a page. -/
  mapAligned : platform.hhdmOffset % 4096 = 0
  /-- The tables have this many levels below the root. -/
  levels : (PageLevel.fromUsize platform.levels).asUsize = height + 1
  /-- The stack is mapped below the root. -/
  tall : 2 ≤ height
  /-- The kernel's half of the current table leads to trees in use. -/
  kernel : Rooted platform.hhdmOffset upperHalf pages height
    (currentTable platform.hhdmOffset s.satp) s.pmm.memory
  /-- The frames of the list are free. -/
  stock : Stock platform.hhdmOffset pages s.pmm nodes
  /-- The first frame of the list holds no entry in its lower half. -/
  blank : ∀ index < 256,
    PageEntry.isBlank (s.pmm.memory (wordOf s.pmm.regionList.head index)) = true

/-- The frames that the new root takes. -/
def rootCost (hhdm : UInt64) (height : Nat) (s : Machine V) : Nat :=
  branches (slots hhdm s.pmm.memory) 512 (height + 1) (currentTable hhdm s.satp)
    (List.range' 256 (512 - 256)) + 1

/-- The frames that the stack may take, the tables for it included. -/
def stackCost (height : Nat) : Nat := 0x800 + 4 * (height - 1)

/-- The headers of a file that the loader can follow: some access is allowed, and the file has no
more bytes than the frames. -/
def Followed (table : List ProgramHeader) : Prop :=
  ∀ entry ∈ table, entry.pType = 1 →
    entry.pageFlags.Maps ∧ entry.pFilesz.toNat ≤ entry.pages * 4096

/-- The leaf that an address of a new program comes to before anything is placed. -/
def kernelLeaf (hhdm : UInt64) (height : Nat) (satp : Satp) (memory : Memory)
    (virt : VirtualAddress) : Option (Nat × PageEntry) :=
  if virt.path (height + 1) < 256 then none
  else leafOf hhdm memory (height + 1) (currentTable hhdm satp) virt

/-- The frames of a program. -/
def programFrames (stack : UInt64) (segments : List Segment) : List UInt64 :=
  framesFrom stack 0x800 ++ imageFrames segments

/-- What `load` has made of a new root. -/
structure ProgramLaid (platform : Platform V) (height : Nat) (bytes : List UInt8) (elf : ElfBytes)
    (s s' : Machine V) (root stack stackVaddr taskId : UInt64)
    (segments : List Segment) : Prop where
  /-- Every address comes to the leaf that was placed last. -/
  leaf : ∀ virt : VirtualAddress,
    leafOf platform.hhdmOffset s'.pmm.memory (height + 1) root virt =
      leafAfter (height + 1) (kernelLeaf platform.hhdmOffset height s.satp s.pmm.memory)
        (stackPlacements stackVaddr (stack - platform.hhdmOffset) 4 ++
          imagePlacements platform.hhdmOffset segments) virt
  /-- It goes where that leaf says. -/
  goes : ∀ virt : VirtualAddress,
    translate platform.hhdmOffset (.fromUsize platform.levels) root s'.pmm virt =
      .ok (resultOf virt (leafOf platform.hhdmOffset s'.pmm.memory (height + 1) root virt))
  /-- The segments are placed in frames of their own. -/
  sound : ImageSound platform.hhdmOffset segments
  /-- The frames hold what was loaded. -/
  held : ∀ segment ∈ segments, segment.Held bytes s.pmm.memory s'.pmm.memory
  /-- The frames of the stack are others. -/
  nodup : (programFrames stack segments).Nodup
  /-- All frames have short physical addresses. -/
  short : ∀ frame ∈ programFrames stack segments, (frame - platform.hhdmOffset).toNat < 2 ^ 56
  /-- Those of the stack begin at a page of 2 MiB. -/
  begins : stack &&& (PageSize.medium.bytes - 1) = 0
  /-- The stack lies in the span of an entry from 1 to 256 under which nothing was placed before. -/
  slot : ∃ index, 1 ≤ index ∧ index ≤ 256 ∧
    (entrySpan (.fromUsize platform.levels) index).1.toNat ≤ stackVaddr.toNat ∧
    stackVaddr.toNat + 0x800000 ≤ (entrySpan (.fromUsize platform.levels) index).1.toNat +
      (entrySpan (.fromUsize platform.levels) index).2.toNat ∧
    ∀ virt : VirtualAddress, virt.path (height + 1) = index →
      leafAfter (height + 1) (kernelLeaf platform.hhdmOffset height s.satp s.pmm.memory)
        (imagePlacements platform.hhdmOffset segments) virt = none
  /-- A thread with the new root and the stack is the last of the queue. -/
  pushed : ∃ task, s'.tasks = { s.tasks with queue := s.tasks.queue ++ [task] } ∧
    NewThread platform.hhdmOffset (.fromUsize platform.levels) elf s.satp root
      stackVaddr taskId task

/-- A word of a page past the first two is no link of a node. -/
theorem not_linkWords_data {nodes : List UInt64} {page : UInt64} {index : Nat}
    (nodesAligned : ∀ node ∈ nodes, node % 4096 = 0) (aligned : page % 4096 = 0) (data : 2 ≤ index)
    (small : index < 512) : ¬ LinkWords nodes (wordOf page index) := by
  rintro ⟨node, listed, first | second⟩
  · rw [← wordOf_zero node] at first
    have same := wordOf_inj aligned (nodesAligned node listed) small (by decide) first
    omega
  · have same := wordOf_inj aligned (nodesAligned node listed) small (j := 1) (by decide) second
    omega

/-- The frames that are left of a list, with the words that they hold beside the links. -/
theorem StockedFrom.left {hhdm : UInt64} {given : List UInt64} {start : Memory} {count : Nat}
    {p : Pmm} (stocked : StockedFrom hhdm given start count pages p)
    (nodesAligned : ∀ node ∈ given, node % 4096 = 0) :
    ∃ left, Stock hhdm pages p left ∧ count < left.length ∧ left ⊆ given ∧
      ∀ node ∈ left, ∀ index, 2 ≤ index → index < 512 →
        p.memory (wordOf node index) = start (wordOf node index) := by
  obtain ⟨left, stock, enough, listed, untouched⟩ := stocked
  refine ⟨left, stock, enough, listed, fun node member index data small => ?_⟩
  have aligned := (stock.holds.frames node member).aligned
  refine untouched _ ?_ (not_linkWords_data nodesAligned aligned data small)
  rintro ⟨page, inside, other, bound, same⟩
  obtain ⟨rfl, -⟩ := wordOf_inj aligned (stock.pagesAligned page inside) small bound same
  exact stock.apart node member inside

/-- What a new root holds of memory, beside pages that were in use before. -/
structure RootHeld (hhdm : UInt64) (height : Nat) (nodes : List UInt64) (pages : Set UInt64)
    (root : UInt64) (frames left : List UInt64) (extra : Nat) (more : Set UInt64) (known : Set Nat)
    (p p' : Pmm) : Prop where
  /-- The root has a short physical address. -/
  short : (root - hhdm).toNat < 2 ^ 56
  /-- The known entries lead to trees. -/
  rooted : Rooted hhdm known more height root p'.memory
  /-- The tables are new. -/
  fresh : Disjoint pages (footprint (slots hhdm p'.memory) 512 known height root)
  /-- The other entries lead nowhere. -/
  nowhere : ∀ index < 512, index ∉ known →
    PageEntry.getValid (p'.memory (wordOf root index)) = false
  /-- So are the frames, and they are no tables. -/
  frames : ∀ frame ∈ frames, frame ∈ more ∧ frame ∉ pages ∧
    frame ∉ footprint (slots hhdm p'.memory) 512 known height root
  /-- The pages that were in use still are. -/
  grown : pages ⊆ more
  /-- They keep their words. -/
  kept : Kept pages p.memory p'.memory
  /-- The frames that are left are free. -/
  stock : Stock hhdm more p' left
  /-- They were free before. -/
  given : left ⊆ nodes
  /-- There are some of them. -/
  enough : extra < left.length
  /-- They hold what they held, the links apart. -/
  data : ∀ node ∈ left, ∀ index, 2 ≤ index → index < 512 →
    p'.memory (wordOf node index) = p.memory (wordOf node index)

section Stack

variable {hhdm root vaddr paddr : UInt64} {stock : Nat → Set UInt64 → Pmm → Prop} {start : Memory}
  {first known : Set Nat} {left index : Nat} {placed : List Placement} {data : Set UInt64}
  {p p' : Pmm} {level : PageLevel}

/-- Stacks can be read and written. -/
theorem stackFlags_maps : ((PageFlags.read.union .write).union .user).Maps := by
  unfold PageFlags.Maps
  decide

/-- The loop that maps a stack places its pages. -/
theorem mapStack_lays (source : FrameSource hhdm stock) (mapAligned : hhdm % 4096 = 0)
    (at_height : level.asUsize = height + 1) (tall : 2 ≤ height)
    (laid : Laid hhdm stock start first height root placed pages data known
      (4 * (height - 1) + left) p)
    (inSlot : ∀ i < 4, (stackPlacement vaddr paddr i).page.path (height + 1) = index)
    (ready : index ∈ first ∨ PageEntry.isBlank (start (wordOf root index)) = true)
    (ran : ((List.range 4).forM (mapStack hhdm level root vaddr paddr)).run p = (.ok (), p')) :
    ∃ more latest, Laid hhdm stock start first height root (stackPlacements vaddr paddr 4 ++ placed)
        more data latest left p' ∧ Kept data p.memory p'.memory := by
  have whole := Prog.run_range_ok (fun done q => ∃ more latest, Laid hhdm stock start first height
      root (stackPlacements vaddr paddr done ++ placed) more data latest
        ((4 - done) * (height - 1) + left) q ∧ Kept data p.memory q.memory) ran
    ⟨pages, known, laid, fun _ _ _ _ => rfl⟩ ?_
  · rwa [Nat.sub_self, Nat.zero_mul, Nat.zero_add] at whole
  · rintro i bound q q' ⟨more, latest, sofar, kept⟩ round
    have cost : (4 - i) * (height - 1) + left =
        height + 1 - (stackPlacement vaddr paddr i).target.asUsize +
          ((4 - (i + 1)) * (height - 1) + left) := by
      obtain ⟨rest, same⟩ : ∃ rest, 4 - i = rest + 1 := ⟨4 - (i + 1), by omega⟩
      have others : 4 - (i + 1) = rest := by omega
      have below : height + 1 - (stackPlacement vaddr paddr i).target.asUsize = height - 1 := by
        change height + 1 - 2 = _
        omega
      rw [same, others, below, Nat.succ_mul]
      omega
    rw [cost] at sofar
    have here : (stackPlacement vaddr paddr i).page.path (height + 1) ∈ latest ∨
        PageEntry.isBlank (start (wordOf root
          ((stackPlacement vaddr paddr i).page.path (height + 1)))) = true := by
      rw [inSlot i bound]
      exact ready.imp_left fun inside => sofar.more inside
    have positive : 1 ≤ (stackPlacement vaddr paddr i).target.asUsize := (by decide : 1 ≤ 2)
    have mapped : (map hhdm root (stackPlacement vaddr paddr i).page
        (stackPlacement vaddr paddr i).phys level (stackPlacement vaddr paddr i).target
        (stackPlacement vaddr paddr i).flags).run q = (.ok (), q') := round
    obtain ⟨fresh, next, still⟩ :=
      sofar.map source mapAligned at_height stackFlags_maps positive tall here
      mapped
    exact ⟨_, _, next, kept.trans still⟩

end Stack

section Image

variable {table : List ProgramHeader} {root : UInt64} {left : Nat} {fresh image : Pmm}

/-- What the loop over the program headers has made of a new root. -/
structure ImageLaid (platform : Platform V) (height : Nat) (bytes : List UInt8)
    (nodes : List UInt64)
    (pages : Set UInt64) (s : Machine V) (table : List ProgramHeader) (root : UInt64) (left : Nat)
    (fresh image : Pmm) (segments : List Segment) (more : Set UInt64) (known : Set Nat) : Prop where
  /-- The segments are placed. -/
  loaded : Loaded platform.hhdmOffset nodes s.pmm.memory fresh.memory upperHalf height root bytes
    pages segments more known left image
  /-- The root has a short physical address. -/
  short : (root - platform.hhdmOffset).toNat < 2 ^ 56
  /-- The pages that were in use keep their words. -/
  kept : Kept pages s.pmm.memory fresh.memory
  /-- The segments are those of the headers, the last one first. -/
  headers : segments.map Segment.header = (table.filter (·.pType = 1)).reverse
  /-- The new root was blank below. -/
  lower : ∀ index < 256, PageEntry.isBlank (fresh.memory (wordOf root index)) = true
  /-- Above it goes where the current table goes. -/
  upper : ∀ virt : VirtualAddress, virt.path (height + 1) ∈ upperHalf →
    leafOf platform.hhdmOffset fresh.memory (height + 1) root virt =
      leafOf platform.hhdmOffset s.pmm.memory (height + 1)
        (currentTable platform.hhdmOffset s.satp) virt
  /-- Valid entries there are valid. -/
  valid : ∀ index ∈ upperHalf, PageEntry.getValid
      (s.pmm.memory (wordOf (currentTable platform.hhdmOffset s.satp) index)) = true →
    PageEntry.getValid (fresh.memory (wordOf root index)) = true

/-- A new root, over which nothing is placed yet. -/
structure RootLaid (hhdm : UInt64) (stock : Nat → Set UInt64 → Pmm → Prop) (height : Nat)
    (pages : Set UInt64) (current root : UInt64) (used : Set UInt64) (left : Nat) (p fresh : Pmm) :
    Prop where
  /-- Nothing is placed, and the pages that were in use hold data. -/
  laid : Laid hhdm stock fresh.memory upperHalf height root [] used pages upperHalf left fresh
  /-- The root has a short physical address. -/
  short : (root - hhdm).toNat < 2 ^ 56
  /-- The lower half is blank. -/
  lower : ∀ index < 256, PageEntry.isBlank (fresh.memory (wordOf root index)) = true
  /-- The upper half goes where the current table goes. -/
  upper : ∀ virt : VirtualAddress, virt.path (height + 1) ∈ upperHalf →
    leafOf hhdm fresh.memory (height + 1) root virt = leafOf hhdm p.memory (height + 1) current virt
  /-- Valid entries there are valid. -/
  valid : ∀ index ∈ upperHalf, PageEntry.getValid (p.memory (wordOf current index)) = true →
    PageEntry.getValid (fresh.memory (wordOf root index)) = true
  /-- The pages that were in use keep their words. -/
  kept : Kept pages p.memory fresh.memory

/-- A new root is made. -/
theorem LoadReady.newRoot {stock : Nat → Set UInt64 → Pmm → Prop}
    (ready : LoadReady platform height pages nodes s)
    (source : FrameSource platform.hhdmOffset stock)
    (several : 1 < nodes.length)
    (supplied : stock (rootCost platform.hhdmOffset height s + left) pages s.pmm) :
    ∃ root fresh used, (newWithUpperhalf platform.hhdmOffset s.satp).run s.pmm = (.ok root, fresh) ∧
      RootLaid platform.hhdmOffset stock height pages (currentTable platform.hhdmOffset s.satp) root
        used left s.pmm fresh := by
  have short : height + 1 ≤ 5 := ready.levels ▸ PageLevel.asUsize_le _
  obtain ⟨root, fresh, tables, made, outcome⟩ :=
    newWithUpperhalf_spec source ready.mapAligned short ready.kernel ready.stock several supplied
  refine ⟨root, fresh, insert root pages ∪ tables, made, ?_⟩
  have pagesAligned : ∀ page ∈ insert root pages ∪ tables, page % 4096 = 0 := by
    rintro page ((rfl | used) | made)
    · exact outcome.frame.aligned
    · exact ready.stock.pagesAligned page used
    · exact outcome.aligned page made
  have rooted := outcome.rooted.mono (Set.union_subset_union_left tables
    (Set.singleton_subset_iff.mpr (Set.mem_insert root pages)))
  have used : pages ⊆ insert root pages ∪ tables :=
    (Set.subset_insert root pages).trans Set.subset_union_left
  have apart : Disjoint pages
    (footprint (slots platform.hhdmOffset fresh.memory) 512 upperHalf height
      root) := by
    refine Set.disjoint_left.mpr fun page old table => ?_
    rcases outcome.rooted.inUse table with rfl | made
    · exact outcome.frame.outside old
    · exact Set.disjoint_left.mp outcome.unused made (.inr old)
  constructor
  case laid => exact .beginBeside rooted pagesAligned used apart outcome.supplies
  case short => exact outcome.frame.short
  case lower =>
    intro index bound
    rw [outcome.lower index bound, outcome.head]
    exact ready.blank index bound
  case upper => exact outcome.copied
  case valid => exact outcome.valid
  case kept => exact outcome.kept

/-- A new root with the segments of a file. -/
theorem image_lays (ready : LoadReady platform height pages nodes s) (followed : Followed table)
    (enough : rootCost platform.hhdmOffset height
    s + (imageCost height table + left) < nodes.length)
    (made : (newWithUpperhalf platform.hhdmOffset s.satp).run s.pmm = (.ok root, fresh))
    (ran : (table.forM
    (loadSegment platform.hhdmOffset (.fromUsize platform.levels) bytes root)).run
      fresh = (.ok (), image)) :
    ∃ segments more known,
      ImageLaid platform height bytes nodes pages s table root left fresh image segments more
        known := by
  have supplied : StockedFrom platform.hhdmOffset nodes s.pmm.memory
      (rootCost platform.hhdmOffset height s + (imageCost height table + left)) pages s.pmm :=
    ⟨nodes, ready.stock, enough, fun _ member => member, fun _ _ _ => rfl⟩
  have several : 1 < nodes.length := by
    rw [rootCost] at enough
    omega
  obtain ⟨newRoot, later, used, done, begun⟩ :=
    ready.newRoot (stockedFrom_source platform.hhdmOffset nodes s.pmm.memory) several supplied
  obtain ⟨same, rfl⟩ := Prod.mk.inj (done.symm.trans made)
  obtain rfl := Except.ok.inj same
  have nothing : pages ∪ {frame | frame ∈ imageFrames []} = pages := by
    simp [imageFrames]
  have empty : Loaded platform.hhdmOffset nodes s.pmm.memory later.memory upperHalf height newRoot
      bytes pages [] used upperHalf (imageCost height table + left) later := by
    constructor
    case laid => exact nothing.symm ▸ begun.laid
    case kept => exact fun _ _ _ _ => rfl
    case others => exact fun frame member => absurd member List.not_mem_nil
    case loadable => simp
    case aligned => simp
    case nodup => exact List.nodup_nil
    case short => exact fun frame member => absurd member List.not_mem_nil
    case held => simp
  have loadable : ∀ entry ∈ table, entry.pType = 1 →
      entry.Loadable later.memory upperHalf height newRoot := by
    intro entry member load
    obtain ⟨maps, fits⟩ := followed entry member load
    refine ⟨maps, fits, fun step bound => ?_⟩
    have small := (pageAt entry.pVaddr step).path_lt (height + 1)
    by_cases above : 256 ≤ (pageAt entry.pVaddr step).path (height + 1)
    · exact .inl ⟨above, small⟩
    · exact .inr (begun.lower _ (Nat.not_le.mp above))
  have nodesAligned : ∀ node ∈ nodes, node % 4096 = 0 := fun node member =>
    (ready.stock.holds.frames node member).aligned
  obtain ⟨segments, more, known, headers, loaded⟩ := segments_loaded ready.mapAligned ready.levels
    (Nat.le_of_succ_le ready.tall) nodesAligned empty loadable ran
  rw [List.map_nil, List.append_nil] at headers
  exact ⟨segments, more, known, loaded, begun.short, begun.kept, headers, begun.lower, begun.upper,
    begun.valid⟩

/-- An address comes to the same leaf after some placements when it came to the same leaf before. -/
theorem leafAfter_congr {height : Nat} {placed : List Placement} {virt : VirtualAddress}
    {first second : VirtualAddress → Option (Nat × PageEntry)} (same : first virt = second virt) :
    leafAfter height first placed virt = leafAfter height second placed virt := by
  induction placed with
  | nil => exact same
  | cons placement older ih => rw [leafAfter, leafAfter, ih]

section Unknown

variable {hhdm : UInt64} {start : Memory} {stock : Nat → Set UInt64 → Pmm → Prop}
  {placed : List Placement} {data : Set UInt64} {known : Set Nat} {p : Pmm} {index : Nat}

/-- The entries of the kernel's half are known. -/
theorem Laid.below_of_unknown
    (laid : Laid hhdm stock start upperHalf height root placed pages data known left p)
    (small : index < 512) (unknown : index ∉ known) : index < 256 := by
  by_contra above
  exact unknown (laid.more ⟨Nat.not_lt.mp above, small⟩)

/-- An entry that is not known leads nowhere. -/
theorem Laid.nowhere
    (laid : Laid hhdm stock start upperHalf height root placed pages data known left p)
    (lower : ∀ index < 256, PageEntry.isBlank (start (wordOf root index)) = true)
    (small : index < 512) (unknown : index ∉ known) :
    PageEntry.getValid (p.memory (wordOf root index)) = false := by
  rw [laid.beside index small unknown]
  exact (isBlank_flags (lower index (laid.below_of_unknown small unknown))).1

end Unknown

/-- Where the addresses of a new root go after some placements. -/
theorem Laid.leaf_eq {hhdm : UInt64} {satp : Satp} {origin start : Memory} {level : PageLevel}
    {stock : Nat → Set UInt64 → Pmm → Prop} {placed : List Placement} {data : Set UInt64}
    {known : Set Nat} {p : Pmm}
    (laid : Laid hhdm stock start upperHalf height root placed pages data known left p)
    (at_height : level.asUsize = height + 1)
    (lower : ∀ index < 256, PageEntry.isBlank (start (wordOf root index)) = true)
    (upper : ∀ virt : VirtualAddress, virt.path (height + 1) ∈ upperHalf →
      leafOf hhdm start (height + 1) root virt =
        leafOf hhdm origin (height + 1) (currentTable hhdm satp) virt) (virt : VirtualAddress) :
    leafOf hhdm p.memory (height + 1) root virt =
        leafAfter (height + 1) (kernelLeaf hhdm height satp origin) placed virt ∧
      translate hhdm level root p virt =
        .ok (resultOf virt (leafOf hhdm p.memory (height + 1) root virt)) := by
  have small := virt.path_lt (height + 1)
  have before : leafOf hhdm start (height + 1) root virt =
      kernelLeaf hhdm height satp origin virt := by
    rw [kernelLeaf]
    split
    · next below => exact leafOf_invalid (isBlank_flags (lower _ below)).1
    · next above => exact upper virt ⟨Nat.not_lt.mp above, small⟩
  by_cases inside : virt.path (height + 1) ∈ known
  · refine ⟨?_, laid.rooted.translate_known at_height inside⟩
    rw [laid.walks virt inside]
    exact leafAfter_congr before
  · -- nothing was placed under an entry that is not known, and it still is blank
    have below := laid.below_of_unknown small inside
    have apart : ∀ placement ∈ placed, ¬ placement.Covers (height + 1) virt := by
      intro placement member covers
      have same : virt.path (height + 1) = placement.page.path (height + 1) :=
        covers _ (Nat.le_succ_of_le (laid.below placement member)) (Nat.le_refl _)
      exact inside (same ▸ laid.tops placement member)
    have invalid := laid.nowhere lower small inside
    rw [leafAfter_apart apart, kernelLeaf, if_pos below, leafOf_invalid invalid]
    exact ⟨rfl, translate_invalid at_height invalid⟩

end Image

section Load

variable {table : List ProgramHeader} {root stack stackVaddr taskId : UInt64} {index extra : Nat}
  {fresh image between : Pmm} {segments : List Segment} {known : Set Nat} {elf : ElfBytes}
  {spans : V → UInt64 → List (UInt64 × UInt64)}

/-- The pages of a stack lie under the entry of its span. -/
theorem stack_path {level : PageLevel} (at_height : level.asUsize = height + 1)
    (small : index ≤ 256)
    (low : (entrySpan level index).1.toNat ≤ stackVaddr.toNat)
    (high : stackVaddr.toNat + 0x800000 ≤
      (entrySpan level index).1.toNat + (entrySpan level index).2.toNat) {paddr : UInt64} {i : Nat}
    (bound : i < 4) : (stackPlacement stackVaddr paddr i).page.path (height + 1) = index := by
  have short : height + 1 ≤ 5 := at_height ▸ level.asUsize_le
  obtain ⟨first, size⟩ := toNat_entrySpan at_height (Nat.lt_of_le_of_lt small (by decide))
  have limit : 2 ^ pageBits (height + 1) ≤ 2 ^ 48 :=
    Nat.pow_le_pow_right (by decide) (by rw [pageBits]; omega)
  have start : (entrySpan level index).1.toNat ≤ 256 * 2 ^ 48 := by
    rw [first]
    exact Nat.mul_le_mul small limit
  have place : (stackVaddr + UInt64.ofNat (i * 0x200000)).toNat =
      stackVaddr.toNat + i * 0x200000 := by
    rw [UInt64.toNat_add, UInt64.toNat_ofNat']
    omega
  apply path_of_entrySpan at_height (Nat.lt_of_le_of_lt small (by decide))
  · change _ ≤ (stackVaddr + UInt64.ofNat (i * 0x200000)).toNat
    omega
  · change (stackVaddr + UInt64.ofNat (i * 0x200000)).toNat < _
    omega

/-- A search for several frames returns a frame that may start them. -/
theorem claimWindow_starts {hhdm frames base : UInt64} {mayStart : UInt64 → Bool} {p p' : Pmm}
    (stock : Stock hhdm pages p nodes) (wide : frames ≠ 1) (enough : frames.toNat < nodes.length)
    (ran : (FreeList.claimWindow hhdm frames mayStart).run p = (.ok (.ok base), p')) :
    mayStart base = true := by
  have leaves := leavesTail_of_ok stock enough ran
  rw [FreeList.LeavesTail, if_neg wide] at leaves
  have positive : frames ≠ 0 := by
    rintro rfl
    rw [FreeList.claimWindow_none stock.holds wide fun some => absurd rfl some] at ran
    cases ran
  cases found : Window.first mayStart adjacentFrames frames.toNat nodes with
  | none =>
    rw [FreeList.claimWindow_none stock.holds wide fun _ => found] at ran
    cases ran
  | some parts =>
    obtain ⟨pre, window, post⟩ := parts
    obtain ⟨-, size, -, starts⟩ := Window.first_sound found
    cases post with
    | nil =>
      rw [leaves pre window found] at size
      exact absurd (UInt64.toNat_inj.mp size.symm) positive
    | cons next post =>
      obtain ⟨first, later, claimed, rfl, -⟩ :=
        FreeList.claimWindow_spec hhdm stock.holds wide positive found
      obtain ⟨same, -⟩ := Prod.mk.inj (claimed.symm.trans ran)
      obtain rfl := Except.ok.inj (Except.ok.inj same)
      obtain ⟨count, more⟩ := Nat.exists_eq_succ_of_ne_zero fun zero =>
        positive (UInt64.toNat_inj.mp zero)
      rw [more] at starts
      exact starts

/-- What a call of `load` that returned has made of its root. -/
theorem ImageLaid.finish (ready : LoadReady platform height pages nodes s) {more : Set UInt64}
    (laid : ImageLaid platform height bytes nodes pages s table root
    (stackCost height + extra) fresh
      image segments more known)
    (parts : LoadParts platform loader bytes s s' elf table root stack stackVaddr taskId index fresh
      image between) :
    ProgramLaid platform height bytes elf s s' root stack stackVaddr taskId segments ∧
      ∃ left used latest, RootHeld platform.hhdmOffset height nodes pages root
        (programFrames stack segments) left extra used latest s.pmm s'.pmm := by
  obtain ⟨loaded, short, keptRoot, -, lower, upper⟩ := laid
  have source := stockedFrom_source platform.hhdmOffset nodes s.pmm.memory
  have cost : stackCost height + extra = (0x800 : UInt64).toNat + (4 * (height - 1) + extra) :=
    Nat.add_assoc 0x800 _ extra
  have supplied := loaded.laid.supplies
  rw [cost] at supplied
  obtain ⟨supplies, claimKept, claimFresh, claimNodup, -⟩ :=
    StockedFrom.claimWindow supplied parts.stackRun.claimed
  have claimed : Laid _ _ fresh.memory upperHalf height root _ _ _ known (4 * (height - 1) + extra)
      between :=
    loaded.laid.claimed claimKept (fun frame member => (claimFresh frame member).1) supplies
  have ready₂ : index ∈ upperHalf ∨
      PageEntry.isBlank (fresh.memory (wordOf root index)) = true := by
    by_cases above : 256 ≤ index
    · exact .inl ⟨above, Nat.lt_of_le_of_lt parts.bounds.2 (by decide)⟩
    · exact .inr (lower index (Nat.not_le.mp above))
  obtain ⟨used, latest, last, mapKept⟩ :=
    mapStack_lays source ready.mapAligned ready.levels ready.tall
    claimed
    (fun i bound => stack_path ready.levels parts.bounds.2 parts.inside.1
    parts.inside.2 bound) ready₂
    parts.stackRun.mapped
  have kept : Kept (pages ∪ {frame | frame ∈ imageFrames segments}) image.memory s'.pmm.memory :=
    (claimKept.mono loaded.laid.dataUsed).trans (mapKept.mono Set.subset_union_left)
  have unclaimed : ∀ frame ∈ framesFrom stack 0x800,
      frame ∉ pages ∪ {frame | frame ∈ imageFrames segments} := fun frame new old =>
    (claimFresh frame new).1.outside (loaded.laid.dataUsed old)
  constructor
  · constructor
    case leaf => exact fun virt => (last.leaf_eq ready.levels lower upper virt).1
    case goes => exact fun virt => (last.leaf_eq ready.levels lower upper virt).2
    case sound =>
      exact ⟨loaded.aligned, fun segment member =>
        (loaded.loadable segment member).maps, loaded.short,
        loaded.nodup⟩
    case held =>
      intro segment member
      have inside : ∀ frame ∈ segment.frames,
          frame ∈ pages ∪ {frame | frame ∈ imageFrames segments} := fun frame held =>
        .inr (List.mem_flatMap.mpr ⟨segment, member, held⟩)
      exact (loaded.held segment member).kept kept inside (loaded.aligned segment member)
        (loaded.loadable segment member).fits
    case nodup =>
      refine List.nodup_append.mpr ⟨claimNodup, loaded.nodup, ?_⟩
      rintro frame new other old rfl
      exact unclaimed frame new (.inr old)
    case short =>
      intro frame member
      rcases List.mem_append.mp member with new | old
      · exact (claimFresh frame new).1.short
      · exact loaded.short frame old
    case begins =>
      obtain ⟨free, list, enough, -⟩ := supplied
      have starts := claimWindow_starts list (by decide) (Nat.lt_of_le_of_lt (Nat.le_add_right _ _)
        enough) parts.stackRun.claimed
      exact beq_iff_eq.mp starts
    case slot =>
      refine ⟨index, parts.bounds.1, parts.bounds.2, parts.inside.1, parts.inside.2, ?_⟩
      intro virt inside
      rw [← (loaded.laid.leaf_eq ready.levels lower upper virt).1]
      apply leafOf_invalid
      rw [inside]
      exact parts.invalid
    case pushed => exact parts.pushed
  · obtain ⟨left, stock, enough, given, data⟩ := StockedFrom.left last.supplies fun node member =>
      (ready.stock.holds.frames node member).aligned
    refine ⟨left, used, latest, ?_⟩
    constructor
    case short => exact short
    case rooted => exact last.rooted
    case fresh =>
      exact last.dataApart.mono_left (Set.subset_union_left.trans Set.subset_union_left)
    case nowhere => exact fun index small unknown => last.nowhere lower small unknown
    case frames =>
      intro frame member
      have data : frame ∈ pages ∪ {frame | frame ∈ imageFrames segments} ∪
          {frame | frame ∈ framesFrom stack 0x800} := by
        rcases List.mem_append.mp member with new | old
        · exact .inr new
        · exact .inl (.inr old)
      refine ⟨last.dataUsed data, ?_, fun table => Set.disjoint_left.mp last.dataApart data table⟩
      rcases List.mem_append.mp member with new | old
      · exact fun inUse => unclaimed frame new (.inl inUse)
      · exact loaded.others frame old
    case grown => exact (Set.subset_union_left.trans Set.subset_union_left).trans last.dataUsed
    case kept => exact (keptRoot.trans loaded.kept).trans (kept.mono Set.subset_union_left)
    case stock => exact stock
    case given => exact given
    case enough => exact enough
    case data => exact data

/-- A call of `load` that returned, on a file that the loader can follow. -/
theorem load_lays (ready : LoadReady platform height pages nodes s)
    (served : SpanArenas loader platform.vmem spans) (parsed : loader.minimalParse bytes = .ok elf)
    (listed : elf.segments = some table) (followed : Followed table)
    (enough : rootCost platform.hhdmOffset height s +
      (imageCost height table + (stackCost height + extra)) < nodes.length)
    (ran : (load platform loader bytes).run s = (.ok taskId, s')) :
    ∃ root stack stackVaddr segments,
      segments.map Segment.header = (table.filter (·.pType = 1)).reverse ∧
        ProgramLaid platform height bytes elf s s' root stack stackVaddr taskId segments ∧
        ∃ left used known, RootHeld platform.hhdmOffset height nodes pages root
          (programFrames stack segments) left extra used known s.pmm s'.pmm := by
  obtain ⟨found, headers, root, stack, stackVaddr, index, fresh, image, between, parts⟩ :=
    load_eq_ok served ran
  obtain ⟨same, inside⟩ := parts.parsed
  obtain rfl : elf = found := Except.ok.inj (parsed.symm.trans same)
  obtain rfl : table = headers := Option.some.inj (listed.symm.trans inside)
  obtain ⟨segments, more, known, laid⟩ :=
    image_lays ready followed enough parts.root parts.segments
  exact ⟨root, stack, stackVaddr, segments, laid.headers, laid.finish ready parts⟩

end Load

end Lsd
