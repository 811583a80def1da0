import Lsd.Memory.Arena
import Lsd.Verif.FreshTable
import Lsd.Verif.SegmentFill

/-!
# The image of a program

While a program is loaded, its root maps the pages that were placed so far, the
last placement of a page deciding, and everything else goes where it went before
the first of them. The frames that hold data of the program lie beside the tables
and keep their bytes. Each step of the loader keeps this, and adds a placement or
a run of filled frames.
-/

namespace Lsd

open Program Radix

instance {low high : Nat} {path other : Nat → Nat} : Decidable (SamePath low high path other) :=
  decidable_of_iff (∀ level < high + 1, low ≤ level → other level = path level)
    ⟨fun same level above below => same level (Nat.lt_succ_of_le below) above,
      fun same level below above => same level above (Nat.le_of_lt_succ below)⟩

/-- A page that was mapped. -/
structure Placement where
  /-- An address of the page. -/
  page : VirtualAddress
  /-- The level of the page. -/
  target : PageLevel
  /-- The physical address that it goes to. -/
  phys : PhysicalAddress
  /-- The flags of its leaf. -/
  flags : PageFlags

namespace Placement

variable {height : Nat} {start : VirtualAddress → Option (Nat × PageEntry)} {placement : Placement}
  {placed newer : List Placement} {virt : VirtualAddress}

/-- Whether an address lies in the page. -/
abbrev Covers (height : Nat) (placement : Placement) (virt : VirtualAddress) : Prop :=
  SamePath placement.target.asUsize height placement.page.path virt.path

/-- The leaf of the page. -/
abbrev leaf (placement : Placement) : Nat × PageEntry :=
  (placement.target.asUsize, leafEntry placement.phys placement.flags)

/-- The leaf that an address comes to after some placements, the last of them first in the list. -/
def leafAfter (height : Nat) (start : VirtualAddress → Option (Nat × PageEntry)) :
    List Placement → VirtualAddress → Option (Nat × PageEntry)
  | [], virt => start virt
  | placement :: older, virt =>
    if placement.Covers height virt then some placement.leaf else leafAfter height start older virt

/-- Placements that do not cover an address do not count for it. -/
theorem leafAfter_append (apart : ∀ placement ∈ newer, ¬ placement.Covers height virt) :
    leafAfter height start (newer ++ placed) virt = leafAfter height start placed virt := by
  induction newer with
  | nil => rfl
  | cons placement newer ih =>
    obtain ⟨here, others⟩ := List.forall_mem_cons.mp apart
    rw [List.cons_append, leafAfter, if_neg here, ih others]

/-- An address that no placement covers goes where it went before. -/
theorem leafAfter_apart (apart : ∀ placement ∈ placed, ¬ placement.Covers height virt) :
    leafAfter height start placed virt = start virt := by
  have whole := @leafAfter_append height start [] placed virt apart
  rwa [List.append_nil] at whole

/-- An address that is covered comes to the leaf of a placement that covers it. -/
theorem leafAfter_covered (member : placement ∈ placed) (covers : placement.Covers height virt) :
    ∃ last ∈ placed, last.Covers height virt ∧ leafAfter height start placed virt =
      some last.leaf := by
  induction placed with
  | nil => cases member
  | cons newest older ih =>
    by_cases here : newest.Covers height virt
    · exact ⟨newest, List.mem_cons_self, here, if_pos here⟩
    · have other : placement ∈ older := by
        rcases List.mem_cons.mp member with rfl | other
        · exact absurd covers here
        · exact other
      obtain ⟨last, listed, covers, found⟩ := ih other
      exact ⟨last, List.mem_cons_of_mem newest listed, covers, (if_neg here).trans found⟩

/-- No address lies in the pages of two placements of one level that are apart. -/
def Apart (height : Nat) (first second : Placement) : Prop :=
  ¬ SamePath 1 height first.page.path second.page.path

/-- Where the small pages are apart, each address comes to the leaf of the page that it lies in. -/
theorem leafAfter_of_apart (small : ∀ other ∈ placed, other.target = .level1)
    (apart : placed.Pairwise (Apart height)) (member : placement ∈ placed)
    (covers : placement.Covers height virt) :
    leafAfter height start placed virt = some placement.leaf := by
  induction placed with
  | nil => cases member
  | cons newest older ih =>
    obtain ⟨smallHere, smallOthers⟩ := List.forall_mem_cons.mp small
    obtain ⟨apartHere, apartOthers⟩ := List.pairwise_cons.mp apart
    rcases List.mem_cons.mp member with rfl | other
    · exact if_pos covers
    · have elsewhere : ¬ newest.Covers height virt := by
        intro here
        rw [Covers, smallHere] at here
        rw [Covers, smallOthers placement other] at covers
        exact apartHere placement other (here.trans covers.symm)
      exact (if_neg elsewhere).trans (ih smallOthers apartOthers other)

/-- Small pages that all come to their own leaves, which differ, are apart. -/
theorem apart_of_leafAfter (small : ∀ other ∈ placed, other.target = .level1)
    (differ : (placed.map leaf).Nodup)
    (own : ∀ other ∈ placed, leafAfter height start placed other.page = some other.leaf) :
    placed.Pairwise (Apart height) := by
  induction placed with
  | nil => exact .nil
  | cons newest older ih =>
    obtain ⟨smallHere, smallOthers⟩ := List.forall_mem_cons.mp small
    rw [List.map_cons, List.nodup_cons] at differ
    have apart : ∀ other ∈ older, Apart height newest other := by
      intro other member here
      have found := own other (List.mem_cons_of_mem newest member)
      have covers : newest.Covers height other.page := by
        rw [Covers, smallHere]
        exact here
      rw [leafAfter, if_pos covers, Option.some_inj] at found
      exact differ.1 (List.mem_map.mpr ⟨other, member, found.symm⟩)
    refine .cons apart (ih smallOthers differ.2 fun other member => ?_)
    have elsewhere : ¬ newest.Covers height other.page := by
      rw [Covers, smallHere]
      exact apart other member
    exact (if_neg elsewhere).symm.trans (own other (List.mem_cons_of_mem newest member))

end Placement

open Placement (leafAfter)

/-- What the loader has made of a root after some placements. -/
structure Laid (hhdm : UInt64) (stock : Nat → Set UInt64 → Pmm → Prop) (start : Memory)
    (first : Set Nat) (height : Nat) (root : UInt64) (placed : List Placement)
    (pages data : Set UInt64) (known : Set Nat) (left : Nat) (p : Pmm) : Prop where
  /-- The known entries lead to trees. -/
  rooted : Rooted hhdm known pages height root p.memory
  /-- The pages in use are pages. -/
  pagesAligned : ∀ page ∈ pages, page % 4096 = 0
  /-- The data of the program is in use. -/
  dataUsed : data ⊆ pages
  /-- It lies beside the tables. -/
  dataApart : Disjoint data (footprint (slots hhdm p.memory) 512 known height root)
  /-- Pages are placed below the root. -/
  below : ∀ placement ∈ placed, placement.target.asUsize ≤ height
  /-- Their entries are known. -/
  tops : ∀ placement ∈ placed, placement.page.path (height + 1) ∈ known
  /-- So are those that were known first. -/
  more : first ⊆ known
  /-- The other entries of the root keep their words. -/
  beside : ∀ index < 512, index ∉ known → p.memory (wordOf root index) = start (wordOf root index)
  /-- Valid entries of the root stay valid. -/
  valid : ∀ index < 512, PageEntry.getValid (start (wordOf root index)) = true →
    PageEntry.getValid (p.memory (wordOf root index)) = true
  /-- Addresses under known entries go where they were placed. -/
  walks : ∀ virt : VirtualAddress, virt.path (height + 1) ∈ known →
    leafOf hhdm p.memory (height + 1) root virt =
      leafAfter (height + 1) (leafOf hhdm start (height + 1) root) placed virt
  /-- Further frames are left. -/
  supplies : stock left pages p

namespace Laid

variable {hhdm root : UInt64} {stock : Nat → Set UInt64 → Pmm → Prop} {start : Memory}
  {first known : Set Nat} {height left : Nat} {placed : List Placement}
  {pages data fresh frames : Set UInt64} {p p' : Pmm} {placement : Placement} {level : PageLevel}

/-- Nothing was placed yet, and some pages in use hold data. -/
theorem beginBeside (rooted : Rooted hhdm first pages height root p.memory)
    (pagesAligned : ∀ page ∈ pages, page % 4096 = 0) (dataUsed : data ⊆ pages)
    (dataApart : Disjoint data (footprint (slots hhdm p.memory) 512 first height root))
    (supplies : stock left pages p) :
    Laid hhdm stock p.memory first height root [] pages data first left p := by
  constructor
  case rooted => exact rooted
  case pagesAligned => exact pagesAligned
  case dataUsed => exact dataUsed
  case dataApart => exact dataApart
  case below => simp
  case tops => simp
  case more => rfl
  case beside => exact fun _ _ _ => rfl
  case valid => exact fun _ _ still => still
  case walks => exact fun _ _ => rfl
  case supplies => exact supplies

/-- Nothing was placed yet. -/
theorem begin (rooted : Rooted hhdm first pages height root p.memory)
    (pagesAligned : ∀ page ∈ pages, page % 4096 = 0) (supplies : stock left pages p) :
    Laid hhdm stock p.memory first height root [] pages ∅ first left p :=
  beginBeside rooted pagesAligned (Set.empty_subset pages) (Set.empty_disjoint _) supplies

/-- What one more placement makes of it. -/
theorem mapped (laid : Laid hhdm stock start first height root placed pages data known left p)
    (positive : 1 ≤ placement.target.asUsize) (reach : placement.target.asUsize ≤ height)
    (ready : placement.page.path (height + 1) ∈ known ∨
      PageEntry.isBlank (start (wordOf root (placement.page.path (height + 1)))) = true)
    {extra : Nat}
    (mapped : RootMapped hhdm stock known placement.page placement.target
      (leafEntry placement.phys placement.flags) pages fresh extra height root p p') :
    Laid hhdm stock start first height root (placement :: placed) (pages ∪ fresh) data
        (insert (placement.page.path (height + 1)) known) extra p' ∧
      Kept data p.memory p'.memory := by
  have small := placement.page.path_lt (height + 1)
  constructor
  · constructor
    case rooted => exact mapped.rooted
    case pagesAligned =>
      rintro page (used | made)
      · exact laid.pagesAligned page used
      · exact mapped.aligned page made
    case dataUsed => exact laid.dataUsed.trans Set.subset_union_left
    case dataApart =>
      refine Set.disjoint_left.mpr fun page held table => ?_
      rcases mapped.grown table with old | made
      · exact Set.disjoint_left.mp laid.dataApart held old
      · exact Set.disjoint_left.mp mapped.unused made (laid.dataUsed held)
    case below => exact List.forall_mem_cons.mpr ⟨reach, laid.below⟩
    case tops =>
      intro other member
      rcases List.mem_cons.mp member with rfl | older
      · exact .inl rfl
      · exact .inr (laid.tops other older)
    case more => exact laid.more.trans (Set.subset_insert _ _)
    case beside =>
      intro index bound out
      rw [mapped.beside index bound fun same => out (.inl same)]
      exact laid.beside index bound fun inside => out (.inr inside)
    case valid =>
      intro index bound still
      by_cases here : index = placement.page.path (height + 1)
      · -- the address that was mapped comes to a leaf
        subst here
        by_contra invalid
        have nowhere : leafOf hhdm p'.memory (height + 1) root placement.page = none :=
          leafOf_invalid (by simpa using invalid)
        rw [mapped.along placement.page fun _ _ _ => rfl] at nowhere
        cases nowhere
      · rw [mapped.beside index bound here]
        exact laid.valid index bound still
    case walks =>
      intro virt inside
      by_cases covers : placement.Covers (height + 1) virt
      · rw [mapped.along virt covers, leafAfter, if_pos covers]
      · rw [mapped.across virt inside covers, leafAfter, if_neg covers]
        by_cases old : virt.path (height + 1) ∈ known
        · exact laid.walks virt old
        · -- an entry that was blank led nowhere, and nothing was placed under it
          have top : virt.path (height + 1) = placement.page.path (height + 1) :=
            inside.resolve_right old
          have blank := ready.resolve_left (top ▸ old)
          have invalid := (isBlank_flags blank).1
          rw [← top] at invalid
          have apart : ∀ other ∈ placed, ¬ other.Covers (height + 1) virt := by
            intro other member covered
            have same : virt.path (height + 1) = other.page.path (height + 1) :=
              covered _ (Nat.le_succ_of_le (laid.below other member)) (Nat.le_refl _)
            exact old (same ▸ laid.tops other member)
          rw [Placement.leafAfter_apart apart, leafOf_invalid invalid, leafOf_invalid]
          rwa [laid.beside _ (virt.path_lt _) old]
    case supplies => exact mapped.supplies
  · apply mapped.kept.mono
    exact fun page held =>
      ⟨laid.dataUsed held, fun table => Set.disjoint_left.mp laid.dataApart held table⟩

/-- A call of `map` that returned places a page. -/
theorem map (source : FrameSource hhdm stock) (mapAligned : hhdm % 4096 = 0)
    (laid : Laid hhdm stock start first height root placed pages data known
      (height + 1 - placement.target.asUsize + left) p)
    (at_height : level.asUsize = height + 1) (maps : placement.flags.Maps)
    (positive : 1 ≤ placement.target.asUsize) (reach : placement.target.asUsize ≤ height)
    (ready : placement.page.path (height + 1) ∈ known ∨
      PageEntry.isBlank (start (wordOf root (placement.page.path (height + 1)))) = true)
    (ran : (Lsd.map hhdm root placement.page placement.phys level placement.target
      placement.flags).run p = (.ok (), p')) :
    ∃ fresh, Laid hhdm stock start first height root (placement :: placed) (pages ∪ fresh) data
        (insert (placement.page.path (height + 1)) known) left p' ∧
          Kept data p.memory p'.memory := by
  have small := placement.page.path_lt (height + 1)
  have now : placement.page.path (height + 1) ∈ known ∨
      PageEntry.isBlank (p.memory (wordOf root (placement.page.path (height + 1)))) = true := by
    by_cases here : placement.page.path (height + 1) ∈ known
    · exact .inl here
    · rw [laid.beside _ small here]
      exact .inr (ready.resolve_left here)
  have supplied := source.enough laid.supplies placement.page root
  obtain ⟨fresh, outcome, -⟩ := laid.rooted.map source mapAligned maps positive at_height reach
    laid.pagesAligned now supplied ran
  exact ⟨fresh, laid.mapped positive reach ready outcome⟩

/-- Frames that were claimed become data of the program. -/
theorem claimed (laid : Laid hhdm stock start first height root placed pages data known left p)
    (kept : Kept pages p.memory p'.memory) (fresh : ∀ frame ∈ frames, FreshFrame hhdm pages frame)
    {rest : Nat} (supplies : stock rest (pages ∪ frames) p') :
    Laid hhdm stock start first height root placed (pages ∪ frames)
      (data ∪ frames) known rest p' := by
  obtain ⟨rooted, same, walks⟩ := laid.rooted.kept (kept.mono laid.rooted.inUse)
  constructor
  case rooted => exact rooted.mono Set.subset_union_left
  case pagesAligned =>
    rintro page (used | claimed)
    · exact laid.pagesAligned page used
    · exact (fresh page claimed).aligned
  case dataUsed => exact Set.union_subset_union_left _ laid.dataUsed
  case dataApart =>
    rw [same]
    refine Set.disjoint_left.mpr fun page held table => ?_
    rcases held with old | claimed
    · exact Set.disjoint_left.mp laid.dataApart old table
    · exact (fresh page claimed).outside (laid.rooted.inUse table)
  case below => exact laid.below
  case tops => exact laid.tops
  case more => exact laid.more
  case beside =>
    intro index bound out
    rw [kept root laid.rooted.member index bound]
    exact laid.beside index bound out
  case valid =>
    intro index bound still
    rw [kept root laid.rooted.member index bound]
    exact laid.valid index bound still
  case walks =>
    intro virt inside
    rw [walks virt inside]
    exact laid.walks virt inside
  case supplies => exact supplies

/-- Data of the program can be written. -/
theorem write (source : FrameSource hhdm stock)
    (laid : Laid hhdm stock start first height root placed pages data known left p)
    (list : p'.regionList = p.regionList) (changed : ChangedWithin data p.memory p'.memory) :
    Laid hhdm stock start first height root placed pages data known left p' := by
  have tables : Kept (footprint (slots hhdm p.memory) 512 known height root) p.memory
      p'.memory := by
    intro page table index bound
    have dataAligned : ∀ other ∈ data, other % 4096 = 0 := fun other held =>
      laid.pagesAligned other (laid.dataUsed held)
    apply changed.word dataAligned (laid.pagesAligned page (laid.rooted.inUse table)) bound
    exact fun held => Set.disjoint_left.mp laid.dataApart held table
  obtain ⟨rooted, same, walks⟩ := laid.rooted.kept tables
  have state : p' = { p with memory := p'.memory } := by
    rw [← list]
  constructor
  case rooted => exact rooted
  case pagesAligned => exact laid.pagesAligned
  case dataUsed => exact laid.dataUsed
  case dataApart => exact same ▸ laid.dataApart
  case below => exact laid.below
  case tops => exact laid.tops
  case more => exact laid.more
  case beside =>
    intro index bound out
    rw [tables root (.inl rfl) index bound]
    exact laid.beside index bound out
  case valid =>
    intro index bound still
    rw [tables root (.inl rfl) index bound]
    exact laid.valid index bound still
  case walks =>
    intro virt inside
    rw [walks virt inside]
    exact laid.walks virt inside
  case supplies =>
    rw [state]
    exact source.write laid.supplies (changed.mono laid.dataUsed)

end Laid

/-- A segment that was loaded. -/
structure Segment where
  /-- Its program header. -/
  header : ProgramHeader
  /-- The first of its frames. -/
  base : UInt64

namespace Segment

/-- The frames of a segment. -/
def frames (segment : Segment) : List UInt64 := framesFrom segment.base segment.header.pages

/-- What the loader places at one of its pages. -/
def placement (hhdm : UInt64) (segment : Segment) (step : Nat) : Placement where
  page := pageAt segment.header.pVaddr step
  target := .level1
  phys := segment.base - hhdm + UInt64.ofNat (step * 4096)
  flags := segment.header.pageFlags

/-- Its first pages, the last of them first. -/
def placements (hhdm : UInt64) (segment : Segment) : Nat → List Placement
  | 0 => []
  | count + 1 => segment.placement hhdm count :: segment.placements hhdm count

/-- The placements of some pages. -/
theorem mem_placements {hhdm : UInt64} {segment : Segment} {count : Nat} {placement : Placement} :
    placement ∈ segment.placements hhdm count ↔
      ∃ step < count, placement = segment.placement hhdm step := by
  induction count with
  | zero => simp [placements]
  | succ count ih =>
    rw [placements, List.mem_cons, ih]
    constructor
    · rintro (rfl | ⟨step, bound, rfl⟩)
      · exact ⟨count, Nat.lt_succ_self count, rfl⟩
      · exact ⟨step, Nat.lt_succ_of_lt bound, rfl⟩
    · rintro ⟨step, bound, rfl⟩
      rcases Nat.lt_succ_iff_lt_or_eq.mp bound with before | rfl
      · exact .inr ⟨step, before, rfl⟩
      · exact .inl rfl

/-- What the frames of a segment hold: the bytes of the file, or zeroes if it has none there, and
behind the bytes of the file what the frames held before, the links of the frame list apart. -/
structure Held (bytes : List UInt8) (segment : Segment) (origin memory : Memory) : Prop where
  /-- The bytes of the file. -/
  file : ∀ offset < segment.header.pFilesz.toNat,
    byteAt memory (segment.base + UInt64.ofNat offset) =
      bytes.getD (UInt64.ofNat offset + segment.header.pOffset).toNat 0
  /-- Zeroes. -/
  zero : segment.header.pFilesz = 0 → ∀ offset < segment.header.pMemsz.toNat,
    byteAt memory (segment.base + UInt64.ofNat offset) = 0
  /-- What was there before. -/
  stale : segment.header.pFilesz ≠ 0 → ∀ offset < segment.header.pages * 4096,
    segment.header.pFilesz.toNat ≤ offset → 16 ≤ offset % 4096 →
      byteAt memory (segment.base + UInt64.ofNat offset) =
        byteAt origin (segment.base + UInt64.ofNat offset)

end Segment

/-- The placements of some segments, those of the first in the list first. -/
def imagePlacements (hhdm : UInt64) (segments : List Segment) : List Placement :=
  segments.flatMap fun segment => segment.placements hhdm segment.header.pages

/-- The frames of some segments. -/
def imageFrames (segments : List Segment) : List UInt64 := segments.flatMap Segment.frames

/-- The frames that loading some headers may take. -/
def imageCost (height : Nat) (table : List ProgramHeader) : Nat :=
  ((table.filter (·.pType = 1)).map fun entry => entry.pages * (height + 1)).sum

/-- A header that the loader can follow: its pages are mapped, the bytes from the file fit in its
frames, and the entries of the root for its pages are known, or blank. -/
structure ProgramHeader.Loadable (start : Memory) (first : Set Nat) (height : Nat) (root : UInt64)
    (entry : ProgramHeader) : Prop where
  /-- Some access is allowed. -/
  maps : entry.pageFlags.Maps
  /-- The file has no more bytes than the frames. -/
  fits : entry.pFilesz.toNat ≤ entry.pages * 4096
  /-- The root is ready for its pages. -/
  ready : ∀ step < entry.pages,
    (pageAt entry.pVaddr step).path (height + 1) ∈ first ∨
      PageEntry.isBlank (start (wordOf root ((pageAt entry.pVaddr step).path (height + 1)))) = true

/-- What the loader has made of some headers, beside pages that were in use before. -/
structure Loaded (hhdm : UInt64) (given : List UInt64) (origin start : Memory) (first : Set Nat)
    (height : Nat) (root : UInt64) (bytes : List UInt8) (before : Set UInt64)
    (segments : List Segment) (pages : Set UInt64) (known : Set Nat) (left : Nat) (p : Pmm) :
    Prop where
  /-- The pages of the segments are placed. -/
  laid : Laid hhdm (StockedFrom hhdm given origin) start first height root
    (imagePlacements hhdm segments) pages (before ∪ {frame | frame ∈ imageFrames segments}) known
    left p
  /-- The pages that were in use before keep their words. -/
  kept : Kept before start p.memory
  /-- The frames of the segments are others. -/
  others : ∀ frame ∈ imageFrames segments, frame ∉ before
  /-- Their headers can be followed. -/
  loadable : ∀ segment ∈ segments, segment.header.Loadable start first height root
  /-- They begin at pages. -/
  aligned : ∀ segment ∈ segments, segment.base % 4096 = 0
  /-- Their frames differ. -/
  nodup : (imageFrames segments).Nodup
  /-- They have short physical addresses. -/
  short : ∀ frame ∈ imageFrames segments, (frame - hhdm).toNat < 2 ^ 56
  /-- They hold what was loaded. -/
  held : ∀ segment ∈ segments, segment.Held bytes origin p.memory

section Load

variable {hhdm root current : UInt64} {given : List UInt64} {origin start : Memory}
  {first known : Set Nat} {height left : Nat} {bytes : List UInt8} {segments : List Segment}
  {segment : Segment} {pages data before : Set UInt64} {p p' : Pmm} {level : PageLevel}
  {entry : ProgramHeader} {placed : List Placement} {stock : Nat → Set UInt64 → Pmm → Prop}

/-- The frames of a segment are as many as its pages. -/
theorem ProgramHeader.toNat_frames (entry : ProgramHeader) : entry.frames.toNat = entry.pages :=
  toNat_framesOf entry.pMemsz

/-- Words that are kept are kept byte by byte. -/
theorem Kept.byteAt {old new : Memory} {count offset : Nat} (kept : Kept data old new)
    (frames : ∀ frame ∈ framesFrom current count, frame ∈ data) (aligned : current % 4096 = 0)
    (bound : offset < count * 4096) : byteAt new (current + UInt64.ofNat offset) =
      Lsd.byteAt old (current + UInt64.ofNat offset) := by
  obtain ⟨frame, member, index, small, place⟩ := byte_inPages aligned bound
  apply byteAt_congr
  rw [place]
  exact kept frame (frames frame member) index small

/-- The loop that maps a segment places its pages. -/
theorem mapSegment_lays (source : FrameSource hhdm stock) (mapAligned : hhdm % 4096 = 0)
    (at_height : level.asUsize = height + 1) (tall : 1 ≤ height)
    (laid : Laid hhdm stock start first height root placed pages data known
      (segment.header.pages * height + left) p)
    (loadable : segment.header.Loadable start first height root)
    (ran : (mapSegment hhdm level root segment.header segment.base).run p = (.ok (), p')) :
    ∃ more latest, Laid hhdm stock start first height root
        (segment.placements hhdm segment.header.pages ++ placed) more data latest left p' ∧
      Kept data p.memory p'.memory := by
  have whole := Prog.run_range_ok (fun done q =>
    ∃ more latest, Laid hhdm stock start first height root
      (segment.placements hhdm done ++ placed) more data latest
        ((segment.header.pages - done) * height + left) q ∧ Kept data p.memory q.memory) ran
    ⟨pages, known, laid, fun _ _ _ _ => rfl⟩ ?_
  · rwa [Nat.sub_self, Nat.zero_mul, Nat.zero_add] at whole
  · rintro step bound q q' ⟨more, latest, sofar, kept⟩ round
    have cost : (segment.header.pages - step) * height + left =
        height + 1 - (segment.placement hhdm step).target.asUsize +
          ((segment.header.pages - (step + 1)) * height + left) := by
      obtain ⟨rest, same⟩ : ∃ rest, segment.header.pages = step + 1 + rest :=
        ⟨segment.header.pages - (step + 1), by omega⟩
      rw [same, Nat.add_sub_cancel_left, Nat.add_assoc, Nat.add_sub_cancel_left, Nat.add_mul,
        Nat.one_mul, Nat.add_assoc]
      rfl
    rw [cost] at sofar
    have ready : (segment.placement hhdm step).page.path (height + 1) ∈ latest ∨
        PageEntry.isBlank (start (wordOf root
          ((segment.placement hhdm step).page.path (height + 1)))) = true :=
      (loadable.ready step bound).imp_left fun inside => sofar.more inside
    have positive : 1 ≤ (segment.placement hhdm step).target.asUsize := Nat.le_refl 1
    have reach : (segment.placement hhdm step).target.asUsize ≤ height := tall
    have maps : (segment.placement hhdm step).flags.Maps := loadable.maps
    have mapped : (map hhdm root (segment.placement hhdm step).page
        (segment.placement hhdm step).phys level (segment.placement hhdm step).target
        (segment.placement hhdm step).flags).run q = (.ok (), q') := round
    obtain ⟨fresh, next, still⟩ := sofar.map source mapAligned at_height maps positive reach ready
      mapped
    exact ⟨_, _, next, kept.trans still⟩

/-- Frames that were just claimed and filled hold their segment. -/
theorem Segment.held_of_filled (aligned : segment.base % 4096 = 0)
    (nodes : ∀ node ∈ given, node % 4096 = 0)
    (before : ∀ address, InPages {frame | frame ∈ segment.frames} address →
      ¬ LinkWords given address → p.memory address = origin address)
    (filled : Filled bytes segment.header segment.base p.memory p'.memory) :
    segment.Held bytes origin p'.memory := by
  refine ⟨filled.file, filled.zero, fun some offset bound past data => ?_⟩
  have short : offset < 2 ^ 64 := by
    have := segment.header.pMemsz.toNat_lt
    rw [ProgramHeader.pages] at bound
    omega
  rw [filled.stale some offset short past]
  apply byteAt_congr
  exact before _ (byte_inPages aligned bound) (byte_not_link aligned nodes data)

/-- What a segment holds stays when its frames are kept. -/
theorem Segment.Held.kept {old new : Memory} (held : segment.Held bytes origin old)
    (kept : Kept data old new) (frames : ∀ frame ∈ segment.frames, frame ∈ data)
    (aligned : segment.base % 4096 = 0)
    (fits : segment.header.pFilesz.toNat ≤ segment.header.pages * 4096) :
    segment.Held bytes origin new := by
  have same : ∀ offset < segment.header.pages * 4096,
      byteAt new (segment.base + UInt64.ofNat offset) =
        byteAt old (segment.base + UInt64.ofNat offset) := fun offset bound =>
    kept.byteAt frames aligned bound
  have whole : segment.header.pMemsz.toNat ≤ segment.header.pages * 4096 := by
    rw [ProgramHeader.pages]
    omega
  refine ⟨fun offset bound => ?_, fun none offset bound =>
    ?_, fun some offset bound past data => ?_⟩
  · rw [same offset (bound.trans_le fits)]
    exact held.file offset bound
  · rw [same offset (bound.trans_le whole)]
    exact held.zero none offset bound
  · rw [same offset bound]
    exact held.stale some offset bound past data

/-- One round of the loop over the program headers. -/
theorem loadSegment_loads (mapAligned : hhdm % 4096 = 0) (at_height : level.asUsize = height + 1)
    (tall : 1 ≤ height) (nodes : ∀ node ∈ given, node % 4096 = 0)
    (loaded : Loaded hhdm given origin start first height root bytes before segments pages known
      (entry.pages * (height + 1) + left) p) (load : entry.pType = 1)
    (loadable : entry.Loadable start first height root)
    (ran : (loadSegment hhdm level bytes root entry).run p = (.ok (), p')) :
    ∃ base more latest, Loaded hhdm given origin start first height root bytes before
      (⟨entry, base⟩ :: segments) more latest left p' := by
  rw [loadSegment, Prog.run_only_pos load] at ran
  obtain ⟨result, q, claim, claimedFrames⟩ := Prog.run_bind_eq_ok ran
  obtain ⟨base, _, checked, body⟩ := Prog.run_bind_eq_ok claimedFrames
  obtain ⟨rfl, same⟩ := Machine.unwrap_eq_ok checked
  rw [same] at body
  obtain ⟨⟨⟩, r, fill, mapped⟩ := Prog.run_bind_eq_ok body
  let segment : Segment := ⟨entry, base⟩
  have cost : entry.pages * (height + 1) + left =
      entry.frames.toNat + (entry.pages * height + left) := by
    rw [entry.toNat_frames, Nat.mul_add, Nat.mul_one, Nat.add_comm (entry.pages * height),
      Nat.add_assoc]
  have supplied := loaded.laid.supplies
  rw [cost] at supplied
  obtain ⟨supplies, kept, fresh, nodup, aligned, content⟩ := supplied.claimWindow claim
  rw [entry.toNat_frames] at supplies fresh nodup content
  have claimed : Laid hhdm (StockedFrom hhdm given origin) start first height root
      (imagePlacements hhdm segments) (pages ∪ {frame | frame ∈ framesFrom base entry.pages})
      (before ∪ {frame | frame ∈ imageFrames segments} ∪
        {frame | frame ∈ framesFrom base entry.pages}) known
      (entry.pages * height + left) q :=
    loaded.laid.claimed kept (fun frame member => (fresh frame member).1) supplies
  have whole : max entry.pFilesz.toNat entry.pMemsz.toNat ≤ entry.pages * 4096 := by
    refine max_le loadable.fits ?_
    rw [ProgramHeader.pages]
    omega
  obtain ⟨list, filled⟩ := fillSegment_fills fill
  have changed := filled.changed aligned whole
  have written := claimed.write (stockedFrom_source hhdm given origin) list
    (changed.mono Set.subset_union_right)
  have lays : (mapSegment hhdm level root segment.header segment.base).run r =
    (.ok (), p') := mapped
  obtain ⟨more, latest, laid, still⟩ := mapSegment_lays (stockedFrom_source hhdm given origin)
    mapAligned at_height tall written loadable lays
  have both : {frame | frame ∈ imageFrames segments} ∪ {frame | frame ∈ segment.frames} =
      {frame | frame ∈ imageFrames (segment :: segments)} := by
    ext frame
    simp [imageFrames, or_comm]
  have union : before ∪ {frame | frame ∈ imageFrames segments} ∪ {frame | frame ∈ segment.frames} =
      before ∪ {frame | frame ∈ imageFrames (segment :: segments)} := by
    rw [Set.union_assoc, both]
  rw [Segment.frames] at union
  -- the other pages with data were not written
  have apart : ∀ frame ∈ before ∪ {frame | frame ∈ imageFrames segments}, frame ∉ segment.frames :=
    fun frame old new => (fresh frame new).1.outside (loaded.laid.dataUsed old)
  have others : Kept (before ∪ {frame | frame ∈ imageFrames segments}) p.memory p'.memory := by
    have filledKept : Kept (before ∪ {frame | frame ∈ imageFrames segments}) q.memory r.memory := by
      intro frame old index bound
      have frameAligned := loaded.laid.pagesAligned frame (loaded.laid.dataUsed old)
      exact changed.word (fun other new => (fresh other new).1.aligned) frameAligned bound
        (apart frame old)
    exact ((kept.mono loaded.laid.dataUsed).trans filledKept).trans
      (still.mono Set.subset_union_left)
  refine ⟨base, more, latest, ?_⟩
  rw [union] at laid
  constructor
  case laid => exact laid
  case kept => exact loaded.kept.trans (others.mono Set.subset_union_left)
  case others =>
    intro frame member
    rcases List.mem_append.mp member with new | old
    · exact fun used => apart frame (.inl used) new
    · exact loaded.others frame old
  case loadable => exact List.forall_mem_cons.mpr ⟨loadable, loaded.loadable⟩
  case aligned => exact List.forall_mem_cons.mpr ⟨aligned, loaded.aligned⟩
  case nodup =>
    refine List.nodup_append.mpr ⟨nodup, loaded.nodup, ?_⟩
    rintro frame new other old rfl
    exact apart frame (.inr old) new
  case short =>
    intro frame member
    rcases List.mem_append.mp member with new | old
    · exact (fresh frame new).1.short
    · exact loaded.short frame old
  case held =>
    refine List.forall_mem_cons.mpr ⟨?_, fun other member => ?_⟩
    · have held := segment.held_of_filled aligned nodes content filled
      exact held.kept still (fun frame new => .inr new) aligned loadable.fits
    · have inside : ∀ frame ∈ other.frames,
          frame ∈ before ∪ {frame | frame ∈ imageFrames segments} := fun frame held =>
        .inr (List.mem_flatMap.mpr ⟨other, member, held⟩)
      exact (loaded.held other member).kept others inside (loaded.aligned other member)
        (loaded.loadable other member).fits

/-- The loop over the program headers. -/
theorem segments_loaded (mapAligned : hhdm % 4096 = 0) (at_height : level.asUsize = height + 1)
    (tall : 1 ≤ height) (nodes : ∀ node ∈ given, node % 4096 = 0) {table : List ProgramHeader}
    (loaded : Loaded hhdm given origin start first height root bytes before segments pages known
      (imageCost height table + left) p)
    (loadable : ∀ entry ∈ table, entry.pType = 1 → entry.Loadable start first height root)
    (ran : (table.forM (loadSegment hhdm level bytes root)).run p = (.ok (), p')) :
    ∃ image more latest,
      image.map Segment.header =
        (table.filter (·.pType = 1)).reverse ++ segments.map Segment.header ∧
      Loaded hhdm given origin start first height root bytes before image more latest left p' := by
  induction table generalizing segments pages known p with
  | nil =>
    obtain ⟨-, rfl⟩ := Prod.mk.inj ran
    have cost : imageCost height [] + left = left := Nat.zero_add left
    exact ⟨segments, pages, known, rfl, cost ▸ loaded⟩
  | cons entry table ih =>
    obtain ⟨⟨⟩, q, round, rounds⟩ := Prog.run_bind_eq_ok ran
    obtain ⟨here, others⟩ := List.forall_mem_cons.mp loadable
    by_cases load : entry.pType = 1
    · have cost : imageCost height (entry :: table) + left =
          entry.pages * (height + 1) + (imageCost height table + left) := by
        rw [imageCost, List.filter_cons_of_pos (by simpa using load), List.map_cons, List.sum_cons,
          Nat.add_assoc, imageCost]
      rw [cost] at loaded
      obtain ⟨base, more, latest, next⟩ :=
        loadSegment_loads mapAligned at_height tall nodes loaded load (here load) round
      obtain ⟨image, pages', known', headers, whole⟩ := ih next others rounds
      refine ⟨image, pages', known', ?_, whole⟩
      rw [headers, List.filter_cons_of_pos (by simpa using load), List.reverse_cons,
        List.append_assoc]
      rfl
    · have cost : imageCost height (entry :: table) = imageCost height table := by
        rw [imageCost, List.filter_cons_of_neg (by simpa using load), imageCost]
      rw [loadSegment, Prog.run_only_neg load] at round
      obtain ⟨-, rfl⟩ := Prod.mk.inj round
      rw [cost] at loaded
      rw [List.filter_cons_of_neg (by simpa using load)]
      exact ih loaded others rounds

end Load

end Lsd
