import Lsd.Verif.FrameRow
import Lsd.Verif.LoadedProgram

/-!
# A load returns

While the free frames are one row that is long enough, a file whose segments lie
in the user's half and inside the file is loaded: no claim takes the last frame,
no page that is mapped lies in a larger one, and the search for the frames of the
stack meets one that may start them.
-/

namespace Lsd

open Program Radix Placement

section Pages

variable {hhdm root : UInt64} {stock : Nat → Set UInt64 → Pmm → Prop} {start : Memory}
  {first known : Set Nat} {height left : Nat} {placed : List Placement} {pages data : Set UInt64}
  {p : Pmm} {placement : Placement} {level : PageLevel} {virt : VirtualAddress}
  {before : VirtualAddress → Option (Nat × PageEntry)}

/-- An address comes to a placed leaf or to the one it came to before. -/
theorem leafAfter_cases {leaf : Nat × PageEntry}
    (found : leafAfter height before placed virt = some leaf) :
    before virt = some leaf ∨ ∃ placement ∈ placed, leaf = placement.leaf := by
  induction placed with
  | nil => exact .inl found
  | cons newest older ih =>
    rw [leafAfter] at found
    split at found
    · exact .inr ⟨newest, List.mem_cons_self, (Option.some.inj found).symm⟩
    · rcases ih found with first | ⟨placement, member, same⟩
      · exact .inl first
      · exact .inr ⟨placement, List.mem_cons_of_mem newest member, same⟩

/-- A page is mapped where nothing was mapped before, beside pages that are no larger. -/
theorem Laid.map_returns (source : FrameSource hhdm stock) (mapAligned : hhdm % 4096 = 0)
    (laid : Laid hhdm stock start first height root placed pages data known
      (height + 1 - placement.target.asUsize + left) p)
    (at_height : level.asUsize = height + 1) (maps : placement.flags.Maps)
    (positive : 1 ≤ placement.target.asUsize) (reach : placement.target.asUsize ≤ height)
    (ready : placement.page.path (height + 1) ∈ known ∨
      PageEntry.isBlank (start (wordOf root (placement.page.path (height + 1)))) = true)
    (nowhere : leafOf hhdm start (height + 1) root placement.page = none)
    (small : ∀ other ∈ placed, other.target.asUsize ≤ placement.target.asUsize) :
    ∃ p' fresh, (Lsd.map hhdm root placement.page placement.phys level placement.target
        placement.flags).run p = (.ok (), p') ∧
      Laid hhdm stock start first height root (placement :: placed) (pages ∪ fresh) data
        (insert (placement.page.path (height + 1)) known) left p' := by
  have bound := placement.page.path_lt (height + 1)
  have now : placement.page.path (height + 1) ∈ known ∧
        ¬ Covered hhdm p.memory (height + 1) root placement.page placement.target ∨
      placement.page.path (height + 1) ∉ known ∧
        PageEntry.isBlank (p.memory (wordOf root (placement.page.path (height + 1)))) = true := by
    by_cases here : placement.page.path (height + 1) ∈ known
    · refine .inl ⟨here, ?_⟩
      rintro ⟨high, entry, found, above⟩
      rw [laid.walks _ here] at found
      rcases leafAfter_cases found with old | ⟨other, member, same⟩
      · rw [nowhere] at old
        cases old
      · have low := small other member
        have level : high = other.target.asUsize := congrArg Prod.fst same
        omega
    · rw [laid.beside _ bound here]
      exact .inr ⟨here, ready.resolve_left here⟩
  have supplied := source.enough laid.supplies placement.page root
  obtain ⟨p', fresh, ran, -, -⟩ :=
    laid.rooted.map_run placement.phys source mapAligned maps positive
    at_height reach laid.pagesAligned now supplied
  obtain ⟨more, later, -⟩ := laid.map source mapAligned at_height maps positive reach ready ran
  exact ⟨p', more, ran, later⟩

end Pages

/-- A header that the loader gets through: it asks for memory, can be followed, has its bytes in the
file, and lies where nothing was mapped, beside an entry of the root that stays free. -/
structure ProgramHeader.Served (bytes : List UInt8) (height spare : Nat)
    (before : VirtualAddress → Option (Nat × PageEntry)) (entry : ProgramHeader) : Prop where
  /-- Memory is asked for. -/
  sized : entry.pMemsz ≠ 0
  /-- Some access is allowed. -/
  maps : entry.pageFlags.Maps
  /-- The file has no more bytes than the frames. -/
  fits : entry.pFilesz.toNat ≤ entry.pages * 4096
  /-- They are in the file. -/
  inFile : ∀ i < entry.pFilesz.toNat, (UInt64.ofNat i + entry.pOffset).toNat < bytes.length
  /-- Nothing was mapped at the pages. -/
  unmapped : ∀ step < entry.pages, before (pageAt entry.pVaddr step) = none
  /-- They lie beside the entry. -/
  aside : ∀ step < entry.pages, (pageAt entry.pVaddr step).path (height + 1) ≠ spare

section Segments

variable {hhdm root : UInt64} {bytes : List UInt8} {start : Memory} {known : Set Nat}
  {height left spare : Nat} {placed : List Placement} {pages data : Set UInt64} {p : Pmm}
  {level : PageLevel} {entry : ProgramHeader} {base : UInt64}
  {before : VirtualAddress → Option (Nat × PageEntry)}

/-- The frames of a segment are filled when the bytes are in the file. -/
theorem fillSegment_returns
    (inFile : ∀ i < entry.pFilesz.toNat, (UInt64.ofNat i + entry.pOffset).toNat < bytes.length)
    (p : Pmm) : ∃ p', (fillSegment bytes entry base).run p = (.ok (), p') := by
  obtain ⟨middle, zeroes⟩ : ∃ middle, (Prog.only (entry.pFilesz = 0)
      ((List.range entry.pMemsz.toNat).forM fun i => storeByte (base + UInt64.ofNat i) 0)).run p =
        (.ok (), middle) := by
    by_cases none : entry.pFilesz = 0
    · rw [Prog.run_only_pos none]
      have cleared : ∃ middle, ((List.range entry.pMemsz.toNat).forM fun i =>
          storeByte (base + UInt64.ofNat i) 0).run p = (.ok (), middle) ∧ True :=
        Prog.run_range_returns (fun _ _ => True) trivial fun _ _ before _ =>
          ⟨_, Prog.run_update _ before, trivial⟩
      exact cleared.imp fun _ => And.left
    · exact ⟨p, Prog.run_only_neg none _ p⟩
  have copies : ∃ last, ((List.range entry.pFilesz.toNat).forM fun i => do
      let index := (UInt64.ofNat i + entry.pOffset).toNat
      checkIndex bytes.length index
      storeByte (base + UInt64.ofNat i) (bytes.getD index 0)).run middle = (.ok (), last) ∧ True :=
    Prog.run_range_returns (fun _ _ => True) trivial fun i bound before _ =>
      ⟨_, (Prog.run_bind_ok (run_checkIndex (inFile i bound))).trans
        (Prog.run_update _ before),
        trivial⟩
  obtain ⟨last, copied, -⟩ := copies
  exact ⟨last, (Prog.run_bind_ok zeroes).trans copied⟩

/-- The state of a root after some segments: small pages were placed beside a free entry, over a
lower half that was blank. -/
structure Segmented (hhdm : UInt64) (start : Memory) (height spare : Nat)
    (before : VirtualAddress → Option (Nat × PageEntry)) (root : UInt64) (placed : List Placement)
    (pages data : Set UInt64) (known : Set Nat) (left : Nat) (p : Pmm) :
    Prop where
  /-- The pages are placed. -/
  laid : Laid hhdm (RowStock hhdm) start upperHalf height root placed pages data known left p
  /-- They are small. -/
  small : ∀ placement ∈ placed, placement.target = .level1
  /-- The lower half was blank. -/
  blank : ∀ index < 256, PageEntry.isBlank (start (wordOf root index)) = true
  /-- What was mapped before. -/
  begins : ∀ virt, leafOf hhdm start (height + 1) root virt = before virt
  /-- The entry is free. -/
  spare : spare ∉ known

/-- The pages of a segment are mapped. -/
theorem Segmented.mapSegment (mapAligned : hhdm % 4096 = 0) (at_height : level.asUsize = height + 1)
    (tall : 1 ≤ height)
    (state : Segmented hhdm start height spare before root placed pages data known
      (entry.pages * height + left) p)
    (served : entry.Served bytes height spare before) :
    ∃ p' more later latest, (mapSegment hhdm level root entry base).run p = (.ok (), p') ∧
      Segmented hhdm start height spare before root more later data latest left p' := by
  have whole : ∃ p', (Lsd.mapSegment hhdm level root entry base).run p = (.ok (), p') ∧
      ∃ more later latest, Segmented hhdm start height spare before root more later data latest
        ((entry.pages - entry.pages) * height + left) p' := by
    refine Prog.run_range_returns (fun done q =>
      ∃ more later latest, Segmented hhdm start height spare before
      root more later data latest ((entry.pages - done) * height + left) q)
        ⟨placed, pages, known, state⟩ ?_
    rintro step bound q ⟨more, later, latest, sofar⟩
    let placement : Placement := ⟨pageAt entry.pVaddr step, .level1,
      base - hhdm + UInt64.ofNat (step * 4096), entry.pageFlags⟩
    have aside : placement.page.path (height + 1) ≠ spare := served.aside step bound
    have cost : (entry.pages - step) * height + left =
        height + 1 - placement.target.asUsize + ((entry.pages - (step + 1)) * height + left) := by
      obtain ⟨rest, same⟩ : ∃ rest, entry.pages = step + 1 + rest :=
        ⟨entry.pages - (step + 1), by omega⟩
      rw [same, Nat.add_sub_cancel_left, Nat.add_assoc, Nat.add_sub_cancel_left, Nat.add_mul,
        Nat.one_mul, Nat.add_assoc]
      rfl
    have laid := sofar.laid
    rw [cost] at laid
    have nowhere := (sofar.begins placement.page).trans (served.unmapped step bound)
    -- the kernel's half is known from the start
    have ready : placement.page.path (height + 1) ∈ latest ∨
        PageEntry.isBlank (start (wordOf root (placement.page.path (height + 1)))) = true := by
      rcases Nat.lt_or_ge (placement.page.path (height + 1)) 256 with below | above
      · exact .inr (sofar.blank _ below)
      · exact .inl (laid.more ⟨above, placement.page.path_lt _⟩)
    obtain ⟨q', fresh, ran, next⟩ := laid.map_returns (rowStock_source hhdm) mapAligned at_height
      served.maps (Nat.le_refl 1) tall ready nowhere fun other member => by
        rw [sofar.small other member]
    exact ⟨q', ran, placement :: more, _, _, next,
      List.forall_mem_cons.mpr ⟨rfl, sofar.small⟩, sofar.blank, sofar.begins, fun inside =>
        inside.elim (fun same => aside same.symm) sofar.spare⟩
  obtain ⟨p', ran, more, later, latest, after⟩ := whole
  rw [Nat.sub_self, Nat.zero_mul, Nat.zero_add] at after
  exact ⟨p', more, later, latest, ran, after⟩

/-- A segment is loaded. -/
theorem Segmented.loadSegment (mapAligned : hhdm % 4096 = 0)
    (at_height : level.asUsize = height + 1)
    (tall : 1 ≤ height)
    (state : Segmented hhdm start height spare before root placed pages data known
      (entry.pages * (height + 1) + left) p)
    (load : entry.pType = 1) (served : entry.Served bytes height spare before) :
    ∃ p' more later data' latest, (loadSegment hhdm level bytes root entry).run p = (.ok (), p') ∧
      Segmented hhdm start height spare before root more later data' latest left p' := by
  have cost : entry.pages * (height + 1) + left =
      entry.frames.toNat + (entry.pages * height + left) := by
    rw [entry.toNat_frames, Nat.mul_add, Nat.mul_one, Nat.add_comm (entry.pages * height),
      Nat.add_assoc]
  have nonzero : entry.frames ≠ 0 := by
    intro none
    have pages : entry.pages = 0 := by
      rw [← entry.toNat_frames, none]
      rfl
    have size := Nat.pos_of_ne_zero fun zero => served.sized (UInt64.toNat_inj.mp zero)
    rw [ProgramHeader.pages] at pages
    omega
  have supplied := state.laid.supplies
  rw [cost] at supplied
  obtain ⟨base, q, claim, supplies, fresh, kept⟩ := supplied.claim nonzero
  have claimed := state.laid.claimed kept fresh supplies
  obtain ⟨r, fill⟩ : ∃ r, (fillSegment bytes entry base).run q = (.ok (), r) :=
    fillSegment_returns served.inFile q
  obtain ⟨list, filled⟩ := fillSegment_fills fill
  have aligned : base % 4096 = 0 := by
    apply (fresh base _).aligned
    obtain ⟨count, more⟩ := Nat.exists_eq_succ_of_ne_zero fun zero =>
      nonzero (UInt64.toNat_inj.mp zero)
    rw [more]
    exact List.mem_cons_self
  have fits : max entry.pFilesz.toNat entry.pMemsz.toNat ≤ entry.frames.toNat * 4096 := by
    rw [entry.toNat_frames]
    refine max_le served.fits ?_
    rw [ProgramHeader.pages]
    omega
  have written := claimed.write (rowStock_source hhdm) list
    ((filled.changed aligned fits).mono Set.subset_union_right)
  obtain ⟨p', more, later, latest, mapped, after⟩ := Segmented.mapSegment mapAligned at_height tall
    ⟨written, state.small, state.blank, state.begins, state.spare⟩ served
  refine ⟨p', more, later, _, latest, ?_, after⟩
  rw [Lsd.loadSegment, Prog.run_only_pos load, Prog.run_bind_ok claim]
  exact (Prog.run_bind_ok fill).trans mapped

/-- The segments of a file are loaded. -/
theorem Segmented.segments (mapAligned : hhdm % 4096 = 0) (at_height : level.asUsize = height + 1)
    (tall : 1 ≤ height) {table : List ProgramHeader}
    (state : Segmented hhdm start height spare before root placed pages data known
      (imageCost height table + left) p)
    (served : ∀ entry ∈ table, entry.pType = 1 → entry.Served bytes height spare before) :
    ∃ p' more later data' latest,
      (table.forM (Lsd.loadSegment hhdm level bytes root)).run p = (.ok (), p') ∧
      Segmented hhdm start height spare before root more later data' latest left p' := by
  induction table generalizing placed pages data known p with
  | nil =>
    have cost : imageCost height [] + left = left := Nat.zero_add left
    rw [cost] at state
    exact ⟨p, placed, pages, data, known, rfl, state⟩
  | cons entry table ih =>
    obtain ⟨here, others⟩ := List.forall_mem_cons.mp served
    by_cases load : entry.pType = 1
    · have cost : imageCost height (entry :: table) + left =
          entry.pages * (height + 1) + (imageCost height table + left) := by
        rw [imageCost, List.filter_cons_of_pos (by simpa using load), List.map_cons, List.sum_cons,
          Nat.add_assoc, imageCost]
      rw [cost] at state
      obtain ⟨q, _, _, _, _, round, next⟩ :=
        state.loadSegment mapAligned at_height tall load (here load)
      obtain ⟨p', more, later, data', latest, rounds, last⟩ := ih next others
      exact ⟨p', more, later, data', latest, (Prog.run_bind_ok round).trans rounds, last⟩
    · have cost : imageCost height (entry :: table) = imageCost height table := by
        rw [imageCost, List.filter_cons_of_neg (by simpa using load), imageCost]
      rw [cost] at state
      obtain ⟨p', more, later, data', latest, rounds, last⟩ := ih state others
      refine ⟨p', more, later, data', latest, ?_, last⟩
      have skipped : (Lsd.loadSegment hhdm level bytes root entry).run p = (.ok (), p) :=
        Prog.run_only_neg load _ p
      exact (Prog.run_bind_ok skipped).trans rounds

end Segments

section Stack

variable {hhdm root base stackVaddr paddr : UInt64} {start : Memory} {known : Set Nat}
  {height left spare index : Nat} {placed : List Placement} {pages data : Set UInt64} {p : Pmm}
  {level : PageLevel} {before : VirtualAddress → Option (Nat × PageEntry)}

/-- Among the frames of a row, one of the first 512 begins a page of 2 MiB. -/
theorem aligned_place (aligned : base % 4096 = 0) :
    ∃ place ≤ 511,
      (base + UInt64.ofNat (place * 4096) &&& (PageSize.medium.bytes - 1) == 0) = true := by
  have page := aligned_toNat aligned
  refine ⟨(512 - base.toNat / 4096 % 512) % 512, by omega, ?_⟩
  rw [beq_iff_eq]
  apply UInt64.toNat_inj.mp
  have mask : (PageSize.medium.bytes - 1).toNat = 2 ^ 21 - 1 := rfl
  rw [UInt64.toNat_and, mask, Nat.and_two_pow_sub_one_eq_mod, UInt64.toNat_add, UInt64.toNat_ofNat']
  change _ = 0
  omega

/-- The frames that the stack needs in a row: its own, those before the first that may start it, and
its tables. -/
def stackRoom (height : Nat) : Nat := 0x800 + (511 + 4 * (height - 1))

/-- The frames of a stack can be claimed from a row that is long enough. -/
theorem RowStock.claimStack (stocked : RowStock hhdm (stackRoom height) pages p) :
    ∃ stack between, (FreeList.claimAligned hhdm 0x800 .medium).run p = (.ok (.ok stack), between) ∧
      Stocked hhdm (4 * (height - 1)) (pages ∪ {frame | frame ∈ framesFrom stack 0x800}) between ∧
      (∀ frame ∈ framesFrom stack 0x800, FreshFrame hhdm pages frame) ∧
      Kept pages p.memory between.memory := by
  obtain ⟨base, length, stock, enough⟩ := stocked
  rw [stackRoom] at enough
  have aligned : base % 4096 = 0 := by
    apply (stock.holds.frames base _).aligned
    obtain ⟨rest, same⟩ := Nat.exists_eq_succ_of_ne_zero (Nat.ne_of_gt (Nat.zero_lt_of_lt enough))
    rw [same]
    exact List.mem_cons_self
  obtain ⟨place, near, starts⟩ := aligned_place aligned
  have count : (0x800 : UInt64).toNat = 0x800 := rfl
  have room : place + (0x800 : UInt64).toNat < length := by
    rw [count]
    omega
  obtain ⟨stack, between, pre, post, claim⟩ : ∃ stack between pre post, RowClaim hhdm
      (fun entry => entry &&& (PageSize.medium.bytes - 1) == 0) 0x800 base length place
        pages p between
        stack pre post := stock.claimRow (by decide) starts room
  have lengths := congrArg List.length claim.parts
  rw [framesFrom_length, List.length_append, List.length_append, framesFrom_length,
    count] at lengths
  refine ⟨stack, between, claim.ran, ⟨pre ++ post, claim.stock, ?_⟩, fun frame member =>
    ?_, claim.kept⟩
  · rw [List.length_append]
    omega
  · apply stock.fresh
    rw [claim.parts]
    exact List.mem_append_left _ (List.mem_append_right _ member)

/-- The pages of a stack are mapped under an entry of the root that leads nowhere. -/
theorem mapStack_returns (mapAligned : hhdm % 4096 = 0) (at_height : level.asUsize = height + 1)
    (tall : 2 ≤ height)
    (laid : Laid hhdm (Stocked hhdm) p.memory known height root [] pages data known
      (4 * (height - 1) + 0) p)
    (inSlot : ∀ i < 4, (stackPlacement stackVaddr paddr i).page.path (height + 1) = index)
    (invalid : PageEntry.getValid (p.memory (wordOf root index)) = false)
    (ready : index ∈ known ∨ PageEntry.isBlank (p.memory (wordOf root index)) = true) :
    ∃ p', ((List.range 4).forM (mapStack hhdm level root stackVaddr paddr)).run p =
      (.ok (), p') := by
  have whole : ∃ p', ((List.range 4).forM (mapStack hhdm level root stackVaddr paddr)).run p =
      (.ok (), p') ∧ ∃ later latest, known ⊆ latest ∧ Laid hhdm (Stocked hhdm) p.memory known height
        root (stackPlacements stackVaddr paddr 4) later data latest
          ((4 - 4) * (height - 1) + 0) p' := by
    refine Prog.run_range_returns (fun done q => ∃ later latest, known ⊆ latest ∧ Laid hhdm
      (Stocked hhdm) p.memory known height root
        (stackPlacements stackVaddr paddr done) later data latest
        ((4 - done) * (height - 1) + 0) q) ⟨pages, known, Set.Subset.refl known, laid⟩ ?_
    rintro i bound q ⟨later, latest, more, sofar⟩
    have cost : (4 - i) * (height - 1) + 0 =
        height + 1 - (stackPlacement stackVaddr paddr i).target.asUsize +
          ((4 - (i + 1)) * (height - 1) + 0) := by
      obtain ⟨rest, same⟩ : ∃ rest, 4 - i = rest + 1 := ⟨4 - (i + 1), by omega⟩
      have others : 4 - (i + 1) = rest := by omega
      have below : height + 1 - (stackPlacement stackVaddr paddr i).target.asUsize =
          height - 1 := by
        change height + 1 - 2 = _
        omega
      rw [same, others, below, Nat.succ_mul]
      omega
    rw [cost] at sofar
    have positive : 1 ≤ (stackPlacement stackVaddr paddr i).target.asUsize := (by decide : 1 ≤ 2)
    have nowhere : leafOf hhdm p.memory (height + 1) root (stackPlacement stackVaddr paddr i).page =
        none := by
      apply leafOf_invalid
      rw [inSlot i bound]
      exact invalid
    have small : ∀ other ∈ stackPlacements stackVaddr paddr i,
        other.target.asUsize ≤ (stackPlacement stackVaddr paddr i).target.asUsize := by
      intro other member
      obtain ⟨_, _, rfl⟩ := mem_stackPlacements.mp member
      exact Nat.le_refl _
    have here : (stackPlacement stackVaddr paddr i).page.path (height + 1) ∈ latest ∨
        PageEntry.isBlank (p.memory (wordOf root
          ((stackPlacement stackVaddr paddr i).page.path (height + 1)))) = true := by
      rw [inSlot i bound]
      exact ready.imp_left fun inside => more inside
    obtain ⟨q', fresh, ran, next⟩ := sofar.map_returns (stocked_source hhdm) mapAligned at_height
      stackFlags_maps positive tall here nowhere small
    exact ⟨q', ran, _, _, more.trans (Set.subset_insert _ _), next⟩
  exact whole.imp fun _ => And.left

/-- A root after its segments is ready for a stack under each entry that leads nowhere. -/
theorem Segmented.stack (mapAligned : hhdm % 4096 = 0) (at_height : level.asUsize = height + 1)
    (tall : 2 ≤ height)
    (state : Segmented hhdm start height spare before root placed pages data known
      (stackRoom height) p) :
    ∃ stack between, (FreeList.claimAligned hhdm 0x800 .medium).run p = (.ok (.ok stack), between) ∧
      ∀ index ≤ 256, ∀ stackVaddr : UInt64,
        PageEntry.getValid (p.memory (wordOf root index)) = false →
        (entrySpan level index).1.toNat ≤ stackVaddr.toNat →
        stackVaddr.toNat + 0x800000 ≤
          (entrySpan level index).1.toNat + (entrySpan level index).2.toNat →
        ∃ p', ((List.range 4).forM
          (mapStack hhdm level root stackVaddr (stack - hhdm))).run between =
          (.ok (), p') := by
  have laid := state.laid
  obtain ⟨stack, between, claim, supplies, fresh, kept⟩ := laid.supplies.claimStack
  refine ⟨stack, between, claim, fun index small stackVaddr invalid low high => ?_⟩
  have bound : index < 512 := Nat.lt_of_le_of_lt small (by decide)
  have word : between.memory (wordOf root index) = p.memory (wordOf root index) :=
    kept root laid.rooted.member index bound
  obtain ⟨rooted, -, -⟩ := laid.rooted.kept (kept.mono laid.rooted.inUse)
  have begun : Laid hhdm (Stocked hhdm) between.memory known height root []
      (pages ∪ {frame | frame ∈ framesFrom stack 0x800}) ∅ known
        (4 * (height - 1) + 0) between := by
    refine .begin (rooted.mono Set.subset_union_left) ?_ supplies
    rintro page (used | claimed)
    · exact laid.pagesAligned page used
    · exact (fresh page claimed).aligned
  have still : PageEntry.getValid (between.memory (wordOf root index)) = false := by rwa [word]
  have ready : index ∈ known ∨ PageEntry.isBlank (between.memory (wordOf root index)) = true := by
    by_cases inside : index ∈ known
    · exact .inl inside
    · rw [word, laid.beside index bound inside]
      exact .inr (state.blank index (laid.below_of_unknown bound inside))
  exact mapStack_returns mapAligned at_height tall begun
    (fun i inside => stack_path at_height small low high inside) still ready

end Stack

/-- What the loader relies on of arenas to get what it asks for: calls return, and an arena that
nothing was allocated from gives what fits in one of its spans. -/
structure ServingArenas {V : Type} (loader : Loader V) (vmem : Vmem V)
    (spans : V → UInt64 → List (UInt64 × UInt64)) (unused : V → UInt64 → Prop) : Prop
    extends SpanArenas loader vmem spans where
  /-- An arena is made. -/
  makes : ∀ (name : String) (quantum : UInt64) (before : V), ∃ arena after,
    (loader.newArena name quantum).run before = (.ok arena, after) ∧ unused after arena
  /-- A span that does not run past the last address is added. -/
  adds : ∀ {arena base size : UInt64} (before : V), base.toNat + size.toNat < 2 ^ 64 → ∃ after,
    (loader.add arena base size).run before = (.ok (.ok ()), after) ∧
      (unused before arena → unused after arena)
  /-- A range is given. -/
  gives : ∀ {arena size : UInt64} {before : V}, unused before arena →
    (∃ span ∈ spans before arena, size.toNat ≤ span.2.toNat) →
      ∃ base after, (vmem.alloc arena size).run before = (.ok (.ok base), after)

section Load

variable {V : Type} {platform : Platform V} {loader : Loader V} {s : Machine V}
  {spans : V → UInt64 → List (UInt64 × UInt64)} {unused : V → UInt64 → Prop} {level : PageLevel}
  {newTable arena size : UInt64}

/-- A value that is there is unwrapped. -/
theorem unwrap_run {σ α : Type} (value : α) (state : σ) {debug : String → String} :
    (unwrap (.ok value) debug).run state = (.ok value, state) := rfl

/-- A value that is there is unwrapped. -/
theorem unwrapSome_run {σ α : Type} (value : α) (state : σ) :
    (unwrapSome (some value)).run state = (.ok value, state) := rfl

/-- An allocation that is served. -/
theorem allocFrom_run {number : UInt64} {after : V}
    (given : (platform.vmem.alloc arena size).run s.arenas = (.ok (.ok number), after)) :
    (allocFrom platform arena size).run s = (.ok number, { s with arenas := after }) := by
  have inner : ((platform.vmem.alloc arena size).within (fun s : Machine V => s.arenas)
      fun s arenas => { s with arenas := arenas }).run s =
        (.ok (.ok number), { s with arenas := after }) := Prog.run_within given
  exact (Prog.run_bind_ok inner).trans rfl

/-- The span of an entry of the lower half does not run past the last address. -/
theorem entrySpan_bound {height index : Nat} (at_height : level.asUsize = height + 1)
    (small : index ≤ 256) :
    (entrySpan level index).1.toNat + (entrySpan level index).2.toNat < 2 ^ 64 := by
  have short : height + 1 ≤ 5 := at_height ▸ level.asUsize_le
  obtain ⟨first, size⟩ := toNat_entrySpan at_height (Nat.lt_of_le_of_lt small (by decide))
  have limit : 2 ^ pageBits (height + 1) ≤ 2 ^ 48 :=
    Nat.pow_le_pow_right (by decide) (by rw [pageBits]; omega)
  have start : index * 2 ^ pageBits (height + 1) ≤ 256 * 2 ^ 48 := Nat.mul_le_mul small limit
  rw [first, size]
  omega

/-- The loop that gives an arena its spans returns, and the entries of the root that lead nowhere
have theirs. -/
theorem addSpans_returns {height : Nat} (serving : ServingArenas loader platform.vmem spans unused)
    (at_height : level.asUsize = height + 1) (new : unused s.arenas arena) :
    ∃ after, (addSpans loader level newTable arena).run s = (.ok (), { s with arenas := after }) ∧
      unused after arena ∧ ∀ index, 1 ≤ index → index ≤ 256 →
        PageEntry.getValid (s.pmm.memory (wordOf newTable index)) = false →
          entrySpan level index ∈ spans after arena := by
  have whole : ∃ last, (addSpans loader level newTable arena).run s = (.ok (), last) ∧
      last = { s with arenas := last.arenas } ∧ unused last.arenas arena ∧
        ∀ index ∈ List.range' 1 256,
          PageEntry.getValid (s.pmm.memory (wordOf newTable index)) = false →
            entrySpan level index ∈ spans last.arenas arena := by
    refine Prog.run_forM_returns (fun done (q : Machine V) => q = { s with arenas := q.arenas } ∧
      unused q.arenas arena ∧ ∀ index ∈ done,
        PageEntry.getValid (s.pmm.memory (wordOf newTable index)) = false →
          entrySpan level index ∈ spans q.arenas arena)
      ⟨rfl, new, fun index member => absurd member List.not_mem_nil⟩ ?_
    rintro done index rest parts q ⟨same, free, found⟩
    have within : (entrySpan level index).1.toNat + (entrySpan level index).2.toNat < 2 ^ 64 := by
      apply entrySpan_bound at_height
      have member : index ∈ List.range' 1 256 := by
        rw [parts]
        simp
      rw [List.mem_range'_1] at member
      omega
    have memory : q.pmm.memory = s.pmm.memory := by rw [same]
    rw [Prog.run_bind_ok (Prog.run_read _ _), memory]
    by_cases invalid : PageEntry.getValid (s.pmm.memory (wordOf newTable index)) = false
    · rw [Prog.run_only_pos (by rw [invalid]; rfl)]
      obtain ⟨after, added, still⟩ := serving.adds q.arenas within
      have more := serving.add added
      have inner : (onArenas (loader.add arena (entrySpan level index).1
          (entrySpan level index).2)).run q = (.ok (.ok ()), { q with arenas := after }) :=
        Prog.run_within added
      refine ⟨{ q with arenas := after },
        (Prog.run_bind_ok inner).trans rfl, by rw [same], still free,
        fun other member leads => ?_⟩
      rw [more]
      rcases List.mem_append.mp member with old | last
      · exact List.mem_cons_of_mem _ (found other old leads)
      · obtain rfl := List.mem_singleton.mp last
        exact List.mem_cons_self
    · rw [Prog.run_only_neg (by simpa using invalid)]
      refine ⟨q, rfl, same, free, fun other member leads => ?_⟩
      rcases List.mem_append.mp member with old | last
      · exact found other old leads
      · obtain rfl := List.mem_singleton.mp last
        exact absurd leads invalid
  obtain ⟨last, ran, same, free, found⟩ := whole
  refine ⟨last.arenas, same ▸ ran, free, fun index one most leads => found index ?_ leads⟩
  rw [List.mem_range'_1]
  omega

/-- A line is printed. -/
theorem printed_run (text : String) (s : Machine V) :
    ∃ next, (print text).run s = (.ok (), next) ∧ next.pmm = s.pmm ∧ next.arenas = s.arenas ∧
      next.currentUserTask = s.currentUserTask :=
  ⟨_, Machine.print_run text s, rfl, rfl, rfl⟩

/-- Code on memory runs behind a line that is printed. -/
theorem noted_run {program : Kernel Pmm Unit} {p' : Pmm} (text : String)
    (ran : program.run s.pmm = (.ok (), p')) :
    ∃ s', (print text >>= fun _ => onPmm program).run s = (.ok (), s') ∧ s'.pmm = p' ∧
      s'.arenas = s.arenas ∧ s'.currentUserTask = s.currentUserTask := by
  obtain ⟨next, said, pmm, arenas, tasks⟩ := printed_run text s
  have inner : (onPmm program).run next = (.ok (), { next with pmm := p' }) :=
    Prog.run_within (pmm ▸ ran)
  exact ⟨_, (Prog.run_bind_ok said).trans inner, rfl, arenas, tasks⟩

/-- The loop that maps the stack returns when its pages are mapped. -/
theorem stackLoop_returns {stackVaddr stackPaddr : UInt64} {indices : List Nat} {p' : Pmm}
    (maps : (indices.forM (mapStack platform.hhdmOffset level newTable stackVaddr stackPaddr)).run
      s.pmm = (.ok (), p')) :
    ∃ s', (indices.forM fun i => do
        let virt := hex (stackVaddr + UInt64.ofNat (i * 0x200000))
        let phys := hex (stackPaddr + UInt64.ofNat (i * 0x200000))
        print ("Mapping " ++ virt ++ " to " ++ phys ++ "\n")
        onPmm (mapStack platform.hhdmOffset level newTable stackVaddr stackPaddr i)).run s =
          (.ok (), s') ∧ s'.arenas = s.arenas ∧ s'.currentUserTask = s.currentUserTask := by
  induction indices generalizing s with
  | nil => exact ⟨s, rfl, rfl, rfl⟩
  | cons i rest ih =>
    obtain ⟨middle, first, others⟩ := Prog.run_forM_cons_eq_ok maps
    obtain ⟨next, noted, pmm, arenas, tasks⟩ := noted_run ("Mapping " ++
      hex (stackVaddr + UInt64.ofNat (i * 0x200000)) ++ " to " ++
        hex (stackPaddr + UInt64.ofNat (i * 0x200000)) ++ "\n") first
    rw [← pmm] at others
    obtain ⟨s', later, sameArenas, sameTasks⟩ := ih others
    refine ⟨s', ?_, sameArenas.trans arenas, sameTasks.trans tasks⟩
    refine Eq.trans (Prog.run_forM_cons_ok ?_) later
    with_reducible exact noted

/-- The part of `load` that gives the program its stack returns. -/
theorem loadStack_returns (serving : ServingArenas loader platform.vmem spans unused)
    (new : unused s.arenas arena) {stack : UInt64} {between : Pmm}
    (claim : (FreeList.claimAligned platform.hhdmOffset 0x800 .medium).run s.pmm =
      (.ok (.ok stack), between))
    (room : ∃ span ∈ spans s.arenas arena, 0x800000 ≤ span.2.toNat)
    (maps : ∀ stackVaddr : UInt64, (∃ span ∈ spans s.arenas arena,
        span.1.toNat ≤ stackVaddr.toNat ∧
          stackVaddr.toNat + 0x800000 ≤ span.1.toNat + span.2.toNat) →
      ∃ p', ((List.range 4).forM (mapStack platform.hhdmOffset level newTable stackVaddr
        (stack - platform.hhdmOffset))).run between = (.ok (), p')) :
    ∃ stackVaddr s', (loadStack platform level newTable arena).run s = (.ok stackVaddr, s') ∧
      s'.currentUserTask = s.currentUserTask := by
  obtain ⟨stackVaddr, after, given⟩ : ∃ stackVaddr after,
      (platform.vmem.alloc arena 0x800000).run s.arenas = (.ok (.ok stackVaddr), after) :=
    serving.gives new room
  have inSpan := serving.alloc given
  obtain ⟨p', mapped⟩ := maps stackVaddr inSpan
  have first : (onPmm (FreeList.claimAligned platform.hhdmOffset 0x800 .medium)).run s =
      (.ok (.ok stack), { s with pmm := between }) := Prog.run_within claim
  have second : (allocFrom platform arena 0x800000).run { s with pmm := between } =
      (.ok stackVaddr, { s with pmm := between, arenas := after }) := allocFrom_run given
  obtain ⟨next, said, pmm, -, sameTasks⟩ := printed_run ("Physical address of new stack: " ++
    hex (stack - platform.hhdmOffset) ++ "\n") { s with pmm := between, arenas := after }
  have memory : next.pmm = between := pmm
  rw [← memory] at mapped
  obtain ⟨s', looped, -, tasks⟩ := stackLoop_returns mapped
  refine ⟨stackVaddr, s', ?_, tasks.trans sameTasks⟩
  refine (Prog.run_bind_ok first).trans ?_
  refine (Prog.run_bind_ok (unwrap_run stack _)).trans ?_
  refine (Prog.run_bind_ok second).trans ?_
  with_reducible refine (Prog.run_bind_ok said).trans ?_
  with_reducible refine (Prog.run_bind_ok looped).trans ?_
  exact Prog.run_pure stackVaddr s'

/-- A thread can be added to a queue that is not full, behind a lock that is free. -/
theorem newTask_returns (task : TaskData) (unlocked : s.currentUserTask.writer = false)
    (unread : s.currentUserTask.readers = 0) (room : s.tasks.queue.length < queueLimit) :
    ∃ s', (newTask task).run s = (.ok (), s') := by
  have lock : (lockWrite : Kernel (Machine V) Unit).run s =
      (.ok (), { s with currentUserTask := { s.currentUserTask with writer := true } }) := by
    rw [lockWrite, Prog.run_bind_ok (Prog.run_read _ _), unlocked, unread]
    rfl
  have push : ∃ later, (TaskQueue.newTask task).run
      { s with currentUserTask := { s.currentUserTask with writer := true } } =
        (.ok (), later) := by
    rw [TaskQueue.newTask, Prog.run_bind_ok (taskQueue_run _)]
    have space : ({ s with currentUserTask := { s.currentUserTask with writer := true } } :
      Machine V).tasks.queue.length < queueLimit := room
    rw [if_pos space]
    exact ⟨_, rfl⟩
  obtain ⟨later, pushed⟩ := push
  exact ⟨_, (Prog.run_bind_ok lock).trans ((Prog.run_bind_ok pushed).trans rfl)⟩

/-- The end of `load`, where the thread gets its number and comes into the queue, returns. -/
theorem loadThread_returns (serving : ServingArenas loader platform.vmem spans unused)
    (task : UInt64 → UInt64 → TaskData) (text : String) (taskId : UInt64)
    (unlocked : s.currentUserTask.writer = false) (unread : s.currentUserTask.readers = 0)
    (room : s.tasks.queue.length < queueLimit) :
    ∃ s', (onArenas (loader.newArena "task_thread_manager" 1) >>= fun taskTm =>
      onArenas (loader.add taskTm 0 0xffffffffffffffff) >>= fun added =>
      unwrap added id >>= fun _ =>
      allocFrom platform taskTm 1 >>= fun threadId =>
      print text >>= fun _ =>
      newTask (task taskTm threadId) >>= fun _ => pure taskId).run s = (.ok taskId, s') := by
  obtain ⟨threads, after, made, new⟩ := serving.makes "task_thread_manager" 1 s.arenas
  obtain ⟨after', added, still⟩ : ∃ after', (loader.add threads 0 0xffffffffffffffff).run after =
      (.ok (.ok ()), after') ∧ (unused after threads → unused after' threads) :=
    serving.adds after (by decide)
  have fits : ∃ span ∈ spans after' threads, (1 : UInt64).toNat ≤ span.2.toNat := by
    rw [serving.add added]
    exact ⟨_, List.mem_cons_self, by decide⟩
  obtain ⟨threadId, after'', given⟩ := serving.gives (still new) fits
  have first : (onArenas (loader.newArena "task_thread_manager" 1)).run s =
      (.ok threads, { s with arenas := after }) := Prog.run_within made
  have second : (onArenas (loader.add threads 0 0xffffffffffffffff)).run
    { s with arenas := after } =
      (.ok (.ok ()), { s with arenas := after' }) := Prog.run_within added
  have third : (allocFrom platform threads 1).run { s with arenas := after' } =
      (.ok threadId, { s with arenas := after'' }) := allocFrom_run given
  obtain ⟨next, said, -, -, tasks⟩ := printed_run text { s with arenas := after'' }
  have same : next.currentUserTask = s.currentUserTask := tasks
  have queue : next.tasks.queue.length < queueLimit := by
    rw [Machine.tasks, same]
    exact room
  obtain ⟨last, pushed⟩ :=
    newTask_returns (task threads threadId) (same ▸ unlocked) (same ▸ unread) queue
  refine ⟨last, ?_⟩
  rw [Prog.run_bind_ok first, Prog.run_bind_ok second, Prog.run_bind_ok (unwrap_run () _),
    Prog.run_bind_ok third, Prog.run_bind_ok said, Prog.run_bind_ok pushed, Prog.run_pure]

/-- What follows the image in a call of `load` returns, while the root leaves an entry free. -/
theorem load_returns_of_image {height spare : Nat} {start : Memory}
    {before : VirtualAddress → Option (Nat × PageEntry)} {root : UInt64} {placed : List Placement}
    {used data : Set UInt64} {known : Set Nat} {image : Pmm} {bytes : List UInt8} {elf : ElfBytes}
    {table : List ProgramHeader} (mapAligned : platform.hhdmOffset % 4096 = 0)
    (levels : (PageLevel.fromUsize platform.levels).asUsize = height + 1) (tall : 2 ≤ height)
    (serving : ServingArenas loader platform.vmem spans unused)
    (parsed : loader.minimalParse bytes = .ok elf) (listed : elf.segments = some table)
    (imageRan : (loadImage platform.hhdmOffset (.fromUsize platform.levels) bytes s.satp table).run
      s.pmm = (.ok root, image))
    (state : Segmented platform.hhdmOffset start height spare before root placed used data known
      (stackRoom height) image)
    (positive : 1 ≤ spare) (small : spare < 256)
    (ids : ∃ number after,
      (platform.vmem.alloc loader.taskIds 1).run s.arenas = (.ok (.ok number), after))
    (unlocked : s.currentUserTask.writer = false) (unread : s.currentUserTask.readers = 0)
    (room : s.tasks.queue.length < queueLimit) :
    ∃ taskId s', (load platform loader bytes).run s = (.ok taskId, s') := by
  have spareInvalid : PageEntry.getValid (image.memory (wordOf root spare)) = false :=
    state.laid.nowhere state.blank (Nat.lt_trans small (by decide)) state.spare
  obtain ⟨stack, between, claim, maps⟩ := state.stack mapAligned levels tall
  obtain ⟨number, after₁, numbered⟩ := ids
  obtain ⟨arena, after₂, arenaMade, new⟩ := serving.makes "task_vmm" 4096 after₁
  obtain ⟨after₃, spanned, unusedArena, found⟩ : ∃ after₃,
      (addSpans loader (.fromUsize platform.levels) root arena).run
        { s with pmm := image, arenas := after₂ } =
          (.ok (), { s with pmm := image, arenas := after₃ }) ∧
      unused after₃ arena ∧ ∀ index, 1 ≤ index → index ≤ 256 →
        PageEntry.getValid (image.memory (wordOf root index)) = false →
          entrySpan (.fromUsize platform.levels) index ∈ spans after₃ arena :=
    addSpans_returns serving levels new
  have only := addSpans_eq_ok (fun added => serving.add added) (serving.new arenaMade) spanned
  have large : ∃ span ∈ spans after₃ arena, 0x800000 ≤ span.2.toNat := by
    refine ⟨_, found spare positive (Nat.le_of_lt small) spareInvalid, ?_⟩
    rw [(toNat_entrySpan levels (Nat.lt_trans small (by decide))).2, pageBits]
    exact (by decide : 0x800000 ≤ 2 ^ 30).trans (Nat.pow_le_pow_right (by decide) (by omega))
  obtain ⟨stackVaddr, s₄, stacked, tasks⟩ := loadStack_returns (s := { s with
    pmm := image, arenas := after₃ }) serving unusedArena claim large fun stackVaddr inSpan => by
      obtain ⟨span, member, low, high⟩ := inSpan
      obtain ⟨index, -, most, invalid, rfl⟩ := only span member
      exact maps index most stackVaddr invalid low high
  have same : s₄.currentUserTask = s.currentUserTask := tasks
  have queue : s₄.tasks.queue.length < queueLimit := by
    rw [Machine.tasks, same]
    exact room
  obtain ⟨s', ended⟩ := loadThread_returns serving (fun taskTm threadId => {
    trapFrame := {
      sepc := elf.eEntry
      registers := { (default : GeneralRegisters) with sp := stackVaddr, a0 := number } }
    taskId := number
    taskTable := newSatp platform.hhdmOffset (.fromUsize platform.levels) s.satp root
    privilege := .user
    waitingOn := .none
    threadId := threadId
    threadManager := taskTm
    vmm := arena }) ("Loading program with stack at " ++ hex stackVaddr ++ "\n") number
    (same ▸ unlocked) (same ▸ unread) queue
  have first : (onPmm (loadImage platform.hhdmOffset (.fromUsize platform.levels) bytes s.satp
      table)).run s = (.ok root, { s with pmm := image }) := Prog.run_within imageRan
  have second : (allocFrom platform loader.taskIds 1).run { s with pmm := image } =
      (.ok number, { s with pmm := image, arenas := after₁ }) := allocFrom_run numbered
  have third : (onArenas (loader.newArena "task_vmm" 4096)).run
      { s with pmm := image, arenas := after₁ } =
        (.ok arena, { s with pmm := image, arenas := after₂ }) := Prog.run_within arenaMade
  refine ⟨number, s', ?_⟩
  unfold load
  rw [parsed, Prog.run_bind_ok (unwrap_run elf s), listed]
  with_reducible
    refine (Prog.run_bind_ok (unwrapSome_run table s)).trans ?_
    refine (Prog.run_bind_ok (Prog.run_read _ s)).trans ?_
    refine (Prog.run_bind_ok first).trans ?_
    refine (Prog.run_bind_ok second).trans ?_
    refine (Prog.run_bind_ok third).trans ?_
    refine (Prog.run_bind_ok spanned).trans ?_
    refine (Prog.run_bind_ok stacked).trans ?_
    exact ended

/-- A file that the loader gets through is loaded, while the free frames are one row that is long
enough. -/
theorem load_returns {height length spare : Nat} {pages : Set UInt64} {base : UInt64}
    {bytes : List UInt8} {elf : ElfBytes} {table : List ProgramHeader}
    (ready : LoadReady platform height pages (framesFrom base length) s)
    (serving : ServingArenas loader platform.vmem spans unused)
    (parsed : loader.minimalParse bytes = .ok elf) (listed : elf.segments = some table)
    (served : ∀ entry ∈ table, entry.pType = 1 → entry.Served bytes height spare
      (kernelLeaf platform.hhdmOffset height s.satp s.pmm.memory))
    (positive : 1 ≤ spare) (small : spare < 256)
    (ids : ∃ number after,
      (platform.vmem.alloc loader.taskIds 1).run s.arenas = (.ok (.ok number), after))
    (unlocked : s.currentUserTask.writer = false) (unread : s.currentUserTask.readers = 0)
    (room : s.tasks.queue.length < queueLimit)
    (enough : rootCost platform.hhdmOffset height s + (imageCost height table + stackRoom height) <
      length) : ∃ taskId s', (load platform loader bytes).run s = (.ok taskId, s') := by
  have several : 1 < (framesFrom base length).length := by
    rw [framesFrom_length]
    rw [rootCost] at enough
    omega
  obtain ⟨root, fresh, used, made, begun⟩ :=
    ready.newRoot (rowStock_source platform.hhdmOffset) several ⟨base, length, ready.stock, enough⟩
  have beside : spare ∉ upperHalf := fun inside => absurd inside.1 (Nat.not_le.mpr small)
  have begins : ∀ virt, leafOf platform.hhdmOffset fresh.memory (height + 1) root virt =
      kernelLeaf platform.hhdmOffset height s.satp s.pmm.memory virt := fun virt =>
    (begun.laid.leaf_eq ready.levels begun.lower begun.upper virt).1
  have state : Segmented platform.hhdmOffset fresh.memory height spare
      (kernelLeaf platform.hhdmOffset height s.satp s.pmm.memory) root [] used pages upperHalf
      (imageCost height table + stackRoom height) fresh :=
    ⟨begun.laid, fun _ member => absurd member List.not_mem_nil, begun.lower, begins, beside⟩
  obtain ⟨image, _, _, _, known, segments, state⟩ := state.segments ready.mapAligned ready.levels
    (Nat.le_of_succ_le ready.tall) served
  have imageRan : (loadImage platform.hhdmOffset
    (.fromUsize platform.levels) bytes s.satp table).run
      s.pmm = (.ok root, image) := by
    rw [loadImage, Prog.run_bind_ok made, Prog.run_bind_ok segments, Prog.run_pure]
  exact load_returns_of_image ready.mapAligned ready.levels ready.tall serving parsed listed
    imageRan state positive small ids unlocked unread room

end Load

end Lsd
