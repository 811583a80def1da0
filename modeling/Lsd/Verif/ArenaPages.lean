import Lsd.Memory.Arena
import Lsd.Verif.FrameCount
import Lsd.Verif.ProgramImage

/-!
# The pages of an allocation

The loops of `Vmm::alloc` and `Vmm::alloc_constrained` place one small page after
the other. Here the tree is followed through such a loop, and with it the frames
that were claimed: each is in use as data of the allocation, or is a table of the
tree. All of it holds as long as no claim took the last frame of the list, which
the count of the list shows.
-/

namespace Lsd

open Program Radix

/-- What an allocation places at one of its pages. -/
def arenaPlacement (hhdm base : UInt64) (flags : PageFlags) (step : Nat) (frame : UInt64) :
    Placement where
  page := pageAt base step
  target := .level1
  phys := frame - hhdm
  flags := flags

/-- What it places at its first pages. Of the frames and of the placements the last comes first. -/
def pagePlacements (hhdm base : UInt64) (flags : PageFlags) : List UInt64 → List Placement
  | [] => []
  | frame :: older =>
    arenaPlacement hhdm base flags older.length frame :: pagePlacements hhdm base flags older

section Placements

variable {hhdm base frame : UInt64} {flags : PageFlags} {frames newer older : List UInt64}
  {placement : Placement} {height first second : Nat} {virt : VirtualAddress}
  {start : VirtualAddress → Option (Nat × PageEntry)}

/-- Each placement is one of a page, and that of a small one. -/
theorem mem_pagePlacements (member : placement ∈ pagePlacements hhdm base flags frames) :
    ∃ step < frames.length, ∃ frame ∈ frames,
      placement = arenaPlacement hhdm base flags step frame := by
  induction frames with
  | nil => cases member
  | cons frame older ih =>
    rcases List.mem_cons.mp member with rfl | member
    · exact ⟨older.length, Nat.lt_succ_self _, frame, List.mem_cons_self, rfl⟩
    · obtain ⟨step, bound, other, listed, rfl⟩ := ih member
      exact ⟨step, Nat.lt_succ_of_lt bound, other, List.mem_cons_of_mem frame listed, rfl⟩

/-- The number of the page of a step. -/
theorem page_pageAt (base : VirtualAddress) (step : Nat) :
    (pageAt base step).toNat / 4096 = (base.toNat / 4096 + step) % 2 ^ 52 := by
  have bound := base.toNat_lt
  rw [pageAt, UInt64.toNat_add, UInt64.toNat_ofNat']
  omega

/-- Pages of a range that fits in the address space take different ways. -/
theorem pages_apart (short : height + 1 ≤ 5) (firstInside : first < 512 ^ (height + 1))
    (secondInside : second < 512 ^ (height + 1)) (apart : first ≠ second) :
    ¬ SamePath 1 (height + 1) (pageAt base first).path (pageAt base second).path := by
  have divides : 512 ^ (height + 1) ∣ 2 ^ 52 := by
    have power : 512 ^ (height + 1) = 2 ^ (9 * (height + 1)) := by rw [Nat.pow_mul]
    rw [power]
    exact Nat.pow_dvd_pow 2 (by omega)
  intro same
  have pages := page_eq_of_samePath same
  rw [page_pageAt, page_pageAt, Nat.mod_mod_of_dvd _ divides, Nat.mod_mod_of_dvd _ divides] at pages
  have equal : second % 512 ^ (height + 1) = first % 512 ^ (height + 1) :=
    Nat.ModEq.add_left_cancel' (base.toNat / 4096) pages
  rw [Nat.mod_eq_of_lt firstInside, Nat.mod_eq_of_lt secondInside] at equal
  exact apart equal.symm

/-- An address of the last page comes to the frame that was placed there. -/
theorem leafAfter_last
    (along : SamePath 1 (height + 1) (pageAt base older.length).path virt.path) :
    Placement.leafAfter (height + 1) start (pagePlacements hhdm base flags (frame :: older)) virt =
      some (1, leafEntry (frame - hhdm) flags) := by
  have covers : (arenaPlacement hhdm base flags older.length frame).Covers (height + 1) virt :=
    along
  rw [pagePlacements, Placement.leafAfter, if_pos covers]
  rfl

/-- An address of a page comes to the frame that was placed there. -/
theorem leafAfter_page (short : height + 1 ≤ 5) (fits : frames.length ≤ 512 ^ (height + 1))
    (parts : frames = newer ++ frame :: older)
    (along : SamePath 1 (height + 1) (pageAt base older.length).path virt.path) :
    Placement.leafAfter (height + 1) start (pagePlacements hhdm base flags frames) virt =
      some (1, leafEntry (frame - hhdm) flags) := by
  induction newer generalizing frames with
  | nil =>
    rw [parts, List.nil_append]
    exact leafAfter_last along
  | cons last newer ih =>
    rw [List.cons_append] at parts
    rw [parts, List.length_cons] at fits
    have elsewhere : ¬ (arenaPlacement hhdm base flags (newer ++ frame :: older).length last).Covers
        (height + 1) virt := by
      intro here
      have inside : older.length < (newer ++ frame :: older).length := by
        rw [List.length_append, List.length_cons]
        omega
      exact pages_apart short (by omega) (by omega) inside.ne (along.trans here.symm)
    rw [parts, pagePlacements, Placement.leafAfter, if_neg elsewhere]
    exact ih (by omega) rfl

/-- Other addresses go where they went before. -/
theorem leafAfter_beside
    (apart : ∀ step < frames.length, ¬ SamePath 1 (height + 1) (pageAt base step).path virt.path) :
    Placement.leafAfter (height + 1) start (pagePlacements hhdm base flags frames) virt =
      start virt := by
  apply Placement.leafAfter_apart
  intro placement member
  obtain ⟨step, bound, frame, -, rfl⟩ := mem_pagePlacements member
  exact apart step bound

end Placements

/-- The tree and the frames during an allocation: the pages of the frames are placed, and every
frame that was claimed is data of the allocation or a table. -/
structure Spread (hhdm : UInt64) (given : List UInt64) (used : Set UInt64) (start : Memory)
    (first : Set Nat) (height : Nat) (root base : UInt64) (flags : PageFlags) (frames : List UInt64)
    (data : Set UInt64) (p : Pmm) (pages : Set UInt64) (known : Set Nat) : Prop where
  /-- The pages are placed. -/
  laid : Laid hhdm (StockRest hhdm given used) start first height root
    (pagePlacements hhdm base flags frames) pages data known 0 p
  /-- What came into use is data or a table. -/
  spent : pages ⊆ used ∪ data ∪ footprint (slots hhdm p.memory) 512 known height root

/-- What holds as long as fewer frames were claimed than a list held. -/
def UnlessSpent (given : List UInt64) (origin : Pmm) (most : Nat) (holds : Prop) (p : Pmm) : Prop :=
  ∃ count ≤ most, Shrunk count origin p ∧ (count < given.length → holds)

section Spread

variable {hhdm root base frame : UInt64} {given frames : List UInt64} {used data pages : Set UInt64}
  {start : Memory} {first known : Set Nat} {height most : Nat} {flags : PageFlags}
  {origin p q : Pmm} {level : PageLevel} {also : Prop}

/-- A consequence holds as long. -/
theorem UnlessSpent.imp {less more : Prop} (before : UnlessSpent given origin most less p)
    (follows : less → more) : UnlessSpent given origin most more p := by
  obtain ⟨count, few, shrunk, holds⟩ := before
  exact ⟨count, few, shrunk, fun enough => follows (holds enough)⟩

/-- Before the first claim. -/
theorem UnlessSpent.begin (holds : also) : UnlessSpent given p 0 also p :=
  ⟨0, Nat.le_refl 0, .of_len rfl, fun _ => holds⟩

/-- Before the first page. -/
theorem Spread.begin (rooted : Rooted hhdm first used height root p.memory) (dataUsed : data ⊆ used)
    (dataApart : Disjoint data (footprint (slots hhdm p.memory) 512 first height root))
    (stock : Stock hhdm used p given) :
    Spread hhdm given used p.memory first height root base flags [] data p used first := by
  have nonempty := stock.nonempty
  have supplies : StockRest hhdm given used 0 used p :=
    ⟨[], given, rfl, stock, nonempty, by simp⟩
  refine ⟨.beginBeside rooted stock.pagesAligned dataUsed dataApart supplies, ?_⟩
  exact fun page inside => .inl (.inl inside)

/-- A frame that was claimed becomes data. -/
theorem Spread.claim (held : origin.Holds given)
    (before : UnlessSpent given origin most (also ∧ ∃ pages known,
      Spread hhdm given used start first height root base flags frames data p pages known) p)
    (claimed : (FreeList.claim hhdm).run p = (.ok frame, q)) :
    UnlessSpent given origin (most + 1) ((also ∧ frame ∉ data ∧ frame ∈ given) ∧ ∃ pages known,
      Spread hhdm given used start first height root base flags frames (insert frame data) q pages
        known) q := by
  obtain ⟨count, few, shrunk, spread⟩ := before
  have last : Shrunk 1 p q := claim_shrinks claimed
  refine ⟨count + 1, by omega, shrunk.trans last, fun enough => ?_⟩
  obtain ⟨old, pages, known, spread⟩ := spread (by omega)
  obtain ⟨taken, rest, parts, stock, -, inUse⟩ := id spread.laid.supplies
  have length := shrunk.length (by omega) held stock.holds
  have supplied : StockRest hhdm given used (0 + 1) pages p :=
    ⟨taken, rest, parts, stock, by omega, inUse⟩
  obtain ⟨other, q', done, fresh, kept, listed, later⟩ := supplied.claim
  obtain ⟨same, rfl⟩ := Prod.mk.inj (claimed.symm.trans done)
  obtain rfl := Except.ok.inj same
  have single : ∀ other ∈ ({frame} : Set UInt64), FreshFrame hhdm pages other := by
    rintro _ rfl
    exact fresh
  rw [← Set.union_singleton] at later
  have laid := spread.laid.claimed kept single later
  have tables := (spread.laid.rooted.kept (kept.mono spread.laid.rooted.inUse)).2.1
  have new : frame ∉ data := fun old => fresh.outside (spread.laid.dataUsed old)
  refine ⟨⟨old, new, listed⟩, pages ∪ {frame}, known, ?_, ?_⟩
  · rw [← Set.union_singleton]
    exact laid
  · rw [tables]
    rintro page (old | new)
    · rcases spread.spent old with (outside | inside) | table
      · exact .inl (.inl outside)
      · exact .inl (.inr (Set.mem_insert_of_mem _ inside))
      · exact .inr table
    · exact .inl (.inr (.inl new))

/-- A call of `map` places a page. -/
theorem Spread.map (mapAligned : hhdm % 4096 = 0) (at_height : level.asUsize = height + 1)
    (tall : 1 ≤ height) (maps : flags.Maps) (held : origin.Holds given)
    (ready : ∀ virt : VirtualAddress, virt.path (height + 1) ∈ first ∨
      PageEntry.isBlank (start (wordOf root (virt.path (height + 1)))) = true)
    (before : UnlessSpent given origin most (also ∧ ∃ pages known,
      Spread hhdm given used start first height root base flags frames data p pages known) p)
    (ran : (Lsd.map hhdm root (pageAt base frames.length) (frame - hhdm) level
    .level1 flags).run p =
      (.ok (), q)) :
    UnlessSpent given origin (most + height) (also ∧ ∃ pages known,
      Spread hhdm given used start first height root base flags (frame :: frames) data q pages
        known) q := by
  obtain ⟨count, few, shrunk, spread⟩ := before
  have positive : 1 ≤ PageLevel.level1.asUsize := Nat.le_refl 1
  have reach : PageLevel.level1.asUsize ≤ height := tall
  have higher : PageLevel.level1.asUsize ≤ height + 1 := Nat.le_succ_of_le tall
  have most : height + 1 - PageLevel.level1.asUsize = height := Nat.add_sub_cancel height 1
  by_cases enough : count < given.length
  · obtain ⟨old, pages, known, spread⟩ := spread enough
    obtain ⟨taken, rest, parts, stock, -, inUse⟩ := id spread.laid.supplies
    have length := shrunk.length enough held stock.holds
    have small := (pageAt base frames.length).path_lt (height + 1)
    have now : (pageAt base frames.length).path (height + 1) ∈ known ∨
        PageEntry.isBlank (p.memory (wordOf root ((pageAt base frames.length).path (height + 1)))) =
          true := by
      by_cases here : (pageAt base frames.length).path (height + 1) ∈ known
      · exact .inl here
      · rw [spread.laid.beside _ small here]
        exact .inr ((ready _).resolve_left fun old => here (spread.laid.more old))
    by_cases short : rest.length ≤ missing (slots hhdm p.memory) (pageAt base frames.length).path
        PageLevel.level1.asUsize (height + 1) root
    · -- the claims of this call take all that is left
      obtain ⟨spent, all, within, more⟩ := spread.laid.rooted.map_spends mapAligned positive
        at_height reach now stock short ran
      rw [most] at within
      exact ⟨count + spent, by omega, shrunk.trans more, fun fewer => by omega⟩
    · have supplied : StockRest hhdm given used (missing (slots hhdm p.memory)
          (pageAt base frames.length).path PageLevel.level1.asUsize
            (height + 1) root + 0) pages p :=
        ⟨taken, rest, parts, stock, by omega, inUse⟩
      obtain ⟨spent, within, more⟩ := mapLoop_shrinks positive at_height higher ran
      rw [most] at within
      obtain ⟨fresh, outcome, grown⟩ := spread.laid.rooted.map
        (stockRest_source hhdm given used) mapAligned maps positive at_height reach
        spread.laid.pagesAligned now supplied ran
      let placement := arenaPlacement hhdm base flags frames.length frame
      have low : 1 ≤ placement.target.asUsize := positive
      have place : placement.page.path (height + 1) ∈ known ∨
          PageEntry.isBlank (start (wordOf root (placement.page.path (height + 1)))) = true :=
        (ready _).imp_left fun old => spread.laid.more old
      obtain ⟨laid, -⟩ := spread.laid.mapped low reach place outcome
      have tables := grown rfl
      refine ⟨count + spent, by omega, shrunk.trans more, fun _ => ⟨old, pages ∪ fresh, _, laid,
        ?_⟩⟩
      rintro page (old | new)
      · rcases spread.spent old with beside | table
        · exact .inl beside
        · exact .inr (tables (.inl table))
      · exact .inr (tables (.inr new))
  · obtain ⟨spent, within, more⟩ := mapLoop_shrinks positive at_height higher ran
    rw [most] at within
    exact ⟨count + spent, by omega, shrunk.trans more, fun fewer => by omega⟩

end Spread

section Loops

variable {hhdm root base : UInt64} {given : List UInt64} {used data : Set UInt64}
  {start : Memory} {first : Set Nat} {height count : Nat} {flags : PageFlags} {p q : Pmm}
  {level : PageLevel} {last : PhysicalAddress}
  {page : PhysicalAddress → Nat → Kernel Pmm PhysicalAddress}

/-- The frames of a run, the last first, and the frame behind them. -/
theorem reverse_framesFrom_succ (base : UInt64) (count : Nat) :
    (framesFrom base (count + 1)).reverse =
      (base + UInt64.ofNat (count * 0x1000)) :: (framesFrom base count).reverse := by
  rw [framesFrom_add, List.reverse_append]
  rfl

/-- A frame of a run, with the frames before it. -/
theorem reverse_framesFrom_at (base : UInt64) {step : Nat} (bound : step < count) :
    ∃ newer, (framesFrom base count).reverse =
      newer ++ (base + UInt64.ofNat (step * 0x1000)) :: (framesFrom base step).reverse := by
  obtain ⟨rest, rfl⟩ : ∃ rest, count = step + 1 + rest := ⟨count - (step + 1), by omega⟩
  rw [framesFrom_add, List.reverse_append, reverse_framesFrom_succ]
  exact ⟨_, rfl⟩

/-- A loop over pages claims at most one frame for each table on the way to each page, in any
state. -/
theorem run_shrinks {shift value : UInt64} (at_height : level.asUsize = height + 1)
    (round : ∀ value step, page value step = (do
      map hhdm root (base + UInt64.ofNat (step * 0x1000)) (value + shift) level .level1 flags
      pure (value + 4096)))
    (ran : ((List.range count).foldlM page value).run p = (.ok last, q)) :
    ∃ spent ≤ count * height, Shrunk spent p q := by
  refine Prog.run_rangeFold_ok (fun done _ q => ∃ spent ≤ done * height, Shrunk spent p q) ran
    ⟨0, Nat.zero_le _, .of_len rfl⟩ ?_
  rintro step - value before next after ⟨spent, few, shrunk⟩ went
  rw [round] at went
  obtain ⟨⟨⟩, s₁, mapped, went⟩ := Prog.run_bind_eq_ok went
  obtain ⟨-, rfl⟩ := Prod.mk.inj went
  have positive : 1 ≤ PageLevel.level1.asUsize := Nat.le_refl 1
  have reach : PageLevel.level1.asUsize ≤ height + 1 := Nat.le_add_left 1 height
  obtain ⟨more, within, later⟩ := mapLoop_shrinks positive at_height reach mapped
  have most : height + 1 - PageLevel.level1.asUsize = height := Nat.add_sub_cancel height 1
  rw [most] at within
  refine ⟨spent + more, ?_, shrunk.trans later⟩
  rw [Nat.add_mul, Nat.one_mul]
  exact Nat.add_le_add few within

/-- A loop over the pages of a run of frames places them. The address that the loop carries may lie
below the one that it maps. -/
theorem run_spreads {claim shift : UInt64} (mapAligned : hhdm % 4096 = 0)
    (at_height : level.asUsize = height + 1) (tall : 1 ≤ height) (maps : flags.Maps)
    (held : p.Holds given)
    (ready : ∀ virt : VirtualAddress, virt.path (height + 1) ∈ first ∨
      PageEntry.isBlank (start (wordOf root (virt.path (height + 1)))) = true)
    (begun : ∃ pages known,
      Spread hhdm given used start first height root base flags [] data p pages known)
    (round : ∀ value step, page value step = (do
      map hhdm root (base + UInt64.ofNat (step * 0x1000)) (value + shift) level .level1 flags
      pure (value + 4096)))
    (ran : ((List.range count).foldlM page (claim - hhdm)).run p = (.ok last, q)) :
    UnlessSpent given p (count * height) (∃ pages known, Spread hhdm given used start first height
      root base flags (framesFrom (claim + shift) count).reverse data q pages known) q := by
  have whole := Prog.run_rangeFold_ok (fun done value q =>
    value = claim + UInt64.ofNat (done * 0x1000) - hhdm ∧
      UnlessSpent given p (done * height) (True ∧ ∃ pages known, Spread hhdm given used start first
        height root base flags (framesFrom (claim + shift) done).reverse data q pages known) q) ran
    ⟨?_, ?_⟩ ?_
  · exact whole.2.imp And.right
  · rw [Nat.zero_mul]
    grind
  · rw [Nat.zero_mul]
    exact .begin ⟨trivial, begun⟩
  · rintro step - value before next after ⟨carried, spread⟩ went
    rw [round] at went
    obtain ⟨⟨⟩, s₁, mapped, went⟩ := Prog.run_bind_eq_ok went
    obtain ⟨same, rfl⟩ := Prod.mk.inj went
    obtain rfl := Except.ok.inj same
    have place : value + shift = claim + shift + UInt64.ofNat (step * 0x1000) - hhdm := by
      rw [carried]
      grind
    have length : (framesFrom (claim + shift) step).reverse.length = step := by simp
    have here : (map hhdm root (pageAt base (framesFrom (claim + shift) step).reverse.length)
        (claim + shift + UInt64.ofNat (step * 0x1000) - hhdm) level .level1 flags).run before =
          (.ok (), s₁) := by
      rw [length, ← place]
      exact mapped
    constructor
    · rw [carried, Nat.add_mul, UInt64.ofNat_add]
      grind
    · rw [reverse_framesFrom_succ, Nat.add_mul, Nat.one_mul]
      exact Spread.map mapAligned at_height tall maps held ready spread here

/-- A loop that claims a frame for each page places the frames. -/
theorem claims_spread {claim : PhysicalAddress} (mapAligned : hhdm % 4096 = 0)
    (at_height : level.asUsize = height + 1) (tall : 1 ≤ height) (maps : flags.Maps)
    (held : p.Holds given)
    (ready : ∀ virt : VirtualAddress, virt.path (height + 1) ∈ first ∨
      PageEntry.isBlank (start (wordOf root (virt.path (height + 1)))) = true)
    (begun : ∃ pages known,
      Spread hhdm given used start first height root base flags [] ∅ p pages known)
    (round : ∀ value step, page value step = (do
      let phys ← claimNextFrame hhdm
      map hhdm root (base + UInt64.ofNat (step * 0x1000)) phys level .level1 flags
      pure phys))
    (ran : ((List.range count).foldlM page claim).run p = (.ok last, q)) :
    ∃ frames, frames.length = count ∧ UnlessSpent given p (count * (height + 1))
      ((frames.Nodup ∧ frames ⊆ given) ∧ ∃ pages known, Spread hhdm given used start first height
        root base flags frames {frame | frame ∈ frames} q pages known) q := by
  refine Prog.run_rangeFold_ok (fun done _ q => ∃ frames, frames.length = done ∧
    UnlessSpent given p (done * (height + 1)) ((frames.Nodup ∧ frames ⊆ given) ∧ ∃ pages known,
      Spread hhdm given used start first height root base flags frames {frame | frame ∈ frames} q
        pages known) q) ran ⟨[], rfl, ?_⟩ ?_
  · rw [Nat.zero_mul]
    refine .begin ⟨⟨List.nodup_nil, List.nil_subset _⟩, ?_⟩
    simpa using begun
  · rintro step - value before next after ⟨frames, rfl, spread⟩ went
    rw [round, claimNextFrame] at went
    obtain ⟨phys, s₁, taken, placed⟩ := Prog.run_bind_eq_ok went
    obtain ⟨frame, s₂, claimed, minus⟩ := Prog.run_bind_eq_ok taken
    obtain ⟨same, rfl⟩ := Prod.mk.inj minus
    obtain rfl := Except.ok.inj same
    obtain ⟨⟨⟩, s₃, mapped, done⟩ := Prog.run_bind_eq_ok placed
    obtain ⟨-, rfl⟩ := Prod.mk.inj done
    refine ⟨frame :: frames, rfl, ?_⟩
    have later := Spread.map mapAligned at_height tall maps held ready
      (Spread.claim held spread claimed) mapped
    have cost : (frames.length + 1) * (height + 1) = frames.length * (height + 1) + 1 + height := by
      rw [Nat.add_mul, Nat.one_mul, Nat.add_comm height 1, Nat.add_assoc]
    rw [cost]
    refine later.imp ?_
    rintro ⟨⟨⟨nodup, listed⟩, new, member⟩, whole⟩
    refine ⟨⟨?_, ?_⟩, ?_⟩
    · exact List.nodup_cons.mpr ⟨new, nodup⟩
    · exact List.cons_subset.mpr ⟨member, listed⟩
    · have insert : insert frame {frame | frame ∈ frames} = {other | other ∈ frame :: frames} := by
        ext other
        simp
      rwa [insert] at whole

end Loops

end Lsd
