import Lsd.Verif.FrameWindow

/-!
# Supplies of frames

What the makers of tables ask of the frame list: the frames it hands out lie
outside the pages in use, and handing them out leaves those pages alone. A
well-formed list that lies outside the pages is such a supply, of one frame fewer
than it holds, and stays one when a window of frames is taken out of it.
-/

namespace Lsd

open Program Linked

/-- A frame that can become a table: a page outside some pages, with a physical address that an
entry can hold. -/
structure FreshFrame (hhdm : UInt64) (pages : Set UInt64) (frame : UInt64) : Prop where
  /-- It is a page. -/
  aligned : frame % 4096 = 0
  /-- It lies outside the pages. -/
  outside : frame ∉ pages
  /-- Its physical address has at most 56 bits. -/
  short : (frame - hhdm).toNat < 2 ^ 56

/-- A number of further claims return frames outside some pages and outside each other, and leave
the pages alone, whatever is written to the pages and to the frames in the meantime. -/
def Supplies (hhdm : UInt64) : Nat → Set UInt64 → Pmm → Prop
  | 0, _, _ => True
  | count + 1, pages, s => ∀ memory, ChangedWithin pages s.memory memory →
    ∃ frame s', (FreeList.claim hhdm).run { s with memory := memory } = (.ok frame, s') ∧
      FreshFrame hhdm pages frame ∧ Kept pages memory s'.memory ∧
      Supplies hhdm count (insert frame pages) s'

section Supply

variable {hhdm : UInt64} {pages : Set UInt64} {s : Pmm} {count : Nat}

/-- No claim is always supplied. -/
theorem Supplies.zero : Supplies hhdm 0 pages s := trivial

/-- One more claim than some number. -/
theorem supplies_succ : Supplies hhdm (count + 1) pages s ↔
    ∀ memory, ChangedWithin pages s.memory memory →
      ∃ frame s', (FreeList.claim hhdm).run { s with memory := memory } = (.ok frame, s') ∧
        FreshFrame hhdm pages frame ∧ Kept pages memory s'.memory ∧
        Supplies hhdm count (insert frame pages) s' := Iff.rfl

-- a count of tables is never evaluated to unfold this
attribute [irreducible] Supplies

/-- The next claim, and the claims after it. -/
theorem Supplies.next (supplies : Supplies hhdm (count + 1) pages s) {memory : Memory}
    (changed : ChangedWithin pages s.memory memory) :
    ∃ frame s', (FreeList.claim hhdm).run { s with memory := memory } = (.ok frame, s') ∧
      FreshFrame hhdm pages frame ∧ Kept pages memory s'.memory ∧
      Supplies hhdm count (insert frame pages) s' := supplies_succ.mp supplies memory changed

/-- Writing to the pages in use does not affect later claims. -/
theorem Supplies.write (supplies : Supplies hhdm count pages s) {memory : Memory}
    (changed : ChangedWithin pages s.memory memory) :
    Supplies hhdm count pages { s with memory := memory } := by
  cases count with
  | zero => exact .zero
  | succ count => exact supplies_succ.mpr fun later step => supplies.next (changed.trans step)

/-- Fewer claims succeed as well. -/
theorem Supplies.mono {fewer : Nat} (supplies : Supplies hhdm count pages s)
    (le : fewer ≤ count) : Supplies hhdm fewer pages s := by
  induction count generalizing fewer pages s with
  | zero => exact Nat.le_zero.mp le ▸ .zero
  | succ count ih =>
    cases fewer with
    | zero => exact .zero
    | succ fewer =>
      refine supplies_succ.mpr fun memory changed => ?_
      obtain ⟨frame, s', ran, fresh, kept, rest⟩ := supplies.next changed
      exact ⟨frame, s', ran, fresh, kept, ih rest (by omega)⟩

/-- What is asked of a supply of frames: `stock count pages s` says that the state can hand out
`count` frames outside some pages. -/
structure FrameSource (hhdm : UInt64) (stock : Nat → Set UInt64 → Pmm → Prop) : Prop where
  /-- The next frame can be claimed, whatever was written to the pages. -/
  next : ∀ {count : Nat} {pages : Set UInt64} {s : Pmm} {memory : Memory},
    stock (count + 1) pages s → ChangedWithin pages s.memory memory →
      ∃ frame s', (FreeList.claim hhdm).run { s with memory := memory } = (.ok frame, s') ∧
        FreshFrame hhdm pages frame ∧ Kept pages memory s'.memory ∧
        stock count (insert frame pages) s'
  /-- Writing to the pages does not affect it. -/
  write : ∀ {count : Nat} {pages : Set UInt64} {s : Pmm} {memory : Memory}, stock count pages s →
    ChangedWithin pages s.memory memory → stock count pages { s with memory := memory }
  /-- It can hand out fewer frames as well. -/
  mono : ∀ {count fewer : Nat} {pages : Set UInt64} {s : Pmm}, stock count pages s →
    fewer ≤ count → stock fewer pages s

/-- What supplies claims is a supply of frames. -/
theorem supplies_source (hhdm : UInt64) : FrameSource hhdm (Supplies hhdm) :=
  ⟨fun supplies => supplies.next, fun supplies => supplies.write, fun supplies => supplies.mono⟩

/-- A word of a page is a link word of a node only if the page is that node. -/
theorem not_linkWords {nodes : List UInt64} {page : UInt64} {index : Nat}
    (frames : ∀ node ∈ nodes, IsFrame node) (aligned : page % 4096 = 0) (bound : index < 512)
    (out : page ∉ nodes) : ¬ LinkWords nodes (wordOf page index) := by
  rintro ⟨node, listed, first | second⟩
  · rw [← wordOf_zero node] at first
    have same := wordOf_inj aligned (frames node listed).aligned bound (by decide) first
    exact out (same.1 ▸ listed)
  · have same := wordOf_inj aligned (frames node listed).aligned bound (j := 1) (by decide) second
    exact out (same.1 ▸ listed)

/-- Any supply of frames supplies its claims. -/
theorem FrameSource.supplies {stock : Nat → Set UInt64 → Pmm → Prop}
    (source : FrameSource hhdm stock)
    (stocked : stock count pages s) : Supplies hhdm count pages s := by
  induction count generalizing pages s with
  | zero => exact .zero
  | succ count ih =>
    refine supplies_succ.mpr fun memory changed => ?_
    obtain ⟨frame, s', ran, fresh, kept, rest⟩ := source.next stocked changed
    exact ⟨frame, s', ran, fresh, kept, ih rest⟩

end Supply

/-- A well-formed frame list whose frames are pages of the direct map outside the pages in use. -/
structure Stock (hhdm : UInt64) (pages : Set UInt64) (s : Pmm) (nodes : List UInt64) : Prop where
  /-- The list is well formed. -/
  holds : s.Holds nodes
  /-- The pages in use are pages. -/
  pagesAligned : ∀ page ∈ pages, page % 4096 = 0
  /-- They are not in the list. -/
  apart : ∀ node ∈ nodes, node ∉ pages
  /-- The frames lie in the direct map. -/
  inMap : ∀ node ∈ nodes, hhdm ≤ node ∧ (node - hhdm).toNat < 2 ^ 56

/-- A stock with more frames than some number. -/
def Stocked (hhdm : UInt64) (count : Nat) (pages : Set UInt64) (s : Pmm) : Prop :=
  ∃ nodes, Stock hhdm pages s nodes ∧ count < nodes.length

section Stock

variable {hhdm frames base : UInt64} {pages : Set UInt64} {s s' : Pmm}
    {nodes pre post : List UInt64}
  {count : Nat} {memory : Memory}

/-- A stock beside some pages is one beside fewer pages. -/
theorem Stock.fewer {few : Set UInt64} (stock : Stock hhdm pages s nodes) (subset : few ⊆ pages) :
    Stock hhdm few s nodes :=
  ⟨stock.holds, fun page member => stock.pagesAligned page (subset member),
    fun node member used => stock.apart node member (subset used), stock.inMap⟩

/-- Writing to the pages in use does not affect the stock. -/
theorem Stock.write (stock : Stock hhdm pages s nodes)
    (changed : ChangedWithin pages s.memory memory) :
    Stock hhdm pages { s with memory := memory } nodes := by
  refine ⟨?_, stock.pagesAligned, stock.apart, stock.inMap⟩
  apply stock.holds.spare
  intro node listed index bound
  exact changed.word stock.pagesAligned (stock.holds.frames node listed).aligned bound
    (stock.apart node listed)

/-- Nor does what changes the pages in use only. -/
theorem Stock.changed (stock : Stock hhdm pages s nodes)
    (list : s'.regionList = s.regionList) (changed : ChangedWithin pages s.memory s'.memory) :
    Stock hhdm pages s' nodes := by
  have same : s' = { s with memory := s'.memory } := by rw [← list]
  rw [same]
  exact stock.write changed

/-- A frame of the stock is fresh. -/
theorem Stock.fresh (stock : Stock hhdm pages s nodes) {node : UInt64} (listed : node ∈ nodes) :
    FreshFrame hhdm pages node :=
  ⟨(stock.holds.frames node listed).aligned, stock.apart node listed, (stock.inMap node listed).2⟩

/-- Changes of link words leave the pages in use alone. -/
theorem Stock.kept (stock : Stock hhdm pages s nodes) (links : ChangedLinks nodes s.memory memory) :
    Kept pages s.memory memory := fun page member _ bound =>
  links _ (not_linkWords stock.holds.frames (stock.pagesAligned page member) bound fun listed =>
    stock.apart page listed member)

/-- What is left of the stock when some frames in its middle come into use. -/
theorem Stock.take {window : List UInt64} (stock : Stock hhdm pages s (pre ++ window ++ post))
    (holds : s'.Holds (pre ++ post)) :
    Stock hhdm (pages ∪ {frame | frame ∈ window}) s' (pre ++ post) := by
  have nodup := stock.holds.nodup
  have listed : ∀ node ∈ pre ++ post, node ∈ pre ++ window ++ post := by
    intro node member
    rcases List.mem_append.mp member with before | behind
    · exact List.mem_append_left _ (List.mem_append_left _ before)
    · exact List.mem_append_right _ behind
  refine ⟨holds, ?_, ?_, fun node member => stock.inMap node (listed node member)⟩
  · rintro page (used | taken)
    · exact stock.pagesAligned page used
    · exact (stock.holds.frames page
        (List.mem_append_left _ (List.mem_append_right _ taken))).aligned
  · rintro node member (used | taken)
    · exact stock.apart node (listed node member) used
    · rw [List.append_assoc] at nodup
      obtain ⟨-, others, apart⟩ := List.nodup_append.mp nodup
      obtain ⟨-, -, behind⟩ := List.nodup_append.mp others
      rcases List.mem_append.mp member with before | after
      · exact apart node before node (List.mem_append_left _ taken) rfl
      · exact behind node taken node after rfl

/-- The next claim takes the first frame of the stock. -/
theorem Stock.claim {a b : UInt64} {rest : List UInt64}
    (stock : Stock hhdm pages s (a :: b :: rest)) :
    ∃ s', (FreeList.claim hhdm).run s = (.ok a, s') ∧ FreshFrame hhdm pages a ∧
      Kept pages s.memory s'.memory ∧ ChangedLinks (a :: b :: rest) s.memory s'.memory ∧
      Stock hhdm (insert a pages) s' (b :: rest) := by
  obtain ⟨s', ran, holds, links⟩ :=
    FreeList.claim_spec stock.holds (.inl (stock.inMap b (by simp)).1)
  have parted : Stock hhdm pages s ([] ++ [a] ++ b :: rest) := stock
  have later : Stock hhdm (pages ∪ {frame | frame ∈ [a]}) s' ([] ++ b :: rest) := parted.take holds
  have same : pages ∪ {frame | frame ∈ [a]} = insert a pages := by
    ext page
    simp [or_comm]
  rw [same] at later
  exact ⟨s', ran, stock.fresh List.mem_cons_self, stock.kept links, links, later⟩

/-- A claim of one frame takes the first of the list. -/
theorem Stock.claimOne {a b : UInt64} {rest : List UInt64}
    (stock : Stock hhdm pages s (a :: b :: rest)) :
    ∃ s', (FreeList.claimContinuous hhdm 1).run s = (.ok (.ok a), s') ∧
      Stock hhdm (insert a pages) s' (b :: rest) ∧ Kept pages s.memory s'.memory := by
  obtain ⟨s', ran, -, kept, -, left⟩ := stock.claim
  refine ⟨s', ?_, left, kept⟩
  rw [FreeList.claimContinuous, FreeList.claimWindow, if_pos rfl, Prog.run_bind_ok ran,
    Prog.run_pure]

/-- A frame that was in use and is given back is the first frame of the stock. -/
theorem Stock.pull {frame : UInt64} (stock : Stock hhdm pages s nodes) (isFrame : IsFrame frame)
    (inMap : hhdm ≤ frame ∧ (frame - hhdm).toNat < 2 ^ 56) (listed : frame ∉ nodes)
    (unused : frame ∉ pages) :
    ∃ s', (FreeList.pull hhdm frame).run s = (.ok (), s') ∧ Stock hhdm pages s' (frame :: nodes) ∧
      Kept pages s.memory s'.memory := by
  obtain ⟨s', ran, holds, links⟩ := FreeList.pull_spec stock.holds isFrame inMap.1 listed
  have later : Stock hhdm pages s' (frame :: nodes) :=
    ⟨holds, stock.pagesAligned, List.forall_mem_cons.mpr ⟨unused, stock.apart⟩,
      List.forall_mem_cons.mpr ⟨inMap, stock.inMap⟩⟩
  refine ⟨s', ran, later, fun page member _ bound => links _ ?_⟩
  exact not_linkWords holds.frames (stock.pagesAligned page member) bound fun old =>
    later.apart page old member

/-- A stock is a supply of frames. -/
theorem stocked_source (hhdm : UInt64) : FrameSource hhdm (Stocked hhdm) := by
  refine ⟨?_, ?_, ?_⟩
  · rintro count pages s memory ⟨nodes, stock, enough⟩ changed
    match nodes with
    | [] | [a] => simp at enough
    | a :: b :: rest =>
      obtain ⟨s', ran, fresh, kept, -, later⟩ := (stock.write changed).claim
      exact ⟨a, s', ran, fresh, kept, b :: rest, later, by simpa using enough⟩
  · rintro count pages s memory ⟨nodes, stock, enough⟩ changed
    exact ⟨nodes, stock.write changed, enough⟩
  · rintro count fewer pages s ⟨nodes, stock, enough⟩ le
    exact ⟨nodes, stock, by omega⟩

/-- A stock of frames of a list. Outside the pages in use the memory still is what it was when the
list was given, the link words apart. -/
def StockedFrom (hhdm : UInt64) (given : List UInt64) (start : Memory) (count : Nat)
    (pages : Set UInt64) (s : Pmm) : Prop :=
  ∃ nodes, Stock hhdm pages s nodes ∧ count < nodes.length ∧ nodes ⊆ given ∧
    ∀ address, ¬ InPages pages address → ¬ LinkWords given address →
      s.memory address = start address

variable {given : List UInt64} {start : Memory}

/-- The next claim takes a frame of the list that was given. -/
theorem StockedFrom.claim (stocked : StockedFrom hhdm given start (count + 1) pages s) :
    ∃ frame s', (FreeList.claim hhdm).run s = (.ok frame, s') ∧ FreshFrame hhdm pages frame ∧
      Kept pages s.memory s'.memory ∧ frame ∈ given ∧ ChangedLinks given s.memory s'.memory ∧
      StockedFrom hhdm given start count (insert frame pages) s' := by
  obtain ⟨nodes, stock, enough, listed, untouched⟩ := stocked
  match nodes with
  | [] | [a] => simp at enough
  | a :: b :: rest =>
    obtain ⟨s', ran, fresh, kept, links, later⟩ := stock.claim
    have changed : ChangedLinks given s.memory s'.memory := links.mono listed
    refine ⟨a, s', ran, fresh, kept, listed List.mem_cons_self, changed, b :: rest, later,
      by simpa using enough, fun node member => listed (List.mem_cons_of_mem a member), ?_⟩
    intro address outside apart
    rw [changed address apart]
    refine untouched address (fun ⟨page, member, inside⟩ => outside ?_) apart
    exact ⟨page, Set.mem_insert_of_mem _ member, inside⟩

/-- It is a supply of frames. -/
theorem stockedFrom_source (hhdm : UInt64) (given : List UInt64) (start : Memory) :
    FrameSource hhdm (StockedFrom hhdm given start) := by
  have write : ∀ {count : Nat} {pages : Set UInt64} {s : Pmm} {memory : Memory},
      StockedFrom hhdm given start count pages s → ChangedWithin pages s.memory memory →
        StockedFrom hhdm given start count pages { s with memory := memory } := by
    rintro count pages s memory ⟨nodes, stock, enough, listed, untouched⟩ changed
    refine ⟨nodes, stock.write changed, enough, listed, fun address outside apart => ?_⟩
    exact (changed address outside).trans (untouched address outside apart)
  refine ⟨fun stocked changed => ?_, write, ?_⟩
  · obtain ⟨frame, s', ran, fresh, kept, -, -, later⟩ := (write stocked changed).claim
    exact ⟨frame, s', ran, fresh, kept, later⟩
  · rintro count fewer pages s ⟨nodes, stock, enough, rest⟩ le
    exact ⟨nodes, stock, by omega, rest⟩

/-- The pages that a list does not hold. -/
def pagesBeside (nodes : List UInt64) : Set UInt64 := {page | page % 4096 = 0 ∧ page ∉ nodes}

/-- A well-formed list in the direct map is a stock beside all other pages. -/
theorem Stock.beside (holds : s.Holds nodes)
    (inMap : ∀ node ∈ nodes, hhdm ≤ node ∧ (node - hhdm).toNat < 2 ^ 56) :
    Stock hhdm (pagesBeside nodes) s nodes :=
  ⟨holds, fun _ inside => inside.1, fun _ member inside => inside.2 member, inMap⟩

/-- A well-formed frame list supplies one frame fewer than it holds. -/
theorem supplies_of_holds (holds : s.Holds nodes)
    (enough : count < nodes.length) (pagesAligned : ∀ page ∈ pages, page % 4096 = 0)
    (apart : ∀ node ∈ nodes, node ∉ pages)
    (inMap : ∀ node ∈ nodes, hhdm ≤ node ∧ (node - hhdm).toNat < 2 ^ 56) :
    Supplies hhdm count pages s :=
  (stocked_source hhdm).supplies ⟨nodes, ⟨holds, pagesAligned, apart, inMap⟩, enough⟩

/-- A search that returned frames has left the tail in the list. -/
theorem leavesTail_of_ok {mayStart : UInt64 → Bool} (stock : Stock hhdm pages s nodes)
    (enough : frames.toNat < nodes.length)
    (ran : (FreeList.claimWindow hhdm frames mayStart).run s = (.ok (.ok base), s')) :
    FreeList.LeavesTail hhdm frames mayStart nodes := by
  unfold FreeList.LeavesTail
  split
  · next single =>
    subst single
    match nodes with
    | [] | [a] => simp at enough
    | a :: b :: rest => exact ⟨a, b, rest, rfl, .inl (stock.inMap b (by simp)).1⟩
  · next wide =>
    intro pre window found
    by_cases positive : frames = 0
    · subst positive
      exact List.length_eq_zero_iff.mp (Window.first_sound found).2.1
    · have stopped := FreeList.claimWindow_tail hhdm stock.holds wide positive found
      rw [ran] at stopped
      nomatch stopped

/-- What a search leaves when it returns frames: they are fresh and different, and the rest of the
stock is there. -/
theorem StockedFrom.claimWindow {mayStart : UInt64 → Bool}
    (stocked : StockedFrom hhdm given start (frames.toNat + count) pages s)
    (ran : (FreeList.claimWindow hhdm frames mayStart).run s = (.ok (.ok base), s')) :
    StockedFrom hhdm given start count (pages ∪ {frame | frame ∈ framesFrom base frames.toNat}) s' ∧
      Kept pages s.memory s'.memory ∧
      (∀ frame ∈ framesFrom base frames.toNat, FreshFrame hhdm pages frame ∧ frame ∈ given) ∧
      (framesFrom base frames.toNat).Nodup ∧ base % 4096 = 0 ∧
      ∀ address, InPages {frame | frame ∈ framesFrom base frames.toNat} address →
        ¬ LinkWords given address → s'.memory address = start address := by
  obtain ⟨nodes, stock, enough, inside, untouched⟩ := stocked
  have leaves := leavesTail_of_ok stock (by omega) ran
  rcases FreeList.claimWindow_cases stock.holds leaves with failed | found
  · rw [failed] at ran
    nomatch ran
  · obtain ⟨first, later, pre, post, claimed, rfl, holds, links⟩ := found
    obtain ⟨same, rfl⟩ := Prod.mk.inj (claimed.symm.trans ran)
    obtain rfl := Except.ok.inj (Except.ok.inj same)
    have changed : ChangedLinks given s.memory later.memory := links.mono inside
    have window : ∀ frame ∈ framesFrom first frames.toNat,
        frame ∈ pre ++ framesFrom first frames.toNat ++ post := fun frame member =>
      List.mem_append_left _ (List.mem_append_right _ member)
    refine ⟨⟨pre ++ post, stock.take holds, ?_, ?_, ?_⟩, stock.kept links, ?_, ?_, ?_, ?_⟩
    · simp only [List.length_append, framesFrom_length] at enough ⊢
      omega
    · intro node member
      refine inside ?_
      rcases List.mem_append.mp member with before | behind
      · exact List.mem_append_left _ (List.mem_append_left _ before)
      · exact List.mem_append_right _ behind
    · intro address outside apart
      rw [changed address apart]
      refine untouched address (fun ⟨page, member, word⟩ => outside ?_) apart
      exact ⟨page, .inl member, word⟩
    · exact fun frame member => ⟨stock.fresh (window frame member), inside (window frame member)⟩
    · have nodup := stock.holds.nodup
      exact (List.nodup_append.mp (List.nodup_append.mp nodup).1).2.1
    · -- a search for no frame finds nothing
      have nonzero : frames.toNat ≠ 0 := by
        intro zero
        obtain rfl : frames = 0 := UInt64.toNat_inj.mp zero
        rw [FreeList.claimWindow_none stock.holds (by decide) fun none => absurd rfl none] at ran
        nomatch ran
      obtain ⟨count, more⟩ := Nat.exists_eq_succ_of_ne_zero nonzero
      refine (stock.fresh (window first ?_)).aligned
      rw [more]
      exact List.mem_cons_self
    · rintro address ⟨frame, member, index, bound, rfl⟩ apart
      have fresh := stock.fresh (window frame member)
      rw [changed _ apart]
      refine untouched _ (fun ⟨page, used, i, small, same⟩ => ?_) apart
      have clash := (wordOf_inj fresh.aligned (stock.pagesAligned page used) bound small same).1
      exact fresh.outside (clash ▸ used)

end Stock

section Row

/-- Memory in which some adjacent frames are linked, over one word everywhere else in them. -/
def rowMemory (base : UInt64) (count : Nat) (fill : UInt64) : Memory := fun address =>
  let offset := (address - base).toNat
  let index := offset / 4096
  if count ≤ index then 0
  else if offset % 4096 = 0 then if index = 0 then 0 else address - 4096
  else if offset % 4096 = 8 then if index + 1 = count then 0 else address + 4088
  else fill

/-- A list of adjacent frames. -/
def row (base : UInt64) (count : Nat) (fill : UInt64) : Pmm where
  regionList := ⟨base, base + UInt64.ofNat ((count - 1) * 4096), UInt64.ofNat count⟩
  memory := rowMemory base count fill

variable {base fill : UInt64} {count index : Nat}

/-- The frames of a row. -/
theorem mem_framesFrom {frame : UInt64} :
    frame ∈ framesFrom base count ↔
      ∃ index < count, frame = base + UInt64.ofNat (index * 4096) := by
  induction count generalizing base with
  | zero => simp [framesFrom]
  | succ count ih =>
    have shift : ∀ index, base + 0x1000 + UInt64.ofNat (index * 4096) =
        base + UInt64.ofNat ((index + 1) * 4096) := by
      intro index
      rw [Nat.add_mul, UInt64.ofNat_add, Nat.one_mul, UInt64.add_assoc,
        UInt64.add_comm (UInt64.ofNat (index * 4096))]
      rfl
    rw [framesFrom, List.mem_cons, ih]
    constructor
    · rintro (rfl | ⟨index, bound, rfl⟩)
      · exact ⟨0, Nat.succ_pos count, by simp⟩
      · exact ⟨index + 1, Nat.succ_lt_succ bound, shift index⟩
    · rintro ⟨index, bound, rfl⟩
      cases index with
      | zero => exact .inl (by simp)
      | succ index => exact .inr ⟨index, Nat.lt_of_succ_lt_succ bound, (shift index).symm⟩

/-- A row is a shorter row and the rest of it. -/
theorem framesFrom_add (base : UInt64) (first rest : Nat) : framesFrom base (first + rest) =
    framesFrom base first ++ framesFrom (base + UInt64.ofNat (first * 4096)) rest := by
  induction first generalizing base with
  | zero => simp [framesFrom]
  | succ first ih =>
    rw [Nat.add_right_comm, framesFrom, framesFrom, ih, Nat.add_mul, UInt64.ofNat_add, Nat.one_mul,
      UInt64.add_assoc, UInt64.add_comm 0x1000]
    rfl

/-- The links of a frame of a row. -/
theorem rowMemory_links (bound : index < count) (short : count ≤ 2 ^ 52) :
    prevOf (rowMemory base count fill) (base + UInt64.ofNat (index * 4096)) =
        (if index = 0 then 0 else base + UInt64.ofNat ((index - 1) * 4096)) ∧
      nextOf (rowMemory base count fill) (base + UInt64.ofNat (index * 4096)) =
        if index + 1 = count then 0 else base + UInt64.ofNat ((index + 1) * 4096) := by
  have prevOffset : (base + UInt64.ofNat (index * 4096) - base).toNat = index * 4096 := by
    rw [UInt64.add_comm, UInt64.add_sub_cancel, UInt64.toNat_ofNat']
    omega
  have nextOffset : (base + UInt64.ofNat (index * 4096) + 8 - base).toNat = index * 4096 + 8 := by
    rw [UInt64.add_assoc, UInt64.add_comm, UInt64.add_sub_cancel, UInt64.toNat_add,
      UInt64.toNat_ofNat']
    change (_ + 8) % _ = _
    omega
  have inside : ¬ count ≤ index := by omega
  constructor
  · have whole : index * 4096 / 4096 = index := by omega
    have aligned : index * 4096 % 4096 = 0 := by omega
    rw [prevOf, rowMemory]
    simp only [prevOffset, whole, aligned, if_neg inside, if_true]
    cases index with
    | zero => rfl
    | succ index =>
      rw [if_neg (Nat.succ_ne_zero index), if_neg (Nat.succ_ne_zero index), Nat.add_sub_cancel,
        Nat.add_mul, UInt64.ofNat_add, Nat.one_mul, ← UInt64.add_assoc]
      exact UInt64.add_sub_cancel _ _
  · have whole : (index * 4096 + 8) / 4096 = index := by omega
    have eight : (index * 4096 + 8) % 4096 = 8 := by omega
    rw [nextOf, rowMemory]
    simp only [nextOffset, whole, eight, if_neg inside, if_true]
    have step : (8 : UInt64) + 4088 = UInt64.ofNat 4096 := by decide
    rw [if_neg (by decide), Nat.add_mul, UInt64.ofNat_add, Nat.one_mul, ← UInt64.add_assoc, ← step,
      UInt64.add_assoc _ 8 4088]

/-- The rest of a row is a chain. -/
theorem row_chain (short : count ≤ 2 ^ 52) {rest : Nat} (inside : index + rest = count) :
    Chain (prevOf (rowMemory base count fill)) (nextOf (rowMemory base count fill))
      (if index = 0 then 0 else base + UInt64.ofNat ((index - 1) * 4096))
      (framesFrom (base + UInt64.ofNat (index * 4096)) rest) 0 := by
  induction rest generalizing index with
  | zero => trivial
  | succ rest ih =>
    obtain ⟨before, after⟩ : _ ∧ _ := @rowMemory_links base fill count index (by omega) short
    have step : base + UInt64.ofNat (index * 4096) + 0x1000 =
        base + UInt64.ofNat ((index + 1) * 4096) := by
      rw [Nat.add_mul, UInt64.ofNat_add, Nat.one_mul, UInt64.add_assoc]
      rfl
    have later := @ih (index + 1) (by omega)
    rw [if_neg (Nat.succ_ne_zero index), Nat.add_sub_cancel] at later
    rw [framesFrom, step]
    refine ⟨before, ?_, later⟩
    rw [after]
    cases rest with
    | zero => rw [if_pos inside]; rfl
    | succ rest => rw [if_neg (by omega)]; rfl

/-- A row of frames is a well-formed list. -/
theorem row_holds (aligned : base % 4096 = 0) (nonzero : base ≠ 0)
    (fits : base.toNat + count * 4096 ≤ 2 ^ 64) (positive : 0 < count) :
    (row base count fill).Holds (framesFrom base count) := by
  have short : count ≤ 2 ^ 52 := by omega
  have base0 := aligned_toNat aligned
  have above : 0 < base.toNat := Nat.pos_of_ne_zero fun zero =>
    nonzero (UInt64.toNat_inj.mp zero)
  obtain ⟨rest, rfl⟩ : ∃ rest, count = rest + 1 := ⟨count - 1, by omega⟩
  constructor
  case frames =>
    intro node member
    obtain ⟨index, bound, rfl⟩ := mem_framesFrom.mp member
    have sum : (base + UInt64.ofNat (index * 4096)).toNat = base.toNat + index * 4096 := by
      rw [UInt64.toNat_add, UInt64.toNat_ofNat']
      omega
    constructor
    · intro zero
      have := congrArg UInt64.toNat zero
      rw [sum] at this
      change _ = 0 at this
      omega
    · apply UInt64.toNat_inj.mp
      rw [UInt64.toNat_mod, sum]
      change _ % 4096 = 0
      omega
  case head => rfl
  case tail =>
    rw [framesFrom_add, row, Nat.add_sub_cancel]
    exact List.getLast?_concat
  case links =>
    have chain := @row_chain base fill (rest + 1) 0 short (rest + 1) (Nat.zero_add _)
    simpa [row] using chain
  case len =>
    rw [row, framesFrom_length]
    change (UInt64.ofNat _).toNat = _
    rw [UInt64.toNat_ofNat']
    omega

/-- The distance of a word from the start of a row, of which its page is a multiple of pages
away. -/
theorem toNat_wordOf_sub {page : UInt64} {word : Nat} (aligned : base % 4096 = 0)
    (page_aligned : page % 4096 = 0) (bound : word < 512) :
    (wordOf page word - base).toNat = (page - base).toNat + 8 * word ∧
      (page - base).toNat % 4096 = 0 := by
  have first := aligned_toNat aligned
  have second := aligned_toNat page_aligned
  rw [wordOf, UInt64.toNat_sub, UInt64.toNat_sub, UInt64.toNat_add, UInt64.toNat_ofNat']
  omega

/-- Pages beside a row are zero. -/
theorem rowMemory_beside {page : UInt64} {word : Nat} (aligned : base % 4096 = 0)
    (page_aligned : page % 4096 = 0) (bound : word < 512) (out : page ∉ framesFrom base count) :
    rowMemory base count fill (wordOf page word) = 0 := by
  obtain ⟨offset, whole⟩ := toNat_wordOf_sub aligned page_aligned bound
  have far : count ≤ (page - base).toNat / 4096 := by
    by_contra near
    refine out (mem_framesFrom.mpr ⟨_, Nat.not_le.mp near, ?_⟩)
    have pages : (page - base).toNat / 4096 * 4096 = (page - base).toNat := by omega
    rw [pages, UInt64.ofNat_toNat, UInt64.add_comm, UInt64.sub_add_cancel]
  have same : ((page - base).toNat + 8 * word) / 4096 = (page - base).toNat / 4096 := by omega
  rw [rowMemory]
  simp only [offset, same, if_pos far]

/-- The words of a frame of a row, its links apart. -/
theorem rowMemory_inside {word : Nat} (bound : index < count)
    (short : count ≤ 2 ^ 52) (small : word < 512) (data : 2 ≤ word) :
    rowMemory base count fill (wordOf (base + UInt64.ofNat (index * 4096)) word) = fill := by
  have offset : (wordOf (base + UInt64.ofNat (index * 4096)) word - base).toNat =
      index * 4096 + 8 * word := by
    rw [wordOf, UInt64.add_assoc, UInt64.add_comm, UInt64.add_sub_cancel, UInt64.toNat_add,
      UInt64.toNat_ofNat', UInt64.toNat_ofNat']
    omega
  have near : ¬ count ≤ index := by omega
  have page : (index * 4096 + 8 * word) / 4096 = index := by omega
  have first : ¬ (index * 4096 + 8 * word) % 4096 = 0 := by omega
  have second : ¬ (index * 4096 + 8 * word) % 4096 = 8 := by omega
  rw [rowMemory]
  simp only [offset, page, if_neg near, if_neg first, if_neg second]

end Row

end Lsd
