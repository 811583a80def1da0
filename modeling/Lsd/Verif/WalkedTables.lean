import Lsd.Lib.Transition
import Lsd.Verif.TableFills
import Lsd.Verif.TwoRoots

/-!
# Walks keep to tables

In a tree that `map` and `unmap` built on a blank root, the tables are the root and
the frames that were taken from the list. No walk takes another page for a table,
as long as the calls of `map` told their entries from branches, kept to the levels
of tables and left a frame in the list.
-/

namespace Lsd

open Program Radix Transition

section Calls

variable {hhdm root : UInt64} {level : PageLevel} {s s' : Pmm} {nodes : List UInt64}
  {calls : List TableCall}

/-- What a caller of `map` sees to: the flags tell the entry from a branch, the target is a level of
tables, and the list holds more frames than the call makes tables. -/
def TableCall.Sparing (hhdm root : UInt64) (level : PageLevel) (s : Pmm) : TableCall → Prop
  | .map virt _ target flags =>
    flags.Tells ∧ 1 ≤ target.asUsize ∧
      lacking hhdm s.memory virt target.asUsize level.asUsize root < s.regionList.len.toNat
  | .unmap _ _ => True

/-- A call that returns. -/
def TableCall.Returns (hhdm root : UInt64) (level : PageLevel) (s : Pmm) (call : TableCall)
    (s' : Pmm) : Prop := (call.run hhdm root level).run s = (.ok (), s')

/-- A careful call that returns. -/
def TableCall.Careful (hhdm root : UInt64) (level : PageLevel) (s : Pmm) (call : TableCall)
    (s' : Pmm) : Prop := call.Sparing hhdm root level s ∧ call.Returns hhdm root level s s'

/-- The tables that a root has after some frames were taken from the list. -/
abbrev tablesOf (root : UInt64) (taken : List UInt64) : Set UInt64 :=
  insert root {page | page ∈ taken}

/-- Heights of the tables of a root: itself and the frames that were taken from the list. -/
structure Tabled (hhdm root : UInt64) (level : PageLevel) (nodes taken rest : List UInt64)
    (rank : UInt64 → Nat) (s : Pmm) : Prop where
  /-- The frames that were taken were the first ones. -/
  parts : nodes = taken ++ rest
  /-- The tables are these pages. -/
  tables : ranked rank = tablesOf root taken
  /-- The root is as high as there are levels. -/
  top : rank root = level.asUsize
  /-- Branches lead one height down. -/
  tree : Ranked hhdm s.memory rank
  /-- The other frames are left. -/
  stock : Stock hhdm (ranked rank) s rest

/-- A blank root is its only table. -/
theorem tabled_blank (positive : 1 ≤ level.asUsize) (stock : Stock hhdm {root} s nodes)
    (blank : ∀ index < 512, s.memory (wordOf root index) = 0) :
    Tabled hhdm root level nodes [] nodes (fun page => if page = root then level.asUsize else 0)
      s := by
  have only : ∀ page, 0 < (if page = root then level.asUsize else 0) ↔ page = root := by
    intro page
    by_cases same : page = root
    · rw [if_pos same]
      exact ⟨fun _ => same, fun _ => positive⟩
    · rw [if_neg same]
      exact ⟨fun high => absurd high (Nat.lt_irrefl 0), fun clash => absurd clash same⟩
  have alone : ranked (fun page => if page = root then level.asUsize else 0) = {root} :=
    Set.ext only
  refine ⟨rfl, alone.trans (Set.ext fun page => by simp), if_pos rfl,
    ⟨fun page high => ?_, fun page high index small => ?_⟩, alone ▸ stock⟩
  · exact (only page).mp high ▸ stock.pagesAligned root rfl
  · obtain rfl := (only page).mp high
    rw [blank index small]
    exact fun branch => absurd branch (by decide)

/-- A careful call that returns keeps the heights. -/
theorem Tabled.call {taken rest : List UInt64} {rank : UInt64 → Nat} {call : TableCall}
    (mapAligned : hhdm % 4096 = 0) (positive : 1 ≤ level.asUsize)
    (tabled : Tabled hhdm root level nodes taken rest rank s)
    (careful : call.Careful hhdm root level s s') :
    ∃ later more left, Tabled hhdm root level nodes more left later s' := by
  obtain ⟨height, at_height, enough⟩ := level.exists_height positive
  have ranks : rank root = height + 1 := tabled.top.trans at_height
  obtain ⟨sparing, ran⟩ := careful
  cases call with
  | map virt phys target flags =>
    obtain ⟨tells, low, spare⟩ := sparing
    have reach : target.asUsize ≤ height + 1 := by
      by_contra past
      exact mapLoop_past (by omega) ran
    rw [tabled.stock.holds.len, at_height] at spare
    obtain ⟨result, s₁, later, made, left, parts, done, outcome, -⟩ := mapLoop_touches
      phys flags mapAligned low tabled.tree tabled.stock at_height reach ranks.ge enough spare
    obtain ⟨-, rfl⟩ := Prod.mk.inj (done.symm.trans ran)
    refine ⟨later, taken ++ made, left, ⟨by rw [tabled.parts, parts, List.append_assoc], ?_, ?_,
      outcome.tree tells, outcome.stock⟩⟩
    · rw [outcome.tables, tabled.tables]
      ext page
      simp only [Set.mem_union, Set.mem_insert_iff, Set.mem_ofPred_eq, List.mem_append]
      tauto
    · rw [outcome.ranks root (by omega), tabled.top]
  | unmap virt target =>
    obtain ⟨value, s₁, taken_out, last⟩ := Prog.run_bind_eq_ok ran
    obtain ⟨-, rfl⟩ := Prod.mk.inj last
    obtain ⟨result, s₂, done, list, tree, touches⟩ :=
      unmapLoop_touches virt target tabled.tree at_height ranks enough
    obtain ⟨-, rfl⟩ := Prod.mk.inj (done.symm.trans taken_out)
    refine ⟨rank, taken, rest, ⟨tabled.parts, tabled.tables, tabled.top, tree, ?_⟩⟩
    have changed : ChangedWithin (ranked rank) s.memory s₂.memory := by
      intro address outside
      refine touches.kept done fun inside => ?_
      rcases inside with word | ⟨node, listed, -⟩
      · exact outside word
      · cases listed
    have whole : s₂ = { s with memory := s₂.memory } := by rw [← list]
    rw [whole]
    exact tabled.stock.write changed

/-- A run of careful calls from a blank root keeps the heights. -/
theorem Tabled.run (mapAligned : hhdm % 4096 = 0) (positive : 1 ≤ level.asUsize)
    (stock : Stock hhdm {root} s nodes) (blank : ∀ index < 512, s.memory (wordOf root index) = 0)
    (run : Run (TableCall.Careful hhdm root level) s calls s') :
    ∃ rank taken rest, Tabled hhdm root level nodes taken rest rank s' := by
  induction run with
  | nil => exact ⟨_, [], nodes, tabled_blank positive stock blank⟩
  | snoc _ careful ih =>
    obtain ⟨rank, taken, rest, tabled⟩ := ih
    exact tabled.call mapAligned positive careful

/-- Walks keep to tables. After any run of careful calls of `map` and `unmap` on a blank root, the
tables are the root and the frames that were taken from the list. `virt_to_phys` returns after at
most as many steps as there are levels, and reads words of tables only; `unmap` reads and writes
words of tables only; a further `map` and `clone_table_range`, with enough frames, read words of
tables and links of the list only, and write such words and those of the frames that they take. -/
theorem walks_keep_to_tables (mapAligned : hhdm % 4096 = 0) (positive : 1 ≤ level.asUsize)
    (stock : Stock hhdm {root} s nodes) (blank : ∀ index < 512, s.memory (wordOf root index) = 0)
    (run : Run (TableCall.Careful hhdm root level) s calls s') :
    ∃ taken rest, nodes = taken ++ rest ∧ Stock hhdm (tablesOf root taken) s' rest ∧
      (∀ virt, (∃ result, ∀ steps, level.asUsize ≤ steps →
          (walkLoop hhdm virt steps root level).run s' = (.ok result, s')) ∧
        TouchesOnly (tablesOf root taken) [] ∅ (walkLoop hhdm virt walkLimit root level) s') ∧
      (∀ virt target, TouchesOnly (tablesOf root taken) [] (cells (tablesOf root taken) [])
        (unmap hhdm root virt level target) s') ∧
      (∀ virt phys target flags, 1 ≤ target.asUsize → target.asUsize ≤ level.asUsize →
        lacking hhdm s'.memory virt target.asUsize level.asUsize root < s'.regionList.len.toNat →
        ∃ made left, rest = made ++ left ∧
          Stock hhdm (tablesOf root (taken ++ made))
            ((map hhdm root virt phys level target flags).run s').2 left ∧
          TouchesOnly (tablesOf root taken) rest (cells (tablesOf root (taken ++ made)) rest)
            (map hhdm root virt phys level target flags) s') ∧
      ∀ dest start stop, dest % 4096 = 0 → dest ∉ tablesOf root taken → dest ∉ rest → stop ≤ 512 →
        branches (slots hhdm s'.memory) 512 level.asUsize root (List.range' start (stop - start)) <
          s'.regionList.len.toNat →
        ∃ s'' made left, rest = made ++ left ∧
          (cloneTableRange hhdm root dest start stop).run s' = (.ok (), s'') ∧
          Stock hhdm (insert dest (tablesOf root taken) ∪ {page | page ∈ made}) s'' left ∧
          TouchesOnly (tablesOf root taken) rest (cells (insert dest {page | page ∈ made}) rest)
            (cloneTableRange hhdm root dest start stop) s' := by
  obtain ⟨rank, taken, rest, parts, tables, top, tree, stock'⟩ :=
    Tabled.run mapAligned positive stock blank run
  obtain ⟨height, at_height, enough⟩ := level.exists_height positive
  have ranks : rank root = height + 1 := top.trans at_height
  have len := stock'.holds.len
  refine ⟨taken, rest, parts, tables ▸ stock', fun virt => ?walk, fun virt target => ?unmap,
    fun virt phys target flags low reach spare => ?map,
    fun dest start stop aligned outside unlisted within spare => ?clone⟩
  case walk =>
    obtain ⟨result, ends⟩ := walkLoop_ends virt tree at_height ranks
    refine ⟨⟨result, fun steps many => ends steps (by omega) s' .refl⟩, ?_⟩
    rw [← tables]
    exact .rest fun t twins => ends walkLimit enough t twins
  case unmap =>
    obtain ⟨-, -, -, -, -, touches⟩ :=
      unmapLoop_touches virt target tree at_height ranks enough
    rw [← tables]
    exact touches
  case map =>
    rw [len, at_height] at spare
    obtain ⟨result, s₁, later, made, left, split, ran, outcome, touches⟩ := mapLoop_touches
      phys flags mapAligned low tree stock' at_height (by omega) ranks.ge enough spare
    have whole : ranked later = tablesOf root (taken ++ made) := by
      rw [outcome.tables, tables]
      ext page
      simp only [Set.mem_union, Set.mem_insert_iff, Set.mem_ofPred_eq, List.mem_append]
      tauto
    have last : ((map hhdm root virt phys level target flags).run s').2 = s₁ :=
      congrArg Prod.snd ran
    refine ⟨made, left, split, ?_, ?_⟩
    · rw [last, ← whole]
      exact outcome.stock
    · rw [← whole, ← tables]
      exact touches
  case clone =>
    rw [← tables] at outside ⊢
    have unused : rank dest = 0 := Nat.eq_zero_of_not_pos outside
    have beside : Stock hhdm (insert dest (ranked rank)) s' rest := by
      refine ⟨stock'.holds, Set.forall_mem_insert.mpr ⟨aligned, stock'.pagesAligned⟩,
        fun node listed used => ?_, stock'.inMap⟩
      rcases used with same | used
      · exact unlisted (same ▸ listed)
      · exact stock'.apart node listed used
    have small : ∀ index ∈ List.range' start (stop - start), index < 512 := by
      intro index member
      have bounds := List.mem_range'_1.mp member
      omega
    rw [len, ← top] at spare
    have deep : rank root ≤ walkLimit + 1 := by omega
    obtain ⟨s'', made, left, split, -, ran, later, touches⟩ :=
      cloneIndices_fills hhdm (by omega) unused small deep s' rest _ tree
        (Set.subset_insert _ _) (Set.mem_insert _ _) beside spare
    exact ⟨s'', made, left, split, ran, later, touches⟩

end Calls

section Sample

open FreeList (sampleMap sampleFrame pair)

/-- A page behind the sample page, in which something else than a table is kept. -/
def dataPage : UInt64 := samplePage + 4096

/-- A `map` without flags of the data page over a gigabyte. -/
def mapWithoutFlags : TableCall := .map 0x40000000 (dataPage - sampleMap) .level3 noFlags

/-- The page is taken for a table: its first word decides where the address goes. -/
theorem noFlags_reads_page : ∃ s, mapWithoutFlags.Returns sampleMap samplePage .level3 pair s ∧
    translate sampleMap .level3 samplePage s 0x40000000 = .ok (.error "Table not found") ∧
    translate sampleMap .level3 samplePage
      { s with memory := s.memory.store dataPage (leafEntry 0x600000 .read) } 0x40000000 =
        .ok (.ok 0x600000) :=
  ⟨_, rfl, rfl, rfl⟩

/-- A list of four frames. -/
def fourFrames : Pmm := row sampleFrame 4 0

/-- They are a stock beside the sample page, which is blank. -/
theorem fourFrames_stock :
    Stock sampleMap {samplePage} fourFrames (framesFrom sampleFrame 4) ∧
      ∀ index < 512, fourFrames.memory (wordOf samplePage index) = 0 := by
  have frames : framesFrom sampleFrame 4 = [sampleFrame, sampleFrame + 4096,
      sampleFrame + 8192, sampleFrame + 12288] := by decide
  have out : samplePage ∉ framesFrom sampleFrame 4 := by
    rw [frames]
    decide
  have holds : fourFrames.Holds (framesFrom sampleFrame 4) :=
    row_holds (by decide) (by decide) (by decide) (by decide)
  refine ⟨⟨holds, ?_, ?_, ?_⟩, fun index bound =>
    rowMemory_beside (by decide) (by decide) bound out⟩
  · exact fun page same => same ▸ (by decide : samplePage % 4096 = 0)
  · exact fun node listed same => out (Set.mem_singleton_iff.mp same ▸ listed)
  · intro node listed
    obtain ⟨index, small, rfl⟩ := mem_framesFrom.mp listed
    interval_cases index <;> exact ⟨by decide, by decide⟩

/-- A `map` down to the page offset. -/
def mapPageOffset : TableCall := .map 0 0x600000 .pageOffset .read

/-- The walk goes below the lowest level, with the offset in the page as an index. -/
theorem pageOffset_leaves_table :
    ∃ s, mapPageOffset.Returns sampleMap samplePage .level3 fourFrames s ∧
      translate sampleMap .level3 samplePage s 0x200 =
        .error (.panic "index out of bounds: the len is 512 but the index is 512") :=
  ⟨_, rfl, rfl⟩

/-- A `map` of a small page. -/
def mapSmallPage : TableCall := .map 0x1000 0x600000 .level1 .read

/-- A table whose first entry leads back to it is walked for ever. -/
theorem walkLoop_round {hhdm table : UInt64} {s : Pmm} {entry : PageEntry} {steps : Nat}
    {level : PageLevel} (read : s.memory (wordOf table 0) = entry) (branch : entry.isBranch = true)
    (back : entry.table hhdm = table) :
    (walkLoop hhdm 0 steps table level).run s = (.error .unfinished, s) := by
  induction steps generalizing level with
  | zero => rfl
  | succ steps ih =>
    have first : (VirtualAddress.index 0 level).toNat = 0 := by cases level <;> decide
    rw [walkLoop, first, Prog.run_bind_ok (run_checkIndex (by decide)),
      Prog.run_bind_ok (Prog.run_read _ _), read,
      if_neg (by rw [isLeaf_eq_false_of_isBranch branch]; decide), if_pos branch, back]
    exact ih

/-- The first call takes both frames of the list and makes up a head behind them, which is the root;
the second call takes the root for a new table below itself. -/
theorem lastFrame_makes_round : ∃ s₁ s₂,
    mapSmallPage.Returns sampleMap lastRoot .level3 pair s₁ ∧
      mapSmallPage.Returns sampleMap lastRoot .level3 s₁ s₂ ∧
      ∀ steps, (walkLoop sampleMap 0 steps lastRoot .level3).run s₂ = (.error .unfinished, s₂) := by
  have known : ∃ s₁ s₂, mapSmallPage.Returns sampleMap lastRoot .level3 pair s₁ ∧
      mapSmallPage.Returns sampleMap lastRoot .level3 s₁ s₂ ∧
      PageEntry.isBranch (s₂.memory (wordOf lastRoot 0)) = true ∧
      PageEntry.table sampleMap (s₂.memory (wordOf lastRoot 0)) = lastRoot :=
    ⟨_, _, rfl, rfl, by decide +kernel, by decide +kernel⟩
  obtain ⟨s₁, s₂, first, second, branch, back⟩ := known
  exact ⟨s₁, s₂, first, second, fun steps => walkLoop_round rfl branch back⟩

/-- The list of two frames is a stock beside the page behind them. -/
theorem lastRoot_stock : Stock sampleMap {lastRoot} pair [sampleFrame, sampleFrame + 4096] := by
  refine ⟨FreeList.pair_holds, ?_, ?_, pair_stock.inMap⟩
  · exact fun page same => same ▸ (by decide : lastRoot % 4096 = 0)
  · exact List.forall_mem_cons.mpr ⟨by decide, List.forall_mem_singleton.mpr (by decide)⟩

/-- Three ways in which walks leave the tables of a root that was blank: a page mapped without flags
is read as a table; a `map` down to the page offset lets a walk go below the lowest level, and out
of the entries there; a `map` that takes the last frame makes a later one take a page that was never
free, here the root itself, and the walk never ends. -/
theorem walks_leave_tables :
    (Stock sampleMap {samplePage} pair [sampleFrame, sampleFrame + 4096] ∧
      (∀ index < 512, pair.memory (wordOf samplePage index) = 0) ∧
      dataPage ∉ tablesOf samplePage [sampleFrame, sampleFrame + 4096] ∧
      ∃ s, Run (TableCall.Returns sampleMap samplePage .level3) pair [mapWithoutFlags] s ∧
        translate sampleMap .level3 samplePage s 0x40000000 = .ok (.error "Table not found") ∧
        translate sampleMap .level3 samplePage
          { s with memory := s.memory.store dataPage (leafEntry 0x600000 .read) } 0x40000000 =
            .ok (.ok 0x600000)) ∧
    (Stock sampleMap {samplePage} fourFrames (framesFrom sampleFrame 4) ∧
      (∀ index < 512, fourFrames.memory (wordOf samplePage index) = 0) ∧
      ∃ s, Run (TableCall.Returns sampleMap samplePage .level3) fourFrames [mapPageOffset] s ∧
        translate sampleMap .level3 samplePage s 0x200 =
          .error (.panic "index out of bounds: the len is 512 but the index is 512")) ∧
    (Stock sampleMap {lastRoot} pair [sampleFrame, sampleFrame + 4096] ∧
      (∀ index < 512, pair.memory (wordOf lastRoot index) = 0) ∧
      ∃ s, Run (TableCall.Returns sampleMap lastRoot .level3) pair
          [mapSmallPage, mapSmallPage] s ∧
        ∀ steps, (walkLoop sampleMap 0 steps lastRoot .level3).run s =
          (.error .unfinished, s)) := by
  obtain ⟨s, ran, before, after⟩ := noFlags_reads_page
  obtain ⟨t, ran', stopped⟩ := pageOffset_leaves_table
  obtain ⟨u₁, u₂, first, second, round⟩ := lastFrame_makes_round
  obtain ⟨stock, blank⟩ := fourFrames_stock
  refine ⟨⟨pair_stock, fun index bound => pair_zeroed (by decide) bound (by decide), ?_, s,
      .snoc (.nil pair) ran, before, after⟩,
    ⟨stock, blank, t, .snoc (.nil fourFrames) ran', stopped⟩,
    ⟨lastRoot_stock, fun index bound => pair_zeroed (by decide) bound (by decide), u₂,
      .snoc (.snoc (.nil pair) first) second, round⟩⟩
  rintro (same | listed)
  · exact absurd same (by decide)
  · exact absurd listed (by decide)

/-- A small page is mapped, and a page of a gigabyte with nothing but `USER`: an entry that is
neither a leaf nor a branch. Every walk ends within three steps, and no page but the tables is
touched. -/
theorem walks_keep_to_tables_sample : ∃ s taken rest,
    framesFrom sampleFrame 4 = taken ++ rest ∧
      (∃ result, ∀ steps, 3 ≤ steps →
        (walkLoop sampleMap 0x40000123 steps samplePage .level3).run s = (.ok result, s)) ∧
      TouchesOnly (tablesOf samplePage taken) [] (cells (tablesOf samplePage taken) [])
        (unmap sampleMap samplePage 0x1000 .level3 .level1) s := by
  obtain ⟨stock, blank⟩ := fourFrames_stock
  let small : TableCall := .map 0x1000 0x600000 .level1 .read
  let wide : TableCall := .map 0x40000000 0x80000000 .level3 .user
  obtain ⟨s, run⟩ : ∃ s, Run (TableCall.Careful sampleMap samplePage .level3) fourFrames
      [small, wide] s := by
    have both : ∃ s₁ s₂, small.Careful sampleMap samplePage .level3 fourFrames s₁ ∧
        wide.Careful sampleMap samplePage .level3 s₁ s₂ :=
      ⟨_, _, ⟨⟨.inl rfl, by decide, by decide +kernel⟩, rfl⟩,
        ⟨.inr rfl, by decide, by decide +kernel⟩, rfl⟩
    obtain ⟨s₁, s₂, first, second⟩ := both
    exact ⟨s₂, .snoc (.snoc (.nil fourFrames) first) second⟩
  obtain ⟨taken, rest, parts, -, walks, unmaps, -⟩ :=
    walks_keep_to_tables (by decide) (by decide) stock blank run
  exact ⟨s, taken, rest, parts, (walks 0x40000123).1, unmaps 0x1000 .level1⟩

end Sample

end Lsd
