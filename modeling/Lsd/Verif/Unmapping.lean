import Lsd.Verif.Translation

/-!
# Unmapping undoes mapping

`unmap` walks the tree on its own and takes a leaf out of it. On a well-formed
tree it returns the address that the leaf holds, which is where the page begins
if it is aligned to the page. After a `map` of a page that did not translate every
address goes where it went before, although the tables that `map` made stay in the
tree.
-/

namespace Lsd

open Program Radix

variable {hhdm root : UInt64} {level target : PageLevel} {virt other : VirtualAddress} {s : Pmm}

/-- The first address of the page of a level that an address lies in. -/
def PageLevel.pageStart (level : PageLevel) (virt : VirtualAddress) : VirtualAddress :=
  virt - virt % (PageSize.fromLevel level).bytes

/-- Whether no address of a page translates. -/
def Untranslatable (hhdm root : UInt64) (level target : PageLevel)
    (virt : VirtualAddress) (s : Pmm) :
    Prop :=
  ∀ other, SamePage level target virt other →
    translate hhdm level root s other = .ok (.error "Table not found")

/-- Whether `map` of a page and then `unmap` of it return, the latter with some physical address,
and leave every address where it went before both. -/
def RoundTrip (hhdm root : UInt64) (level target : PageLevel) (virt : VirtualAddress)
    (phys : PhysicalAddress) (flags : PageFlags) (base : PhysicalAddress) (s : Pmm) : Prop :=
  ∃ s₁ s₂, (map hhdm root virt phys level target flags).run s = (.ok (), s₁) ∧
    (unmap hhdm root virt level target).run s₁ = (.ok base, s₂) ∧
    ∀ other, translate hhdm level root s₂ other = translate hhdm level root s other

section Pages

variable {height : Nat}

/-- The number of the first address of a page. -/
theorem PageLevel.toNat_pageStart (at_height : level.asUsize = height + 1) :
    (level.pageStart virt).toNat =
      virt.toNat / 2 ^ pageBits (height + 1) * 2 ^ pageBits (height + 1) := by
  have offset : (virt % (PageSize.fromLevel level).bytes).toNat =
      virt.toNat % 2 ^ pageBits (height + 1) := by
    rw [UInt64.toNat_mod, PageSize.toNat_bytes at_height]
  have inside : virt % (PageSize.fromLevel level).bytes ≤ virt := by
    rw [UInt64.le_iff_toNat_le, offset]
    exact Nat.mod_le _ _
  have whole := Nat.div_add_mod' virt.toNat (2 ^ pageBits (height + 1))
  rw [pageStart, UInt64.toNat_sub_of_le _ _ inside, offset]
  omega

/-- The first address of a page lies at its start. -/
theorem PageLevel.pageStart_mod (at_height : level.asUsize = height + 1) :
    level.pageStart virt % (PageSize.fromLevel level).bytes = 0 := by
  apply UInt64.toNat_inj.mp
  rw [UInt64.toNat_mod, PageSize.toNat_bytes at_height, toNat_pageStart at_height,
    Nat.mul_mod_left]
  rfl

/-- The first address of a page lies in it. -/
theorem samePage_pageStart (at_target : target.asUsize = height + 1) :
    SamePage level target virt (target.pageStart virt) := by
  rw [samePage_iff (by omega)]
  intro between low high
  have bits : pageBits (height + 1) ≤ pageBits between := by
    rw [pageBits, pageBits]
    omega
  obtain ⟨more, power⟩ : ∃ more, 2 ^ pageBits between = 2 ^ pageBits (height + 1) * 2 ^ more :=
    ⟨pageBits between - pageBits (height + 1), by rw [← Nat.pow_add, Nat.add_sub_cancel' bits]⟩
  rw [VirtualAddress.path, VirtualAddress.path, PageLevel.toNat_pageStart at_target, power,
    ← Nat.div_div_eq_div_mul, ← Nat.div_div_eq_div_mul,
    Nat.mul_div_cancel _ (Nat.two_pow_pos _)]

/-- The offset of an address in a page. -/
theorem PageLevel.toNat_and_mask (at_height : level.asUsize = height + 1) (address : UInt64) :
    (address &&& level.mask).toNat = (address % (PageSize.fromLevel level).bytes).toNat := by
  rw [UInt64.toNat_and, toNat_mask at_height, Nat.and_two_pow_sub_one_eq_mod, UInt64.toNat_mod,
    PageSize.toNat_bytes at_height]

/-- The first address of a page is sent to the address that a leaf holds exactly when that address
is aligned to the page. -/
theorem resultOf_pageStart (at_height : level.asUsize = height + 1) (entry : PageEntry) :
    resultOf (level.pageStart virt) (some (level.asUsize, entry)) = .ok (entry.getPpn <<< 12) ↔
      (entry.getPpn <<< 12) % (PageSize.fromLevel level).bytes = 0 := by
  rw [resultOf, PageLevel.fromUsize_asUsize, Except.ok.injEq]
  constructor
  · intro same
    have start : level.pageStart virt &&& level.mask = 0 := by
      rw [← UInt64.toNat_inj, PageLevel.toNat_and_mask at_height, PageLevel.pageStart_mod at_height]
    -- what the walk returns has no bits in the offset
    rw [start, UInt64.or_zero] at same
    have offset := congrArg (· &&& level.mask) same
    simp only [UInt64.and_assoc, UInt64.not_and_self, UInt64.and_zero] at offset
    rw [← UInt64.toNat_inj, ← PageLevel.toNat_and_mask at_height, ← offset]
  · intro aligned
    rw [page_or_offset at_height aligned, PageLevel.pageStart_mod at_height, UInt64.add_zero]

end Pages

/-- The leaf that `map` writes holds the page number of the address that it was given. -/
theorem leafEntry_page (phys : PhysicalAddress) (flags : PageFlags) :
    (leafEntry phys flags).getPpn <<< 12 = phys.getPpn <<< 12 := by
  have number : (PhysicalAddress.getPpn phys).toNat = phys.toNat / 4096 % 2 ^ 44 := by
    rw [PhysicalAddress.getPpn, toNat_getBits]
    norm_num
  rw [← UInt64.toNat_inj, toNat_leafEntry_page, toNat_shiftLeft_page (by omega), number]

/-- An address of a page below 2^56 is that of its page number. -/
theorem getPpn_page {phys : PhysicalAddress} (aligned : phys % 4096 = 0)
    (short : phys.toNat < 2 ^ 56) : phys.getPpn <<< 12 = phys := by
  have number : (PhysicalAddress.getPpn phys).toNat = phys.toNat / 4096 % 2 ^ 44 := by
    rw [PhysicalAddress.getPpn, toNat_getBits]
    norm_num
  have whole := aligned_toNat aligned
  rw [← UInt64.toNat_inj, toNat_shiftLeft_page (by omega), number]
  omega

/-- An address translates exactly when it comes to a leaf. -/
theorem translate_error_iff (positive : 1 ≤ level.asUsize)
    (tree : PageTree hhdm s.memory level.asUsize root) :
    translate hhdm level root s other = .ok (.error "Table not found") ↔
      leafOf hhdm s.memory level.asUsize root other = none := by
  rw [translate_eq positive tree]
  cases leafOf hhdm s.memory level.asUsize root other with
  | none => simp [resultOf]
  | some found => simp [resultOf]

/-- `unmap` of an address that a leaf at the target level covers: it returns where the page begins,
no address of the page translates after it, and all other addresses go where they went before. -/
theorem unmap_run (mapAligned : hhdm % 4096 = 0) (positive : 1 ≤ level.asUsize)
    (tree : PageTree hhdm s.memory level.asUsize root) {entry : PageEntry}
    (covered : leafOf hhdm s.memory level.asUsize root virt = some (target.asUsize, entry)) :
    ∃ s', (unmap hhdm root virt level target).run s = (.ok (entry.getPpn <<< 12), s') ∧
      PageTree hhdm s'.memory level.asUsize root ∧
      (∀ other, SamePage level target virt other →
        leafOf hhdm s'.memory level.asUsize root other = none) ∧
      (∀ other, ¬ SamePage level target virt other →
        leafOf hhdm s'.memory level.asUsize root other =
          leafOf hhdm s.memory level.asUsize root other) := by
  obtain ⟨height, at_height, enough⟩ := level.exists_height positive
  have reach := find_le covered
  have low : 1 ≤ target.asUsize := one_le_of_find covered
  have limbs : PageLimbs hhdm s.memory (Set.Iio 512) height root := by
    have whole := tree.tree
    rwa [at_height] at whole
  have small := virt.path_lt (height + 1)
  have pagesAligned : ∀ page ∈ tables (slots hhdm s.memory) 512 (height + 1) root,
      page % 4096 = 0 := fun page => tables_aligned mapAligned tree.aligned
  have inUse : ∀ index ∈ Set.Iio 512, reached hhdm s.memory height root index ⊆
      tables (slots hhdm s.memory) 512 (height + 1) root := fun index => under_subset
  rw [at_height] at covered reach
  obtain ⟨s', ran, unmapped⟩ := unmapLoop_edits low at_height enough reach
    (limbs.mono (Set.singleton_subset_iff.mpr small)) pagesAligned mem_tables_self (inUse _ small)
    covered
  have found := fun other : VirtualAddress =>
    unmapped.edits.find_eq limbs small inUse other.path_lt (other.path_lt (height + 1)) reach
  refine ⟨s', ran, ⟨tree.aligned, ?_⟩, fun other same => ?_, fun other apart => ?_⟩
  · rw [at_height]
    exact unmapped.edits.limbs limbs (fun _ bound => bound) small inUse mem_tables_self
      (Set.empty_disjoint _)
  · rw [samePage_iff low, at_height] at same
    rw [leafOf, at_height, (found other).1 same]
  · rw [samePage_iff low, at_height] at apart
    rw [leafOf, leafOf, at_height, (found other).2 apart]

/-- `unmap` of an address that no leaf at the target level covers panics and changes nothing. -/
theorem unmap_refused (positive : 1 ≤ level.asUsize)
    (tree : PageTree hhdm s.memory level.asUsize root)
    (absent : ∀ entry, leafOf hhdm s.memory level.asUsize root virt ≠
      some (target.asUsize, entry)) :
    ∃ message, (unmap hhdm root virt level target).run s = (.error (.panic message), s) := by
  obtain ⟨height, at_height, enough⟩ := level.exists_height positive
  have whole := tree.tree
  rw [at_height] at whole absent
  exact unmapLoop_refused at_height enough (Limbs.sound whole _ (virt.path_lt (height + 1))) absent

/-- Addresses that come to the same leaves translate the same. -/
theorem translate_congr {s' : Pmm} (positive : 1 ≤ level.asUsize)
    (tree : PageTree hhdm s.memory level.asUsize root)
    (later : PageTree hhdm s'.memory level.asUsize root)
    (same : leafOf hhdm s'.memory level.asUsize root other =
      leafOf hhdm s.memory level.asUsize root other) :
    translate hhdm level root s' other = translate hhdm level root s other := by
  rw [translate_eq positive later, translate_eq positive tree, same]

/-- After `map` of a page that did not translate, `unmap` returns the physical page, and every
address goes where it went before both calls. -/
theorem unmap_map_run (phys : PhysicalAddress) {flags : PageFlags} (mapAligned : hhdm % 4096 = 0)
    (low : 1 ≤ target.asUsize) (reach : target.asUsize ≤ level.asUsize)
    (tree : PageTree hhdm s.memory level.asUsize root) (maps : flags.Maps)
    (supplied : Supplies hhdm (level.asUsize - target.asUsize)
      (tables (slots hhdm s.memory) 512 level.asUsize root) s)
    (unmapped : Untranslatable hhdm root level target virt s) :
    RoundTrip hhdm root level target virt phys flags (phys.getPpn <<< 12) s := by
  have positive : 1 ≤ level.asUsize := low.trans reach
  have nothing : ∀ other, SamePage level target virt other →
      leafOf hhdm s.memory level.asUsize root other = none := fun other same =>
    (translate_error_iff positive tree).mp (unmapped other same)
  have uncovered : ¬ Covered hhdm s.memory level.asUsize root virt target := by
    rintro ⟨high, entry, found, -⟩
    rw [nothing virt fun _ _ _ => rfl] at found
    cases found
  obtain ⟨s₁, mapped, tree₁, along, across⟩ :=
    map_run phys mapAligned low reach tree maps supplied uncovered
  obtain ⟨s₂, taken, tree₂, gone, kept⟩ :=
    unmap_run mapAligned positive tree₁ (along virt fun _ _ _ => rfl)
  rw [leafEntry_page] at taken
  refine ⟨s₁, s₂, mapped, taken, fun other => translate_congr positive tree tree₂ ?_⟩
  by_cases same : SamePage level target virt other
  · rw [gone other same, nothing other same]
  · rw [kept other same, across other same]

/-- `unmap` undoes `map`, on a well-formed tree. Where a leaf at the target level covers the address
it returns the address that the leaf holds, which is what the first address of the page goes to if
and only if it is aligned to the page, and leaves all other addresses alone. Elsewhere it panics and
changes nothing. After `map` of a page that did not translate, it returns the physical page and
restores where every address goes. -/
theorem unmap_undoes_map (mapAligned : hhdm % 4096 = 0) (positive : 1 ≤ level.asUsize)
    (tree : PageTree hhdm s.memory level.asUsize root) :
    (∀ entry, leafOf hhdm s.memory level.asUsize root virt = some (target.asUsize, entry) →
      ∃ base s', (unmap hhdm root virt level target).run s = (.ok base, s') ∧
        base = entry.getPpn <<< 12 ∧
        (translate hhdm level root s (target.pageStart virt) = .ok (.ok base) ↔
          base % (PageSize.fromLevel target).bytes = 0) ∧
        Untranslatable hhdm root level target virt s' ∧
        ∀ other, ¬ SamePage level target virt other →
          translate hhdm level root s' other = translate hhdm level root s other) ∧
    ((¬ ∃ entry, leafOf hhdm s.memory level.asUsize root virt = some (target.asUsize, entry)) →
      ∃ message, (unmap hhdm root virt level target).run s = (.error (.panic message), s)) ∧
    ∀ (phys : PhysicalAddress) (flags : PageFlags), flags.Maps →
      1 ≤ target.asUsize → target.asUsize ≤ level.asUsize →
      Supplies hhdm (level.asUsize - target.asUsize)
        (tables (slots hhdm s.memory) 512 level.asUsize root) s →
      Untranslatable hhdm root level target virt s →
      RoundTrip hhdm root level target virt phys flags (phys.getPpn <<< 12) s ∧
        (phys % 4096 = 0 → phys.toNat < 2 ^ 56 → phys.getPpn <<< 12 = phys) := by
  refine ⟨fun entry covered => ?_,
    fun absent => unmap_refused positive tree fun entry found => absent ⟨entry, found⟩, ?_⟩
  · obtain ⟨s', ran, tree', gone, kept⟩ := unmap_run mapAligned positive tree covered
    obtain ⟨below, at_target⟩ : ∃ below, target.asUsize = below + 1 :=
      ⟨target.asUsize - 1, by have := one_le_of_find covered; omega⟩
    have start : leafOf hhdm s.memory level.asUsize root (target.pageStart virt) =
        some (target.asUsize, entry) :=
      find_samePath ((samePage_iff (by omega)).mp (samePage_pageStart at_target)) (Nat.le_refl _)
        covered
    refine ⟨_, s', ran, rfl, ?_, fun other same => ?_, fun other apart =>
      translate_congr positive tree tree' (kept other apart)⟩
    · rw [translate_eq positive tree, start, Except.ok.injEq, resultOf_pageStart at_target]
    · exact (translate_error_iff positive tree').mpr (gone other same)
  · intro phys flags maps low reach supplied unmapped
    exact ⟨unmap_map_run phys mapAligned low reach tree maps supplied unmapped, getPpn_page⟩

section Sample

open FreeList (sampleMap sampleFrame pair)

/-- No bits are declared bits. -/
theorem noFlags_declared : (0 : UInt64) &&& declaredFlags = 0 := rfl

/-- No flags at all. -/
def noFlags : PageFlags := ⟨0, noFlags_declared⟩

/-- The empty table of the sample map is a tree in which no address comes to a leaf. -/
theorem pair_tree : PageTree sampleMap pair.memory 3 samplePage ∧
    tables (slots sampleMap pair.memory) 512 3 samplePage = {samplePage} ∧
    ∀ virt, leafOf sampleMap pair.memory 3 samplePage virt = none := by
  obtain ⟨tree, alone⟩ : Tree (slots sampleMap pair.memory) 512 3 samplePage ∧
      tables (slots sampleMap pair.memory) 512 3 samplePage = {samplePage} := blank_tree pair_blank
  exact ⟨⟨by decide, tree⟩, alone, fun virt => find_empty (pair_blank _ (virt.path_lt _))⟩

/-- No address translates through the empty table. -/
theorem pair_untranslatable (target : PageLevel) (virt : VirtualAddress) :
    Untranslatable sampleMap samplePage .level3 target virt pair := by
  obtain ⟨tree, -, nothing⟩ := pair_tree
  exact fun other _ => (@translate_error_iff _ _ .level3 _ _ (by decide) tree).mpr (nothing other)

/-- The table in which a page of two megabytes is mapped at an address of it. -/
theorem pair_mapped (phys : PhysicalAddress) :
    ∃ s, (map sampleMap samplePage 0x40200000 phys .level3 .level2 .read).run pair = (.ok (), s) ∧
      PageTree sampleMap s.memory 3 samplePage ∧
      (∀ other, SamePage .level3 .level2 0x40200000 other →
        leafOf sampleMap s.memory 3 samplePage other = some (2, leafEntry phys .read)) ∧
      ∀ other, ¬ SamePage .level3 .level2 0x40200000 other →
        leafOf sampleMap s.memory 3 samplePage other = none := by
  obtain ⟨tree, alone, nothing⟩ := pair_tree
  have supplied : Supplies sampleMap 1 (tables (slots sampleMap pair.memory) 512 3 samplePage)
      pair := by
    rw [alone]
    exact pair_supplies
  have uncovered : ¬ Covered sampleMap pair.memory 3 samplePage 0x40200000 .level2 := by
    rintro ⟨high, entry, found, -⟩
    rw [nothing] at found
    cases found
  have maps : PageFlags.read.Maps := rfl
  have reach : PageLevel.level2.asUsize ≤ PageLevel.level3.asUsize := by decide
  obtain ⟨s, ran, later, along, across⟩ :=
    map_run phys (by decide) (by decide) reach tree maps supplied uncovered
  exact ⟨s, ran, later, along, fun other apart => (across other apart).trans (nothing other)⟩

/-- In a table with a page of two megabytes, a page of a gigabyte is mapped and unmapped again, and
the first page is unmapped. -/
theorem unmap_undoes_map_mapped :
    ∃ s, (map sampleMap samplePage 0x40200000 0x600000 .level3 .level2 .read).run
      pair = (.ok (), s) ∧
      (∃ s₁ s₂, (map sampleMap samplePage 0x80000000 0x40000000 .level3 .level3 .read).run s =
          (.ok (), s₁) ∧
        (unmap sampleMap samplePage 0x80000000 .level3 .level3).run s₁ = (.ok 0x40000000, s₂) ∧
        translate sampleMap .level3 samplePage s₂ 0x40200000 = .ok (.ok 0x600000)) ∧
      ∃ s₁, (unmap sampleMap samplePage 0x40200000 .level3 .level2).run s = (.ok 0x600000, s₁) := by
  obtain ⟨s, ran, tree, along, across⟩ := pair_mapped 0x600000
  have mapAligned : sampleMap % 4096 = 0 := by decide
  have positive : 1 ≤ PageLevel.level3.asUsize := by decide
  have maps : PageFlags.read.Maps := rfl
  have found := along 0x40200000 fun _ _ _ => rfl
  have other := (@unmap_undoes_map sampleMap samplePage .level3 .level3 0x80000000 s mapAligned
    positive tree).2.2 0x40000000 .read maps positive (Nat.le_refl 3) .zero
  obtain ⟨base, s', taken, same, start, -⟩ :=
    (@unmap_undoes_map sampleMap samplePage .level3 .level2
    0x40200000 s mapAligned positive tree).1 _ found
  obtain rfl : base = 0x600000 := same.trans rfl
  have goes := start.mpr (by decide)
  refine ⟨s, ran, ?_, s', taken⟩
  have apart : ∀ virt, SamePage .level3 .level3 0x80000000 virt →
      ¬ SamePage .level3 .level2 0x40200000 virt := by
    intro virt high low
    have first := high .level3 (Nat.le_refl 3) (Nat.le_refl 3)
    have second := low .level3 (by decide) (Nat.le_refl 3)
    exact absurd (first.symm.trans second) (by decide)
  obtain ⟨⟨s₁, s₂, mapped, unmapped, restored⟩, whole⟩ := other fun virt high =>
    (@translate_error_iff _ _ .level3 _ _ positive tree).mpr (across virt (apart virt high))
  rw [whole (by decide) (by decide)] at unmapped
  exact ⟨s₁, s₂, mapped, unmapped, (restored _).trans goes⟩

/-- A page mapped without `READ`, `WRITE` and `EXECUTE` is not unmapped: the entry is no leaf, and
`unmap` panics. -/
theorem roundTrip_noFlags (base : PhysicalAddress) :
    ¬ RoundTrip sampleMap samplePage .level3 .level3 0x40000000 0x40000000 noFlags base pair := by
  let entry := wordOf samplePage (VirtualAddress.path 0x40000000 3)
  let later : Pmm :=
    { pair with memory := pair.memory.store entry (leafEntry 0x40000000 noFlags) }
  have mapped : (map sampleMap samplePage 0x40000000 0x40000000 .level3 .level3 noFlags).run pair =
      (.ok (), later) := mapLoop_target rfl rfl
  have written : later.memory entry = leafEntry 0x40000000 noFlags :=
    Function.update_self entry _ pair.memory
  obtain ⟨message, stopped⟩ := @unmapLoop_noLeaf sampleMap 0x40000000 .level3 .level3
    (walkLimit - 1) 2 samplePage later rfl rfl _ written (by decide)
  rintro ⟨s₁, s₂, ran, unmapped, -⟩
  obtain ⟨-, rfl⟩ := Prod.mk.inj (mapped.symm.trans ran)
  cases stopped.symm.trans unmapped

/-- A root behind the last frame of the list of two. -/
def lastRoot : UInt64 := sampleFrame + 0x2000

/-- The root behind the last frame is empty. -/
theorem lastRoot_blank (index : Nat) (bound : index < 512) :
    slots sampleMap pair.memory lastRoot index = .empty := by
  rw [slots, pair_zeroed (by decide) bound (by decide), slot_zero]

/-- A `map` that needs both frames of the list makes up a head behind the last one. That is the
root, whose first entry is cleared, and `unmap` finds no page. -/
theorem roundTrip_lastFrame (base : PhysicalAddress) :
    ¬ RoundTrip sampleMap lastRoot .level3 .level1 0x1000 0x600000 .read base pair := by
  have cleared : ((map sampleMap lastRoot 0x1000 0x600000 .level3 .level1 .read).run
      pair).2.memory (wordOf lastRoot 0) = 0 := by decide +kernel
  rintro ⟨s₁, s₂, mapped, unmapped, -⟩
  rw [mapped] at cleared
  have above : PageLevel.level3 ≠ .level1 := by decide
  obtain ⟨message, stopped⟩ := @unmapLoop_noBranch sampleMap 0x1000 .level1 .level3
    (walkLimit - 1) 2 lastRoot s₁ rfl above 0 cleared rfl
  cases stopped.symm.trans unmapped

/-- Three ways in which `unmap` does not undo `map`: the entry is no leaf; no frame is left for the
tables on the way; the physical address is not aligned to the page, so that `virt_to_phys` gives
another one than `unmap` for the first address of the page. -/
theorem unmap_undoes_map_fails :
    (PageTree sampleMap pair.memory 3 samplePage ∧
      Untranslatable sampleMap samplePage .level3 .level3 0x40000000 pair ∧
      ¬ ∃ base, RoundTrip sampleMap samplePage .level3 .level3 0x40000000 0x40000000 noFlags base
        pair) ∧
    (PageTree sampleMap pair.memory 3 lastRoot ∧
      Untranslatable sampleMap lastRoot .level3 .level1 0x1000 pair ∧
      ¬ ∃ base, RoundTrip sampleMap lastRoot .level3 .level1 0x1000 0x600000 .read base pair) ∧
    ∃ s s', PageTree sampleMap s.memory 3 samplePage ∧
      leafOf sampleMap s.memory 3 samplePage 0x40200000 = some (2, leafEntry 0x1000 .read) ∧
      (unmap sampleMap samplePage 0x40200000 .level3 .level2).run s = (.ok 0x1000, s') ∧
      translate sampleMap .level3 samplePage s 0x40200000 = .ok (.ok 0) := by
  have positive : 1 ≤ PageLevel.level3.asUsize := by decide
  have root : PageTree sampleMap pair.memory 3 lastRoot :=
    ⟨by decide, (blank_tree lastRoot_blank).1⟩
  refine ⟨⟨pair_tree.1, pair_untranslatable _ _, fun ⟨base, trip⟩ => roundTrip_noFlags base trip⟩,
    ⟨root, fun other _ => ?_, fun ⟨base, trip⟩ => roundTrip_lastFrame base trip⟩, ?_⟩
  · exact (@translate_error_iff _ _ .level3 _ _ positive root).mpr
      (find_empty (lastRoot_blank _ (other.path_lt _)))
  · obtain ⟨s, -, tree, along, -⟩ := pair_mapped 0x1000
    have found := along 0x40200000 fun _ _ _ => rfl
    obtain ⟨s', taken, -⟩ :=
      @unmap_run sampleMap samplePage .level3 .level2 0x40200000 s (by decide)
      positive tree _ found
    have goes : translate sampleMap .level3 samplePage s 0x40200000 =
        .ok (resultOf 0x40200000 (some (2, leafEntry 0x1000 .read))) := by
      rw [translate_eq positive tree]
      exact congrArg (Except.ok ∘ resultOf 0x40200000) found
    exact ⟨s, s', tree, found, taken, goes.trans rfl⟩

end Sample

end Lsd
