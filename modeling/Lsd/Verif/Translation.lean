import Lsd.Verif.FrameWindow
import Lsd.Verif.Mapping

/-!
# Mapping updates the translation

A call of `map` on a well-formed tree changes the walk of `virt_to_phys` for the
addresses of one page and for no other address. Where a larger page already
covers the address it panics before it changes anything.
-/

namespace Lsd

open Program Radix

/-- The walk of `virt_to_phys` that starts at a table. -/
def translate (hhdm : UInt64) (level : PageLevel) (root : UInt64) (s : Pmm)
    (virt : VirtualAddress) :
    Except Stop (Except String PhysicalAddress) :=
  ((walkLoop hhdm virt walkLimit root level).run s).1

/-- Whether the level indices of two addresses name the same page of a target level. -/
def SamePage (level target : PageLevel) (virt other : VirtualAddress) : Prop :=
  ∀ between : PageLevel, target.asUsize ≤ between.asUsize → between.asUsize ≤ level.asUsize →
    other.index between = virt.index between

section Pages

variable {level target : PageLevel} {virt other : VirtualAddress} {height : Nat}

/-- Addresses of one page take the same path down to its level. -/
theorem samePage_iff (positive : 1 ≤ target.asUsize) : SamePage level target virt other ↔
    SamePath target.asUsize level.asUsize virt.path other.path := by
  constructor
  · intro same height low high
    have named : (PageLevel.fromUsize height).asUsize = height :=
      PageLevel.asUsize_fromUsize (high.trans level.asUsize_le)
    obtain ⟨below, rfl⟩ : ∃ below, height = below + 1 := ⟨height - 1, by omega⟩
    have index := congrArg UInt64.toNat (same (.fromUsize (below + 1)) (by omega) (by omega))
    rwa [VirtualAddress.toNat_index _ named, VirtualAddress.toNat_index _ named] at index
  · intro same between low high
    obtain ⟨below, at_height⟩ : ∃ below, between.asUsize = below + 1 :=
      ⟨between.asUsize - 1, by omega⟩
    apply UInt64.toNat_inj.mp
    rw [VirtualAddress.toNat_index _ at_height, VirtualAddress.toNat_index _ at_height]
    exact same (below + 1) (by omega) (by omega)

/-- An address aligned to a page of some level is aligned to a small page. -/
theorem smallAligned {phys : PhysicalAddress} (at_height : level.asUsize = height + 1)
    (aligned : phys % (PageSize.fromLevel level).bytes = 0) : phys.toNat % 4096 = 0 := by
  have whole := congrArg UInt64.toNat aligned
  rw [UInt64.toNat_mod, PageSize.toNat_bytes at_height] at whole
  have divides : 4096 ∣ 2 ^ pageBits (height + 1) :=
    (Nat.pow_dvd_pow 2 (Nat.le_add_right 12 _) : 2 ^ 12 ∣ _)
  exact Nat.mod_eq_zero_of_dvd (divides.trans (Nat.dvd_of_mod_eq_zero whole))

/-- Putting an offset into an aligned page adds it. -/
theorem page_or_offset {phys : PhysicalAddress} (at_height : level.asUsize = height + 1)
    (aligned : phys % (PageSize.fromLevel level).bytes = 0) :
    phys &&& ~~~level.mask ||| other &&& level.mask =
      phys + other % (PageSize.fromLevel level).bytes := by
  have mask := PageLevel.toNat_mask at_height
  have bytes := PageSize.toNat_bytes at_height
  have whole := congrArg UInt64.toNat aligned
  simp only [UInt64.toNat_mod, bytes, UInt64.reduceToNat] at whole
  have short : pageBits (height + 1) < 64 := by
    have := level.asUsize_le
    rw [pageBits]
    omega
  generalize pageBits (height + 1) = bits at mask bytes whole short
  obtain ⟨number, page⟩ : ∃ number, phys.toNat = 2 ^ bits * number :=
    ⟨phys.toNat / 2 ^ bits, (Nat.mul_div_cancel' (Nat.dvd_of_mod_eq_zero whole)).symm⟩
  have offset : other.toNat % 2 ^ bits < 2 ^ bits := Nat.mod_lt _ (Nat.two_pow_pos _)
  have fits : 2 ^ bits * number + other.toNat % 2 ^ bits < 2 ^ 64 := by
    have bound := phys.toNat_lt
    have power : 2 ^ 64 = 2 ^ bits * 2 ^ (64 - bits) := by
      rw [← Nat.pow_add, Nat.add_sub_cancel' short.le]
    rw [page, power] at bound
    have below : number + 1 ≤ 2 ^ (64 - bits) := Nat.lt_of_mul_lt_mul_left bound
    calc 2 ^ bits * number + other.toNat % 2 ^ bits < 2 ^ bits * number + 2 ^ bits := by omega
      _ = 2 ^ bits * (number + 1) := by ring
      _ ≤ 2 ^ 64 := power ▸ Nat.mul_le_mul_left _ below
  have negated : (~~~level.mask).toNat = 2 ^ 64 - (2 ^ bits - 1 + 1) := by
    rw [UInt64.toNat_not, mask, UInt64.size]
    omega
  apply word_ext
  intro bit
  have sum : (phys + other % (PageSize.fromLevel level).bytes).toNat =
      2 ^ bits * number + other.toNat % 2 ^ bits := by
    rw [UInt64.toNat_add, UInt64.toNat_mod, bytes, page, Nat.mod_eq_of_lt fits]
  have bound : 2 ^ bits - 1 < 2 ^ 64 :=
    Nat.lt_of_le_of_lt (Nat.sub_le _ _) (Nat.pow_lt_pow_right (by decide) short)
  rw [sum, UInt64.toNat_or, UInt64.toNat_and, UInt64.toNat_and, Nat.testBit_or, Nat.testBit_and,
    Nat.testBit_and, negated, mask, Nat.testBit_two_pow_sub_succ bound, Nat.testBit_two_pow_sub_one,
    page, Nat.testBit_two_pow_mul_add _ offset, Nat.testBit_mod_two_pow, Nat.testBit_two_pow_mul]
  by_cases low : bit < bits
  · simp [low, Nat.not_le.mpr low]
  · by_cases high : bit < 64
    · simp [low, high, Nat.not_lt.mp low]
    · have past : phys.toNat.testBit bit = false := Nat.testBit_lt_two_pow
        (phys.toNat_lt.trans_le (Nat.pow_le_pow_right (by decide) (Nat.not_lt.mp high)))
      rw [page, Nat.testBit_two_pow_mul, decide_eq_true (Nat.not_lt.mp low), Bool.true_and] at past
      simp [low, past]

/-- The leaf that `map` writes sends an address into the physical page. -/
theorem resultOf_leaf {phys : PhysicalAddress} {flags : PageFlags}
    (at_height : level.asUsize = height + 1) (maps : flags.Maps)
    (aligned : phys % (PageSize.fromLevel level).bytes = 0) (short : phys.toNat < 2 ^ 56) :
    resultOf other (some (level.asUsize, leafEntry phys flags)) =
      .ok (phys + other % (PageSize.fromLevel level).bytes) := by
  rw [resultOf, PageLevel.fromUsize_asUsize,
    (leafEntry_spec maps (smallAligned at_height aligned) short).2,
    page_or_offset at_height aligned]

/-- Numbers with the same lower digits have the same remainder. -/
theorem mod_eq_of_digits {base count first second : Nat}
    (same : ∀ place < count, first / base ^ place % base = second / base ^ place % base) :
    first % base ^ count = second % base ^ count := by
  induction count with
  | zero => rw [Nat.pow_zero, Nat.mod_one, Nat.mod_one]
  | succ count ih =>
    rw [Nat.mod_pow_succ, Nat.mod_pow_succ, same count (Nat.lt_succ_self count),
      ih fun place low => same place (Nat.lt_succ_of_lt low)]

/-- Addresses that take the same way to a small page have the same page number there. -/
theorem page_eq_of_samePath (same : SamePath 1 (height + 1) virt.path other.path) :
    other.toNat / 4096 % 512 ^ (height + 1) = virt.toNat / 4096 % 512 ^ (height + 1) := by
  apply mod_eq_of_digits
  intro place low
  have digit := same (place + 1) (by omega) (by omega)
  have power : 2 ^ pageBits (place + 1) = 4096 * 512 ^ place := by
    rw [pageBits, Nat.pow_add, Nat.add_sub_cancel, Nat.pow_mul]
  rwa [VirtualAddress.path, VirtualAddress.path, power, ← Nat.div_div_eq_div_mul,
    ← Nat.div_div_eq_div_mul] at digit

/-- Addresses with the same page number take the same way. -/
theorem samePath_of_page (same : virt.toNat / 4096 = other.toNat / 4096) :
    SamePath 1 height virt.path other.path := by
  intro place low _
  have power : 2 ^ pageBits place = 4096 * 2 ^ (9 * (place - 1)) := by
    rw [pageBits, Nat.pow_add]
  rw [VirtualAddress.path, VirtualAddress.path, power, ← Nat.div_div_eq_div_mul,
    ← Nat.div_div_eq_div_mul, same]

end Pages

section Map

variable {hhdm root : UInt64} {level target : PageLevel} {virt other : VirtualAddress} {s : Pmm}

/-- The height of a level that a root can have. -/
theorem PageLevel.exists_height (positive : 1 ≤ level.asUsize) :
    ∃ height, level.asUsize = height + 1 ∧ height < walkLimit := by
  refine ⟨level.asUsize - 1, by omega, ?_⟩
  have := level.asUsize_le
  rw [walkLimit]
  omega

/-- The loop of a walk ends, with the leaf that the address comes to. -/
theorem translate_limb {height : Nat} (at_height : level.asUsize = height + 1)
    (sound : (slots hhdm s.memory root (other.path (height + 1))).Sound
      (Tree (slots hhdm s.memory) 512 height)) :
    translate hhdm level root s other =
      .ok (resultOf other (leafOf hhdm s.memory level.asUsize root other)) := by
  have enough : height < walkLimit := by
    have := level.asUsize_le
    rw [walkLimit]
    omega
  rw [translate, walkLoop_run sound at_height enough, at_height]

/-- In a whole tree every walk ends. -/
theorem translate_eq (positive : 1 ≤ level.asUsize)
    (tree : PageTree hhdm s.memory level.asUsize root) :
    translate hhdm level root s other =
      .ok (resultOf other (leafOf hhdm s.memory level.asUsize root other)) := by
  obtain ⟨height, at_height, -⟩ := level.exists_height positive
  have whole := tree.tree
  rw [at_height] at whole
  exact translate_limb at_height (Limbs.sound whole _ (other.path_lt _))

/-- A call of `map` where no leaf above the target level covers the address: the leaf for the page
is what its addresses come to, and all other addresses come to what they came to before. -/
theorem map_run (phys : PhysicalAddress) {flags : PageFlags} (mapAligned : hhdm % 4096 = 0)
    (low : 1 ≤ target.asUsize) (reach : target.asUsize ≤ level.asUsize)
    (tree : PageTree hhdm s.memory level.asUsize root) (maps : flags.Maps)
    (supplied : Supplies hhdm (level.asUsize - target.asUsize)
      (tables (slots hhdm s.memory) 512 level.asUsize root) s)
    (uncovered : ¬ Covered hhdm s.memory level.asUsize root virt target) :
    ∃ s', (map hhdm root virt phys level target flags).run s = (.ok (), s') ∧
      PageTree hhdm s'.memory level.asUsize root ∧
      (∀ other, SamePage level target virt other →
        leafOf hhdm s'.memory level.asUsize root other =
          some (target.asUsize, leafEntry phys flags)) ∧
      (∀ other, ¬ SamePage level target virt other →
        leafOf hhdm s'.memory level.asUsize root other =
          leafOf hhdm s.memory level.asUsize root other) := by
  obtain ⟨height, at_height, enough⟩ := level.exists_height (low.trans reach)
  have limbs : PageLimbs hhdm s.memory (Set.Iio 512) height root := by
    have whole := tree.tree
    rwa [at_height] at whole
  have small := virt.path_lt (height + 1)
  have pagesAligned : ∀ page ∈ tables (slots hhdm s.memory) 512 (height + 1) root,
      page % 4096 = 0 := fun page => tables_aligned mapAligned tree.aligned
  have inUse : ∀ index ∈ Set.Iio 512, reached hhdm s.memory height root index ⊆
      tables (slots hhdm s.memory) 512 (height + 1) root := fun index => under_subset
  rw [at_height] at supplied uncovered reach
  obtain ⟨s', fresh, ran, unused, edited⟩ := mapLoop_edits phys mapAligned maps low at_height
    enough reach (limbs.mono (Set.singleton_subset_iff.mpr small)) pagesAligned
    mem_tables_self (inUse _ small) supplied uncovered
  have found := fun other : VirtualAddress =>
    edited.find_eq limbs small inUse other.path_lt (other.path_lt (height + 1)) reach
  refine ⟨s', ran, ⟨tree.aligned, ?_⟩, fun other same => ?_, fun other apart => ?_⟩
  · rw [at_height]
    exact edited.limbs limbs (fun _ bound => bound) small inUse mem_tables_self unused
  · rw [samePage_iff low, at_height] at same
    rw [leafOf, at_height, (found other).1 same]
  · rw [samePage_iff low, at_height] at apart
    rw [leafOf, leafOf, at_height, (found other).2 apart]

/-- A call of `map` on a well-formed tree, when the claims for the tables that are missing return
frames outside the tree and leave its tables alone. Where a leaf above the target level covers the
address it panics and has changed nothing. Elsewhere the tree stays well formed, the addresses of
the page go to the physical page, and all other addresses go where they went before. -/
theorem map_updates_translation {phys : PhysicalAddress} {flags : PageFlags}
    (mapAligned : hhdm % 4096 = 0) (low : 1 ≤ target.asUsize)
    (reach : target.asUsize ≤ level.asUsize)
    (tree : PageTree hhdm s.memory level.asUsize root) (maps : flags.Maps)
    (physAligned : phys % (PageSize.fromLevel target).bytes = 0) (physShort : phys.toNat < 2 ^ 56)
    (supplied : Supplies hhdm (level.asUsize - target.asUsize)
      (tables (slots hhdm s.memory) 512 level.asUsize root) s) :
    (Covered hhdm s.memory level.asUsize root virt target →
      ∃ message, (map hhdm root virt phys level target flags).run s =
        (.error (.panic message), s)) ∧
    (¬ Covered hhdm s.memory level.asUsize root virt target →
      ∃ s', (map hhdm root virt phys level target flags).run s = (.ok (), s') ∧
        PageTree hhdm s'.memory level.asUsize root ∧
        (∀ other, SamePage level target virt other → translate hhdm level root s' other =
          .ok (.ok (phys + other % (PageSize.fromLevel target).bytes))) ∧
        (∀ other, ¬ SamePage level target virt other →
          translate hhdm level root s' other = translate hhdm level root s other)) := by
  have positive : 1 ≤ level.asUsize := low.trans reach
  obtain ⟨height, at_height, enough⟩ := level.exists_height positive
  refine ⟨fun covered => ?_, fun uncovered => ?_⟩
  · have whole := tree.tree
    rw [at_height] at whole covered
    exact mapLoop_covered at_height enough (Limbs.sound whole _ (virt.path_lt (height + 1))) covered
  · obtain ⟨below, at_target⟩ : ∃ below, target.asUsize = below + 1 :=
      ⟨target.asUsize - 1, by omega⟩
    obtain ⟨s', ran, later, along, across⟩ :=
      map_run phys mapAligned low reach tree maps supplied uncovered
    refine ⟨s', ran, later, fun other same => ?_, fun other apart => ?_⟩
    · rw [translate_eq positive later, along other same,
        resultOf_leaf at_target maps physAligned physShort]
    · rw [translate_eq positive later, translate_eq positive tree, across other apart]

end Map

section Sample

open FreeList (sampleMap sampleFrame pair pair_holds)

/-- A page of the sample map that the frame list does not hold. -/
def samplePage : UInt64 := sampleFrame + 0x10000

/-- Pages that the list of two frames does not hold are zeroed. -/
theorem pair_zeroed {page : UInt64} {index : Nat} (aligned : page % 4096 = 0) (bound : index < 512)
    (other : page ∉ [sampleFrame, sampleFrame + 4096]) : pair.memory (wordOf page index) = 0 := by
  have first : sampleFrame ∈ [sampleFrame, sampleFrame + 4096] := by simp
  have second : sampleFrame + 4096 ∈ [sampleFrame, sampleFrame + 4096] := by simp
  have links : ChangedLinks [sampleFrame, sampleFrame + 4096] (fun _ => 0) pair.memory :=
    (((((ChangedLinks.store (fun _ _ => rfl) ⟨_, first, .inl rfl⟩).store ⟨_, first, .inr rfl⟩).store
      ⟨_, second, .inr rfl⟩).store ⟨_, second, .inl rfl⟩).store ⟨_, first, .inr rfl⟩ :)
  exact links _ (not_linkWords pair_holds.frames aligned bound other)

/-- A page that the list of two frames does not hold is the root of an empty tree. -/
theorem pair_blank (index : Nat) (bound : index < 512) :
    slots sampleMap pair.memory samplePage index = .empty := by
  rw [slots, pair_zeroed (by decide) bound (by decide), slot_zero]

/-- The list of two frames supplies a frame outside the page. -/
theorem pair_supplies : Supplies sampleMap 1 {samplePage} pair := by
  refine supplies_of_holds pair_holds (by decide) ?_ ?_ ?_
  · exact fun page same => same ▸ (by decide : samplePage % 4096 = 0)
  · exact List.forall_mem_cons.mpr ⟨by decide, List.forall_mem_singleton.mpr (by decide)⟩
  · exact List.forall_mem_cons.mpr ⟨by decide, List.forall_mem_singleton.mpr (by decide)⟩

/-- A page of two megabytes is mapped by an empty tree, and then one of a gigabyte by the tree that
was made: the first page goes where it went. -/
theorem map_updates_translation_twice :
    ∃ s' s'', (map sampleMap samplePage 0x40200000 0x600000 .level3 .level2 .read).run pair =
        (.ok (), s') ∧
      (map sampleMap samplePage 0x80000000 0x40000000 .level3 .level3 .read).run s' =
        (.ok (), s'') ∧
      translate sampleMap .level3 samplePage s'' 0x80001234 = .ok (.ok 0x40001234) ∧
      translate sampleMap .level3 samplePage s'' 0x40201234 = .ok (.ok 0x601234) := by
  obtain ⟨tree, alone⟩ : Tree (slots sampleMap pair.memory) 512 3 samplePage ∧
      tables (slots sampleMap pair.memory) 512 3 samplePage = {samplePage} := blank_tree pair_blank
  have supplied : Supplies sampleMap 1 (tables (slots sampleMap pair.memory) 512 3 samplePage)
      pair := by
    rw [alone]
    exact pair_supplies
  have uncovered : ¬ Covered sampleMap pair.memory 3 samplePage 0x40200000 .level2 := by
    rintro ⟨high, entry, found, -⟩
    rw [leafOf, find_empty (pair_blank _ (VirtualAddress.path_lt _ _))] at found
    cases found
  have same : SamePage .level3 .level2 0x40200000 0x40201234 := by
    intro between low high
    cases between <;> first | rfl | exact absurd low (by decide)
  have maps : PageFlags.read.Maps := rfl
  have aligned : (0x600000 : UInt64) % (PageSize.fromLevel .level2).bytes = 0 := by decide
  have levels : PageLevel.level2.asUsize ≤ PageLevel.level3.asUsize := by decide
  obtain ⟨s', ran, tree', moved, -⟩ := (map_updates_translation (by decide) (by decide) levels
    ⟨by decide, tree⟩ maps aligned (by decide) supplied).2 uncovered
  -- no leaf lies above the entries of the root
  have uncovered' : ¬ Covered sampleMap s'.memory 3 samplePage 0x80000000 .level3 := by
    rintro ⟨high, entry, found, above⟩
    exact absurd above (Nat.not_lt.mpr (find_le found))
  have wide : (0x40000000 : UInt64) % (PageSize.fromLevel .level3).bytes = 0 := by decide
  obtain ⟨s'', ran', -, moved', across⟩ := (map_updates_translation (by decide) (by decide)
    (Nat.le_refl PageLevel.level3.asUsize) tree' maps wide (by decide) .zero).2 uncovered'
  have page : SamePage .level3 .level3 0x80000000 0x80001234 := by
    intro between low high
    cases between <;> first | rfl | exact absurd low (by decide)
  have apart : ¬ SamePage .level3 .level3 0x80000000 0x40201234 := fun inside =>
    absurd (inside .level3 (Nat.le_refl _) (Nat.le_refl _)) (by decide)
  exact ⟨s', s'', ran, ran', moved' _ page, (across _ apart).trans (moved _ same)⟩

end Sample

end Lsd
