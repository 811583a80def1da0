import Lsd.Verif.ProgramImage

/-!
# Where the segments of a program are found

Where every byte of a segment is found in the frames that it was copied to: the
segments must begin at pages, and no two of their pages may be the same.
-/

namespace Lsd

open Program Radix Placement

variable {hhdm root : UInt64} {level : PageLevel} {height : Nat} {segments : List Segment}
  {segment : Segment} {placement : Placement} {p : Pmm}
  {before : VirtualAddress → Option (Nat × PageEntry)}

/-- Whether every byte of a segment is found where the loader put it. -/
def Segment.FoundAt (hhdm : UInt64) (level : PageLevel) (root : UInt64) (p : Pmm)
    (segment : Segment) :
    Prop :=
  ∀ offset < segment.header.pMemsz.toNat,
    translate hhdm level root p (segment.header.pVaddr + UInt64.ofNat offset) =
      .ok (.ok (segment.base - hhdm + UInt64.ofNat offset))

/-- Whether the segments are placed: an address in one of their pages goes where it was placed. -/
def ImageShown (hhdm : UInt64) (level : PageLevel) (height : Nat) (root : UInt64)
    (before : VirtualAddress → Option (Nat × PageEntry)) (segments : List Segment)
    (p : Pmm) : Prop :=
  ∀ virt : VirtualAddress, (∃ placement ∈ imagePlacements hhdm segments,
    placement.Covers (height + 1) virt) → translate hhdm level root p virt =
      .ok (resultOf virt (leafAfter (height + 1) before (imagePlacements hhdm segments) virt))

section Placements

/-- A placement of some segments is one of a page of one of them. -/
theorem mem_imagePlacements : placement ∈ imagePlacements hhdm segments ↔
    ∃ segment ∈ segments, ∃ step < segment.header.pages,
      placement = segment.placement hhdm step := by
  rw [imagePlacements, List.mem_flatMap]
  exact exists_congr fun segment => and_congr_right fun _ => Segment.mem_placements

/-- The physical addresses of the pages of a segment are those of its frames. -/
theorem Segment.placements_phys (count : Nat) : (segment.placements hhdm count).map Placement.phys =
    ((framesFrom segment.base count).map (· - hhdm)).reverse := by
  induction count with
  | zero => rfl
  | succ count ih =>
    have place : segment.base - hhdm + UInt64.ofNat (count * 4096) =
        segment.base + UInt64.ofNat (count * 4096) - hhdm := by
      rw [UInt64.sub_eq_add_neg, UInt64.sub_eq_add_neg, UInt64.add_assoc, UInt64.add_comm (-hhdm),
        UInt64.add_assoc]
    rw [framesFrom_add, List.map_append, List.reverse_append, ← ih, placements, List.map_cons,
      placement, place]
    rfl

/-- The pages of segments whose frames differ go to different physical addresses. -/
theorem imagePlacements_phys (nodup : (imageFrames segments).Nodup) :
    ((imagePlacements hhdm segments).map Placement.phys).Nodup := by
  have same : ((imagePlacements hhdm segments).map Placement.phys).Perm
      ((imageFrames segments).map (· - hhdm)) := by
    clear nodup
    induction segments with
    | nil => exact .refl _
    | cons segment segments ih =>
      rw [imagePlacements, imageFrames, List.flatMap_cons, List.flatMap_cons, List.map_append,
        List.map_append, Segment.placements_phys]
      exact (List.reverse_perm _).append ih
  rw [same.nodup_iff]
  refine nodup.map fun first second equal => ?_
  have back : ∀ frame : UInt64, frame - hhdm + hhdm = frame := fun frame =>
    UInt64.sub_add_cancel frame hhdm
  rw [← back first, ← back second]
  exact congrArg (· + hhdm) equal

end Placements

/-- What is known of the frames of some segments. -/
structure ImageSound (hhdm : UInt64) (segments : List Segment) : Prop where
  /-- They begin at pages. -/
  aligned : ∀ segment ∈ segments, segment.base % 4096 = 0
  /-- Some access to each is allowed. -/
  maps : ∀ segment ∈ segments, segment.header.pageFlags.Maps
  /-- They have short physical addresses. -/
  short : ∀ frame ∈ imageFrames segments, (frame - hhdm).toNat < 2 ^ 56
  /-- They differ. -/
  nodup : (imageFrames segments).Nodup

section Found

variable {step offset : Nat} {virt : VirtualAddress}

/-- The result of a walk that ends at a page of a segment. -/
theorem ImageSound.resultOf (sound : ImageSound hhdm segments) (mapAligned : hhdm % 4096 = 0)
    (member : placement ∈ imagePlacements hhdm segments) (virt : VirtualAddress) :
    Lsd.resultOf virt (some placement.leaf) = .ok (placement.phys + virt % 4096) ∧
      placement.phys % 4096 = 0 := by
  obtain ⟨segment, listed, step, bound, rfl⟩ := mem_imagePlacements.mp member
  have frame : segment.base + UInt64.ofNat (step * 4096) ∈ imageFrames segments :=
    List.mem_flatMap.mpr ⟨segment, listed, mem_framesFrom.mpr ⟨step, bound, rfl⟩⟩
  have place : (segment.placement hhdm step).phys =
      segment.base + UInt64.ofNat (step * 4096) - hhdm := by
    change segment.base - hhdm + UInt64.ofNat (step * 4096) = _
    rw [UInt64.sub_eq_add_neg, UInt64.sub_eq_add_neg, UInt64.add_assoc, UInt64.add_comm (-hhdm),
      UInt64.add_assoc]
  have page : (segment.placement hhdm step).phys % 4096 = 0 := by
    have base := aligned_toNat mapAligned
    have start := aligned_toNat (sound.aligned segment listed)
    rw [place]
    apply UInt64.toNat_inj.mp
    rw [UInt64.toNat_mod, UInt64.toNat_sub, UInt64.toNat_add, UInt64.toNat_ofNat']
    change _ % 4096 = 0
    omega
  have lowest : PageLevel.level1.asUsize = 0 + 1 := rfl
  have bits : (segment.placement hhdm step).phys.toNat < 2 ^ 56 := place ▸ sound.short _ frame
  exact ⟨resultOf_leaf lowest (sound.maps segment listed) page bits, page⟩

/-- An address in a page of the image goes to a physical page where some page of the image that
covers it was placed. -/
theorem ImageShown.goes (shown : ImageShown hhdm level height root before segments p)
    (sound : ImageSound hhdm segments) (mapAligned : hhdm % 4096 = 0)
    (member : placement ∈ imagePlacements hhdm segments)
    (covers : placement.Covers (height + 1) virt) :
    ∃ last ∈ imagePlacements hhdm segments,
      leafAfter (height + 1) before (imagePlacements hhdm segments) virt = some last.leaf ∧
      last.phys % 4096 = 0 ∧
      translate hhdm level root p virt = .ok (.ok (last.phys + virt % 4096)) := by
  obtain ⟨last, listed, -, found⟩ : ∃ last ∈ imagePlacements hhdm segments,
      last.Covers (height + 1) virt ∧
        leafAfter (height + 1) before (imagePlacements hhdm segments) virt = some last.leaf :=
    leafAfter_covered member covers
  obtain ⟨result, page⟩ := sound.resultOf mapAligned listed virt
  refine ⟨last, listed, found, page, ?_⟩
  rw [shown virt ⟨placement, member, covers⟩, found, result]

/-- A byte of a segment that begins at a page lies in the page of its offset. -/
theorem Segment.covers_offset (page : segment.header.pVaddr % 4096 = 0) :
    (segment.placement hhdm (offset / 4096)).Covers (height + 1)
      (segment.header.pVaddr + UInt64.ofNat offset) := by
  apply samePath_of_page
  have start := aligned_toNat page
  change (segment.header.pVaddr + UInt64.ofNat (offset / 4096 * 4096)).toNat / 4096 = _
  rw [UInt64.toNat_add, UInt64.toNat_add, UInt64.toNat_ofNat', UInt64.toNat_ofNat']
  omega

/-- Where the segments begin at pages and no two of their pages are the same, every byte is
found. -/
theorem ImageShown.found (shown : ImageShown hhdm level height root before segments p)
    (sound : ImageSound hhdm segments) (mapAligned : hhdm % 4096 = 0)
    (pages : ∀ segment ∈ segments, 0 < segment.header.pMemsz.toNat →
    segment.header.pVaddr % 4096 = 0)
    (apart : (imagePlacements hhdm segments).Pairwise (Apart (height + 1)))
    (listed : segment ∈ segments) : segment.FoundAt hhdm level root p := by
  intro offset bound
  have page := pages segment listed (Nat.zero_lt_of_lt bound)
  have inside : offset / 4096 < segment.header.pages := by
    rw [ProgramHeader.pages]
    omega
  have member : segment.placement hhdm (offset / 4096) ∈ imagePlacements hhdm segments :=
    mem_imagePlacements.mpr ⟨segment, listed, _, inside, rfl⟩
  have covers : (segment.placement hhdm (offset / 4096)).Covers (height + 1)
      (segment.header.pVaddr + UInt64.ofNat offset) := Segment.covers_offset page
  have small : ∀ other ∈ imagePlacements hhdm segments, other.target = .level1 := by
    intro other placed
    obtain ⟨_, _, _, _, rfl⟩ := mem_imagePlacements.mp placed
    rfl
  obtain ⟨result, -⟩ :=
    sound.resultOf mapAligned member (segment.header.pVaddr + UInt64.ofNat offset)
  rw [shown _ ⟨_, member, covers⟩, leafAfter_of_apart small apart member covers, result]
  have rest : (segment.header.pVaddr + UInt64.ofNat offset) % 4096 =
      UInt64.ofNat (offset % 4096) := by
    have start := aligned_toNat page
    apply UInt64.toNat_inj.mp
    rw [UInt64.toNat_mod, UInt64.toNat_add, UInt64.toNat_ofNat', UInt64.toNat_ofNat']
    change (_ % 2 ^ 64) % 4096 = _
    omega
  have parts : UInt64.ofNat (offset / 4096 * 4096) + UInt64.ofNat (offset % 4096) =
      UInt64.ofNat offset := by
    rw [← UInt64.ofNat_add]
    congr 1
    omega
  rw [rest, Segment.placement, UInt64.add_assoc, parts]

/-- A segment whose bytes are all found begins at a page. -/
theorem ImageShown.begins (shown : ImageShown hhdm level height root before segments p)
    (sound : ImageSound hhdm segments) (mapAligned : hhdm % 4096 = 0) (listed : segment ∈ segments)
    (found : segment.FoundAt hhdm level root p) (positive : 0 < segment.header.pMemsz.toNat) :
    segment.header.pVaddr % 4096 = 0 := by
  have inside : 0 < segment.header.pages := by
    rw [ProgramHeader.pages]
    omega
  have member : segment.placement hhdm 0 ∈ imagePlacements hhdm segments :=
    mem_imagePlacements.mpr ⟨segment, listed, 0, inside, rfl⟩
  have covers : (segment.placement hhdm 0).Covers (height + 1)
      (segment.header.pVaddr + UInt64.ofNat 0) := fun _ _ _ => rfl
  obtain ⟨last, -, -, page, goes⟩ := shown.goes sound mapAligned member covers
  have same : last.phys + segment.header.pVaddr % 4096 = segment.base - hhdm := by
    have both := goes.symm.trans (found 0 positive)
    have zero : UInt64.ofNat 0 = 0 := rfl
    rw [zero, UInt64.add_zero, UInt64.add_zero] at both
    exact Except.ok.inj (Except.ok.inj both)
  -- both ends of the page are multiples of its size
  have base := aligned_toNat mapAligned
  have start := aligned_toNat (sound.aligned segment listed)
  have frame := aligned_toNat page
  have numbers := congrArg UInt64.toNat same
  rw [UInt64.toNat_add, UInt64.toNat_sub, UInt64.toNat_mod] at numbers
  change (_ + _ % 4096) % 2 ^ 64 = _ at numbers
  apply UInt64.toNat_inj.mp
  rw [UInt64.toNat_mod]
  change _ % 4096 = 0
  omega

/-- Every byte of the segments is found where it was put exactly when they begin at pages and no two
of their pages are the same. -/
theorem ImageShown.found_iff (shown : ImageShown hhdm level height root before segments p)
    (sound : ImageSound hhdm segments) (mapAligned : hhdm % 4096 = 0) :
    (∀ segment ∈ segments, segment.FoundAt hhdm level root p) ↔
      (∀ segment ∈ segments, 0 < segment.header.pMemsz.toNat → segment.header.pVaddr % 4096 = 0) ∧
        (imagePlacements hhdm segments).Pairwise (Apart (height + 1)) := by
  constructor
  · intro found
    have pages : ∀ segment ∈ segments, 0 < segment.header.pMemsz.toNat →
        segment.header.pVaddr % 4096 = 0 := fun segment listed positive =>
      shown.begins sound mapAligned listed (found segment listed) positive
    refine ⟨pages, ?_⟩
    have small : ∀ other ∈ imagePlacements hhdm segments, other.target = .level1 := by
      intro other placed
      obtain ⟨_, _, _, _, rfl⟩ := mem_imagePlacements.mp placed
      rfl
    have distinct : ((imagePlacements hhdm segments).map Placement.phys).Nodup :=
      imagePlacements_phys sound.nodup
    have differ : ((imagePlacements hhdm segments).map Placement.leaf).Nodup := by
      apply List.Nodup.of_map fun leaf => resultOf 0 (some leaf)
      rw [List.map_map]
      have results : (imagePlacements hhdm segments).map
          ((fun leaf => resultOf 0 (some leaf)) ∘ Placement.leaf) =
            ((imagePlacements hhdm segments).map Placement.phys).map Except.ok := by
        rw [List.map_map]
        refine List.map_congr_left fun placement member => ?_
        rw [Function.comp, (sound.resultOf mapAligned member 0).1]
        exact congrArg Except.ok (UInt64.add_zero placement.phys)
      rw [results]
      exact distinct.map fun first second equal => Except.ok.inj equal
    have own : ∀ other ∈ imagePlacements hhdm segments,
        leafAfter (height + 1) before (imagePlacements hhdm segments) other.page =
          some other.leaf := by
      intro other member
      have covers : other.Covers (height + 1) other.page := fun _ _ _ => rfl
      obtain ⟨last, listed, leaf, -, goes⟩ := shown.goes sound mapAligned member covers
      obtain ⟨segment, inside, step, bound, rfl⟩ := mem_imagePlacements.mp member
      have offset : step * 4096 < segment.header.pMemsz.toNat := by
        rw [ProgramHeader.pages] at bound
        omega
      have page : (segment.placement hhdm step).page % 4096 = 0 := by
        have start := aligned_toNat (pages segment inside (Nat.zero_lt_of_lt offset))
        apply UInt64.toNat_inj.mp
        rw [Segment.placement, pageAt, UInt64.toNat_mod, UInt64.toNat_add, UInt64.toNat_ofNat']
        change _ % 4096 = 0
        omega
      have put := goes.symm.trans (found segment inside _ offset)
      rw [page, UInt64.add_zero] at put
      have same : last.phys = (segment.placement hhdm step).phys :=
        Except.ok.inj (Except.ok.inj put)
      rw [leaf, List.inj_on_of_nodup_map distinct listed member same]
    exact apart_of_leafAfter small differ own
  · rintro ⟨pages, apart⟩ segment listed
    exact shown.found sound mapAligned pages apart listed

end Found

end Lsd
