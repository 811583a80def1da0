import Lsd.Memory.MemoryMap
import Lsd.Verif.FrameSupply

/-!
# The frame list of a memory map

`pmm::init` lists the frames of all usable entries, entry after entry and
upwards inside each. The invariant of both loops says that the frames so far are
the list: none, and the next frame starts it, or a well-formed list, and the next
frame is pushed.
-/

namespace Lsd

open Program Linked

/-- A usable entry that the direct map covers in whole frames. -/
structure MemoryEntry.Mapped (hhdm : UInt64) (entry : MemoryEntry) : Prop where
  /-- It starts at a frame. -/
  base : entry.base % 4096 = 0
  /-- It ends at a frame. -/
  size : entry.size % 4096 = 0
  /-- Its addresses in the direct map are addresses. -/
  inMap : hhdm.toNat + entry.base.toNat + entry.size.toNat ≤ 2 ^ 64
  /-- It does not start at the null pointer. -/
  nonnull : 0 < hhdm.toNat + entry.base.toNat

/-- The physical addresses of an entry. -/
def MemoryEntry.Covers (entry : MemoryEntry) (address : Nat) : Prop :=
  entry.base.toNat ≤ address ∧ address < entry.base.toNat + entry.size.toNat

/-- The entries that `pmm::init` takes. -/
def usableEntries (map : List MemoryEntry) : List MemoryEntry :=
  map.filter fun entry => entry.kind = .usable

/-- The frames of an entry in the direct map, upwards. -/
def MemoryEntry.mapFrames (hhdm : UInt64) (entry : MemoryEntry) : List UInt64 :=
  framesFrom (entry.base + hhdm) (entry.size.toNat / 4096)

/-- The frames of the usable entries, in the order of the map. -/
def usableFrames (hhdm : UInt64) (map : List MemoryEntry) : List UInt64 :=
  (usableEntries map).flatMap (·.mapFrames hhdm)

namespace FreeList

variable {hhdm new : UInt64} {uninit : Bool} {s : Pmm} {frames : List UInt64}

/-- The frames so far are the list, and `uninit` tells whether there are none. -/
structure Listing (uninit : Bool) (frames : List UInt64) (s : Pmm) : Prop where
  /-- The flag is set as long as no frame is listed. -/
  flag : uninit = frames.isEmpty
  /-- Then the list is well formed. -/
  holds : frames ≠ [] → s.Holds frames

/-- The first frame becomes the whole list. -/
theorem init_spec (frame : IsFrame new) :
    ∃ s', (init new).run s = (.ok (), s') ∧ s'.Holds [new] := by
  refine ⟨⟨⟨new, new, 1⟩, (s.memory.store new 0).store (new + 8) 0⟩, ?_, ?_⟩
  · rw [init, Prog.run_bind_ok (run_storePrev frame.nonzero),
      Prog.run_bind_ok (run_storeNext frame.nonzero), run_assign]
  · have apart : new ≠ new + 8 := IsFrame.ne_next frame.aligned frame.aligned
    refine ⟨?_, rfl, rfl, ⟨?_, ?_, trivial⟩, rfl⟩
    · exact List.forall_mem_singleton.mpr frame
    · change ((s.memory.store new 0).store (new + 8) 0) new = 0
      rw [Memory.store, Function.update_of_ne apart, Memory.store, Function.update_self]
    · exact Function.update_self _ _ _

/-- One more frame is listed. -/
theorem initFrame_spec (listing : Listing uninit frames s) (frame : IsFrame new)
    (inMap : hhdm ≤ new)
    (fresh : new ∉ frames) :
    ∃ s', (initFrame hhdm uninit new).run s = (.ok false, s') ∧
      Listing false (frames ++ [new]) s' := by
  cases frames with
  | nil =>
    obtain ⟨s', ran, holds⟩ := init_spec (s := s) frame
    rw [listing.flag]
    exact ⟨s', Prog.run_bind_ok ran, rfl, fun _ => holds⟩
  | cons first rest =>
    obtain ⟨s', ran, holds, -⟩ := push_spec (listing.holds (List.cons_ne_nil _ _)) frame inMap fresh
    rw [listing.flag]
    exact ⟨s', Prog.run_bind_ok ran, rfl, fun _ => holds⟩

/-- More frames are listed one after the other. -/
theorem initFrames_spec {news : List UInt64} (listing : Listing uninit frames s)
    (isFrame : ∀ new ∈ news, IsFrame new ∧ hhdm ≤ new) (distinct : (frames ++ news).Nodup) :
    ∃ uninit' s', (news.foldlM (initFrame hhdm) uninit).run s = (.ok uninit', s') ∧
      Listing uninit' (frames ++ news) s' := by
  induction news generalizing frames uninit s with
  | nil => exact ⟨uninit, s, rfl, by simpa using listing⟩
  | cons new news ih =>
    obtain ⟨frame, inMap⟩ := isFrame new List.mem_cons_self
    have fresh : new ∉ frames := fun listed =>
      (List.nodup_append.mp distinct).2.2 new listed new List.mem_cons_self rfl
    obtain ⟨s', ran, listing'⟩ := initFrame_spec listing frame inMap fresh
    have same : frames ++ [new] ++ news = frames ++ new :: news := by simp
    obtain ⟨uninit', s'', ran', rest⟩ := ih listing'
      (fun other member => isFrame other (List.mem_cons_of_mem _ member)) (same ▸ distinct)
    exact ⟨uninit', s'', (Prog.run_bind_ok ran).trans ran', same ▸ rest⟩

end FreeList

/-- The frames of a run, by their numbers. -/
theorem framesFrom_eq_map (base : UInt64) (count : Nat) :
    framesFrom base count = (List.range count).map fun step =>
      base + UInt64.ofNat (step * 4096) := by
  induction count with
  | zero => rfl
  | succ count ih => rw [framesFrom_add, ih, List.range_succ, List.map_append]; rfl

namespace MemoryEntry

variable {hhdm : UInt64} {entry : MemoryEntry}

/-- The loop over an entry has a round for each of its frames. -/
theorem Mapped.frames (mapped : entry.Mapped hhdm) : entry.frames = entry.size.toNat / 4096 := by
  have whole := aligned_toNat mapped.size
  rw [MemoryEntry.frames]
  omega

/-- The number of an address of an entry in the direct map. -/
theorem Mapped.toNat_frame (mapped : entry.Mapped hhdm) {step : Nat}
    (inside : step < entry.size.toNat / 4096) :
    (entry.base + hhdm + UInt64.ofNat (step * 4096)).toNat =
      hhdm.toNat + entry.base.toNat + step * 4096 := by
  have inMap := mapped.inMap
  rw [UInt64.toNat_add, UInt64.toNat_add, UInt64.toNat_ofNat']
  omega

/-- The frames of an entry are frames of the direct map. -/
theorem Mapped.isFrame (mapped : entry.Mapped hhdm) (mapAligned : hhdm % 4096 = 0) {frame : UInt64}
    (member : frame ∈ entry.mapFrames hhdm) : IsFrame frame ∧ hhdm ≤ frame := by
  obtain ⟨step, inside, rfl⟩ := mem_framesFrom.mp member
  have number := mapped.toNat_frame inside
  have nonnull := mapped.nonnull
  have baseAligned := aligned_toNat mapped.base
  have startAligned := aligned_toNat mapAligned
  refine ⟨⟨fun null => ?_, ?_⟩, ?_⟩
  · have zero := congrArg UInt64.toNat null
    rw [number] at zero
    change _ = 0 at zero
    omega
  · rw [← UInt64.toNat_inj, UInt64.toNat_mod, number]
    change _ % 4096 = 0
    omega
  · rw [UInt64.le_iff_toNat_le, number]
    omega

/-- The frames of an entry lie at its addresses. -/
theorem Mapped.covers (mapped : entry.Mapped hhdm) {frame : UInt64}
    (member : frame ∈ entry.mapFrames hhdm) : entry.Covers (frame.toNat - hhdm.toNat) := by
  obtain ⟨step, inside, rfl⟩ := mem_framesFrom.mp member
  rw [mapped.toNat_frame inside, Covers]
  omega

/-- The frames of an entry are distinct. -/
theorem Mapped.nodup (mapped : entry.Mapped hhdm) : (entry.mapFrames hhdm).Nodup := by
  rw [mapFrames, framesFrom_eq_map]
  refine List.Nodup.map_on (fun first one second two same => ?_) List.nodup_range
  have left := mapped.toNat_frame (List.mem_range.mp one)
  have right := mapped.toNat_frame (List.mem_range.mp two)
  rw [same, right] at left
  omega

end MemoryEntry

namespace FreeList

variable {hhdm : UInt64} {uninit : Bool} {s : Pmm} {frames : List UInt64} {map : List MemoryEntry}

/-- The frames of entries that cover no common address are distinct. -/
theorem usableFrames_nodup (mapped : ∀ entry ∈ usableEntries map, entry.Mapped hhdm)
    (disjoint : (usableEntries map).Pairwise fun first second =>
      ∀ address, first.Covers address → ¬ second.Covers address) :
    (usableFrames hhdm map).Nodup := by
  refine List.nodup_flatMap.mpr ⟨fun entry member => (mapped entry member).nodup, ?_⟩
  refine disjoint.imp_of_mem fun {first second} one two apart => ?_
  intro frame left right
  exact apart _ ((mapped first one).covers left) ((mapped second two).covers right)

/-- The loop over the map lists the frames of its usable entries. -/
theorem initEntries_spec (mapAligned : hhdm % 4096 = 0)
    (mapped : ∀ entry ∈ usableEntries map, entry.Mapped hhdm) (listing : Listing uninit frames s)
    (distinct : (frames ++ usableFrames hhdm map).Nodup) :
    ∃ uninit' s', (map.foldlM (initEntry hhdm) uninit).run s = (.ok uninit', s') ∧
      Listing uninit' (frames ++ usableFrames hhdm map) s' := by
  induction map generalizing frames uninit s with
  | nil => exact ⟨uninit, s, rfl, by simpa [usableFrames, usableEntries] using listing⟩
  | cons entry map ih =>
    rw [List.foldlM_cons]
    by_cases usable : entry.kind = .usable
    · have taken : usableEntries (entry :: map) = entry :: usableEntries map :=
        List.filter_cons_of_pos (decide_eq_true usable)
      have listed : usableFrames hhdm (entry :: map) =
          entry.mapFrames hhdm ++ usableFrames hhdm map := by
        rw [usableFrames, taken, List.flatMap_cons]
        rfl
      have here := mapped entry (taken ▸ List.mem_cons_self)
      have round : initEntry hhdm uninit entry =
          (entry.mapFrames hhdm).foldlM (initFrame hhdm) uninit := by
        rw [initEntry, if_pos usable, MemoryEntry.mapFrames, framesFrom_eq_map, List.foldlM_map,
          here.frames]
      rw [listed, ← List.append_assoc] at distinct ⊢
      obtain ⟨uninit₁, s₁, ran, first⟩ := initFrames_spec listing
        (fun new member => here.isFrame mapAligned member) (List.nodup_append.mp distinct).1
      obtain ⟨uninit₂, s₂, ran', rest⟩ := ih
        (fun other member => mapped other (taken ▸ List.mem_cons_of_mem entry member))
          first distinct
      refine ⟨uninit₂, s₂, ?_, rest⟩
      rw [round]
      exact (Prog.run_bind_ok ran).trans ran'
    · have passed : usableEntries (entry :: map) = usableEntries map :=
        List.filter_cons_of_neg (by simpa using usable)
      have listed : usableFrames hhdm (entry :: map) = usableFrames hhdm map := by
        rw [usableFrames, passed]
        rfl
      have round : initEntry hhdm uninit entry = pure uninit := if_neg usable
      rw [listed] at distinct ⊢
      obtain ⟨uninit', s', ran, rest⟩ := ih (passed ▸ mapped) listing distinct
      refine ⟨uninit', s', ?_, rest⟩
      rw [round]
      exact (Prog.run_bind_ok (Prog.run_pure _ _)).trans ran

/-- For a memory map whose usable entries are whole frames of the direct map and cover no common
address, with at least one frame in all, `pmm::init` leaves a well-formed list of exactly the frames
of its usable entries, each once, in the order of the map and upwards inside each entry. -/
theorem initMap_lists (s : Pmm) (mapAligned : hhdm % 4096 = 0)
    (mapped : ∀ entry ∈ usableEntries map, entry.Mapped hhdm)
    (disjoint : (usableEntries map).Pairwise fun first second =>
      ∀ address, first.Covers address → ¬ second.Covers address)
    (nonempty : ∃ entry ∈ usableEntries map, entry.size ≠ 0) :
    ∃ s', (initMap hhdm map).run s = (.ok (), s') ∧ s'.Holds (usableFrames hhdm map) ∧
      (usableFrames hhdm map).Nodup := by
  have distinct := usableFrames_nodup mapped disjoint
  obtain ⟨uninit, s', ran, listing⟩ := @initEntries_spec hhdm true s [] map mapAligned mapped
    ⟨rfl, fun none => absurd rfl none⟩ (by simpa using distinct)
  refine ⟨s', Prog.run_bind_ok ran, listing.holds ?_, distinct⟩
  obtain ⟨entry, member, positive⟩ := nonempty
  have whole := aligned_toNat (mapped entry member).size
  have bytes : entry.size.toNat ≠ 0 := fun zero => positive (UInt64.toNat_inj.mp zero)
  have first : entry.base + hhdm + UInt64.ofNat (0 * 4096) ∈ entry.mapFrames hhdm :=
    mem_framesFrom.mpr ⟨0, by omega, rfl⟩
  exact List.ne_nil_of_mem (List.mem_flatMap.mpr ⟨entry, member, first⟩)

/-- A map with two usable entries, an empty one, and an entry of another kind between them. -/
def sampleEntries : List MemoryEntry :=
  [⟨0x1000, 0, .usable⟩, ⟨0x80000000, 0x2000, .usable⟩, ⟨0x80002000, 0x1000, .other 1⟩,
    ⟨0x80003000, 0x1000, .usable⟩]

/-- The frames of the map are listed. -/
theorem initMap_lists_sample :
    ∃ s', (initMap sampleMap sampleEntries).run ⟨null, fun _ => 0⟩ = (.ok (), s') ∧
      s'.Holds (usableFrames sampleMap sampleEntries) := by
  have usable : usableEntries sampleEntries = [⟨0x1000, 0, .usable⟩, ⟨0x80000000, 0x2000, .usable⟩,
      ⟨0x80003000, 0x1000, .usable⟩] := rfl
  have mapped : ∀ entry ∈ usableEntries sampleEntries, entry.Mapped sampleMap := by
    rw [usable]
    intro entry member
    simp only [List.mem_cons, List.not_mem_nil, or_false] at member
    rcases member with rfl | rfl | rfl <;> exact ⟨by decide, by decide, by decide, by decide⟩
  have disjoint : (usableEntries sampleEntries).Pairwise fun first second =>
      ∀ address, first.Covers address → ¬ second.Covers address := by
    have numbers : (0x1000 : UInt64).toNat = 0x1000 ∧ (0x80000000 : UInt64).toNat = 0x80000000 ∧
        (0x80003000 : UInt64).toNat = 0x80003000 ∧ (0x2000 : UInt64).toNat = 0x2000 ∧
        (0 : UInt64).toNat = 0 := ⟨rfl, rfl, rfl, rfl, rfl⟩
    rw [usable]
    simp only [List.pairwise_cons, List.mem_cons, List.not_mem_nil, or_false, MemoryEntry.Covers]
    refine ⟨?_, ?_, fun _ none => none.elim, List.Pairwise.nil⟩
    · rintro second (rfl | rfl) address covers <;> simp only [numbers] at covers ⊢ <;> omega
    · rintro second rfl address covers
      simp only [numbers] at covers ⊢
      omega
  have nonempty : ∃ entry ∈ usableEntries sampleEntries, entry.size ≠ 0 :=
    ⟨⟨0x80000000, 0x2000, .usable⟩, by rw [usable]; simp, by decide⟩
  obtain ⟨s', ran, holds, -⟩ := initMap_lists ⟨null, fun _ => 0⟩ (by decide) mapped
    disjoint nonempty
  exact ⟨s', ran, holds⟩

end FreeList

end Lsd
