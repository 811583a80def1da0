import Lsd.Boot.Halves
import Lsd.Verif.PageTree

/-!
# The addresses of the kernel arenas

The range for the lower half reaches up to the direct map, far past the
addresses that the lower half of a root table can name. For the upper half each
range begins at the last byte of its slot, since the index is set in a word of
all ones.
-/

namespace Lsd

open Program

variable {V : Type} {halves : Halves V} {level : PageLevel} {hhdm : UInt64} {s : Boot V}

/-- An address that the hardware takes: the bits above the top index repeat its highest bit. -/
def Canonical (level : PageLevel) (address : VirtualAddress) : Prop :=
  address.toNat < 2 ^ (pageBits (level.asUsize + 1) - 1) ∨
    2 ^ 64 - 2 ^ (pageBits (level.asUsize + 1) - 1) ≤ address.toNat

/-- Where the slot of an index of the upper half begins. -/
def slotBase (level : PageLevel) (index : Nat) : Nat :=
  2 ^ 64 - (512 - index) * 2 ^ pageBits level.asUsize

/-- Every address of the ranges is canonical, with a top index in the lower half of the root. -/
def LowerSound (level : PageLevel) (ranges : List (UInt64 × UInt64)) : Prop :=
  ∀ range ∈ ranges, ∀ address : VirtualAddress, range.1 ≤ address →
    address.toNat < range.1.toNat + range.2.toNat →
      Canonical level address ∧ (address.index level).toNat < 256

/-- The ranges are the slots of the upper half that are not in use. -/
structure HigherSound (level : PageLevel) (used : Nat → Bool) (ranges : List (UInt64 × UInt64)) :
    Prop where
  /-- They are the slots whose entries are invalid. -/
  slots : ∀ base size : UInt64, (base, size) ∈ ranges ↔
    ∃ index, 256 ≤ index ∧ index < 512 ∧ used index = false ∧
      base.toNat = slotBase level index ∧ size.toNat = 2 ^ pageBits level.asUsize
  /-- They do not touch a slot whose entry is valid. -/
  apart : ∀ range ∈ ranges, ∀ index, 256 ≤ index → index < 512 → used index = true →
    range.1.toNat + range.2.toNat ≤ slotBase level index ∨
      slotBase level index + 2 ^ pageBits level.asUsize ≤ range.1.toNat
  /-- They end within the address space. -/
  inside : ∀ range ∈ ranges, range.1.toNat + range.2.toNat ≤ 2 ^ 64

/-- What the arenas are told to hold: a range that is added is appended to those of its arena. -/
def Halves.Adds (halves : Halves V) (ranges : V → Half → List (UInt64 × UInt64)) : Prop :=
  ∀ half base size arenas, ∃ later, (halves.add half base size).run arenas = (.ok (.ok ()), later) ∧
    ranges later = Function.update (ranges arenas) half (ranges arenas half ++ [(base, size)])

/-- Whether the root table uses a slot. -/
def Boot.used (s : Boot V) (hhdm : UInt64) (index : Nat) : Bool :=
  PageEntry.getValid (s.memory (wordOf (currentTable hhdm s.satp) index))

/-- The range that the loop adds for a slot. -/
def seededRange (level : PageLevel) (index : Nat) : UInt64 × UInt64 :=
  (VirtualAddress.setIndex 0xffffffffffffffff level (UInt64.ofNat index), level.asPageSize.bytes)

/-- The levels that a root table can have. -/
theorem PageLevel.deep_cases (deep : 3 ≤ level.asUsize) :
    level = .level3 ∨ level = .level4 ∨ level = .level5 := by
  cases level <;> simp_all [asUsize]

/-- The range for a slot begins at the last byte of the slot. -/
theorem toNat_seededRange (deep : 3 ≤ level.asUsize) {index : Nat} (bound : index < 512) :
    (seededRange level index).1.toNat =
      slotBase level index + (2 ^ pageBits level.asUsize - 1) := by
  have number : (UInt64.ofNat index).toNat = index := by
    rw [UInt64.toNat_ofNat']
    omega
  rcases PageLevel.deep_cases deep with rfl | rfl | rfl <;>
  · simp only [seededRange, VirtualAddress.setIndex, setBits, UInt64.toNat_ofNat', number, slotBase,
      PageLevel.asUsize, pageBits, UInt64.reduceToNat]
    omega

/-- The number of the first address of a slot of the upper half. -/
theorem toNat_slotBase (deep : 3 ≤ level.asUsize) {index : Nat} (high : index < 512) :
    (UInt64.ofNat (slotBase level index)).toNat = slotBase level index := by
  rw [UInt64.toNat_ofNat']
  rcases PageLevel.deep_cases deep with rfl | rfl | rfl <;>
  · simp only [slotBase, PageLevel.asUsize, pageBits]
    omega

/-- The size of a slot. -/
theorem toNat_asPageSize (deep : 3 ≤ level.asUsize) :
    level.asPageSize.bytes.toNat = 2 ^ pageBits level.asUsize := by
  rcases PageLevel.deep_cases deep with rfl | rfl | rfl <;> rfl

/-- No slot begins at the last byte of another. -/
theorem slotBase_ne (deep : 3 ≤ level.asUsize) {index other : Nat} (bound : other < 512) :
    slotBase level index ≠ slotBase level other + (2 ^ pageBits level.asUsize - 1) := by
  rcases PageLevel.deep_cases deep with rfl | rfl | rfl <;>
  · simp only [slotBase, PageLevel.asUsize, pageBits]
    omega

/-- A range is added to its arena. -/
theorem addRange_run {ranges : V → Half → List (UInt64 × UInt64)} (adds : halves.Adds ranges)
    (half : Half) (base size : UInt64) (s : Boot V) :
    ∃ arenas, (addRange halves half base size).run s = (.ok (), { s with arenas := arenas }) ∧
      ranges arenas = Function.update (ranges s.arenas) half
        (ranges s.arenas half ++ [(base, size)]) := by
  obtain ⟨later, ran, added⟩ := adds half base size s.arenas
  refine ⟨later, ?_, added⟩
  rw [addRange, Prog.run_bind_ok (Prog.run_within ran)]
  rfl

/-- The loop adds a range for each slot that is not in use. -/
theorem seedSlots_run {ranges : V → Half → List (UInt64 × UInt64)} (adds : halves.Adds ranges) :
    ∀ (indices : List Nat) (s : Boot V), ∃ arenas,
      (indices.forM (seedSlot halves hhdm level.asUsize)).run s =
        (.ok (), { s with arenas := arenas }) ∧
      ranges arenas = Function.update (ranges s.arenas) .higher (ranges s.arenas .higher ++
        (indices.filter fun index => !s.used hhdm index).map (seededRange level)) := by
  intro indices
  induction indices with
  | nil =>
    intro s
    refine ⟨s.arenas, rfl, ?_⟩
    rw [List.filter_nil, List.map_nil, List.append_nil, Function.update_eq_self]
  | cons index indices ih =>
    intro s
    have first : ∃ arenas, (seedSlot halves hhdm level.asUsize index).run s =
        (.ok (), { s with arenas := arenas }) ∧
        ranges arenas = Function.update (ranges s.arenas) .higher (ranges s.arenas .higher ++
          ([index].filter fun index => !s.used hhdm index).map (seededRange level)) := by
      have read : (Prog.read fun s : Boot V =>
          s.memory (wordOf (currentTable hhdm s.satp) index)).run s =
            ((.ok (s.memory (wordOf (currentTable hhdm s.satp) index)) :
              Except Stop PageEntry), s) := rfl
      cases used : s.used hhdm index with
      | true =>
        refine ⟨s.arenas, ?_, ?_⟩
        · rw [seedSlot, Prog.run_bind_ok read]
          exact Prog.run_only_neg (by simpa [Boot.used] using used) _ s
        · rw [List.filter_cons_of_neg (by simp [used]), List.filter_nil, List.map_nil,
            List.append_nil, Function.update_eq_self]
      | false =>
        obtain ⟨arenas, ran, added⟩ := addRange_run adds .higher (seededRange level index).1
          (seededRange level index).2 s
        refine ⟨arenas, ?_, ?_⟩
        · rw [seedSlot, Prog.run_bind_ok read, PageLevel.fromUsize_asUsize]
          exact (Prog.run_only_pos (by simpa [Boot.used] using used) _ s).trans ran
        · rw [List.filter_cons_of_pos (by simp [used]), List.filter_nil]
          exact added
    obtain ⟨arenas, ran, added⟩ := first
    obtain ⟨last, rest, all⟩ := ih { s with arenas := arenas }
    refine ⟨last, (Prog.run_bind_ok ran).trans rest, ?_⟩
    have same : (fun index => !Boot.used { s with arenas := arenas } hhdm index) =
        fun index => !s.used hhdm index := rfl
    rw [all, added, same, Function.update_idem, Function.update_self, List.append_assoc,
      ← List.map_append, ← List.filter_append]
    rfl

/-- The slots of the upper half that the root table does not use. -/
def Boot.free (s : Boot V) (hhdm : UInt64) : List Nat :=
  (List.range' 256 256).filter fun index => !s.used hhdm index

/-- `init` adds one range below the direct map, and one for each free slot of the upper half. -/
theorem seedHalves_run {ranges : V → Half → List (UInt64 × UInt64)} (adds : halves.Adds ranges)
    (hhdmStart : UInt64) (empty : ∀ half, ranges s.arenas half = []) :
    ∃ arenas, (seedHalves halves hhdm hhdmStart level.asUsize).run s =
        (.ok (), { s with arenas := arenas }) ∧
      ranges arenas .lower = [(0x1000, hhdmStart - 0x1001)] ∧
      ranges arenas .higher = (s.free hhdm).map (seededRange level) := by
  obtain ⟨middle, ran, added⟩ := addRange_run adds .lower 0x1000 (hhdmStart - 0x1001) s
  obtain ⟨last, rest, all⟩ := @seedSlots_run _ halves level hhdm ranges adds (List.range' 256 256)
    { s with arenas := middle }
  refine ⟨last, (Prog.run_bind_ok ran).trans rest, ?_, ?_⟩
  · rw [all, added, Function.update_of_ne (by decide), Function.update_self, empty]
    rfl
  · rw [all, added, Function.update_self, Function.update_of_ne (by decide), empty]
    rfl

/-- The range for the lower half holds an address whose top index is in the upper half. -/
theorem lower_unsound (deep : 3 ≤ level.asUsize) :
    ¬ LowerSound level [(0x1000, (PageType.fromLevels level).hhdmOffset - 0x1001)] := by
  intro sound
  have outside : ∃ address : VirtualAddress, (0x1000 : UInt64) ≤ address ∧
      address.toNat < (0x1000 : UInt64).toNat +
        ((PageType.fromLevels level).hhdmOffset - 0x1001).toNat ∧
      256 ≤ (address.index level).toNat := by
    rcases PageLevel.deep_cases deep with rfl | rfl | rfl
    · exact ⟨0x4000000000, by decide, by decide, by decide⟩
    · exact ⟨0x800000000000, by decide, by decide, by decide⟩
    · exact ⟨0x100000000000000, by decide, by decide, by decide⟩
  obtain ⟨address, low, high, upper⟩ := outside
  have lower := (sound _ List.mem_cons_self address low high).2
  omega

/-- The ranges for the upper half are the free slots only when there are none. -/
theorem higher_sound_iff (deep : 3 ≤ level.asUsize) :
    HigherSound level (s.used hhdm) ((s.free hhdm).map (seededRange level)) ↔
      ∀ index, 256 ≤ index → index < 512 → s.used hhdm index = true := by
  constructor
  · intro sound index low high
    by_contra free
    rw [Bool.not_eq_true] at free
    have slot := (sound.slots (UInt64.ofNat (slotBase level index)) level.asPageSize.bytes).mpr
      ⟨index, low, high, free, toNat_slotBase deep high, toNat_asPageSize deep⟩
    obtain ⟨other, member, same⟩ := List.mem_map.mp slot
    have bound : other < 512 := by
      have := List.mem_range'_1.mp (List.mem_of_mem_filter member)
      omega
    have clash := toNat_seededRange deep bound
    rw [same, toNat_slotBase deep high] at clash
    -- the range begins at the last byte of a slot, and a slot at its first
    exact slotBase_ne deep bound clash
  · intro all
    have nothing : s.free hhdm = [] := by
      rw [Boot.free, List.filter_eq_nil_iff]
      intro index member
      have := List.mem_range'_1.mp member
      simp [all index (by omega) (by omega)]
    rw [nothing]
    refine ⟨fun base size => ⟨fun member => (nomatch member), ?_⟩,
      fun range member => (nomatch member), fun range member => (nomatch member)⟩
    rintro ⟨index, low, high, free, -⟩
    rw [all index low high] at free
    cases free

/-- What `init` gives to the arenas, for any root table and at any depth: the range for the lower
half is never sound, and those for the upper half are sound only when no slot of it is free. -/
theorem seedHalves_never_sound {ranges : V → Half → List (UInt64 × UInt64)}
    (adds : halves.Adds ranges) (deep : 3 ≤ level.asUsize)
    (empty : ∀ half, ranges s.arenas half = []) :
    ∃ later, (seedHalves halves hhdm (PageType.fromLevels level).hhdmOffset level.asUsize).run s =
        (.ok (), later) ∧
      ¬ LowerSound level (ranges later.arenas .lower) ∧
      (HigherSound level (s.used hhdm) (ranges later.arenas .higher) ↔
        ∀ index, 256 ≤ index → index < 512 → s.used hhdm index = true) := by
  obtain ⟨arenas, ran, lower, higher⟩ := @seedHalves_run _ halves level hhdm s ranges adds
    (PageType.fromLevels level).hhdmOffset empty
  refine ⟨_, ran, ?_, ?_⟩
  · rw [lower]
    exact lower_unsound deep
  · rw [higher]
    exact higher_sound_iff deep

section Sample

/-- Arenas that remember what was added. -/
def recordingHalves : Halves (Half → List (UInt64 × UInt64)) :=
  ⟨fun half base size => do
    Prog.update fun ranges => Function.update ranges half (ranges half ++ [(base, size)])
    pure (.ok ())⟩

/-- They hold what was added. -/
theorem recordingHalves_adds : recordingHalves.Adds id := fun _ _ _ _ => ⟨_, rfl, rfl⟩

/-- A root table without entries, at three levels. -/
def bootEmpty : Boot (Half → List (UInt64 × UInt64)) := ⟨fun _ => 0, 0, fun _ => []⟩

/-- A root table without entries, at three levels: nothing that the arenas get is sound. -/
theorem seedHalves_never_sound_empty :
    ∃ later, (seedHalves recordingHalves 0xffffffc000000000 0xffffffc000000000 3).run bootEmpty =
        (.ok (), later) ∧
      ¬ LowerSound .level3 (later.arenas .lower) ∧
      ¬ HigherSound .level3 (bootEmpty.used 0xffffffc000000000) (later.arenas .higher) := by
  obtain ⟨later, ran, lower, higher⟩ := @seedHalves_never_sound _ recordingHalves .level3
    0xffffffc000000000 bootEmpty id recordingHalves_adds (by decide) fun _ => rfl
  refine ⟨later, ran, lower, fun sound => ?_⟩
  exact absurd (higher.mp sound 256 (by decide) (by decide)) (by decide)

/-- A root table without entries, at three levels: the range for the lower half holds the address
2^38, whose top index is 256, and the range for the last slot begins at the last byte of the address
space and runs past its end. -/
theorem seedHalves_runs_past :
    ∃ later, (seedHalves recordingHalves 0xffffffc000000000 0xffffffc000000000 3).run bootEmpty =
        (.ok (), later) ∧
      (later.arenas .lower = [(0x1000, 0xffffffbfffffefff)] ∧
        (VirtualAddress.index 0x4000000000 .level3).toNat = 256) ∧
      (0xffffffffffffffff, 0x40000000) ∈ later.arenas .higher ∧
      ¬ HigherSound .level3 (bootEmpty.used 0xffffffc000000000) (later.arenas .higher) := by
  obtain ⟨arenas, ran, lower, higher⟩ := @seedHalves_run _ recordingHalves .level3
    0xffffffc000000000 bootEmpty id recordingHalves_adds 0xffffffc000000000 fun _ => rfl
  have last : (0xffffffffffffffff, 0x40000000) ∈ arenas .higher := by
    rw [show arenas .higher = _ from higher]
    refine List.mem_map.mpr ⟨511, List.mem_filter.mpr ⟨?_, by decide⟩, by decide⟩
    exact List.mem_range'_1.mpr ⟨by decide, by decide⟩
  refine ⟨_, ran, ⟨lower, by decide⟩, last, fun sound => ?_⟩
  exact absurd (sound.inside _ last) (by decide)

end Sample

end Lsd
