import Lsd.Verif.HeapSafety

/-!
# First fit

Which region an allocation takes, said in numbers: the first one in the list in
which the aligned block fits with nothing behind it or with room for a node. The
other regions keep their order and their sizes, and an allocation that no region
can serve leaves the list as it is. A region serves only blocks inside itself
unless the alignment of its start wraps around the address space.
-/

namespace Lsd

open Program

namespace Layout

variable (layout : Layout)

/-- The alignment of a block, which a node needs as well. -/
def blockAlign : Nat := max layout.align 8

/-- The size of a block: whole multiples of the alignment, and room for a node. -/
def blockSize : Nat :=
  max ((layout.size + layout.blockAlign - 1) / layout.blockAlign * layout.blockAlign) 16

/-- Where a block starts in a region. -/
def blockStart (region : Span) : Nat :=
  (region.start + layout.blockAlign - 1) / layout.blockAlign * layout.blockAlign

/-- The block fits in a region with nothing behind it, or with room for a node. -/
def Qualifies (region : Span) : Prop :=
  layout.blockStart region + layout.blockSize = region.stop ∨
    layout.blockStart region + layout.blockSize + 16 ≤ region.stop

/-- A block in a region. -/
def block (region : Span) : Span := ⟨layout.blockStart region, layout.blockSize⟩

/-- The size of a layout can be padded to the alignment of a block. -/
def Adjustable : Prop := layout.size + layout.blockAlign ≤ 2 ^ 63

end Layout

namespace LinkedListAllocator

variable {s : LinkedListAllocator} {layout : Layout} {size align node start : UInt64}
  {nodes : List UInt64}

/-- The greater of a power of two and 8 is a power of two. -/
theorem power_max {number : Nat} (power : isPowerOfTwo number = true) :
    isPowerOfTwo (max number 8) = true := by
  rcases Nat.le_total number 8 with less | more
  · rw [Nat.max_eq_right less]
    decide
  · rw [Nat.max_eq_left more]
    exact power

/-- What `size_align` makes of a layout, in numbers. -/
theorem adjusted_toNat (fits : adjusted layout = some (size, align)) :
    layout.Adjustable ∧ size.toNat = layout.blockSize ∧ align.toNat = layout.blockAlign := by
  obtain ⟨grown, aligned, pair⟩ := Option.map_eq_some_iff.mp fits
  obtain ⟨rfl, rfl⟩ := Prod.mk.inj pair
  rw [Layout.alignTo, Layout.fromSizeAlign] at aligned
  split at aligned
  · next fine =>
    obtain rfl := Option.some.inj aligned
    refine ⟨fine.2, ?_, Layout.align_toNat _⟩
    exact Layout.paddedSize_toNat _ (Nat.lt_of_lt_of_le (by decide) (Nat.le_max_right _ _))
  · cases aligned

/-- `size_align` fails for a layout that is not adjustable. -/
theorem adjusted_eq_none_iff : adjusted layout = none ↔ ¬ layout.Adjustable := by
  rw [adjusted, Option.map_eq_none_iff, Layout.alignTo, Layout.fromSizeAlign]
  have power : isPowerOfTwo (max layout.align nodeAlign.toNat) = true := power_max layout.power
  constructor
  · intro none adjustable
    rw [dif_pos ⟨power, adjustable⟩] at none
    cases none
  · intro large
    exact dif_neg fun fine => large fine.2

section Region

variable (fits : adjusted layout = some (size, align))
  (straight : node.toNat + layout.blockAlign ≤ 2 ^ 64)
include fits straight

/-- The start of a block in a region, in numbers. -/
theorem alignUp_blockStart : (alignUp node align).toNat = layout.blockStart (s.free node) := by
  obtain ⟨exponent, -, -, power⟩ := (Fitted.of_adjusted fits).power
  have same : 2 ^ exponent = layout.blockAlign := power.symm.trans (adjusted_toNat fits).2.2
  have positive : 0 < layout.blockAlign := same ▸ Nat.two_pow_pos exponent
  rw [alignUp_toNat power, same, Layout.blockStart]
  change (node.toNat + _ - 1) % _ / _ * _ = (node.toNat + _ - 1) / _ * _
  rw [Nat.mod_eq_of_lt (by omega)]

/-- A region serves exactly when the block fits in it, and then at the start of the block. -/
theorem allocFromRegion_iff (inside : (s.free node).stop < 2 ^ 64) :
    s.allocFromRegion node size align = some start ↔
      layout.Qualifies (s.free node) ∧ start.toNat = layout.blockStart (s.free node) := by
  have begins := alignUp_blockStart (s := s) fits straight
  obtain ⟨-, sizeOf, -⟩ := adjusted_toNat fits
  have ends : (s.endAddr node).toNat = (s.free node).stop := by
    rw [endAddr, UInt64.toNat_add]
    exact Nat.mod_eq_of_lt inside
  constructor
  · intro serves
    obtain ⟨rfl, small, less, exact⟩ := allocFromRegion_eq_some serves
    rw [begins, sizeOf, ends] at exact
    exact ⟨exact, begins⟩
  · rintro ⟨qualifies, same⟩
    obtain rfl : alignUp node align = start := UInt64.toNat_inj.mp (begins.trans same.symm)
    refine allocFromRegion_of_fits ?_ rfl
    rw [begins, sizeOf, ends]
    exact qualifies

end Region

/-- A block starts inside its region. -/
theorem blockStart_le (layout : Layout) (region : Span) : region.start ≤ layout.blockStart region :=
  (padded_bounds (Nat.lt_of_lt_of_le (by decide) (Nat.le_max_right layout.align 8))).1

/-- Padding to the alignment keeps a block below what the alignment leaves of half the words. -/
theorem blockSize_le (adjustable : layout.Adjustable) :
    layout.blockSize ≤ max (2 ^ 63 - layout.blockAlign) 16 := by
  have power : 2 ^ layout.blockAlign.log2 = layout.blockAlign :=
    isPowerOfTwo_iff.mp (power_max layout.power)
  have positive : 0 < layout.blockAlign := power ▸ Nat.two_pow_pos _
  have fits : layout.size + layout.blockAlign ≤ 2 ^ 63 := adjustable
  have divides : layout.blockAlign ∣ 2 ^ 63 := by
    rw [← power]
    apply Nat.pow_dvd_pow 2
    rw [← Nat.pow_le_pow_iff_right Nat.one_lt_two, power]
    omega
  have padded := (padded_bounds positive : layout.size ≤ _ ∧ _).2
  refine max_le_max_right 16 (Nat.le_of_lt_add_of_dvd ?_ (Nat.dvd_mul_left _ _)
    (Nat.dvd_sub divides (Nat.dvd_refl _)))
  omega

section Bounds

variable (fits : adjusted layout = some (size, align)) (inside : (s.free node).stop < 2 ^ 64)
include fits

/-- An alignment that wraps around the address space ends at null. -/
theorem alignUp_wrapped (wraps : 2 ^ 64 < node.toNat + layout.blockAlign) :
    alignUp node align = 0 := by
  obtain ⟨exponent, -, -, power⟩ := (Fitted.of_adjusted fits).power
  have same : align.toNat = layout.blockAlign := (adjusted_toNat fits).2.2
  have bound := align.toNat_lt
  have small := node.toNat_lt
  apply UInt64.toNat_inj.mp
  rw [alignUp_toNat power, ← power, Nat.mod_eq_sub_mod (by omega), Nat.mod_eq_of_lt (by omega),
    Nat.div_eq_of_lt (by omega), Nat.zero_mul]
  rfl

include inside

/-- When the alignment wraps, a region is taken to serve a block at null. -/
theorem allocFromRegion_wrapped (wraps : 2 ^ 64 < node.toNat + layout.blockAlign) :
    s.allocFromRegion node size align = some 0 := by
  obtain ⟨adjustable, sizeOf, -⟩ := adjusted_toNat fits
  have ends : (s.endAddr node).toNat = (s.free node).stop := by
    rw [endAddr, UInt64.toNat_add]
    exact Nat.mod_eq_of_lt inside
  have above : node.toNat ≤ (s.free node).stop := Nat.le_add_right ..
  have sizes := blockSize_le adjustable
  refine allocFromRegion_of_fits (.inr ?_) (alignUp_wrapped fits wraps).symm
  rw [sizeOf, ends]
  change 0 + layout.blockSize + 16 ≤ _
  have fits : layout.size + layout.blockAlign ≤ 2 ^ 63 := adjustable
  omega

/-- A region serves only blocks inside itself exactly when the alignment of its start does not wrap
around the address space. -/
theorem serves_inside_iff :
    (∀ start, s.allocFromRegion node size align = some start →
      node.toNat ≤ start.toNat ∧ start.toNat + size.toNat ≤ (s.free node).stop) ↔
      node.toNat + layout.blockAlign ≤ 2 ^ 64 := by
  constructor
  · intro within
    by_contra wraps
    have low := (within 0 (allocFromRegion_wrapped fits inside (by omega))).1
    have aligned := (adjusted_toNat fits).2.2
    have bound := align.toNat_lt
    change node.toNat ≤ 0 at low
    omega
  · intro straight start serves
    obtain ⟨qualifies, begins⟩ := (allocFromRegion_iff fits straight inside).mp serves
    have sizeOf := (adjusted_toNat fits).2.1
    have low : node.toNat ≤ layout.blockStart (s.free node) := blockStart_le layout (s.free node)
    rw [begins, sizeOf]
    refine ⟨low, ?_⟩
    rcases qualifies with exact | more
    · exact exact.le
    · omega

end Bounds

/-- A page, aligned to a page. -/
def pageLayout : Layout := ⟨4096, 4096, by decide, by decide⟩

/-- A heap in the last page of the address space. -/
def topHeap : LinkedListAllocator :=
  ⟨0xfffffffffffff010, (HeapRun.blank.store 0xfffffffffffff010 0xfd0).store 0xfffffffffffff018 0⟩

/-- A block of three words stays in a region of a small heap. -/
theorem serves_inside_small :
    HeapRun.smallHeap.allocFromRegion 4096 24 8 = some 4096 ∧
      ∀ start, HeapRun.smallHeap.allocFromRegion 4096 24 8 = some start →
        (4096 : UInt64).toNat ≤ start.toNat ∧
          start.toNat + (24 : UInt64).toNat ≤ (HeapRun.smallHeap.free 4096).stop :=
  ⟨by decide +kernel, (@serves_inside_iff HeapRun.smallHeap HeapRun.threeWords 24 8 4096
    (by decide +kernel) (by decide +kernel)).mpr (by decide)⟩

/-- In the last page of the address space there is no room for an aligned page, and a block at null
is served. -/
theorem serves_outside :
    adjusted pageLayout = some (4096, 4096) ∧
      topHeap.free 0xfffffffffffff010 = ⟨2 ^ 64 - 4080, 4048⟩ ∧
      topHeap.allocFromRegion 0xfffffffffffff010 4096 4096 = some 0 ∧
      ¬ (0xfffffffffffff010 : UInt64).toNat ≤ (0 : UInt64).toNat := by
  decide +kernel

/-- An allocation takes the first region in the list in which the aligned block fits with nothing
behind it or with room for a node. The other regions keep their order and their sizes, with what is
behind the block in front of them. When the block fits in no region the allocation returns null, and
when the size cannot be padded it panics; both leave the list as it was. -/
theorem alloc_first_fit (lists : s.Lists nodes)
    (packed : Span.Packed ⟨0, 2 ^ 64 - 1⟩ (nodes.map s.free))
    (straight : ∀ node ∈ nodes, node.toNat + layout.blockAlign ≤ 2 ^ 64) :
    (¬ layout.Adjustable →
      (alloc layout).run s = (.error (.panic "adjusting alignment failed: LayoutError"), s)) ∧
    (layout.Adjustable →
      ((∀ node ∈ nodes, ¬ layout.Qualifies (s.free node)) ∧ (alloc layout).run s = (.ok 0, s)) ∨
      ∃ pre node post start later tail, nodes = pre ++ node :: post ∧
        (∀ other ∈ pre, ¬ layout.Qualifies (s.free other)) ∧ layout.Qualifies (s.free node) ∧
        (alloc layout).run s = (.ok start, later) ∧ start ≠ 0 ∧
        start.toNat = layout.blockStart (s.free node) ∧ later.Lists (tail ++ (pre ++ post)) ∧
        (tail ++ (pre ++ post)).map later.free =
          (s.free node).behind (layout.block (s.free node)) ++ (pre ++ post).map s.free) := by
  refine ⟨fun large => alloc_unfit (adjusted_eq_none_iff.mpr large), fun adjustable => ?_⟩
  obtain ⟨pair, fits⟩ := Option.ne_none_iff_exists'.mp fun none =>
    adjusted_eq_none_iff.mp none adjustable
  obtain ⟨size, align⟩ := pair
  have inside : ∀ node ∈ nodes, (s.free node).stop < 2 ^ 64 := by
    intro node listed
    have within := (packed.within (s.free node) (List.mem_map_of_mem listed)).2
    simp only [Span.stop] at within ⊢
    omega
  have serves_iff := fun node listed start =>
    @allocFromRegion_iff s layout size align node start fits (straight node listed)
      (inside node listed)
  -- a region without a block that it serves does not qualify
  have refused : ∀ node ∈ nodes, s.allocFromRegion node size align = none →
      ¬ layout.Qualifies (s.free node) := by
    intro node listed none qualifies
    have begins := alignUp_blockStart (s := s) fits (straight node listed)
    have serves := (serves_iff node listed (alignUp node align)).mpr ⟨qualifies, begins⟩
    rw [none] at serves
    cases serves
  have upward : ∀ node start, s.First nodes size align node start → node.toNat ≤ start.toNat := by
    rintro node start ⟨pre, post, rfl, -, serves⟩
    have listed : node ∈ pre ++ node :: post := List.mem_append_right _ List.mem_cons_self
    rw [((serves_iff node listed start).mp serves).2]
    exact blockStart_le layout (s.free node)
  have packed' : Span.Packed ⟨0, 2 ^ 64 - 1⟩ (nodes.map s.free ++ []) := by
    rwa [List.append_nil]
  rcases alloc_run lists packed' (by decide) fits upward with ⟨none, ran⟩ | found
  · exact .inl ⟨fun node listed => refused node listed (none node listed), ran⟩
  · obtain ⟨pre, node, post, start, later, tail, rfl, none, serves, ran, lists', spans⟩ := found
    have listed : node ∈ pre ++ node :: post := List.mem_append_right _ List.mem_cons_self
    obtain ⟨qualifies, begins⟩ := (serves_iff node listed start).mp serves
    have block : (⟨start.toNat, size.toNat⟩ : Span) = layout.block (s.free node) := by
      rw [begins, (adjusted_toNat fits).2.1]
      rfl
    refine .inr ⟨pre, node, post, start, later, tail, rfl, ?_, qualifies, ran, ?_, begins, lists',
      block ▸ spans⟩
    · exact fun other member => refused other (List.mem_append_left _ member) (none other member)
    · intro null
      have least := upward node start ⟨pre, post, rfl, none, serves⟩
      rw [null] at least
      exact lists.nonnull node listed (UInt64.toNat_inj.mp (Nat.le_zero.mp least))

/-- A heap of three regions, of which the first in the list has room for a word behind three. -/
def threeRegions : LinkedListAllocator :=
  let first := (HeapRun.blank.store 8192 32).store 8200 4096
  let second := (first.store 4096 64).store 4104 12288
  ⟨8192, (second.store 12288 64).store 12296 0⟩

/-- Its regions. -/
theorem threeRegions_free :
    [8192, 4096, 12288].map threeRegions.free = [⟨8192, 32⟩, ⟨4096, 64⟩, ⟨12288, 64⟩] := by
  decide +kernel

/-- They are its list. -/
theorem threeRegions_lists : threeRegions.Lists [8192, 4096, 12288] := by
  have first : threeRegions.next 8192 = 4096 := by decide +kernel
  have second : threeRegions.next 4096 = 12288 := by decide +kernel
  have third : threeRegions.next 12288 = 0 := by decide +kernel
  have sizes : threeRegions.regionSize 8192 = 32 ∧ threeRegions.regionSize 4096 = 64 ∧
      threeRegions.regionSize 12288 = 64 := by decide +kernel
  constructor
  case path => exact ⟨rfl, first, second, third⟩
  case nonnull => simp
  case aligned => simp
  case large => simp [sizes]

/-- A block of three words is served by the second region in a list of three. What is left of it
comes to the front of the list. -/
theorem alloc_first_fit_second :
    ∃ start later nodes, (alloc HeapRun.threeWords).run threeRegions = (.ok start, later) ∧
      start.toNat = 4096 ∧ later.Lists nodes ∧
      nodes.map later.free = [⟨4120, 40⟩, ⟨8192, 32⟩, ⟨12288, 64⟩] := by
  have regions := threeRegions_free
  simp only [List.map_cons, List.map_nil, List.cons.injEq, and_true] at regions
  obtain ⟨first, second, third⟩ := regions
  have packed : Span.Packed ⟨0, 2 ^ 64 - 1⟩ ([8192, 4096, 12288].map threeRegions.free) := by
    rw [threeRegions_free]
    constructor
    case within => simp [Span.Within, Span.stop]
    case apart => simp [Span.Apart, Span.stop]
  have straight : ∀ node ∈ [(8192 : UInt64), 4096, 12288],
      node.toNat + HeapRun.threeWords.blockAlign ≤ 2 ^ 64 := by
    have align : HeapRun.threeWords.blockAlign = 8 := by decide
    simp [align]
  have refused : ¬ HeapRun.threeWords.Qualifies (threeRegions.free 8192) := by
    rw [first]
    unfold Layout.Qualifies
    decide
  have served : HeapRun.threeWords.Qualifies (threeRegions.free 4096) := by
    rw [second]
    exact .inr (by decide)
  rcases (alloc_first_fit threeRegions_lists packed straight).2
      (by unfold Layout.Adjustable; decide) with
    ⟨none, -⟩ | ⟨pre, node, post, start, later, tail, whole, before, serves, ran, -, begins, lists,
      spans⟩
  · exact absurd served (none 4096 (by simp))
  · -- the first region does not qualify, and the second one would be before any later one
    obtain ⟨rfl, rfl, rfl⟩ : pre = [8192] ∧ node = 4096 ∧ post = [12288] := by
      cases pre with
      | nil =>
        obtain ⟨rfl, -⟩ := List.cons.inj whole
        exact absurd serves refused
      | cons other pre =>
        obtain ⟨rfl, rest⟩ := List.cons.inj whole
        cases pre with
        | nil =>
          obtain ⟨rfl, rfl⟩ := List.cons.inj rest
          exact ⟨rfl, rfl, rfl⟩
        | cons next more =>
          obtain ⟨rfl, -⟩ := List.cons.inj rest
          exact absurd served (before 4096 (by simp))
    refine ⟨start, later, _, ran, ?_, lists, spans.trans ?_⟩
    · rw [begins, second]
      decide
    · rw [List.singleton_append, List.map_cons, List.map_singleton, first, second, third]
      decide

/-- A layout of the greatest size, without an alignment. -/
def greatestLayout : Layout := ⟨2 ^ 63 - 1, 1, by decide, by decide⟩

/-- A heap of 64 bytes that ends with the address space. -/
def lastHeap : LinkedListAllocator :=
  ⟨0xffffffffffffffc0, (HeapRun.blank.store 0xffffffffffffffc0 64).store 0xffffffffffffffc8 0⟩

/-- No region serves the greatest layout, and the allocation panics instead of returning null; and
in a region that ends with the address space three words fit, and the allocation returns null. -/
theorem alloc_not_first_fit :
    ((⟨0, HeapRun.blank⟩ : LinkedListAllocator).Lists [] ∧
      (alloc greatestLayout).run ⟨0, HeapRun.blank⟩ =
        (.error (.panic "adjusting alignment failed: LayoutError"), ⟨0, HeapRun.blank⟩)) ∧
    lastHeap.free 0xffffffffffffffc0 = ⟨2 ^ 64 - 64, 64⟩ ∧
      HeapRun.threeWords.Qualifies ⟨2 ^ 64 - 64, 64⟩ ∧
      lastHeap.head = 0xffffffffffffffc0 ∧ lastHeap.next 0xffffffffffffffc0 = 0 ∧
      ((alloc HeapRun.threeWords).run lastHeap).1 = .ok 0 := by
  refine ⟨⟨⟨rfl, ?_, ?_, ?_⟩, alloc_unfit rfl⟩, ?_, .inr (by decide), rfl, ?_, ?_⟩
  · exact fun _ none => nomatch none
  · exact fun _ none => nomatch none
  · exact fun _ none => nomatch none
  · have sized : lastHeap.regionSize 0xffffffffffffffc0 = 64 := by decide +kernel
    rw [free, sized]
    rfl
  · decide +kernel
  · decide +kernel

end LinkedListAllocator

end Lsd
