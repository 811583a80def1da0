import Lsd.Memory.LinkedList
import Lsd.Lib.Path
import Lsd.Lib.Span

/-!
# The list of free regions

What the operations of the kernel heap do to the list of its free regions: the
search takes the first region that serves out of the list, and adding a region
puts it at the front, as long as the regions are packed. An allocation divides
the region that serves it into what is left before it, itself, and the rest.
-/

namespace Lsd

open Program

variable {layout : Layout} {addr size align : UInt64}

/-- Clearing the low bits of a number. -/
theorem and_high {number exponent : Nat} (bound : number < 2 ^ 64) (small : exponent ≤ 64) :
    number &&& (2 ^ 64 - 2 ^ exponent) = number / 2 ^ exponent * 2 ^ exponent := by
  have positive := Nat.two_pow_pos exponent
  have less : 2 ^ exponent ≤ 2 ^ 64 := Nat.pow_le_pow_right (by decide) small
  have low : 2 ^ exponent = 2 ^ exponent - 1 + 1 := by omega
  apply Nat.eq_of_testBit_eq
  intro bit
  rw [Nat.testBit_and, Nat.testBit_mul_two_pow, Nat.testBit_div_two_pow, low,
    Nat.testBit_two_pow_sub_succ (by omega), Nat.testBit_two_pow_sub_one]
  by_cases inside : bit < 64
  · by_cases above : exponent ≤ bit
    · have index : bit - exponent + exponent = bit := Nat.sub_add_cancel above
      simp [inside, above, index, Nat.not_lt.mpr above]
    · simp [above, Nat.lt_of_not_le above]
  · have zero : number.testBit bit = false := by
      apply Nat.testBit_lt_two_pow
      exact bound.trans_le (Nat.pow_le_pow_right (by decide) (Nat.le_of_not_lt inside))
    have index : exponent ≤ bit := by omega
    rw [zero, Nat.sub_add_cancel index, zero]
    simp

/-- Alignment to a power of two rounds up, and wraps. -/
theorem alignUp_toNat {exponent : Nat} (power : align.toNat = 2 ^ exponent) :
    (alignUp addr align).toNat =
      (addr.toNat + 2 ^ exponent - 1) % 2 ^ 64 / 2 ^ exponent * 2 ^ exponent := by
  have positive := Nat.two_pow_pos exponent
  have bound := align.toNat_lt
  have low : (align - 1).toNat = 2 ^ exponent - 1 := by
    rw [UInt64.toNat_sub, power]
    change (2 ^ 64 - 1 + _) % _ = _
    omega
  have small : exponent ≤ 64 := by
    rw [power] at bound
    exact ((Nat.pow_lt_pow_iff_right (by decide)).mp bound).le
  have sum : (addr + align - 1).toNat = (addr.toNat + 2 ^ exponent - 1) % 2 ^ 64 := by
    rw [UInt64.toNat_sub, UInt64.toNat_add, power]
    change (2 ^ 64 - 1 + _) % _ = _
    omega
  have mask : UInt64.size - 1 - (2 ^ exponent - 1) = 2 ^ 64 - 2 ^ exponent := by
    change 2 ^ 64 - 1 - (2 ^ exponent - 1) = _
    omega
  rw [alignUp, UInt64.toNat_and, UInt64.toNat_not, low, sum, mask,
    and_high (Nat.mod_lt _ (by decide)) small]

/-- An address is aligned when it is left as it is. -/
theorem alignUp_eq_self_iff {exponent : Nat} (power : align.toNat = 2 ^ exponent) :
    alignUp addr align = addr ↔ 2 ^ exponent ∣ addr.toNat := by
  have positive := Nat.two_pow_pos exponent
  have bound := align.toNat_lt
  have small := addr.toNat_lt
  rw [← UInt64.toNat_inj, alignUp_toNat power]
  constructor
  · intro same
    exact ⟨_, (same.symm.trans (Nat.mul_comm _ _))⟩
  · rintro ⟨factor, multiple⟩
    rw [power] at bound
    obtain ⟨count, whole⟩ : 2 ^ exponent ∣ 2 ^ 64 :=
      Nat.pow_dvd_pow 2 ((Nat.pow_lt_pow_iff_right (by decide)).mp bound).le
    have room : 2 ^ exponent * (factor + 1) ≤ 2 ^ exponent * count :=
      Nat.mul_le_mul_left _ (Nat.lt_of_mul_lt_mul_left (a := 2 ^ exponent) (by omega))
    rw [Nat.mul_succ] at room
    rw [Nat.mod_eq_of_lt (by omega), multiple, Nat.add_sub_assoc positive,
      Nat.mul_add_div positive, Nat.div_eq_of_lt (by omega), Nat.add_zero, Nat.mul_comm]

/-- What `size_align` makes of a layout. -/
structure Fitted (layout : Layout) (size align : UInt64) : Prop where
  /-- A node fits. -/
  large : 16 ≤ size.toNat
  /-- It is made of whole words. -/
  words : 8 ∣ size.toNat
  /-- The layout fits. -/
  covers : layout.size ≤ size.toNat
  /-- The alignment is a power of two, and at least that of a node. -/
  power : ∃ exponent, 3 ≤ exponent ∧ exponent < 64 ∧ align.toNat = 2 ^ exponent
  /-- The alignment of the layout is kept. -/
  divides : layout.align ∣ align.toNat

/-- A power of two is told by its logarithm. -/
theorem isPowerOfTwo_iff {number : Nat} :
    isPowerOfTwo number = true ↔ 2 ^ number.log2 = number := by
  rw [isPowerOfTwo, decide_eq_true_iff]

/-- Rounding up to a multiple. -/
theorem padded_bounds {number divisor : Nat} (positive : 0 < divisor) :
    number ≤ (number + divisor - 1) / divisor * divisor ∧
      (number + divisor - 1) / divisor * divisor ≤ number + divisor - 1 := by
  have whole := Nat.div_add_mod' (number + divisor - 1) divisor
  have rest := Nat.mod_lt (number + divisor - 1) positive
  omega

/-- The alignment of a layout in 64 bits. -/
theorem Layout.align_toNat (layout : Layout) :
    (UInt64.ofNat layout.align).toNat = layout.align := by
  have fits := layout.fits
  rw [UInt64.toNat_ofNat', Nat.mod_eq_of_lt (by omega)]

/-- The size of a layout, as `size_align` pads it, in 64 bits. -/
theorem Layout.paddedSize_toNat (layout : Layout) (positive : 0 < layout.align) :
    (UInt64.ofNat (max layout.paddedSize 16)).toNat = max layout.paddedSize 16 := by
  have fits := layout.fits
  have bounds : layout.paddedSize ≤ layout.size + layout.align - 1 := (padded_bounds positive).2
  rw [UInt64.toNat_ofNat', Nat.mod_eq_of_lt (by omega)]

/-- A layout with the alignment of a node fits itself when its size is padded. -/
theorem Fitted.of_aligned (layout : Layout) (wide : 8 ≤ layout.align) :
    Fitted layout (UInt64.ofNat (max layout.paddedSize 16)) (UInt64.ofNat layout.align) := by
  have fits := layout.fits
  have exact := isPowerOfTwo_iff.mp layout.power
  have least : 3 ≤ layout.align.log2 := (Nat.le_log2 (by omega)).mpr wide
  have most : layout.align.log2 < 64 := (Nat.log2_lt (by omega)).mpr (by omega)
  have eight : 8 ∣ layout.align := by
    rw [← exact]
    exact Nat.pow_dvd_pow 2 least
  constructor
  case large =>
    rw [layout.paddedSize_toNat (by omega)]
    exact Nat.le_max_right ..
  case words =>
    rw [layout.paddedSize_toNat (by omega)]
    rcases Nat.le_total layout.paddedSize 16 with less | more
    · rw [Nat.max_eq_right less]
      decide
    · rw [Nat.max_eq_left more]
      exact eight.mul_left _
  case covers =>
    rw [layout.paddedSize_toNat (by omega)]
    exact (padded_bounds (by omega)).1.trans (Nat.le_max_left ..)
  case power => exact ⟨_, least, most, layout.align_toNat.trans exact.symm⟩
  case divides => rw [layout.align_toNat]

/-- A power of two divides the greater one of itself and 8. -/
theorem dvd_max_eight {number : Nat} (power : isPowerOfTwo number = true) :
    number ∣ max number 8 := by
  have exact := isPowerOfTwo_iff.mp power
  rcases Nat.le_total number 8 with less | more
  · rw [Nat.max_eq_right less, ← exact]
    rw [← exact, show 8 = 2 ^ 3 from rfl, Nat.pow_le_pow_iff_right (by decide)] at less
    exact Nat.pow_dvd_pow 2 less
  · rw [Nat.max_eq_left more]

/-- `size_align` fits the layout. -/
theorem Fitted.of_adjusted (adjusted : LinkedListAllocator.adjusted layout = some (size, align)) :
    Fitted layout size align := by
  obtain ⟨grown, aligned, pair⟩ := Option.map_eq_some_iff.mp adjusted
  obtain ⟨rfl, rfl⟩ := Prod.mk.inj pair
  rw [Layout.alignTo, Layout.fromSizeAlign] at aligned
  split at aligned
  · next fine =>
    have sizes : grown.size = layout.size := by rw [← Option.some.inj aligned]
    have aligns : grown.align = max layout.align 8 := by
      rw [← Option.some.inj aligned]
      rfl
    obtain ⟨large, words, covers, power, divides⟩ :=
      Fitted.of_aligned grown (aligns ▸ Nat.le_max_right ..)
    refine ⟨large, words, sizes ▸ covers, power, ?_⟩
    rw [grown.align_toNat, aligns]
    exact dvd_max_eight layout.power
  · nomatch aligned

namespace LinkedListAllocator

variable {s : LinkedListAllocator} {node before region start : UInt64} {nodes rest : List UInt64}
  {whole : Span} {others : List Span}

/-- The span of a free region. -/
def free (s : LinkedListAllocator) (node : UInt64) : Span := ⟨node.toNat, (s.regionSize node).toNat⟩

/-- Assigning a link. -/
theorem next_setNext (s : LinkedListAllocator) (node value : UInt64) :
    (s.setNext node value).next = Function.update s.next node value := by
  funext other
  by_cases null : node = 0
  · subst null
    by_cases same : other = 0
    · subst same
      rw [Function.update_self]
      rfl
    · rw [Function.update_of_ne same, next, next, if_neg same, if_neg same]
      rfl
  · rw [setNext, if_neg null]
    by_cases same : other = node
    · subst same
      rw [Function.update_self, next, if_neg null]
      exact Function.update_self ..
    · rw [Function.update_of_ne same, next, next]
      split
      · rfl
      · have apart : other + 8 ≠ node + 8 := fun equal => same ((UInt64.add_left_inj 8).mp equal)
        exact Function.update_of_ne apart _ _

/-- Assigning a link leaves the sizes of nodes that it does not lie in. -/
theorem regionSize_setNext (s : LinkedListAllocator) (node value : UInt64) {other : UInt64}
    (apart : node ≠ 0 → other ≠ node + 8) :
    (s.setNext node value).regionSize other = s.regionSize other := by
  rw [setNext]
  split
  · rfl
  · next null => exact Function.update_of_ne (apart null) _ _

/-- The allocator when a node is bypassed. -/
def bypass (s : LinkedListAllocator) (before node : UInt64) : LinkedListAllocator :=
  ((s.setNext node 0).setNext before 0).setNext before (s.next node)

/-- The list of free regions. -/
structure Lists (s : LinkedListAllocator) (nodes : List UInt64) : Prop where
  /-- The links lead through it. -/
  path : Path.Through s.next (s.next 0) nodes 0
  /-- No node is null. -/
  nonnull : ∀ node ∈ nodes, node ≠ 0
  /-- The nodes are aligned. -/
  aligned : ∀ node ∈ nodes, node.toNat % 8 = 0
  /-- A node fits in each region. -/
  large : ∀ node ∈ nodes, 16 ≤ (s.regionSize node).toNat

/-- The search takes the first region that serves. -/
theorem findLoop_run (size align : UInt64) {rounds : Nat} {current : UInt64}
    (path : Path.Through s.next (s.next current) rest 0) (nonnull : ∀ node ∈ rest, node ≠ 0)
    (enough : rest.length < rounds) :
    ((∀ node ∈ rest, s.allocFromRegion node size align = none) ∧
      (findLoop size align rounds current).run s = (.ok none, s)) ∨
    ∃ pre node post start, rest = pre ++ node :: post ∧
      (∀ other ∈ pre, s.allocFromRegion other size align = none) ∧
      s.allocFromRegion node size align = some start ∧
      (findLoop size align rounds current).run s =
        (.ok (some (node, start)), s.bypass (pre.getLastD current) node) := by
  induction rest generalizing rounds current with
  | nil =>
    obtain ⟨rounds, rfl⟩ := Nat.exists_eq_add_one_of_ne_zero (Nat.ne_of_gt enough)
    left
    refine ⟨fun _ none => (nomatch none), ?_⟩
    rw [findLoop, Prog.run_bind_ok (Prog.run_read _ _)]
    simp only [id]
    rw [if_pos (show s.next current = 0 from path), Prog.run_pure]
  | cons node rest ih =>
    obtain ⟨rounds, rfl⟩ :=
      Nat.exists_eq_add_one_of_ne_zero (Nat.ne_of_gt (Nat.zero_lt_of_lt enough))
    obtain ⟨here, onward⟩ := path
    have there : s.next current ≠ 0 := here ▸ nonnull node List.mem_cons_self
    cases serves : s.allocFromRegion node size align with
    | some start =>
      right
      refine ⟨[], node, rest, start, rfl, fun _ none => (nomatch none), serves, ?_⟩
      rw [findLoop, Prog.run_bind_ok (Prog.run_read _ _)]
      simp only [id]
      rw [if_neg there, here]
      simp only [serves]
      rfl
    | none =>
      have goesOn : (findLoop size align (rounds + 1) current).run s =
          (findLoop size align rounds node).run s := by
        rw [findLoop, Prog.run_bind_ok (Prog.run_read _ _)]
        simp only [id]
        rw [if_neg there, here]
        simp only [serves]
      rw [goesOn]
      have nonnull' : ∀ other ∈ rest, other ≠ 0 := fun other member =>
        nonnull other (List.mem_cons_of_mem node member)
      rcases ih onward nonnull' (by simpa using enough) with ⟨none, ran⟩ | found
      · exact .inl ⟨List.forall_mem_cons.mpr ⟨serves, none⟩, ran⟩
      · obtain ⟨pre, other, post, start, rfl, none, serves', ran⟩ := found
        right
        refine ⟨node :: pre, other, post, start, rfl, List.forall_mem_cons.mpr ⟨serves, none⟩,
          serves', ?_⟩
        rw [List.getLastD_cons]
        exact ran

/-- The words of two nodes differ when their regions are apart. -/
theorem words_apart {first second : UInt64} {left right : Nat}
    (apart : Span.Apart ⟨first.toNat, left⟩ ⟨second.toNat, right⟩) (leftLarge : 16 ≤ left)
    (rightLarge : 16 ≤ right) (end1 : first.toNat + left ≤ 2 ^ 64)
    (end2 : second.toNat + right ≤ 2 ^ 64) :
    first ≠ second ∧ first ≠ second + 8 ∧ first + 8 ≠ second ∧ first + 8 ≠ second + 8 := by
  have eight : ∀ word : UInt64, word.toNat + 16 ≤ 2 ^ 64 → (word + 8).toNat = word.toNat + 8 := by
    intro word room
    rw [UInt64.toNat_add]
    exact Nat.mod_eq_of_lt (by change _ + 8 < _; omega)
  have firstWord := eight first (by omega)
  have secondWord := eight second (by omega)
  simp only [Span.Apart, Span.stop] at apart
  refine ⟨?_, ?_, ?_, ?_⟩ <;> intro same <;> have numbers := congrArg UInt64.toNat same <;> omega

section Packed

variable (packed : whole.Packed (nodes.map s.free ++ others)) (bound : whole.stop ≤ 2 ^ 64)
include packed bound

/-- A region ends within the address space. -/
theorem free_stop (listed : node ∈ nodes) : node.toNat + (s.regionSize node).toNat ≤ 2 ^ 64 :=
  (packed.within (s.free node) (List.mem_append_left _ (List.mem_map_of_mem listed))).2.trans bound

/-- The words of two nodes differ. -/
theorem Lists.words (lists : s.Lists nodes) {other : UInt64} (listed : node ∈ nodes)
    (listed' : other ∈ nodes) (differ : node ≠ other) :
    node ≠ other + 8 ∧ node + 8 ≠ other ∧ node + 8 ≠ other + 8 := by
  have regions := (List.pairwise_append.mp packed.apart).1
  have apart : Span.Apart (s.free node) (s.free other) := by
    have : Std.Symm fun first second => Span.Apart (s.free first) (s.free second) :=
      ⟨fun _ _ apart => apart.symm⟩
    exact (List.pairwise_map.mp regions).forall listed listed' differ
  exact (words_apart apart (lists.large node listed) (lists.large other listed')
    (free_stop packed bound listed) (free_stop packed bound listed')).2

/-- The size of a node is in no link. -/
theorem Lists.size_word (lists : s.Lists nodes) {other : UInt64} (listed : node ∈ nodes)
    (listed' : other ∈ nodes) : node ≠ other + 8 := by
  by_cases differ : node = other
  · subst differ
    intro same
    have numbers := congrArg UInt64.toNat same
    rw [UInt64.toNat_add] at numbers
    change _ = (_ + 8) % _ at numbers
    have := node.toNat_lt
    omega
  · exact (lists.words packed bound listed listed' differ).1

/-- A node is in the list once. -/
theorem Lists.nodup (lists : s.Lists nodes) : nodes.Nodup := by
  have regions := List.pairwise_map.mp (List.pairwise_append.mp packed.apart).1
  apply regions.imp_of_mem
  intro first second listed listed' apart
  exact (words_apart apart (lists.large first listed) (lists.large second listed')
    (free_stop packed bound listed) (free_stop packed bound listed')).1

/-- There are fewer nodes than addresses. -/
theorem Lists.short (lists : s.Lists nodes) : nodes.length < findLimit := by
  have nodup := (lists.nodup packed bound).map (f := UInt64.toNat) fun _ _ => UInt64.toNat_inj.mp
  have inside : (nodes.map UInt64.toNat).toFinset ⊆ Finset.range (2 ^ 64) := by
    intro number member
    obtain ⟨node, -, rfl⟩ := List.mem_map.mp (List.mem_toFinset.mp member)
    exact Finset.mem_range.mpr node.toNat_lt
  have count := Finset.card_le_card inside
  rw [List.toFinset_card_of_nodup nodup, List.length_map, Finset.card_range] at count
  exact Nat.lt_succ_of_le count

end Packed

/-- Taking a node out of the list. -/
theorem Lists.bypass {pre post : List UInt64} (lists : s.Lists (pre ++ node :: post))
    (packed : whole.Packed ((pre ++ node :: post).map s.free ++ others))
    (bound : whole.stop ≤ 2 ^ 64) :
    (s.bypass (pre.getLastD 0) node).Lists (pre ++ post) ∧
      ∀ other ∈ pre ++ node :: post,
        (s.bypass (pre.getLastD 0) node).regionSize other = s.regionSize other := by
  have nodup := lists.nodup packed bound
  have fresh : node ∉ pre ++ post := (List.nodup_middle.mp nodup |> List.nodup_cons.mp).1
  have rest : (pre ++ post).Nodup := (List.nodup_middle.mp nodup |> List.nodup_cons.mp).2
  have keeps : ∀ {other}, other ∈ pre ++ post → other ∈ pre ++ node :: post := by
    intro other member
    rcases List.mem_append.mp member with left | right
    · exact List.mem_append_left _ left
    · exact List.mem_append_right _ (List.mem_cons_of_mem node right)
  have here : node ∈ pre ++ node :: post := List.mem_append_right _ List.mem_cons_self
  have null : (0 : UInt64) ∉ pre ++ post := fun member => lists.nonnull 0 (keeps member) rfl
  have before : pre.getLastD 0 ∈ 0 :: pre := List.getLastD_mem_cons
  have differ : pre.getLastD 0 ≠ node := by
    rcases List.mem_cons.mp before with zero | member
    · rw [zero]
      exact (lists.nonnull node here).symm
    · exact ne_of_mem_of_not_mem (List.mem_append_left post member) fresh
  have sizes : ∀ other ∈ pre ++ node :: post,
      (s.bypass (pre.getLastD 0) node).regionSize other = s.regionSize other := by
    intro other member
    have apart : pre.getLastD 0 ≠ 0 → other ≠ pre.getLastD 0 + 8 := by
      intro some
      have listed := (List.mem_cons.mp before).resolve_left some
      exact lists.size_word packed bound member (keeps (List.mem_append_left post listed))
    rw [LinkedListAllocator.bypass, regionSize_setNext _ _ _ apart, regionSize_setNext _ _ _ apart,
      regionSize_setNext _ _ _ fun _ => lists.size_word packed bound member here]
  have links : (s.bypass (pre.getLastD 0) node).next =
      Function.update (Function.update (Function.update s.next node 0) (pre.getLastD 0) 0)
        (pre.getLastD 0) (s.next node) := by
    rw [LinkedListAllocator.bypass, next_setNext, next_setNext, next_setNext]
  refine ⟨⟨?_, ?_, ?_, ?_⟩, sizes⟩
  · apply lists.path.unlink (List.nodup_cons.mpr ⟨null, rest⟩)
    · rw [links, Function.update_self]
    · intro other member apart
      have other' : other ≠ node := by
        rcases List.mem_cons.mp member with zero | listed
        · rw [zero]
          exact (lists.nonnull node here).symm
        · exact ne_of_mem_of_not_mem listed fresh
      rw [links, Function.update_of_ne apart, Function.update_of_ne apart,
        Function.update_of_ne other']
  · exact fun other member => lists.nonnull other (keeps member)
  · exact fun other member => lists.aligned other (keeps member)
  · intro other member
    rw [sizes other (keeps member)]
    exact lists.large other (keeps member)

/-- The allocator when a region is added. -/
def added (s : LinkedListAllocator) (addr size : UInt64) : LinkedListAllocator :=
  { head := addr, memory := (s.memory.store addr size).store (addr + 8) s.head }

/-- Adding a region, when its node fits and is aligned. -/
theorem addFreeRegion_run (aligned : addr.toNat % 8 = 0) (large : 16 ≤ size.toNat)
    (nonnull : addr ≠ 0) : (addFreeRegion addr size).run s = (.ok (), s.added addr size) := by
  have same : alignUp addr nodeAlign = addr :=
    (@alignUp_eq_self_iff addr nodeAlign 3 rfl).mpr (Nat.dvd_of_mod_eq_zero aligned)
  have fits : ¬ size < nodeSize := by
    rw [UInt64.lt_iff_toNat_lt]
    exact Nat.not_lt.mpr large
  rw [addFreeRegion, if_neg (not_not.mpr same), if_neg fits, if_neg nonnull]
  rfl

/-- Adding a region to the list. -/
theorem Lists.added (lists : s.Lists nodes)
    (packed : whole.Packed (⟨addr.toNat, size.toNat⟩ :: (nodes.map s.free ++ others)))
    (bound : whole.stop ≤ 2 ^ 64) (aligned : addr.toNat % 8 = 0) (large : 16 ≤ size.toNat)
    (nonnull : addr ≠ 0) :
    (s.added addr size).Lists (addr :: nodes) ∧ (s.added addr size).regionSize addr = size ∧
      ∀ other ∈ nodes, (s.added addr size).regionSize other = s.regionSize other := by
  have room : addr.toNat + size.toNat ≤ 2 ^ 64 :=
    (packed.within ⟨addr.toNat, size.toNat⟩ List.mem_cons_self).2.trans bound
  have words : ∀ other ∈ nodes, addr ≠ other ∧ addr ≠ other + 8 ∧ addr + 8 ≠ other ∧
      addr + 8 ≠ other + 8 := by
    intro other listed
    have apart := (List.pairwise_cons.mp packed.apart).1 (s.free other)
      (List.mem_append_left _ (List.mem_map_of_mem listed))
    exact words_apart apart large (lists.large other listed) room
      (free_stop packed.tail bound listed)
  have sizes : ∀ other ∈ nodes, (s.added addr size).regionSize other = s.regionSize other := by
    intro other listed
    obtain ⟨one, -, three, -⟩ := words other listed
    exact (Function.update_of_ne three.symm _ _).trans (Function.update_of_ne one.symm _ _)
  have own : addr ≠ addr + 8 := by
    intro same
    have numbers := congrArg UInt64.toNat same
    rw [UInt64.toNat_add] at numbers
    change _ = (_ + 8) % _ at numbers
    omega
  have ownSize : (s.added addr size).regionSize addr = size :=
    (Function.update_of_ne own _ _).trans (Function.update_self ..)
  have link : (s.added addr size).next addr = s.next 0 := by
    rw [next, if_neg nonnull]
    exact Function.update_self ..
  have links : ∀ other ∈ nodes, (s.added addr size).next other = s.next other := by
    intro other listed
    obtain ⟨-, two, -, four⟩ := words other listed
    rw [next, next, if_neg (lists.nonnull other listed), if_neg (lists.nonnull other listed)]
    exact (Function.update_of_ne four.symm _ _).trans (Function.update_of_ne two.symm _ _)
  refine ⟨⟨⟨rfl, ?_⟩, ?_, ?_, ?_⟩, ownSize, sizes⟩
  · rw [link]
    exact lists.path.congr links
  · exact List.forall_mem_cons.mpr ⟨nonnull, lists.nonnull⟩
  · exact List.forall_mem_cons.mpr ⟨aligned, lists.aligned⟩
  · refine List.forall_mem_cons.mpr ⟨?_, fun other listed => ?_⟩
    · rw [ownSize]
      exact large
    · rw [sizes other listed]
      exact lists.large other listed

end LinkedListAllocator

end Lsd
