import Lsd.Verif.HeapList
import Lsd.Lib.Transition

/-!
# Safety of the kernel heap

Allocations and deallocations of live blocks in any order, with writes of their
holders between them. As long as alignment does not wrap around the address
space, the live blocks and the free regions stay packed in the heap, and no
assertion of the allocator fails.
-/

namespace Lsd

open Program Transition

namespace LinkedListAllocator

variable {s later : LinkedListAllocator} {layout : Layout} {size align region node start : UInt64}
  {nodes : List UInt64} {whole : Span} {others : List Span}

/-- When a region serves. -/
theorem allocFromRegion_eq_some (serves : s.allocFromRegion region size align = some start) :
    start = alignUp region align ∧ start.toNat + size.toNat < 2 ^ 64 ∧
      start.toNat + size.toNat ≤ (s.endAddr region).toNat ∧
      (start.toNat + size.toNat = (s.endAddr region).toNat ∨
        start.toNat + size.toNat + 16 ≤ (s.endAddr region).toNat) := by
  rw [allocFromRegion] at serves
  simp only [] at serves
  split at serves
  · next small =>
    split at serves
    · nomatch serves
    · next enough =>
      split at serves
      · nomatch serves
      · next excess =>
        obtain rfl := Option.some.inj serves
        have sum : (alignUp region align + size).toNat =
            (alignUp region align).toNat + size.toNat := by
          rw [UInt64.toNat_add]
          exact Nat.mod_eq_of_lt small
        rw [UInt64.lt_iff_toNat_lt, sum] at enough
        have difference : (s.endAddr region - (alignUp region align + size)).toNat =
            (s.endAddr region).toNat - ((alignUp region align).toNat + size.toNat) := by
          rw [UInt64.toNat_sub_of_le _ _ (UInt64.le_iff_toNat_le.mpr (by omega)), sum]
        simp only [Bool.and_eq_true, decide_eq_true_eq, UInt64.lt_iff_toNat_lt,
          difference] at excess
        change ¬ (0 < _ ∧ _ < 16) at excess
        refine ⟨rfl, small, by omega, ?_⟩
        omega
  · nomatch serves

/-- A region serves a block that starts where it is aligned and leaves nothing, or a node,
behind. -/
theorem allocFromRegion_of_fits (leaves : start.toNat + size.toNat = (s.endAddr region).toNat ∨
    start.toNat + size.toNat + 16 ≤ (s.endAddr region).toNat)
      (begins : start = alignUp region align) :
    s.allocFromRegion region size align = some start := by
  have bound := (s.endAddr region).toNat_lt
  have sum : (start + size).toNat = start.toNat + size.toNat := by
    rw [UInt64.toNat_add]
    exact Nat.mod_eq_of_lt (by omega)
  have difference : (s.endAddr region - (start + size)).toNat =
      (s.endAddr region).toNat - (start.toNat + size.toNat) := by
    rw [UInt64.toNat_sub_of_le _ _ (UInt64.le_iff_toNat_le.mpr (by omega)), sum]
  rw [allocFromRegion, ← begins]
  simp only []
  rw [if_pos (by omega), if_neg (by rw [UInt64.lt_iff_toNat_lt]; omega), if_neg]
  simp only [Bool.and_eq_true, decide_eq_true_eq, UInt64.lt_iff_toNat_lt, difference]
  change ¬ (0 < _ ∧ _ < 16)
  omega

section Packed

variable (lists : s.Lists nodes) (packed : whole.Packed (nodes.map s.free ++ others))
  (bound : whole.stop ≤ 2 ^ 64) (fitted : Fitted layout size align) (listed : node ∈ nodes)
  (serves : s.allocFromRegion node size align = some start)
include lists packed bound fitted listed serves

/-- The end of a region that serves is an address. -/
theorem serves_end : (s.endAddr node).toNat = (s.free node).stop := by
  obtain ⟨-, -, less, -⟩ := allocFromRegion_eq_some serves
  have large := fitted.large
  have stop := free_stop packed bound listed
  have large' := lists.large node listed
  rw [endAddr, UInt64.toNat_add] at less ⊢
  change _ = node.toNat + (s.regionSize node).toNat
  omega

/-- What a region serves lies in it, when its start did not wrap. -/
theorem serves_within (straight : node.toNat ≤ start.toNat) :
    Span.Within ⟨start.toNat, size.toNat⟩ (s.free node) := by
  obtain ⟨-, -, less, -⟩ := allocFromRegion_eq_some serves
  rw [serves_end lists packed bound fitted listed serves] at less
  exact ⟨straight, less⟩

end Packed

/-- What a region serves is aligned. -/
theorem serves_aligned (fitted : Fitted layout size align)
    (serves : s.allocFromRegion node size align = some start) :
    align.toNat ∣ start.toNat ∧ 8 ∣ start.toNat := by
  obtain ⟨exponent, least, -, power⟩ := fitted.power
  obtain ⟨rfl, -⟩ := allocFromRegion_eq_some serves
  have multiple : 2 ^ exponent ∣ (alignUp node align).toNat := by
    rw [alignUp_toNat power]
    exact Nat.dvd_mul_left _ _
  exact ⟨power ▸ multiple, (Nat.pow_dvd_pow 2 least).trans multiple⟩

/-- The other regions when one of them is taken out. -/
theorem free_perm {pre post : List UInt64} :
    ((pre ++ node :: post).map s.free ++ others).Perm
      (s.free node :: ((pre ++ post).map s.free ++ others)) :=
  (List.perm_middle.map s.free).append_right others

/-- What an allocation does when it has found a region. -/
theorem alloc_found (fits : adjusted layout = some (size, align))
    (ran : (findRegion size align).run s = (.ok (some (node, start)), later))
    (small : start.toNat + size.toNat < 2 ^ 64) (enough : ¬ later.endAddr node < start + size) :
    (alloc layout).run s = (Prog.only (0 < later.endAddr node - (start + size))
      (addFreeRegion (start + size) (later.endAddr node - (start + size))) >>= fun _ =>
        pure start).run later := by
  have sized : (sizeAlign layout).run s = (.ok (size, align), s) := by
    rw [sizeAlign, fits, Prog.run_pure]
  rw [alloc, Prog.run_bind_ok sized]
  simp only []
  rw [Prog.run_bind_ok ran]
  simp only []
  rw [checkedAdd, if_pos small, Prog.run_bind_ok (Prog.run_pure _ _),
    Prog.run_bind_ok (Prog.run_read _ _), difference, if_neg enough,
    Prog.run_bind_ok (Prog.run_pure _ _)]

/-- The first region that serves, and the block that it serves. -/
def First (s : LinkedListAllocator) (nodes : List UInt64) (size align node start : UInt64) : Prop :=
  ∃ pre post, nodes = pre ++ node :: post ∧
    (∀ other ∈ pre, s.allocFromRegion other size align = none) ∧
    s.allocFromRegion node size align = some start

/-- An allocation takes the first region that serves, and puts back what is behind the block. -/
theorem alloc_run (lists : s.Lists nodes) (packed : whole.Packed (nodes.map s.free ++ others))
    (bound : whole.stop ≤ 2 ^ 64) (fits : adjusted layout = some (size, align))
    (straight : ∀ node start, s.First nodes size align node start → node.toNat ≤ start.toNat) :
    ((∀ node ∈ nodes, s.allocFromRegion node size align = none) ∧
      (alloc layout).run s = (.ok 0, s)) ∨
    ∃ pre node post start later tail, nodes = pre ++ node :: post ∧
      (∀ other ∈ pre, s.allocFromRegion other size align = none) ∧
      s.allocFromRegion node size align = some start ∧
      (alloc layout).run s = (.ok start, later) ∧ later.Lists (tail ++ (pre ++ post)) ∧
      (tail ++ (pre ++ post)).map later.free =
        (s.free node).behind ⟨start.toNat, size.toNat⟩ ++ (pre ++ post).map s.free := by
  have fitted := Fitted.of_adjusted fits
  rcases findLoop_run size align lists.path lists.nonnull (lists.short packed bound) with
    ⟨none, ran⟩ | ⟨pre, node, post, start, rfl, first, serves, ran⟩
  · left
    have sized : (sizeAlign layout).run s = (.ok (size, align), s) := by
      rw [sizeAlign, fits, Prog.run_pure]
    refine ⟨none, ?_⟩
    rw [alloc, Prog.run_bind_ok sized]
    exact Prog.run_bind_ok ran
  · right
    have here : node ∈ pre ++ node :: post := List.mem_append_right _ List.mem_cons_self
    obtain ⟨-, small, less, exact⟩ := allocFromRegion_eq_some serves
    have stops := serves_end lists packed bound fitted here serves
    have within := serves_within lists packed bound fitted here serves
      (straight node start ⟨pre, post, rfl, first, serves⟩)
    have aligned := (serves_aligned fitted serves).2
    have large := fitted.large
    obtain ⟨taken, sizes⟩ := lists.bypass packed bound
    generalize s.bypass (pre.getLastD 0) node = middle at ran taken sizes
    have kept : (pre ++ post).map middle.free = (pre ++ post).map s.free := by
      apply List.map_congr_left
      intro other member
      rw [free, sizes other (List.perm_middle.mem_iff.mpr (List.mem_cons_of_mem node member)), free]
    have sum : (start + size).toNat = start.toNat + size.toNat := by
      rw [UInt64.toNat_add]
      exact Nat.mod_eq_of_lt small
    have ends : middle.endAddr node = s.endAddr node := by
      rw [endAddr, sizes node here, endAddr]
    have enough : ¬ middle.endAddr node < start + size := by
      rw [ends, UInt64.lt_iff_toNat_lt, sum]
      exact Nat.not_lt.mpr less
    have excess : (middle.endAddr node - (start + size)).toNat =
        (s.free node).stop - (start.toNat + size.toNat) := by
      rw [UInt64.toNat_sub_of_le _ _ (UInt64.not_lt.mp enough), sum, ends, stops]
    have goesOn := alloc_found fits ran small enough
    rw [stops] at exact
    rcases exact with same | more
    · have nothing : ¬ 0 < middle.endAddr node - (start + size) := by
        rw [UInt64.lt_iff_toNat_lt, excess, same, Nat.sub_self]
        exact Nat.lt_irrefl 0
      refine ⟨pre, node, post, start, middle, [], rfl, first, serves, ?_, taken, ?_⟩
      · rw [goesOn, Prog.run_bind_ok (Prog.run_only_neg nothing _ _), Prog.run_pure]
      · have ended : Span.stop ⟨start.toNat, size.toNat⟩ = (s.free node).stop := same
        rw [Span.behind_same ended, List.nil_append, List.nil_append, kept]
    · have some : 0 < middle.endAddr node - (start + size) := by
        rw [UInt64.lt_iff_toNat_lt, excess]
        change 0 < _
        omega
      have large' : 16 ≤ (middle.endAddr node - (start + size)).toNat := by
        rw [excess]
        omega
      have aligned' : (start + size).toNat % 8 = 0 := by
        rw [sum]
        exact Nat.mod_eq_zero_of_dvd (Nat.dvd_add aligned fitted.words)
      have nonnull : start + size ≠ 0 := by
        intro zero
        have numbers := congrArg UInt64.toNat zero
        rw [sum] at numbers
        change _ = 0 at numbers
        omega
      have behind : (s.free node).behind ⟨start.toNat, size.toNat⟩ =
          [⟨(start + size).toNat, (middle.endAddr node - (start + size)).toNat⟩] := by
        have shorter : Span.stop ⟨start.toNat, size.toNat⟩ < (s.free node).stop :=
          Nat.lt_of_lt_of_le (Nat.lt_add_of_pos_right (by decide)) more
        rw [Span.behind_more shorter, excess, sum]
        rfl
      have rest : whole.Packed (⟨(start + size).toNat,
          (middle.endAddr node - (start + size)).toNat⟩ ::
            ((pre ++ post).map middle.free ++ others)) := by
        have divided := ((packed.perm free_perm).divide within).perm List.perm_middle
        rw [behind, ← kept] at divided
        exact divided.tail
      obtain ⟨listed, own, sizes'⟩ := taken.added rest bound aligned' large' nonnull
      refine ⟨pre, node, post, start, _, [start + size], rfl, first, serves, ?_, listed, ?_⟩
      · rw [goesOn, Prog.run_bind_ok ((Prog.run_only_pos some _ _).trans
          (addFreeRegion_run aligned' large' nonnull)), Prog.run_pure]
      · rw [behind, ← kept, List.map_append]
        congr 1
        · rw [List.map_singleton, free, own]
        · apply List.map_congr_left
          intro other member
          rw [free, sizes' other member, free]

/-- An allocation fails when its alignment cannot be adjusted. -/
theorem alloc_unfit (unfit : adjusted layout = none) :
    (alloc layout).run s = (.error (.panic "adjusting alignment failed: LayoutError"), s) := by
  rw [alloc, sizeAlign, unfit]
  rfl

end LinkedListAllocator

/-- A block that was allocated. -/
structure Block where
  /-- Where it is. -/
  ptr : UInt64
  /-- What it was asked for with. -/
  layout : Layout
deriving DecidableEq

/-- The addresses that a block takes, with its size adjusted. -/
def Block.span (block : Block) : Span where
  start := block.ptr.toNat
  size := ((LinkedListAllocator.adjusted block.layout).map fun pair => pair.1.toNat).getD 0

/-- The addresses that the holder of a block may write. -/
def Block.Holds (block : Block) (address : UInt64) : Prop :=
  block.ptr.toNat ≤ address.toNat ∧ address.toNat < block.ptr.toNat + block.layout.size

instance (block : Block) (address : UInt64) : Decidable (block.Holds address) :=
  inferInstanceAs (Decidable (_ ∧ _))

/-- The allocator, and the blocks that are live. -/
structure HeapRun where
  /-- The allocator. -/
  allocator : LinkedListAllocator
  /-- The live blocks. -/
  live : List Block

/-- What can happen next. -/
inductive HeapRun.Act where
  /-- A block is asked for. -/
  | alloc (layout : Layout)
  /-- A live block is given back. -/
  | dealloc (block : Block)
  /-- The holders of the live blocks write them. -/
  | write (memory : Memory)

namespace HeapRun

open LinkedListAllocator

variable {s s' : HeapRun} {layout : Layout} {size align : UInt64} {nodes : List UInt64}
  {whole : Span} {block : Block} {heapStart heapSize : UInt64}

/-- The allocator when the holders of live blocks have written them. -/
def written (s : HeapRun) (memory : Memory) : LinkedListAllocator := { s.allocator with
  memory := fun address =>
    if ∃ block ∈ s.live, block.Holds address then memory address else s.allocator.memory address }

/-- One call, or writes. -/
def step (s : HeapRun) : Act → Option HeapRun
  | .alloc layout =>
    match (LinkedListAllocator.alloc layout).run s.allocator with
    | (.ok ptr, later) => some ⟨later, if ptr = 0 then s.live else ⟨ptr, layout⟩ :: s.live⟩
    | (.error _, _) => none
  | .dealloc block =>
    if block ∈ s.live then
      match (LinkedListAllocator.dealloc block.ptr block.layout).run s.allocator with
      | (.ok (), later) => some ⟨later, s.live.erase block⟩
      | (.error _, _) => none
    else none
  | .write memory => some { s with allocator := s.written memory }

/-- An allocation that does not give null adds a live block. -/
theorem step_alloc {ptr : UInt64} {later : LinkedListAllocator}
    (ran : (LinkedListAllocator.alloc layout).run s.allocator = (.ok ptr, later))
    (nonnull : ptr ≠ 0) : step s (.alloc layout) = some ⟨later, ⟨ptr, layout⟩ :: s.live⟩ := by
  rw [step, ran]
  simp only [if_neg nonnull]

/-- Giving a live block back removes it. -/
theorem step_dealloc {later : LinkedListAllocator} (live : block ∈ s.live)
    (ran : (LinkedListAllocator.dealloc block.ptr block.layout).run s.allocator = (.ok (), later)) :
    step s (.dealloc block) = some ⟨later, s.live.erase block⟩ := by
  rw [step, if_pos live, ran]

/-- Only live blocks are given back. -/
theorem live_of_step (stepped : step s (.dealloc block) = some s') : block ∈ s.live := by
  rw [step] at stepped
  split at stepped
  · next live => exact live
  · nomatch stepped

/-- The free regions and the live blocks. -/
def spans (s : HeapRun) (nodes : List UInt64) : List Span :=
  nodes.map s.allocator.free ++ s.live.map Block.span

/-- The list of free regions is in order, the free regions and the live blocks are packed in the
heap, and the live blocks are aligned. -/
structure Sound (whole : Span) (s : HeapRun) (nodes : List UInt64) : Prop where
  /-- The list. -/
  lists : s.allocator.Lists nodes
  /-- The packing. -/
  packed : whole.Packed (s.spans nodes)
  /-- The blocks. -/
  blocks : ∀ block ∈ s.live, ∃ size align, adjusted block.layout = some (size, align) ∧
    align.toNat ∣ block.ptr.toNat ∧ block.ptr ≠ 0

/-- The span of a block whose layout can be adjusted. -/
theorem span_eq {ptr : UInt64} (fits : adjusted layout = some (size, align)) :
    Block.span ⟨ptr, layout⟩ = ⟨ptr.toNat, size.toNat⟩ := by
  rw [Block.span, fits]
  rfl

/-- A heap that was just made is sound. -/
theorem Sound.of_init (memory : Memory) (aligned : heapStart.toNat % 8 = 0)
    (large : 16 ≤ heapSize.toNat) (nonnull : heapStart ≠ 0)
    (bound : heapStart.toNat + heapSize.toNat ≤ 2 ^ 64) :
    ∃ made, (LinkedListAllocator.init heapStart heapSize).run ⟨0, memory⟩ = (.ok (), made) ∧
      Sound ⟨heapStart.toNat, heapSize.toNat⟩ ⟨made, []⟩ [heapStart] ∧
      made.free heapStart = ⟨heapStart.toNat, heapSize.toNat⟩ := by
  have empty : (⟨0, memory⟩ : LinkedListAllocator).Lists [] :=
    ⟨rfl, fun _ none => (nomatch none), fun _ none => (nomatch none), fun _ none => (nomatch none)⟩
  have packed : Span.Packed ⟨heapStart.toNat, heapSize.toNat⟩
      [⟨heapStart.toNat, heapSize.toNat⟩] :=
    ⟨fun span member => List.mem_singleton.mp member ▸ ⟨Nat.le_refl _, Nat.le_refl _⟩,
      List.pairwise_singleton _ _⟩
  have packed' : Span.Packed ⟨heapStart.toNat, heapSize.toNat⟩
      (⟨heapStart.toNat, heapSize.toNat⟩ :: (([] : List UInt64).map
        (⟨0, memory⟩ : LinkedListAllocator).free ++ [])) := packed
  obtain ⟨lists, own, -⟩ := empty.added packed' bound aligned large nonnull
  have region : ((⟨0, memory⟩ : LinkedListAllocator).added heapStart heapSize).free heapStart =
      ⟨heapStart.toNat, heapSize.toNat⟩ := by
    rw [free, own]
  refine ⟨_, addFreeRegion_run aligned large nonnull, ⟨lists, ?_, fun _ none => (nomatch none)⟩,
    region⟩
  rw [spans, List.map_singleton, region]
  exact packed

/-- An allocation keeps the heap sound, and loses what is in front of the block. -/
theorem Sound.alloc (sound : Sound whole s nodes) (bound : whole.stop ≤ 2 ^ 64)
    (fits : adjusted layout = some (size, align))
    (straight : ∀ node start, s.allocator.First nodes size align node start →
      node.toNat ≤ start.toNat) :
    ((∀ node ∈ nodes, s.allocator.allocFromRegion node size align = none) ∧
      (LinkedListAllocator.alloc layout).run s.allocator = (.ok 0, s.allocator)) ∨
    ∃ node start later nodes', s.allocator.First nodes size align node start ∧
      (LinkedListAllocator.alloc layout).run s.allocator = (.ok start, later) ∧ start ≠ 0 ∧
      Sound whole ⟨later, ⟨start, layout⟩ :: s.live⟩ nodes' ∧
      Span.total (spans ⟨later, ⟨start, layout⟩ :: s.live⟩ nodes') +
        (start.toNat - node.toNat) = Span.total (s.spans nodes) := by
  have fitted := Fitted.of_adjusted fits
  rcases alloc_run sound.lists sound.packed bound fits straight with none | found
  · exact .inl none
  · obtain ⟨pre, node, post, start, later, tail, rfl, first, serves, ran, lists, regions⟩ := found
    have here : node ∈ pre ++ node :: post := List.mem_append_right _ List.mem_cons_self
    have less := straight node start ⟨pre, post, rfl, first, serves⟩
    have within := serves_within sound.lists sound.packed bound fitted here serves less
    have nonnull : start ≠ 0 := by
      have positive : node.toNat ≠ 0 := fun zero =>
        sound.lists.nonnull node here (UInt64.toNat_inj.mp zero)
      rintro rfl
      change node.toNat ≤ 0 at less
      omega
    have order : (spans ⟨later, ⟨start, layout⟩ :: s.live⟩ (tail ++ (pre ++ post))).Perm
        ((s.allocator.free node).behind ⟨start.toNat, size.toNat⟩ ++ ⟨start.toNat, size.toNat⟩ ::
          ((pre ++ post).map s.allocator.free ++ s.live.map Block.span)) := by
      rw [spans, regions, List.map_cons, span_eq fits]
      exact (List.perm_middle.trans (.of_eq (by rw [List.append_assoc]))).trans
        List.perm_middle.symm
    right
    refine ⟨node, start, later, tail ++ (pre ++ post), ⟨pre, post, rfl, first, serves⟩, ran,
      nonnull, ⟨lists, ?_, ?_⟩, ?_⟩
    · exact ((sound.packed.perm free_perm).divide within).perm order.symm
    · exact List.forall_mem_cons.mpr
        ⟨⟨size, align, fits, (serves_aligned fitted serves).1, nonnull⟩, sound.blocks⟩
    · have lost := Span.total_behind within
      have before := Span.total_perm (@free_perm s.allocator node (s.live.map Block.span) pre post)
      rw [Span.total_cons] at before
      rw [Span.total_perm order, Span.total_append, Span.total_cons, spans, before, ← lost]
      change _ + (start.toNat - node.toNat) = _ + _ + (start.toNat - node.toNat) + _
      omega

/-- Giving a block back keeps the heap sound, and loses nothing. -/
theorem Sound.dealloc (sound : Sound whole s nodes) (bound : whole.stop ≤ 2 ^ 64)
    (live : block ∈ s.live) :
    ∃ later, (LinkedListAllocator.dealloc block.ptr block.layout).run s.allocator =
        (.ok (), later) ∧
      Sound whole ⟨later, s.live.erase block⟩ (block.ptr :: nodes) ∧
      Span.total (spans ⟨later, s.live.erase block⟩ (block.ptr :: nodes)) =
        Span.total (s.spans nodes) := by
  obtain ⟨size, align, fits, multiple, nonnull⟩ := sound.blocks block live
  have fitted := Fitted.of_adjusted fits
  obtain ⟨exponent, least, -, power⟩ := fitted.power
  have aligned : block.ptr.toNat % 8 = 0 := by
    apply Nat.mod_eq_zero_of_dvd
    rw [power] at multiple
    exact (Nat.pow_dvd_pow 2 least).trans multiple
  have order : (s.spans nodes).Perm (⟨block.ptr.toNat, size.toNat⟩ ::
      (nodes.map s.allocator.free ++ (s.live.erase block).map Block.span)) := by
    have parts := ((List.perm_cons_erase live).map Block.span).append_left
      (nodes.map s.allocator.free)
    rw [List.map_cons, show block.span = ⟨block.ptr.toNat, size.toNat⟩ from span_eq fits] at parts
    exact parts.trans List.perm_middle
  obtain ⟨lists, own, sizes⟩ :=
    sound.lists.added (sound.packed.perm order) bound aligned fitted.large nonnull
  have regions : (block.ptr :: nodes).map (s.allocator.added block.ptr size).free =
      ⟨block.ptr.toNat, size.toNat⟩ :: nodes.map s.allocator.free := by
    rw [List.map_cons, free, own]
    congr 1
    apply List.map_congr_left
    intro other member
    rw [free, sizes other member, free]
  have after : spans ⟨s.allocator.added block.ptr size, s.live.erase block⟩ (block.ptr :: nodes) =
      ⟨block.ptr.toNat, size.toNat⟩ ::
        (nodes.map s.allocator.free ++ (s.live.erase block).map Block.span) := by
    rw [spans, regions, List.cons_append]
  refine ⟨s.allocator.added block.ptr size, ?_, ⟨lists, ?_, ?_⟩, ?_⟩
  · have sized : (sizeAlign block.layout).run s.allocator = (.ok (size, align), s.allocator) := by
      rw [sizeAlign, fits, Prog.run_pure]
    rw [LinkedListAllocator.dealloc, Prog.run_bind_ok sized]
    exact addFreeRegion_run aligned fitted.large nonnull
  · rw [after]
    exact sound.packed.perm order
  · exact fun other member => sound.blocks other (List.mem_of_mem_erase member)
  · rw [after, Span.total_perm order]

/-- The holders of live blocks do not reach the nodes. -/
theorem Sound.not_held (sound : Sound whole s nodes) (bound : whole.stop ≤ 2 ^ 64) {node : UInt64}
    (listed : node ∈ nodes) (live : block ∈ s.live) :
    ¬ block.Holds node ∧ ¬ block.Holds (node + 8) := by
  obtain ⟨size, align, fits, -, -⟩ := sound.blocks block live
  have covers := (Fitted.of_adjusted fits).covers
  have large := sound.lists.large node listed
  have stop := free_stop sound.packed bound listed
  have apart := (List.pairwise_append.mp sound.packed.apart).2.2 (s.allocator.free node)
    (List.mem_map_of_mem listed) block.span (List.mem_map_of_mem live)
  rw [show block.span = ⟨block.ptr.toNat, size.toNat⟩ from span_eq fits] at apart
  simp only [Span.Apart, Span.stop, free] at apart
  have eight : (node + 8).toNat = node.toNat + 8 := by
    rw [UInt64.toNat_add]
    exact Nat.mod_eq_of_lt (by change _ + 8 < _; omega)
  unfold Block.Holds
  rw [eight]
  omega

/-- Writes to live blocks keep the heap sound. -/
theorem Sound.write (sound : Sound whole s nodes) (bound : whole.stop ≤ 2 ^ 64) (memory : Memory) :
    Sound whole { s with allocator := s.written memory } nodes ∧
      spans { s with allocator := s.written memory } nodes = s.spans nodes := by
  have words : ∀ node ∈ nodes, (s.written memory).memory node = s.allocator.memory node ∧
      (s.written memory).memory (node + 8) = s.allocator.memory (node + 8) := by
    intro node listed
    constructor
    · exact if_neg fun ⟨block, live, holds⟩ => (sound.not_held bound listed live).1 holds
    · exact if_neg fun ⟨block, live, holds⟩ => (sound.not_held bound listed live).2 holds
  have links : ∀ node ∈ nodes, (s.written memory).next node = s.allocator.next node := by
    intro node listed
    rw [next, next, if_neg (sound.lists.nonnull node listed),
      if_neg (sound.lists.nonnull node listed)]
    exact (words node listed).2
  have same : spans { s with allocator := s.written memory } nodes = s.spans nodes := by
    rw [spans, spans]
    congr 1
    apply List.map_congr_left
    intro node listed
    rw [free, free, regionSize, (words node listed).1, regionSize]
  refine ⟨⟨⟨?_, sound.lists.nonnull, sound.lists.aligned, ?_⟩, ?_, sound.blocks⟩, same⟩
  · exact sound.lists.path.congr links
  · intro node listed
    rw [regionSize, (words node listed).1]
    exact sound.lists.large node listed
  · rw [same]
    exact sound.packed

/-- Alignment for the layout of an allocation does not wrap for the address of a node in the
heap. -/
def Straight (heapStart heapSize : UInt64) (layout : Layout) : Prop :=
  ∀ size align, adjusted layout = some (size, align) → ∀ node : UInt64,
    heapStart.toNat ≤ node.toNat → node.toNat + 16 ≤ heapStart.toNat + heapSize.toNat →
      node.toNat + align.toNat ≤ 2 ^ 64

/-- The starts of blocks do not wrap for a straight layout. -/
theorem Sound.straight (sound : Sound ⟨heapStart.toNat, heapSize.toNat⟩ s nodes)
    (straight : Straight heapStart heapSize layout) (fits : adjusted layout = some (size, align))
    {node start : UInt64} (first : s.allocator.First nodes size align node start) :
    node.toNat ≤ start.toNat := by
  obtain ⟨pre, post, rfl, -, serves⟩ := first
  have listed : node ∈ pre ++ node :: post := List.mem_append_right _ List.mem_cons_self
  obtain ⟨exponent, -, -, power⟩ := (Fitted.of_adjusted fits).power
  obtain ⟨rfl, -⟩ := allocFromRegion_eq_some serves
  obtain ⟨least, most⟩ := sound.packed.within (s.allocator.free node)
    (List.mem_append_left _ (List.mem_map_of_mem listed))
  have large := sound.lists.large node listed
  simp only [free, Span.stop] at least most
  have room := straight size align fits node least (by omega)
  have positive := Nat.two_pow_pos exponent
  rw [power] at room
  rw [alignUp_toNat power, Nat.mod_eq_of_lt (by omega)]
  exact (padded_bounds positive).1

/-- What a call for a block, a call to give one back and writes do to a sound heap. -/
theorem Sound.step (sound : Sound ⟨heapStart.toNat, heapSize.toNat⟩ s nodes)
    (bound : heapStart.toNat + heapSize.toNat ≤ 2 ^ 64) {act : Act}
    (stepped : step s act = some s')
    (straight : ∀ layout, act = .alloc layout → Straight heapStart heapSize layout) :
    ∃ nodes', Sound ⟨heapStart.toNat, heapSize.toNat⟩ s' nodes' := by
  cases act with
  | alloc layout =>
    cases fits : adjusted layout with
    | none =>
      rw [HeapRun.step, alloc_unfit fits] at stepped
      nomatch stepped
    | some pair =>
      rcases sound.alloc bound fits fun node start first =>
        sound.straight (straight layout rfl) fits first with ⟨-, ran⟩ | found
      · rw [HeapRun.step, ran] at stepped
        obtain rfl := Option.some.inj stepped
        exact ⟨nodes, sound⟩
      · obtain ⟨-, start, later, nodes', -, ran, nonnull, sound', -⟩ := found
        rw [step_alloc ran nonnull] at stepped
        obtain rfl := Option.some.inj stepped
        exact ⟨nodes', sound'⟩
  | dealloc block =>
    have live := live_of_step stepped
    obtain ⟨later, ran, sound', -⟩ := sound.dealloc bound live
    rw [step_dealloc live ran] at stepped
    obtain rfl := Option.some.inj stepped
    exact ⟨_, sound'⟩
  | write memory =>
    obtain rfl := Option.some.inj stepped
    exact ⟨nodes, (sound.write bound memory).1⟩

/-- The states that calls and writes lead to, with layouts whose alignment does not wrap. -/
def Reaches (heapStart heapSize : UInt64) (made : LinkedListAllocator) : HeapRun → Prop :=
  Reachable (fun s => s = ⟨made, []⟩) fun s act s' => step s act = some s' ∧
    ∀ layout, act = .alloc layout → Straight heapStart heapSize layout

/-- After `init` with an aligned region in which a node fits, and however blocks are allocated,
given back and written: the free regions and the live blocks are packed in the heap, the regions are
aligned and a node fits in each; a live block is aligned to its layout and lies in the heap; and
neither an allocation, unless its alignment cannot be adjusted, nor giving back a live block
fails. -/
theorem heap_safe (memory : Memory) (aligned : heapStart.toNat % 8 = 0)
    (large : 16 ≤ heapSize.toNat) (nonnull : heapStart ≠ 0)
    (bound : heapStart.toNat + heapSize.toNat ≤ 2 ^ 64) :
    ∃ made, (LinkedListAllocator.init heapStart heapSize).run ⟨0, memory⟩ = (.ok (), made) ∧
      ∀ s, Reaches heapStart heapSize made s →
        (∃ nodes, s.allocator.Lists nodes ∧
          Span.Packed ⟨heapStart.toNat, heapSize.toNat⟩ (s.spans nodes)) ∧
        (∀ block ∈ s.live, block.ptr ≠ 0 ∧ block.layout.align ∣ block.ptr.toNat ∧
          heapStart.toNat ≤ block.ptr.toNat ∧
          block.ptr.toNat + block.layout.size ≤ heapStart.toNat + heapSize.toNat) ∧
        (∀ layout, Straight heapStart heapSize layout → adjusted layout ≠ none →
          ∃ ptr later, (LinkedListAllocator.alloc layout).run s.allocator = (.ok ptr, later)) ∧
        (∀ layout, adjusted layout = none →
          (LinkedListAllocator.alloc layout).run s.allocator =
            (.error (.panic "adjusting alignment failed: LayoutError"), s.allocator)) ∧
        ∀ block ∈ s.live, ∃ later,
          (LinkedListAllocator.dealloc block.ptr block.layout).run s.allocator =
            (.ok (), later) := by
  obtain ⟨made, ran, start, -⟩ := Sound.of_init memory aligned large nonnull bound
  refine ⟨made, ran, fun s reaches => ?_⟩
  have holds : ∃ nodes, Sound ⟨heapStart.toNat, heapSize.toNat⟩ s nodes := by
    refine @Reachable.invariant _ _ _ _ (fun s => ∃ nodes, Sound _ s nodes) s reaches ?_ ?_
    · rintro _ rfl
      exact ⟨_, start⟩
    · rintro before act after ⟨nodes, sound⟩ ⟨stepped, straight⟩
      exact sound.step bound stepped straight
  obtain ⟨nodes, sound⟩ := holds
  refine ⟨⟨nodes, sound.lists, sound.packed⟩, fun block live => ?_, fun layout straight fine => ?_,
    fun layout unfit => alloc_unfit unfit, fun block live => ?_⟩
  · obtain ⟨size, align, fits, multiple, some⟩ := sound.blocks block live
    have fitted := Fitted.of_adjusted fits
    obtain ⟨least, most⟩ := sound.packed.within block.span
      (List.mem_append_right _ (List.mem_map_of_mem live))
    rw [show block.span = ⟨block.ptr.toNat, size.toNat⟩ from span_eq fits] at least most
    refine ⟨some, fitted.divides.trans multiple, least, ?_⟩
    exact (Nat.add_le_add_left fitted.covers _).trans most
  · obtain ⟨⟨size, align⟩, fits⟩ := Option.ne_none_iff_exists'.mp fine
    rcases sound.alloc bound fits fun node start first =>
      sound.straight straight fits first with ⟨-, ran⟩ | found
    · exact ⟨0, _, ran⟩
    · obtain ⟨-, start, later, -, -, ran, -⟩ := found
      exact ⟨start, later, ran⟩
  · obtain ⟨later, ran, -⟩ := sound.dealloc bound live
    exact ⟨later, ran⟩

/-- Memory without content. -/
def blank : Memory := fun _ => 0

/-- A layout of three words. -/
def threeWords : Layout := ⟨24, 8, by decide, by decide⟩

/-- A heap of 64 bytes. -/
def smallHeap : LinkedListAllocator := ⟨4096, (blank.store 4096 64).store 4104 0⟩

/-- In the heap a block of three words is allocated at its start, and can be given back. -/
theorem heap_safe_small :
    ∃ s, (LinkedListAllocator.init 4096 64).run ⟨0, blank⟩ = (.ok (), smallHeap) ∧
      Reaches 4096 64 smallHeap s ∧ s.live = [⟨4096, threeWords⟩] ∧
      ∃ later, (LinkedListAllocator.dealloc 4096 threeWords).run s.allocator = (.ok (), later) := by
  obtain ⟨made, ran, safe⟩ := @heap_safe 4096 64 blank (by decide) (by decide) (by decide)
    (by decide)
  obtain rfl : smallHeap = made := (Prod.mk.inj ran).2
  have straight : Straight 4096 64 threeWords := by
    intro size align fits node _ room
    obtain ⟨-, rfl⟩ := Prod.mk.inj (Option.some.inj fits)
    change node.toNat + 16 ≤ 4096 + 64 at room
    change node.toNat + 8 ≤ 2 ^ 64
    omega
  let s : HeapRun := ⟨((LinkedListAllocator.alloc threeWords).run smallHeap).2,
    [⟨4096, threeWords⟩]⟩
  have served : (LinkedListAllocator.alloc threeWords).run smallHeap = (.ok 4096, s.allocator) :=
    Prod.ext (by decide +kernel) rfl
  have stepped : step ⟨smallHeap, []⟩ (.alloc threeWords) = some s :=
    step_alloc served (by decide)
  have begun : Reaches 4096 64 smallHeap ⟨smallHeap, []⟩ := .start rfl
  have reaches : Reaches 4096 64 smallHeap s :=
    begun.next (.alloc threeWords) ⟨stepped, fun _ same => Act.alloc.inj same ▸ straight⟩
  exact ⟨s, ran, reaches, rfl, (safe s reaches).2.2.2.2 _ List.mem_cons_self⟩

end HeapRun

end Lsd
