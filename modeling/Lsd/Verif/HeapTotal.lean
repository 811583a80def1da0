import Lsd.Verif.HeapSafety

/-!
# The bytes of the kernel heap

An allocation gives back what is left of its region behind the block, and not
what is left in front of it. So the free regions and the live blocks add up to
the heap as long as the first region that serves is aligned already.
-/

namespace Lsd

open Program Transition

namespace HeapRun

open LinkedListAllocator

variable {s s' : HeapRun} {layout : Layout} {size align heapStart heapSize : UInt64}
  {nodes : List UInt64} {whole : Span} {act : Act}

/-- The free regions and the live blocks add up to the heap. -/
def Conserved (heapSize : UInt64) (s : HeapRun) : Prop :=
  ∃ nodes, s.allocator.Lists nodes ∧ Span.total (s.spans nodes) = heapSize.toNat

/-- The first free region that serves an allocation starts at a multiple of the alignment. -/
def Flush (s : HeapRun) (act : Act) : Prop :=
  ∀ layout size align nodes node start, act = .alloc layout →
    adjusted layout = some (size, align) → s.allocator.Lists nodes →
    s.allocator.First nodes size align node start → align.toNat ∣ node.toNat

/-- There is one list of free regions. -/
theorem lists_unique {allocator : LinkedListAllocator} {nodes' : List UInt64}
    (lists : allocator.Lists nodes) (lists' : allocator.Lists nodes') : nodes = nodes' :=
  lists.path.unique lists'.path (fun member => lists.nonnull 0 member rfl)
    fun member => lists'.nonnull 0 member rfl

/-- The first region that serves is the one that a search finds. -/
theorem find_first {allocator : LinkedListAllocator} {node start : UInt64}
    (first : allocator.First nodes size align node start) :
    nodes.find? (fun node => (allocator.allocFromRegion node size align).isSome) = some node := by
  obtain ⟨pre, post, rfl, none, serves⟩ := first
  refine List.find?_eq_some_iff_append.mpr ⟨by rw [serves]; rfl, pre, post, rfl, ?_⟩
  intro other member
  rw [none other member]
  rfl

/-- A sound heap whose bytes are all there. -/
def Exact (heapStart heapSize : UInt64) (s : HeapRun) : Prop :=
  ∃ nodes, Sound ⟨heapStart.toNat, heapSize.toNat⟩ s nodes ∧
    Span.total (s.spans nodes) = heapSize.toNat

/-- A block that is served by an aligned region starts where the region does. -/
theorem flush_start {allocator : LinkedListAllocator} {node start : UInt64}
    (fitted : Fitted layout size align)
    (serves : allocator.allocFromRegion node size align = some start)
    (flush : align.toNat ∣ node.toNat) : start = node := by
  obtain ⟨exponent, -, -, power⟩ := fitted.power
  rw [(allocFromRegion_eq_some serves).1]
  exact (alignUp_eq_self_iff power).mpr (power ▸ flush)

/-- A step keeps the bytes when the first region that serves it is aligned. -/
theorem Exact.step (exact : Exact heapStart heapSize s)
    (bound : heapStart.toNat + heapSize.toNat ≤ 2 ^ 64) (stepped : step s act = some s')
    (flush : s.Flush act) : Exact heapStart heapSize s' := by
  obtain ⟨nodes, sound, total⟩ := exact
  cases act with
  | alloc layout =>
    cases fits : adjusted layout with
    | none =>
      rw [HeapRun.step, alloc_unfit fits] at stepped
      cases stepped
    | some pair =>
      obtain ⟨size, align⟩ := pair
      have starts : ∀ node start, s.allocator.First nodes size align node start →
          start = node := by
        intro node start first
        have multiple := flush layout size align nodes node start rfl fits sound.lists first
        obtain ⟨-, -, -, -, serves⟩ := first
        exact flush_start (Fitted.of_adjusted fits) serves multiple
      rcases sound.alloc bound fits fun node start first =>
        (starts node start first).symm ▸ le_refl _
        with ⟨-, ran⟩ | found
      · rw [HeapRun.step, ran] at stepped
        obtain rfl := Option.some.inj stepped
        exact ⟨nodes, sound, total⟩
      · obtain ⟨node, start, later, nodes', first, ran, nonnull, sound', lost⟩ := found
        rw [step_alloc ran nonnull] at stepped
        obtain rfl := Option.some.inj stepped
        rw [starts node start first, Nat.sub_self, Nat.add_zero, total] at lost
        exact ⟨nodes', starts node start first ▸ sound', starts node start first ▸ lost⟩
  | dealloc block =>
    have live := live_of_step stepped
    obtain ⟨later, ran, sound', same⟩ := sound.dealloc bound live
    rw [step_dealloc live ran] at stepped
    obtain rfl := Option.some.inj stepped
    exact ⟨_, sound', same.trans total⟩
  | write memory =>
    obtain rfl := Option.some.inj stepped
    obtain ⟨sound', same⟩ := sound.write bound memory
    exact ⟨nodes, sound', (congrArg Span.total same).trans total⟩

/-- When a step keeps the bytes, the first region that serves it is aligned, as long as alignment
does not wrap. -/
theorem Exact.flush (exact : Exact heapStart heapSize s)
    (bound : heapStart.toNat + heapSize.toNat ≤ 2 ^ 64) (stepped : HeapRun.step s act = some s')
    (straight : ∀ layout, act = .alloc layout → Straight heapStart heapSize layout)
    (conserved : Conserved heapSize s') : s.Flush act := by
  rintro layout size align nodes node start rfl fits lists first
  obtain ⟨known, sound, total⟩ := exact
  obtain rfl := lists_unique sound.lists lists
  have less := fun node start => @Sound.straight s layout size align known heapStart heapSize sound
    (straight layout rfl) fits node start
  rcases sound.alloc bound fits less with ⟨none, -⟩ | found
  · obtain ⟨pre, post, rfl, -, serves⟩ := first
    rw [none node (List.mem_append_right _ List.mem_cons_self)] at serves
    nomatch serves
  · obtain ⟨other, start', later, nodes', first', ran, nonnull, sound', lost⟩ := found
    obtain rfl := Option.some.inj ((find_first first').symm.trans (find_first first))
    rw [step_alloc ran nonnull] at stepped
    obtain rfl := Option.some.inj stepped
    obtain ⟨again, lists', same⟩ := conserved
    obtain rfl := lists_unique sound'.lists lists'
    rw [same, total] at lost
    have above := less other start' first'
    have equal : other = start' := by
      rw [← UInt64.toNat_inj]
      omega
    obtain ⟨-, -, -, -, serves⟩ := first'
    rw [equal]
    exact (serves_aligned (Fitted.of_adjusted fits) serves).1

/-- After `init`, and however blocks are allocated, given back and written: the free regions and the
live blocks add up to the heap after every step as long as the first free region that serves an
allocation always starts at a multiple of its alignment; and, for layouts whose alignment does not
wrap, only so. -/
theorem bytes_conserved (memory : Memory) (aligned : heapStart.toNat % 8 = 0)
    (large : 16 ≤ heapSize.toNat) (nonnull : heapStart ≠ 0)
    (bound : heapStart.toNat + heapSize.toNat ≤ 2 ^ 64) :
    ∃ made, (LinkedListAllocator.init heapStart heapSize).run ⟨0, memory⟩ = (.ok (), made) ∧
      ∀ acts : List Act,
        (Along step (fun s act _ => s.Flush act) ⟨made, []⟩ acts →
          Along step (fun _ _ s' => Conserved heapSize s') ⟨made, []⟩ acts) ∧
        ((∀ layout, .alloc layout ∈ acts → Straight heapStart heapSize layout) →
          (Along step (fun _ _ s' => Conserved heapSize s') ⟨made, []⟩ acts ↔
            Along step (fun s act _ => s.Flush act) ⟨made, []⟩ acts)) := by
  obtain ⟨made, ran, sound, whole⟩ := Sound.of_init memory aligned large nonnull bound
  have begun : Exact heapStart heapSize ⟨made, []⟩ := by
    refine ⟨_, sound, ?_⟩
    rw [spans, List.map_singleton, whole]
    rfl
  have kept : ∀ s act s', Exact heapStart heapSize s → step s act = some s' → s.Flush act →
      Conserved heapSize s' ∧ Exact heapStart heapSize s' := by
    intro s act s' exact stepped flush
    have after := exact.step bound stepped flush
    obtain ⟨nodes, sound, total⟩ := after
    exact ⟨⟨nodes, sound.lists, total⟩, nodes, sound, total⟩
  refine ⟨made, ran, fun acts => ⟨Along.of_along _ begun kept, fun straight => ?_⟩⟩
  apply Along.iff _ begun _ kept
  intro s act member s' exact stepped conserved
  exact exact.flush bound stepped (fun layout same => straight layout (same ▸ member)) conserved

/-- A layout with at most the alignment of a node is served at the start of a region. -/
theorem flush_of_small (small : layout.align ≤ 8) : s.Flush (.alloc layout) := by
  intro other size align nodes node start same fits lists first
  obtain rfl := Act.alloc.inj same
  obtain ⟨pre, post, rfl, -⟩ := first
  have aligned := lists.aligned node (List.mem_append_right _ List.mem_cons_self)
  obtain ⟨grown, made, pair⟩ := Option.map_eq_some_iff.mp fits
  obtain ⟨-, rfl⟩ := Prod.mk.inj pair
  rw [Layout.alignTo, Layout.fromSizeAlign] at made
  split at made
  · obtain rfl := Option.some.inj made
    rw [Layout.align_toNat]
    change max layout.align 8 ∣ node.toNat
    rw [Nat.max_eq_right small]
    exact Nat.dvd_of_mod_eq_zero aligned
  · cases made

/-- A block of three words comes and goes, and the bytes are there after each call. -/
theorem bytes_conserved_small :
    Along step (fun _ _ s' => Conserved 64 s') ⟨smallHeap, []⟩
      [.alloc threeWords, .dealloc ⟨4096, threeWords⟩, .alloc threeWords] := by
  obtain ⟨made, ran, conserved⟩ := @bytes_conserved 4096 64 blank (by decide) (by decide)
    (by decide) (by decide)
  obtain rfl : smallHeap = made := (Prod.mk.inj ran).2
  apply (conserved _).1
  have small : ∀ s : HeapRun, s.Flush (.alloc threeWords) := fun s => flush_of_small (by decide)
  refine fun s _ => ⟨small _, fun s _ => ⟨?_, fun s _ => ⟨small _, trivial⟩⟩⟩
  intro _ _ _ _ _ _ same
  nomatch same

/-- A heap of 64 bytes that does not start at a multiple of 16. -/
def oddHeap : LinkedListAllocator := ⟨4104, (blank.store 4104 64).store 4112 0⟩

/-- A layout of 16 bytes at a multiple of 16. -/
def wideWords : Layout := ⟨16, 16, by decide, by decide⟩

/-- The heap when a block of the layout has come and gone. -/
def leaked : LinkedListAllocator :=
  ((LinkedListAllocator.dealloc 4112 wideWords).run
    ((LinkedListAllocator.alloc wideWords).run oddHeap).2).2

/-- Two steps one after the other. -/
theorem two_steps {s'' : HeapRun} {act' : Act} (first : step s act = some s')
    (second : step s' act' = some s'') : [act, act'].foldlM step s = some s'' := by
  rw [List.foldlM_cons, first]
  exact (congrArg (· >>= fun s => [].foldlM step s) second).trans rfl

/-- When the block has come and gone, no block is live and eight bytes are missing. -/
theorem padding_lost :
    (LinkedListAllocator.init 4104 64).run ⟨0, blank⟩ = (.ok (), oddHeap) ∧
      [.alloc wideWords, .dealloc ⟨4112, wideWords⟩].foldlM step ⟨oddHeap, []⟩ =
        some ⟨leaked, []⟩ ∧
      ¬ Conserved 64 ⟨leaked, []⟩ := by
  have served : (LinkedListAllocator.alloc wideWords).run oddHeap =
      (.ok 4112, ((LinkedListAllocator.alloc wideWords).run oddHeap).2) :=
    Prod.ext (by decide +kernel) rfl
  have returned : (LinkedListAllocator.dealloc 4112 wideWords).run
      ((LinkedListAllocator.alloc wideWords).run oddHeap).2 = (.ok (), leaked) :=
    Prod.ext (by decide +kernel) rfl
  have lists : leaked.Lists [4112, 4128] := by
    have last : leaked.next 4128 = 0 := by decide +kernel
    have both : ∀ {holds : UInt64 → Prop}, holds 4112 → holds 4128 →
        ∀ node ∈ [4112, 4128], holds node := fun first second =>
      List.forall_mem_cons.mpr ⟨first, List.forall_mem_singleton.mpr second⟩
    exact {
      path := ⟨by decide +kernel, by decide +kernel, last⟩
      nonnull := both (by decide) (by decide)
      aligned := both (by decide) (by decide)
      large := both (by decide +kernel) (by decide +kernel) }
  have first := step_alloc (s := ⟨oddHeap, []⟩) served (by decide)
  have second := step_dealloc (s := ⟨((LinkedListAllocator.alloc wideWords).run oddHeap).2,
    [⟨4112, wideWords⟩]⟩) List.mem_cons_self returned
  rw [List.erase_cons_head] at second
  refine ⟨rfl, two_steps first second, ?_⟩
  rintro ⟨nodes, lists', total⟩
  obtain rfl := lists_unique lists lists'
  exact absurd total (by decide +kernel)

end HeapRun

end Lsd
