import Lsd.Verif.Cloning
import Lsd.Verif.RootTable

/-!
# The table of a new program

`new_with_upperhalf` takes a frame from the list and clones the upper half of the
current table into it. Nobody clears the lower half, so the entries there are the
words that the frame held in the list, the link to the next frame among them.
-/

namespace Lsd

open Program Radix

/-- The indices of the kernel's half of a root table. -/
abbrev upperHalf : Set Nat := Set.Ico 256 512

section Claim

variable {hhdm a b : UInt64} {s : Pmm} {rest : List UInt64} {pages : Set UInt64}

/-- `claim` of a frame with another frame of the direct map behind it clears one link. -/
theorem FreeList.claim_run (wf : s.Holds (a :: b :: rest)) (inMap : hhdm ≤ b) :
    (FreeList.claim hhdm).run s =
      (.ok a, ⟨⟨b, s.regionList.tail, s.regionList.len - 1⟩, s.memory.store b 0⟩) := by
  have frameA := wf.frames a (by simp)
  have frameB := wf.frames b (by simp)
  have head : s.regionList.head = a := by simpa using wf.head.symm
  have next : nextOf s.memory a = b := wf.links.2.1
  have high : ¬ b < hhdm := UInt64.not_lt.mpr inMap
  simp only [FreeList.claim, FreeList.claimNext, Prog.run_bind, Prog.run_read, head,
    run_loadNext frameA.nonzero, next, if_neg high, Prog.run_pure, run_storePrev frameB.nonzero,
    run_assign]

/-- The words of the frame that was claimed are the words it held in the list. -/
theorem FreeList.claim_words (wf : s.Holds (a :: b :: rest)) {index : Nat} (bound : index < 512) :
    s.memory.store b 0 (wordOf a index) = s.memory (wordOf a index) := by
  have frameA := wf.frames a (by simp)
  have frameB := wf.frames b (by simp)
  have apart : a ≠ b := fun same =>
    (List.nodup_cons.mp wf.nodup).1 (same ▸ List.mem_cons_self)
  apply Function.update_of_ne
  rw [← wordOf_zero b]
  exact fun clash => apart (wordOf_inj frameA.aligned frameB.aligned bound (by decide) clash).1

end Claim

/-- What `new_with_upperhalf` leaves behind. -/
structure FreshRoot (hhdm : UInt64) (stock : Nat → Set UInt64 → Pmm → Prop) (current : UInt64)
    (pages fresh : Set UInt64) (extra height : Nat) (root : UInt64) (s s' : Pmm) : Prop where
  /-- The root was the head of the list. -/
  head : root = s.regionList.head
  /-- It was not in use. -/
  frame : FreshFrame hhdm pages root
  /-- Neither were the tables that were made, which are others. -/
  unused : Disjoint fresh (insert root pages)
  /-- They are pages. -/
  aligned : ∀ page ∈ fresh, page % 4096 = 0
  /-- The lower half of the root holds what the frame held. -/
  lower : ∀ index < 256, s'.memory (wordOf root index) = s.memory (wordOf root index)
  /-- The upper half leads to new tables. -/
  rooted : Rooted hhdm upperHalf (insert root fresh) height root s'.memory
  /-- It goes where the current table goes. -/
  copied : ∀ virt : VirtualAddress, virt.path (height + 1) ∈ upperHalf →
    leafOf hhdm s'.memory (height + 1) root virt = leafOf hhdm s.memory (height + 1) current virt
  /-- Valid entries of the current table have valid copies. -/
  valid : ∀ index ∈ upperHalf, PageEntry.getValid (s.memory (wordOf current index)) = true →
    PageEntry.getValid (s'.memory (wordOf root index)) = true
  /-- Pages in use keep their words. -/
  kept : Kept pages s.memory s'.memory
  /-- Further frames are left. -/
  supplies : stock extra (insert root pages ∪ fresh) s'

section New

variable {hhdm : UInt64} {satp : Satp} {pages : Set UInt64} {extra height : Nat} {s : Pmm}
  {nodes : List UInt64}

/-- The indices that `new_with_upperhalf` clones. -/
theorem upperHalf_range : {index | index ∈ List.range' 256 (512 - 256)} = upperHalf := by
  ext index
  rw [Set.mem_ofPred_eq, List.mem_range'_1, Set.mem_Ico]

/-- `new_with_upperhalf` with enough frames in the list. -/
theorem newWithUpperhalf_spec {stock : Nat → Set UInt64 → Pmm → Prop}
    (source : FrameSource hhdm stock)
    (mapAligned : hhdm % 4096 = 0) (short : height + 1 ≤ 5)
    (rooted : Rooted hhdm upperHalf pages height (currentTable hhdm satp) s.memory)
    (list : Stock hhdm pages s nodes) (several : 1 < nodes.length)
    (supplied : stock (branches (slots hhdm s.memory) 512 (height + 1) (currentTable hhdm satp)
      (List.range' 256 (512 - 256)) + 1 + extra) pages s) :
    ∃ root s' fresh, (newWithUpperhalf hhdm satp).run s = (.ok root, s') ∧
      FreshRoot hhdm stock (currentTable hhdm satp) pages fresh extra height root s s' := by
  match nodes with
  | [] | [a] => simp at several
  | a :: b :: rest =>
    have wf := list.holds
    have claimed := FreeList.claim_run wf (list.inMap b (by simp)).1
    rw [Nat.add_right_comm] at supplied
    obtain ⟨_, s₁, ran, fresh, kept, later⟩ := source.next supplied (ChangedWithin.refl _ _)
    obtain ⟨same, after⟩ := Prod.mk.inj (claimed.symm.trans ran)
    obtain rfl := Except.ok.inj same
    have words : ∀ index < 512, s₁.memory (wordOf a index) = s.memory (wordOf a index) := by
      intro index bound
      rw [← after]
      exact FreeList.claim_words wf bound
    obtain ⟨still, -, walks⟩ := rooted.kept (kept.mono rooted.inUse)
    have pagesAligned : ∀ page ∈ insert a pages, page % 4096 = 0 :=
      Set.forall_mem_insert.mpr ⟨fresh.aligned, list.pagesAligned⟩
    have apart : currentTable hhdm satp ≠ a := fun same => fresh.outside (same ▸ rooted.member)
    have ready : Copyable (slots hhdm s₁.memory) 512
        {index | index ∈ List.range' 256 (512 - 256)} (insert a pages) height
        (currentTable hhdm satp) a := by
      rw [upperHalf_range]
      refine ⟨still.limbs, still.bound, .inr still.member, .inl rfl, apart,
        fun index member => (still.reachedInUse member).trans (Set.subset_insert _ _), ?_⟩
      exact fun index member inside => fresh.outside (still.reachedInUse member inside)
    have count : branches (slots hhdm s₁.memory) 512 (height + 1) (currentTable hhdm satp)
        (List.range' 256 (512 - 256)) = branches (slots hhdm s.memory) 512 (height + 1)
          (currentTable hhdm satp) (List.range' 256 (512 - 256)) := by
      have inside : ∀ index ∈ List.range' 256 (512 - 256), index ∈ upperHalf := fun index member =>
        upperHalf_range ▸ member
      refine Agree.branches_eq (fun index member => (inside index member).2) ?_ ?_
      · exact fun index member => kept.agree _ rooted.member index (inside index member).2
      · exact fun index member => kept.agree.mono (rooted.reachedInUse (inside index member))
    have deep : height ≤ walkLimit := by
      rw [walkLimit]
      omega
    rw [← count] at later
    obtain ⟨s', taken, cloned, outcome⟩ := cloneIndices_clones source mapAligned deep
      List.nodup_range' _ _ extra pagesAligned ready later
    have copied := outcome.copied
    rw [upperHalf_range] at copied
    have untouched : pages ⊆ insert a pages \ {a} := fun page used =>
      ⟨.inr used, fun same => fresh.outside (same ▸ used)⟩
    refine ⟨a, s', taken, ?_, ?_, fresh, outcome.unused, outcome.aligned, ?_, ?_, ?_, ?_, ?_, ?_⟩
    · rw [newWithUpperhalf, Prog.run_bind_ok claimed, after, cloneTableRange,
        Prog.run_bind_ok cloned,
        Prog.run_pure]
    · simpa using wf.head
    · intro index bound
      have lower : index ∉ List.range' 256 (512 - 256) := fun member =>
        absurd (List.mem_range'_1.mp member).1 (Nat.not_le.mpr bound)
      have small : index < 512 := by omega
      rw [outcome.beside index small lower]
      exact words index small
    · refine ⟨still.bound, copied.limbs, ?_⟩
      rintro page (same | ⟨index, member, inside⟩)
      · exact .inl same
      · exact .inr (copied.under index member inside)
    · intro virt inside
      rw [← walks virt inside]
      exact copied.copied _ virt.path_lt inside
    · intro index inside valid
      rw [← kept (currentTable hhdm satp) rooted.member index inside.2] at valid
      rw [valid_iff_of_sound (copied.limbs.sound index inside)]
      exact copied.filled index inside
        ((valid_iff_of_sound (still.limbs.sound index inside)).mp valid)
    · exact kept.trans (outcome.kept.mono untouched)
    · exact outcome.supplies

/-- Whether all entries of the user's half of a root table are zero. -/
def LowerEmpty (memory : Memory) (root : UInt64) : Prop :=
  ∀ index < 256, memory (wordOf root index) = 0

/-- The root of a new program is never empty below: its lower half holds the words that the frame
held in the list, and the second of them is the link to the next frame. The upper half goes where
the current table goes. -/
theorem newWithUpperhalf_never_empty {level : PageLevel} (mapAligned : hhdm % 4096 = 0)
    (at_height : level.asUsize = height + 1)
    (rooted : Rooted hhdm upperHalf pages height (currentTable hhdm satp) s.memory)
    (stock : Stock hhdm pages s nodes)
    (enough : branches (slots hhdm s.memory) 512 (height + 1) (currentTable hhdm satp)
      (List.range' 256 (512 - 256)) + 1 < nodes.length) :
    ∃ root s', (newWithUpperhalf hhdm satp).run s = (.ok root, s') ∧
      ¬ LowerEmpty s'.memory root ∧
      (∀ index < 256, s'.memory (wordOf root index) = s.memory (wordOf s.regionList.head index)) ∧
      ∀ virt : VirtualAddress, (virt.index level).toNat ∈ upperHalf →
        translate hhdm level root s' virt =
          translate hhdm level (currentTable hhdm satp) s virt := by
  have short : height + 1 ≤ 5 := at_height ▸ level.asUsize_le
  have several : 1 < nodes.length := by omega
  have supplied : Stocked hhdm (branches (slots hhdm s.memory) 512 (height + 1)
      (currentTable hhdm satp) (List.range' 256 (512 - 256)) + 1 + 0) pages s :=
        ⟨nodes, stock, enough⟩
  obtain ⟨root, s', fresh, ran, outcome⟩ :=
    newWithUpperhalf_spec (stocked_source hhdm) mapAligned short rooted stock several supplied
  have lower : ∀ index < 256,
      s'.memory (wordOf root index) = s.memory (wordOf s.regionList.head index) :=
    fun index bound => outcome.head ▸ outcome.lower index bound
  refine ⟨root, s', ran, fun empty => ?_, lower, fun virt inside => ?_⟩
  · have link := (lower 1 (by decide)).symm.trans (empty 1 (by decide))
    match nodes with
    | [] | [a] => simp at enough
    | a :: b :: rest =>
      have head : s.regionList.head = a := by simpa using stock.holds.head.symm
      have next : s.memory (wordOf a 1) = b := stock.holds.links.2.1
      rw [head, next] at link
      exact (stock.holds.frames b (by simp)).nonzero link
  · rw [VirtualAddress.toNat_index _ at_height] at inside
    rw [outcome.rooted.translate_known at_height inside, rooted.translate_known at_height inside,
      outcome.copied virt inside]

end New

section Sample

open FreeList (sampleMap sampleFrame pair pair_holds)

/-- A `satp` whose table is the sample page. -/
def sampleSatp : Satp := 0x80010

/-- The table that it names. -/
theorem currentTable_sample : currentTable sampleMap sampleSatp = samplePage := by decide

/-- The upper half of the sample page is empty. -/
theorem pair_rooted :
    Rooted sampleMap upperHalf {samplePage} 2 (currentTable sampleMap sampleSatp) pair.memory := by
  rw [currentTable_sample]
  apply Rooted.of_empty (fun _ inside => inside.2)
  exact fun index inside => pair_blank index inside.2

/-- The list of two frames is a stock beside the sample page. -/
theorem pair_stock : Stock sampleMap {samplePage} pair [sampleFrame, sampleFrame + 4096] := by
  refine ⟨pair_holds, ?_, ?_, ?_⟩
  · exact fun page same => same ▸ (by decide : samplePage % 4096 = 0)
  · exact List.forall_mem_cons.mpr ⟨by decide, List.forall_mem_singleton.mpr (by decide)⟩
  · exact List.forall_mem_cons.mpr ⟨by decide, List.forall_mem_singleton.mpr (by decide)⟩

/-- Cloning the sample page takes no frame. -/
theorem pair_branches : branches (slots sampleMap pair.memory) 512 3
    (currentTable sampleMap sampleSatp) (List.range' 256 (512 - 256)) = 0 := by
  rw [currentTable_sample, branches]
  refine List.sum_eq_zero fun count counted => ?_
  obtain ⟨index, inside, rfl⟩ := List.mem_map.mp counted
  have bound := (List.mem_range'_1.mp inside).2
  rw [pair_blank index (by omega)]
  rfl

/-- With two frames in the list and an empty current table, the root that is returned holds the link
to the second frame. -/
theorem newWithUpperhalf_link :
    ∃ s', (newWithUpperhalf sampleMap sampleSatp).run pair = (.ok sampleFrame, s') ∧
      s'.memory (wordOf sampleFrame 1) =
        sampleFrame + 4096 ∧ ¬ LowerEmpty s'.memory sampleFrame := by
  have supplied : Stocked sampleMap (branches (slots sampleMap pair.memory) 512 3
      (currentTable sampleMap sampleSatp) (List.range' 256 (512 - 256)) + 1 + 0)
        {samplePage} pair := by
    refine ⟨_, pair_stock, ?_⟩
    rw [pair_branches]
    exact Nat.lt_succ_self 1
  obtain ⟨root, s', fresh, ran, outcome⟩ := newWithUpperhalf_spec (stocked_source sampleMap)
    (by decide) (by decide) pair_rooted pair_stock (by decide) supplied
  obtain rfl : root = sampleFrame := outcome.head
  have link : s'.memory (wordOf sampleFrame 1) = sampleFrame + 4096 := outcome.lower 1 (by decide)
  refine ⟨s', ran, link, fun empty => ?_⟩
  exact absurd (link.symm.trans (empty 1 (by decide))) (by decide)

/-- The link word is there for the sample as for every list. -/
theorem newWithUpperhalf_never_empty_pair :
    ∃ root s', (newWithUpperhalf sampleMap sampleSatp).run pair = (.ok root, s') ∧
      ¬ LowerEmpty s'.memory root := by
  have enough : branches (slots sampleMap pair.memory) 512 3 (currentTable sampleMap sampleSatp)
      (List.range' 256 (512 - 256)) + 1 < [sampleFrame, sampleFrame + 4096].length := by
    rw [pair_branches]
    exact Nat.lt_succ_self 1
  have levels : PageLevel.level3.asUsize = 2 + 1 := rfl
  obtain ⟨root, s', ran, stale, -⟩ :=
    newWithUpperhalf_never_empty (by decide) levels pair_rooted pair_stock enough
  exact ⟨root, s', ran, stale⟩

end Sample

end Lsd
