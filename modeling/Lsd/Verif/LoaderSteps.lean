import Lsd.Verif.LoadReturns
import Lsd.Verif.TableFills

/-!
# Single steps of the loader

What the steps of `load` do to a frame list whose first frames are known: a new
root over a kernel's half without tables, a table that `map` makes, and a segment
of one page. Each takes the first frames of the list, so that a load can be
followed frame by frame.
-/

namespace Lsd

open Program Radix

section Steps

variable {hhdm a b c : UInt64} {s : Pmm} {rest nodes : List UInt64} {pages : Set UInt64}

/-- The entries of a table are cloned one by one. -/
theorem cloneIndices_eq (hhdm : UInt64) (depth : Nat) : ∃ recurse, ∀ src dest indices,
    cloneIndices hhdm depth src dest indices = indices.forM (cloneEntry hhdm recurse src dest) := by
  cases depth with
  | zero => exact ⟨_, fun _ _ _ => rfl⟩
  | succ depth => exact ⟨_, fun _ _ _ => rfl⟩

/-- What `clone_table_range` makes of an entry that is no branch. -/
def plainCopy (entry : PageEntry) : PageEntry := if entry.isLeaf then entry else 0

/-- A new root over a kernel's half without tables takes one frame, which gets the entries of the
kernel's half and keeps the words of the other half. -/
theorem newWithUpperhalf_plain {satp : Satp} (stock : Stock hhdm pages s (a :: b :: rest))
    (member : currentTable hhdm satp ∈ pages)
    (plain : ∀ index ∈ upperHalf,
      ¬ PageEntry.isBranch (s.memory (wordOf (currentTable hhdm satp) index)) = true) :
    ∃ s', (newWithUpperhalf hhdm satp).run s = (.ok a, s') ∧
      Stock hhdm (insert a pages) s' (b :: rest) ∧
      (∀ index < 256, s'.memory (wordOf a index) = s.memory (wordOf a index)) ∧
      ∀ index ∈ upperHalf, s'.memory (wordOf a index) =
        plainCopy (s.memory (wordOf (currentTable hhdm satp) index)) := by
  obtain ⟨first, ran, fresh, kept, -, left⟩ := stock.claim
  have claimed := FreeList.claim_run stock.holds (stock.inMap b (by simp)).1
  have words : ∀ index < 512, first.memory (wordOf a index) = s.memory (wordOf a index) := by
    intro index bound
    obtain ⟨-, rfl⟩ := Prod.mk.inj (claimed.symm.trans ran)
    exact FreeList.claim_words stock.holds bound
  obtain ⟨recurse, entries⟩ := cloneIndices_eq hhdm walkLimit
  have range : ∀ index, index ∈ List.range' 256 (512 - 256) ↔ index ∈ upperHalf := fun index =>
    Set.ext_iff.mp upperHalf_range index
  -- the entries that are done are copies, the others hold what the frame held
  have loop : ∃ last, ((List.range' 256 (512 - 256)).forM
      (cloneEntry hhdm recurse (currentTable hhdm satp) a)).run first = (.ok (), last) ∧
      Stock hhdm (insert a pages) last (b :: rest) ∧ Kept pages s.memory last.memory ∧
      ∀ index < 512, last.memory (wordOf a index) =
        if index ∈ List.range' 256 (512 - 256) then
          plainCopy (s.memory (wordOf (currentTable hhdm satp) index))
        else s.memory (wordOf a index) := by
    refine Prog.run_forM_returns (fun done (q : Pmm) => Stock hhdm (insert a pages) q (b :: rest) ∧
      Kept pages s.memory q.memory ∧ ∀ index < 512, q.memory (wordOf a index) =
        if index ∈ done then plainCopy (s.memory (wordOf (currentTable hhdm satp) index))
        else s.memory (wordOf a index))
      ⟨left, kept, fun index bound => words index bound⟩ ?_
    rintro done index after parts q ⟨stocked, same, sofar⟩
    have inside : index ∈ upperHalf := by
      rw [← range, parts]
      simp
    have read := same _ member index inside.2
    refine ⟨_, cloneEntry_plain read (plain index inside), ?_, ?_, ?_⟩
    · exact stocked.write (.store _ (Set.mem_insert a pages) inside.2 _)
    · have stored := Kept.store q.memory stocked.pagesAligned fresh.aligned inside.2
        (plainCopy (s.memory (wordOf (currentTable hhdm satp) index)))
      refine same.trans (stored.mono ?_)
      exact fun page used => ⟨.inr used, fun clash => fresh.outside (clash ▸ used)⟩
    · intro other bound
      simp only [List.mem_append, List.mem_singleton, Memory.store]
      by_cases here : other = index
      · subst here
        rw [Function.update_self]
        exact (if_pos (.inr rfl)).symm
      · have apart : wordOf a other ≠ wordOf a index := fun clash =>
          here (wordOf_inj fresh.aligned fresh.aligned bound inside.2 clash).2
        rw [Function.update_of_ne apart, sofar other bound]
        simp only [here, or_false]
  obtain ⟨last, cloned, stocked, -, copies⟩ := loop
  refine ⟨last, ?_, stocked, fun index low => ?_, fun index inside => ?_⟩
  · rw [newWithUpperhalf, Prog.run_bind_ok ran, cloneTableRange, entries, Prog.run_bind_ok cloned,
      Prog.run_pure]
  · have beside : ¬ index ∈ List.range' 256 (512 - 256) := fun inside =>
      Nat.not_le.mpr low (List.mem_range'_1.mp inside).1
    rw [copies index (by omega), if_neg beside]
  · rw [copies index inside.2, if_pos ((range index).mpr inside)]

variable {virt : VirtualAddress} {phys : PhysicalAddress} {target level : PageLevel}
  {flags : PageFlags} {steps height : Nat} {table : UInt64}

/-- Above its target level `map` makes a table of the first frame where an entry is not valid. -/
theorem Stock.mapLoop_claims (stock : Stock hhdm pages s (a :: b :: rest)) (member : table ∈ pages)
    (at_height : level.asUsize = height + 1) (above : level ≠ target)
    (invalid : PageEntry.getValid (s.memory (wordOf table (virt.path (height + 1)))) = false) :
    ∃ s', (mapLoop hhdm virt phys target flags (steps + 1) table level).run s =
        (mapLoop hhdm virt phys target flags steps a level.below).run s' ∧
      Stock hhdm (insert a pages) s' (b :: rest) ∧
      (∀ index < 512, s'.memory (wordOf a index) = 0) ∧
      ∀ page ∈ pages, ∀ index < 512, page ≠ table ∨ index ≠ virt.path (height + 1) →
        s'.memory (wordOf page index) = s.memory (wordOf page index) := by
  obtain ⟨first, ran, fresh, kept, -, left⟩ := stock.claim
  have bound := virt.path_lt (height + 1)
  obtain ⟨empty, -, others, changed⟩ := attachBlank_words
    (s.memory (wordOf table (virt.path (height + 1)))) stock.pagesAligned fresh kept member bound
  refine ⟨_, mapLoop_invalid at_height above rfl invalid ran fun index small => ?_,
    left.write changed, empty, others⟩
  exact writeTable_kept stock.pagesAligned fresh kept member small _

/-- A small page under an entry of a root of three levels that is not valid takes two frames, and
changes no other entry of the root. -/
theorem Stock.map_three (stock : Stock hhdm pages s (a :: b :: c :: rest)) (member : table ∈ pages)
    (invalid : PageEntry.getValid (s.memory (wordOf table (virt.path 3))) = false) :
    ∃ s', (map hhdm table virt phys .level3 .level1 flags).run s = (.ok (), s') ∧
      Stock hhdm (insert b (insert a pages)) s' (c :: rest) ∧
      ∀ index < 512, index ≠ virt.path 3 →
        s'.memory (wordOf table index) = s.memory (wordOf table index) := by
  obtain ⟨steps, long⟩ : ∃ steps, walkLimit = steps + 3 := ⟨2 ^ 45 - 3, rfl⟩
  obtain ⟨first, high, stock₁, empty₁, beside₁⟩ := @Stock.mapLoop_claims _ _ _ _ _ _ virt phys
    .level1 .level3 flags (steps + 2) 2 table stock member rfl (by decide) invalid
  have blank : PageEntry.getValid (first.memory (wordOf a (virt.path 2))) = false := by
    rw [empty₁ _ (virt.path_lt 2)]
    rfl
  obtain ⟨second, middle, stock₂, -, beside₂⟩ := @Stock.mapLoop_claims _ _ _ _ _ _ virt phys
    .level1 .level2 flags (steps + 1) 1 a stock₁ (Set.mem_insert a pages) rfl (by decide) blank
  have low : (mapLoop hhdm virt phys .level1 flags (steps + 1) b .level1).run second = _ :=
    @mapLoop_target _ _ _ _ _ _ _ 0 _ _ rfl rfl
  refine ⟨_, ?_, stock₂.write (.store _ (Set.mem_insert b _) (virt.path_lt 1)
    (leafEntry phys flags)), ?_⟩
  · rw [map, long]
    exact high.trans (middle.trans low)
  · intro index bound other
    have fresh := (stock₁.fresh List.mem_cons_self).outside
    have unused := (stock.fresh List.mem_cons_self).outside
    have apart : wordOf table index ≠ wordOf b (virt.path 1) := by
      intro clash
      have aligned := (stock₁.fresh List.mem_cons_self).aligned
      have same := (wordOf_inj (stock.pagesAligned table member) aligned bound (virt.path_lt 1)
        clash).1
      exact fresh (same ▸ Set.mem_insert_of_mem a member)
    have others : table ≠ a := fun same => unused (same ▸ member)
    refine (Function.update_of_ne apart _ _).trans ?_
    rw [beside₂ table (Set.mem_insert_of_mem a member) index bound (.inl others),
      beside₁ table member index bound (.inr other)]

/-- A segment of one page under an entry of a root of three levels that is not valid takes three
frames, and changes no other entry of the root. -/
theorem Stock.loadSegment_three {frame : UInt64} {bytes : List UInt8} {entry : ProgramHeader}
    (stock : Stock hhdm pages s (frame :: a :: b :: c :: rest)) (member : table ∈ pages)
    (load : entry.pType = 1) (single : entry.frames = 1 ∧ entry.pages = 1)
    (fits : max entry.pFilesz.toNat entry.pMemsz.toNat ≤ 4096)
    (inFile : ∀ i < entry.pFilesz.toNat, (UInt64.ofNat i + entry.pOffset).toNat < bytes.length)
    (invalid : PageEntry.getValid
      (s.memory (wordOf table (VirtualAddress.path entry.pVaddr 3))) = false) :
    ∃ s' used, (loadSegment hhdm .level3 bytes table entry).run s = (.ok (), s') ∧
      Stock hhdm used s' (c :: rest) ∧ pages ⊆ used ∧
      ∀ index < 512, index ≠ VirtualAddress.path entry.pVaddr 3 →
        s'.memory (wordOf table index) = s.memory (wordOf table index) := by
  obtain ⟨first, claim, stock₁, kept⟩ := stock.claimOne
  obtain ⟨second, fill⟩ : ∃ second, (fillSegment bytes entry frame).run first = (.ok (), second) :=
    fillSegment_returns inFile first
  obtain ⟨list, filled⟩ := fillSegment_fills fill
  have aligned := (stock.fresh List.mem_cons_self).aligned
  have outside := (stock.fresh List.mem_cons_self).outside
  have changed : ChangedWithin {frame} first.memory second.memory := by
    refine (@Filled.changed _ 1 _ _ _ _ filled aligned fits).mono fun page listed => ?_
    exact List.mem_singleton.mp listed
  have stock₂ := stock₁.changed list
    (changed.mono (Set.singleton_subset_iff.mpr (Set.mem_insert frame pages)))
  -- the root keeps its words until its entry is mapped
  have words : ∀ index < 512,
      second.memory (wordOf table index) = s.memory (wordOf table index) := by
    intro index bound
    have single : ∀ page ∈ ({frame} : Set UInt64), page % 4096 = 0 := fun _ same => same ▸ aligned
    have apart : table ∉ ({frame} : Set UInt64) := fun same => outside (same ▸ member)
    rw [changed.word single (stock.pagesAligned table member) bound apart,
      kept table member index bound]
  have still : PageEntry.getValid
      (second.memory (wordOf table (VirtualAddress.path entry.pVaddr 3))) = false := by
    rwa [words _ (VirtualAddress.path_lt _ _)]
  obtain ⟨third, mapped, stock₃, beside⟩ : ∃ third, (Lsd.map hhdm table entry.pVaddr
      (frame - hhdm) .level3 .level1 entry.pageFlags).run second = (.ok (), third) ∧
      Stock hhdm (insert b (insert a (insert frame pages))) third (c :: rest) ∧
      ∀ index < 512, index ≠ VirtualAddress.path entry.pVaddr 3 →
        third.memory (wordOf table index) = second.memory (wordOf table index) :=
    stock₂.map_three (Set.mem_insert_of_mem frame member) still
  refine ⟨third, _, ?_, stock₃, fun page used => .inr (.inr (.inr used)), fun index bound other =>
    (beside index bound other).trans (words index bound)⟩
  have pages : (mapSegment hhdm .level3 table entry frame).run second = (.ok (), third) := by
    rw [mapSegment, single.2]
    refine Prog.run_forM_cons_ok ?_
    simpa using mapped
  rw [loadSegment, Prog.run_only_pos load, single.1, Prog.run_bind_ok claim]
  exact (Prog.run_bind_ok fill).trans pages

end Steps

end Lsd
