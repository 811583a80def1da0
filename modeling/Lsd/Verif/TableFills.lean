import Lsd.Verif.TableHeights

/-!
# Cloning touches what it reads and fills

`clone_table_range` reads the tables below its source and fills the destination and
the frames that it takes for the copies. Each round of its loop fills one entry,
and the copy of a branch is a whole call below; nothing else is touched, the links
of the frame list apart.
-/

namespace Lsd

open Program Radix Twin

section Clone

variable {hhdm src dest : UInt64} {rank : UInt64 → Nat} {s : Pmm} {index height : Nat}
  {nodes : List UInt64} {recurse : UInt64 → UInt64 → Kernel Pmm Unit} {old new : Memory}

/-- Only a branch is the slot of a branch. -/
theorem isBranch_of_slot {entry : PageEntry} {child : UInt64}
    (slot : PageEntry.slot hhdm entry = .branch child) : entry.isBranch = true := by
  unfold PageEntry.slot at slot
  split_ifs at slot with zero leaf branch
  exact branch

/-- Heights are the same when the words of tables are. -/
theorem Ranked.kept (tree : Ranked hhdm old rank) (kept : Kept (ranked rank) old new) :
    Ranked hhdm new rank := by
  refine ⟨tree.aligned, fun page positive other small => ?_⟩
  rw [kept page positive other small]
  exact tree.below page positive other small

/-- The tables below some entries are as many when the words of tables are the same. -/
theorem Ranked.branches_eq {indices : List Nat} (tree : Ranked hhdm old rank)
    (kept : Kept (ranked rank) old new) (positive : 0 < rank src)
    (small : ∀ index ∈ indices, index < 512) :
    branches (slots hhdm new) 512 (rank src) src indices =
      branches (slots hhdm old) 512 (rank src) src indices := by
  obtain ⟨height, ranks⟩ : ∃ height, rank src = height + 1 := ⟨rank src - 1, by omega⟩
  rw [ranks]
  induction height generalizing src indices with
  | zero =>
    rw [branches, branches]
    refine congrArg List.sum (List.map_congr_left fun index member => ?_)
    rw [slots, slots, kept src positive index (small index member)]
    cases PageEntry.slot hhdm (old (wordOf src index)) <;> rfl
  | succ height ih =>
    rw [branches, branches]
    refine congrArg List.sum (List.map_congr_left fun index member => ?_)
    rw [slots, slots, kept src positive index (small index member)]
    by_cases branch : PageEntry.isBranch (old (wordOf src index)) = true
    · obtain ⟨lower, one⟩ := tree.below src positive index (small index member) branch
      rw [slot_branch branch, Slot.count, Slot.count,
        ih lower (fun _ inside => List.mem_range.mp inside) (by omega)]
    · have nowhere : ∀ count : UInt64 → Nat,
          (PageEntry.slot hhdm (old (wordOf src index))).count count = 0 := by
        intro count
        cases slot : PageEntry.slot hhdm (old (wordOf src index)) with
        | branch child =>
          exact absurd (isBranch_of_slot slot) branch
        | empty => rfl
        | leaf value => rfl
        | bad => rfl
      rw [nowhere, nowhere]

/-- An entry that is no branch is copied when it is a leaf, and cleared otherwise. -/
theorem cloneEntry_plain {entry : PageEntry} (read : s.memory (wordOf src index) = entry)
    (notBranch : ¬ entry.isBranch = true) :
    (cloneEntry hhdm recurse src dest index).run s = (.ok (), { s with
      memory := s.memory.store (wordOf dest index) (if entry.isLeaf then entry else 0) }) := by
  rw [cloneEntry, Prog.run_bind_ok (Prog.run_read _ _), read, if_neg notBranch]
  split <;> rfl

/-- Whether a program that fills some entries of a table from another one, with enough frames,
touches the words of tables, the words that it fills and the links of the frame list only. -/
def Fills (hhdm : UInt64) (rank : UInt64 → Nat) (program : Kernel Pmm Unit) (indices : List Nat)
    (src dest : UInt64) : Prop :=
  ∀ (s : Pmm) (nodes : List UInt64) (pages : Set UInt64), Ranked hhdm s.memory rank →
    ranked rank ⊆ pages → dest ∈ pages → Stock hhdm pages s nodes →
    branches (slots hhdm s.memory) 512 (rank src) src indices < nodes.length →
    ∃ s' taken rest, nodes = taken ++ rest ∧
      taken.length ≤ branches (slots hhdm s.memory) 512 (rank src) src indices ∧
      program.run s = (.ok (), s') ∧ Stock hhdm (pages ∪ {page | page ∈ taken}) s' rest ∧
      TouchesOnly (ranked rank) nodes (cells (insert dest {page | page ∈ taken}) nodes) program s

/-- What a program that fills a page outside the tables keeps. -/
theorem kept_of_touches {pages : Set UInt64} {program : Kernel Pmm Unit} {taken : List UInt64}
    {result : Except Stop Unit} {s' : Pmm} (stock : Stock hhdm pages s nodes)
    (inUse : ranked rank ⊆ pages) (member : dest ∈ pages) (other : rank dest = 0)
    (subset : taken ⊆ nodes)
    (touches : TouchesOnly (ranked rank) nodes (cells (insert dest {page | page ∈ taken}) nodes)
      program s) (ran : program.run s = (result, s')) : Kept (ranked rank) s.memory s'.memory := by
  intro page positive index bound
  have used := inUse positive
  have aligned := stock.pagesAligned page used
  refine touches.kept ran ?_
  rintro (⟨place, inside, next, small, same⟩ | link)
  · rcases inside with rfl | inside
    · have clash := (wordOf_inj aligned (stock.pagesAligned _ member) bound small same).1
      rw [ranked, Set.mem_ofPred_eq, clash, other] at positive
      exact Nat.lt_irrefl 0 positive
    · have frame := stock.holds.frames place (subset inside)
      have clash := (wordOf_inj aligned frame.aligned bound small same).1
      exact stock.apart place (subset inside) (clash ▸ used)
  · exact not_linkWords stock.holds.frames aligned bound (fun listed =>
      stock.apart page listed used) link

/-- The state after `clone_table_range` took the first frame for the copy of a table, with another
frame behind it. -/
def Pmm.fork (hhdm : UInt64) (s : Pmm) (dest : UInt64) (index : Nat) (entry : PageEntry)
    (frame behind : UInt64) : Pmm :=
  ⟨⟨behind, s.regionList.tail, s.regionList.len - 1⟩,
    ((s.memory.store (wordOf dest index) entry).store behind 0).store (wordOf dest index)
      (entry.setPpn ((frame - hhdm) >>> 12))⟩

section Fork

variable {frame behind : UInt64} {rest : List UInt64} {entry : PageEntry} {pages : Set UInt64}

/-- A branch is copied with the page number of the first frame of the stock, and then its table. -/
theorem cloneEntry_fork (stock : Stock hhdm pages s (frame :: behind :: rest))
    (source : src ∈ pages) (member : dest ∈ pages) (apart : src ≠ dest) (bound : index < 512)
    (read : s.memory (wordOf src index) = entry) (branch : entry.isBranch = true) :
    (cloneEntry hhdm recurse src dest index).run s =
      (recurse (entry.table hhdm) frame).run (s.fork hhdm dest index entry frame behind) := by
  have written : Stock hhdm pages { s with memory := s.memory.store (wordOf dest index) entry }
      (frame :: behind :: rest) := stock.write (ChangedWithin.store _ member bound _)
  have kept := written.kept_claim
  have claimed := FreeList.claim_run written.holds (stock.inMap behind (by simp)).1
  have distinct : wordOf src index ≠ wordOf dest index := fun same =>
    apart (wordOf_inj (stock.pagesAligned src source) (stock.pagesAligned dest member) bound bound
      same).1
  refine cloneEntry_branch read branch claimed ?_ ?_
  · exact (kept dest member index bound).trans (Function.update_self ..)
  · calc _ = _ := Function.update_of_ne distinct _ _
      _ = _ := kept src source index bound
      _ = _ := Function.update_of_ne distinct _ _
      _ = entry := read

/-- The stock after the first frame became the copy of a table. -/
theorem Stock.fork (stock : Stock hhdm pages s (frame :: behind :: rest)) (member : dest ∈ pages)
    (bound : index < 512) :
    Stock hhdm (insert frame pages) (s.fork hhdm dest index entry frame behind)
      (behind :: rest) := by
  have written : Stock hhdm pages { s with memory := s.memory.store (wordOf dest index) entry }
      (frame :: behind :: rest) := stock.write (ChangedWithin.store _ member bound _)
  obtain ⟨s₁, ran, -, -, -, later⟩ := written.claim
  obtain ⟨-, rfl⟩ := Prod.mk.inj
    ((FreeList.claim_run written.holds (stock.inMap behind (by simp)).1).symm.trans ran)
  exact later.write (ChangedWithin.store _ (Set.mem_insert_of_mem _ member) bound _)

/-- States with the same tables and list still have them after the first frame became the copy of a
table. -/
theorem Twins.fork {t : Pmm} {used : Set UInt64} {writes : Set UInt64}
    (twins : Twins used (frame :: behind :: rest) s t) (filled : wordOf dest index ∈ writes)
    (linked : behind ∈ writes) :
    Twins used (behind :: rest) (s.fork hhdm dest index entry frame behind)
        (t.fork hhdm dest index entry frame behind) ∧
      Alike writes s.memory t.memory (s.fork hhdm dest index entry frame behind).memory
        (t.fork hhdm dest index entry frame behind).memory := by
  have alike : Alike writes s.memory t.memory (s.fork hhdm dest index entry frame behind).memory
      (t.fork hhdm dest index entry frame behind).memory :=
    ((Alike.refl.update filled).update linked).update filled
  refine ⟨twins.after ?_ alike (List.subset_cons_self ..), alike⟩
  rw [Pmm.fork, Pmm.fork, twins.list]

/-- Copying a branch keeps the tables. -/
theorem Stock.kept_fork (stock : Stock hhdm pages s (frame :: behind :: rest))
    (entry : PageEntry) (inUse : ranked rank ⊆ pages) (member : dest ∈ pages)
    (other : rank dest = 0)
    (bound : index < 512) :
    Kept (ranked rank) s.memory (s.fork hhdm dest index entry frame behind).memory := by
  have written : Stock hhdm pages { s with memory := s.memory.store (wordOf dest index) entry }
      (frame :: behind :: rest) := stock.write (ChangedWithin.store _ member bound _)
  have destAligned := stock.pagesAligned dest member
  have subset : ranked rank ⊆ pages \ {dest} := fun page positive =>
    ⟨inUse positive, fun same => by
      rw [Set.mem_singleton_iff.mp same, ranked, Set.mem_ofPred_eq, other] at positive
      exact Nat.lt_irrefl 0 positive⟩
  have first := Kept.store s.memory stock.pagesAligned destAligned bound entry
  have second := written.kept_claim.mono (Set.sdiff_subset (t := {dest}))
  have third := Kept.store ((s.memory.store (wordOf dest index) entry).store behind 0)
    stock.pagesAligned destAligned bound (entry.setPpn ((frame - hhdm) >>> 12))
  exact ((first.trans second).trans third).mono subset

end Fork

/-- Copying an entry that is no branch fills it. -/
theorem fills_plain (positive : 0 < rank src) (bound : index < 512) {pages : Set UInt64}
    (member : dest ∈ pages)
    (stock : Stock hhdm pages s nodes)
    (notBranch : ¬ PageEntry.isBranch (s.memory (wordOf src index)) = true) :
    ∃ s', (cloneEntry hhdm recurse src dest index).run s = (.ok (), s') ∧
      Stock hhdm (pages ∪ {page | page ∈ ([] : List UInt64)}) s' nodes ∧
      TouchesOnly (ranked rank) nodes (cells (insert dest {page | page ∈ ([] : List UInt64)}) nodes)
        (cloneEntry hhdm recurse src dest index) s := by
  refine ⟨_, cloneEntry_plain rfl notBranch, ?_, ?_⟩
  · have nothing : pages ∪ {page | page ∈ ([] : List UInt64)} = pages := by simp
    rw [nothing]
    exact stock.write (ChangedWithin.store _ member bound _)
  · exact .store (mem_cells (Set.mem_insert _ _) bound) fun t twins =>
      cloneEntry_plain (twins.word positive bound) notBranch

/-- One round of the loop fills one entry, if its call below fills whole tables. -/
theorem cloneEntry_fills (positive : 0 < rank src) (other : rank dest = 0) (bound : index < 512)
    (below : ∀ old new, 0 < rank old → rank old + 1 = rank src → rank new = 0 →
      Fills hhdm rank (recurse old new) (List.range 512) old new) :
    Fills hhdm rank (cloneEntry hhdm recurse src dest index) [index] src dest := by
  intro s nodes pages tree inUse member stock spare
  by_cases branch : PageEntry.isBranch (s.memory (wordOf src index)) = true
  · obtain ⟨lower, one⟩ := tree.below src positive index bound branch
    have slot : slots hhdm s.memory src index = .branch _ := slot_branch branch
    rw [← one, branches, List.map_singleton, List.sum_singleton, slot, Slot.count] at spare
    obtain ⟨a, b, rest, rfl⟩ := exists_two (Nat.lt_of_le_of_lt (Nat.le_add_left 1 _) spare)
    have apart : src ≠ dest := by
      rintro rfl
      omega
    have source : src ∈ pages := inUse positive
    have unused : rank a = 0 := by
      by_contra used
      exact stock.apart a List.mem_cons_self (inUse (Nat.pos_of_ne_zero used))
    have kept := stock.kept_fork (s.memory (wordOf src index)) inUse member other bound
    have count := tree.branches_eq kept lower fun _ inside => List.mem_range.mp inside
    rw [← count] at spare
    obtain ⟨s', taken, left, parts, few, ran, later, touches⟩ :=
      below _ a lower one unused _ (b :: rest) (insert a pages) (tree.kept kept)
        (inUse.trans (Set.subset_insert _ _)) (Set.mem_insert _ _) (stock.fork member bound)
        (Nat.lt_of_succ_lt_succ spare)
    have few' : (a :: taken).length ≤
        branches (slots hhdm s.memory) 512 (rank src) src [index] := by
      rw [← one, branches, List.map_singleton, List.sum_singleton, slot, Slot.count, ← count,
        List.length_cons]
      exact Nat.succ_le_succ few
    refine ⟨s', a :: taken, left, by rw [parts, List.cons_append], few',
      (cloneEntry_fork stock source member apart bound rfl branch).trans ran, ?_, ?_⟩
    · have whole : pages ∪ {page | page ∈ a :: taken} =
          insert a pages ∪ {page | page ∈ taken} := by
        ext page
        simp only [Set.mem_union, Set.mem_ofPred_eq, List.mem_cons, Set.mem_insert_iff]
        tauto
      rwa [whole]
    · have wider : cells (insert a {page | page ∈ taken}) (b :: rest) ⊆
          cells (insert dest {page | page ∈ a :: taken}) (a :: b :: rest) := by
        refine cells_mono (fun page inside => .inr ?_) (List.subset_cons_self ..)
        simpa using inside
      refine (touches.mono wider).after (fun u => u.fork hhdm dest index
        (s.memory (wordOf src index)) a b) ?_ ?_
      · exact fun t twins => cloneEntry_fork (twins.stock stock) source member apart bound
          (twins.word positive bound) branch
      · intro t twins
        exact twins.fork (mem_cells (Set.mem_insert _ _) bound) (.inr ⟨b, by simp, .inl rfl⟩)
  · obtain ⟨s', ran, later, touches⟩ := fills_plain positive bound member stock branch
    exact ⟨s', [], nodes, rfl, Nat.zero_le _, ran, later, touches⟩

/-- A loop over some entries fills them, if each round fills its own. -/
theorem fills_forM {step : Nat → Kernel Pmm Unit} {indices : List Nat} (positive : 0 < rank src)
    (other : rank dest = 0) (small : ∀ index ∈ indices, index < 512)
    (each : ∀ index ∈ indices, Fills hhdm rank (step index) [index] src dest) :
    Fills hhdm rank (indices.forM step) indices src dest := by
  induction indices with
  | nil =>
    intro s nodes pages tree inUse member stock spare
    refine ⟨s, [], nodes, rfl, Nat.zero_le _, rfl, ?_, .rest fun _ _ => rfl⟩
    have nothing : pages ∪ {page | page ∈ ([] : List UInt64)} = pages := by simp
    rwa [nothing]
  | cons index indices ih =>
    intro s nodes pages tree inUse member stock spare
    obtain ⟨height, ranks⟩ : ∃ height, rank src = height + 1 := ⟨rank src - 1, by omega⟩
    have count : branches (slots hhdm s.memory) 512 (rank src) src (index :: indices) =
        branches (slots hhdm s.memory) 512 (rank src) src [index] +
          branches (slots hhdm s.memory) 512 (rank src) src indices := by
      rw [ranks]
      simp only [branches, List.map_cons, List.map_nil, List.sum_cons, List.sum_nil]
      omega
    rw [count] at spare
    obtain ⟨s₁, taken, rest, rfl, few, ran, stock₁, touches⟩ :=
      each index List.mem_cons_self s nodes pages tree inUse member stock (by omega)
    have kept := kept_of_touches stock inUse member other (List.subset_append_left ..) touches ran
    have small' : ∀ next ∈ indices, next < 512 := fun next inside =>
      small next (List.mem_cons_of_mem _ inside)
    have same := tree.branches_eq kept positive small'
    rw [List.length_append] at spare
    obtain ⟨s₂, more, left, parts, few', ran', stock₂, touches'⟩ := ih small'
      (fun next inside => each next (List.mem_cons_of_mem _ inside)) s₁ rest _ (tree.kept kept)
      (inUse.trans Set.subset_union_left) (.inl member) stock₁ (by omega)
    refine ⟨s₂, taken ++ more, left, by rw [parts, List.append_assoc], ?_,
      (Prog.run_bind_ok ran).trans ran', ?_, ?_⟩
    · rw [count, List.length_append]
      omega
    · have whole : pages ∪ {page | page ∈ taken ++ more} =
          pages ∪ {page | page ∈ taken} ∪ {page | page ∈ more} := by
        ext page
        simp only [Set.mem_union, Set.mem_ofPred_eq, List.mem_append]
        tauto
      rwa [whole]
    · have first : cells (insert dest {page | page ∈ taken}) (taken ++ rest) ⊆
          cells (insert dest {page | page ∈ taken ++ more}) (taken ++ rest) := by
        refine cells_mono (Set.insert_subset_insert fun page inside => ?_) (List.Subset.refl _)
        exact List.mem_append_left _ inside
      have second : cells (insert dest {page | page ∈ more}) rest ⊆
          cells (insert dest {page | page ∈ taken ++ more}) (taken ++ rest) := by
        refine cells_mono (Set.insert_subset_insert fun page inside => ?_)
          (List.subset_append_right ..)
        exact List.mem_append_right _ inside
      exact (touches.mono first).bind ran touches' (List.subset_append_right ..) second

/-- `clone_table_range` with enough frames: it touches the words of the tables that it reads, the
words of the tables that it fills and the links of the frame list only. -/
theorem cloneIndices_fills (hhdm : UInt64) {depth : Nat} {indices : List Nat}
    (positive : 0 < rank src)
    (other : rank dest = 0) (small : ∀ index ∈ indices, index < 512)
    (enough : rank src ≤ depth + 1) :
    Fills hhdm rank (cloneIndices hhdm depth src dest indices) indices src dest := by
  induction depth generalizing src dest indices with
  | zero =>
    refine fills_forM positive other small fun index inside =>
      cloneEntry_fills positive other (small index inside) fun old new lower one _ => ?_
    omega
  | succ depth ih =>
    refine fills_forM positive other small fun index inside =>
      cloneEntry_fills positive other (small index inside) fun old new lower one unused => ?_
    exact ih lower unused (fun _ inside => List.mem_range.mp inside) (by omega)

end Clone

end Lsd
