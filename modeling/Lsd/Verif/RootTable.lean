import Lsd.Verif.Translation

/-!
# A root table with known entries

The root of a user table is a recycled frame, and only some of its entries are
known to lead to trees. What `map` does through such a root is described here for
a call that returned: its entry was known, or was blank and becomes known. The
other entries of the root keep their words, and walks that begin at known entries
change inside the page that was mapped only.
-/

namespace Lsd

open Program Radix

/-- A root table whose known entries lead to trees in use. -/
structure Rooted (hhdm : UInt64) (known : Set Nat) (pages : Set UInt64) (height : Nat)
    (root : UInt64)
    (memory : Memory) : Prop where
  /-- The known entries lie in the table. -/
  bound : ∀ index ∈ known, index < 512
  /-- They lead to trees. -/
  limbs : PageLimbs hhdm memory known height root
  /-- The root and the tables of these trees are in use. -/
  inUse : footprint (slots hhdm memory) 512 known height root ⊆ pages

section Rooted

variable {hhdm root : UInt64} {known : Set Nat} {pages more : Set UInt64} {height : Nat}
  {memory old new : Memory} {s s' : Pmm} {level : PageLevel}

/-- The root is in use. -/
theorem Rooted.member (rooted : Rooted hhdm known pages height root memory) : root ∈ pages :=
  rooted.inUse (.inl rfl)

/-- What a known entry reaches is in use. -/
theorem Rooted.reachedInUse (rooted : Rooted hhdm known pages height root memory) {index : Nat}
    (member : index ∈ known) : reached hhdm memory height root index ⊆ pages :=
  fun _ inside => rooted.inUse (.inr ⟨index, member, inside⟩)

/-- More pages can come into use. -/
theorem Rooted.mono (rooted : Rooted hhdm known pages height root memory) (subset : pages ⊆ more) :
    Rooted hhdm known more height root memory :=
  ⟨rooted.bound, rooted.limbs, rooted.inUse.trans subset⟩

/-- A root whose known entries are all zero reaches itself only. -/
theorem Rooted.of_empty (bound : ∀ index ∈ known, index < 512)
    (empty : ∀ index ∈ known, slots hhdm memory root index = .empty) :
    Rooted hhdm known {root} height root memory := by
  refine ⟨bound, .of_empty empty, ?_⟩
  rw [footprint_of_empty empty]

/-- A root whose known entries lead to no table reaches itself only. -/
theorem Rooted.of_plain (bound : ∀ index ∈ known, index < 512)
    (plain : ∀ index ∈ known, slots hhdm memory root index = .empty ∨
      ∃ entry, slots hhdm memory root index = .leaf entry) :
    Rooted hhdm known {root} height root memory := by
  have under : ∀ index ∈ known, (slots hhdm memory root index).under
      (tables (slots hhdm memory) 512 height) = ∅ := by
    intro index inside
    rcases plain index inside with empty | ⟨entry, leaf⟩
    · rw [empty]
      rfl
    · rw [leaf]
      rfl
  refine ⟨bound, ⟨?_, ?_, ?_⟩, ?_⟩
  · intro index inside
    rcases plain index inside with empty | ⟨entry, leaf⟩
    · rw [empty]
      trivial
    · rw [leaf]
      trivial
  · intro index inside
    rw [under index inside]
    exact Set.notMem_empty _
  · intro index inside other _ _
    rw [under index inside]
    exact Set.empty_disjoint _
  · rintro page (same | ⟨index, inside, found⟩)
    · exact same
    · rw [under index inside] at found
      cases found

/-- Changes outside the tables leave the root and every walk alone. -/
theorem Rooted.kept (rooted : Rooted hhdm known pages height root old)
    (kept : Kept (footprint (slots hhdm old) 512 known height root) old new) :
    Rooted hhdm known pages height root new ∧
      footprint (slots hhdm new) 512 known height root =
        footprint (slots hhdm old) 512 known height root ∧
      ∀ other : VirtualAddress, other.path (height + 1) ∈ known →
        leafOf hhdm new (height + 1) root other = leafOf hhdm old (height + 1) root other := by
  obtain ⟨limbs, same, walks⟩ := kept.agree.limbs rooted.bound rooted.limbs
  refine ⟨⟨rooted.bound, limbs, same ▸ rooted.inUse⟩, same, fun other inside => ?_⟩
  exact walks _ other.path_lt inside

/-- An address under a known entry goes where its walk ends. -/
theorem Rooted.translate_known (rooted : Rooted hhdm known pages height root s.memory)
    (at_height : level.asUsize = height + 1) {other : VirtualAddress}
    (inside : other.path (height + 1) ∈ known) :
    translate hhdm level root s other =
      .ok (resultOf other (leafOf hhdm s.memory (height + 1) root other)) := by
  rw [translate_limb at_height (rooted.limbs.sound _ inside), at_height]

/-- A walk that begins at an entry that is not valid comes to no leaf. -/
theorem leafOf_invalid {other : VirtualAddress}
    (invalid : PageEntry.getValid (memory (wordOf root (other.path (height + 1)))) = false) :
    leafOf hhdm memory (height + 1) root other = none := by
  by_cases zero : memory (wordOf root (other.path (height + 1))) = 0
  · exact find_empty (by rw [slots, zero, slot_zero])
  · have slot : slots hhdm memory root (other.path (height + 1)) = .bad := by
      rw [slots, PageEntry.slot, if_neg zero]
      simp [PageEntry.isLeaf, PageEntry.isBranch, invalid]
    rw [leafOf, find, slot]

/-- An address under an entry that is not valid goes nowhere. -/
theorem translate_invalid (at_height : level.asUsize = height + 1) {other : VirtualAddress}
    (invalid : PageEntry.getValid (s.memory (wordOf root (other.path (height + 1)))) = false) :
    translate hhdm level root s other = .ok (.error "Table not found") := by
  have index : (other.index level).toNat = other.path (height + 1) := other.toNat_index at_height
  have bound := other.path_lt (height + 1)
  have notLeaf : ¬ PageEntry.isLeaf (s.memory (wordOf root (other.path (height + 1)))) = true := by
    simp [PageEntry.isLeaf, invalid]
  have notBranch :
      ¬ PageEntry.isBranch (s.memory (wordOf root (other.path (height + 1)))) = true := by
    simp [PageEntry.isBranch, invalid]
  have steps : walkLimit = (walkLimit - 1) + 1 := rfl
  rw [translate, steps, walkLoop, index, Prog.run_bind_ok (run_checkIndex bound),
    Prog.run_bind_ok (Prog.run_read _ _), if_neg notLeaf, if_neg notBranch, Prog.run_pure]

/-- A root table in which every entry leads to a tree or is blank. -/
structure RootTree (hhdm : UInt64) (known : Set Nat) (pages : Set UInt64) (height : Nat)
    (root : UInt64)
    (memory : Memory) : Prop where
  /-- The known entries lead to trees in use. -/
  rooted : Rooted hhdm known pages height root memory
  /-- The other entries are blank. -/
  blank : ∀ index < 512, index ∉ known → PageEntry.isBlank (memory (wordOf root index)) = true

/-- Every walk ends there. -/
theorem RootTree.translate_eq (tree : RootTree hhdm known pages height root s.memory)
    (at_height : level.asUsize = height + 1) (other : VirtualAddress) :
    translate hhdm level root s other =
      .ok (resultOf other (leafOf hhdm s.memory (height + 1) root other)) := by
  by_cases inside : other.path (height + 1) ∈ known
  · exact tree.rooted.translate_known at_height inside
  · have invalid := (isBlank_flags (tree.blank _ (other.path_lt _) inside)).1
    rw [translate_invalid at_height invalid, leafOf_invalid invalid, resultOf]

end Rooted

/-- What a call of `map` through a root leaves behind when it returns. -/
structure RootMapped (hhdm : UInt64) (stock : Nat → Set UInt64 → Pmm → Prop) (known : Set Nat)
    (virt : VirtualAddress) (target : PageLevel) (entry : PageEntry) (pages fresh : Set UInt64)
    (extra height : Nat) (root : UInt64) (s s' : Pmm) : Prop where
  /-- The tables it made were not in use. -/
  unused : Disjoint fresh pages
  /-- They are pages. -/
  aligned : ∀ page ∈ fresh, page % 4096 = 0
  /-- The entry of the address is known now. -/
  rooted : Rooted hhdm (insert (virt.path (height + 1)) known) (pages ∪ fresh) height root s'.memory
  /-- Pages in use that are no table of the root keep their words. -/
  kept : Kept (pages \ footprint (slots hhdm s.memory) 512 known height root) s.memory s'.memory
  /-- The root keeps its other words. -/
  beside : ∀ index < 512, index ≠ virt.path (height + 1) →
    s'.memory (wordOf root index) = s.memory (wordOf root index)
  /-- The root reaches the tables it reached before, and those that were made. -/
  grown : footprint (slots hhdm s'.memory) 512 (insert (virt.path (height + 1)) known) height root ⊆
    footprint (slots hhdm s.memory) 512 known height root ∪ fresh
  /-- The addresses of the page come to the new leaf. -/
  along : ∀ other : VirtualAddress,
    SamePath target.asUsize (height + 1) virt.path other.path →
      leafOf hhdm s'.memory (height + 1) root other = some (target.asUsize, entry)
  /-- Other addresses under known entries come to where they came before. -/
  across : ∀ other : VirtualAddress,
    other.path (height + 1) ∈ insert (virt.path (height + 1)) known →
    ¬ SamePath target.asUsize (height + 1) virt.path other.path →
      leafOf hhdm s'.memory (height + 1) root other = leafOf hhdm s.memory (height + 1) root other
  /-- Further frames are left. -/
  supplies : stock extra (pages ∪ fresh) s'

section Map

variable {hhdm root : UInt64} {stock : Nat → Set UInt64 → Pmm → Prop} {known : Set Nat}
  {virt : VirtualAddress} {phys : PhysicalAddress} {target level : PageLevel} {flags : PageFlags}
  {entry : PageEntry} {pages fresh : Set UInt64} {extra height : Nat} {s s' : Pmm}

/-- An edit under a known entry is a call through the root. -/
theorem Rooted.mapped (rooted : Rooted hhdm known pages height root s.memory)
    (here : virt.path (height + 1) ∈ known) (reach : target.asUsize ≤ height + 1)
    (mapped : Mapped hhdm stock virt target (some (target.asUsize, entry)) pages fresh extra height
      root s s') :
    RootMapped hhdm stock known virt target entry pages fresh extra height root s s' := by
  have same : insert (virt.path (height + 1)) known = known := Set.insert_eq_of_mem here
  have inUse : ∀ index ∈ known, reached hhdm s.memory height root index ⊆ pages :=
    fun index => rooted.reachedInUse
  have limbs := mapped.edits.limbs rooted.limbs rooted.bound here inUse rooted.member mapped.unused
  have grown := mapped.edits.footprint_subset rooted.limbs rooted.bound here rooted.inUse
  have found := fun (other : VirtualAddress) (inside : other.path (height + 1) ∈ known) =>
    mapped.edits.find_eq rooted.limbs here inUse other.path_lt inside reach
  refine ⟨mapped.unused, mapped.aligned, ?_, ?_, mapped.beside, ?_, fun other along => ?_,
    fun other inside across => ?_, mapped.supplies⟩
  · rw [same]
    exact ⟨rooted.bound, limbs, grown.trans (Set.union_subset_union_left _ rooted.inUse)⟩
  · apply mapped.kept.mono
    rintro page ⟨used, outside⟩
    refine ⟨used, fun edited => outside ?_⟩
    exact edited.imp id fun inside => ⟨_, here, inside⟩
  · rw [same]
    exact grown
  · have first : other.path (height + 1) = virt.path (height + 1) := along _ reach (Nat.le_refl _)
    exact (found other (first ▸ here)).1 along
  · rw [same] at inside
    exact (found other inside).2 across

/-- What a call made of a root whose blank entry is read as zero, it made of the root itself. -/
theorem RootMapped.of_zeroWord (rooted : Rooted hhdm known pages height root s.memory)
    (pagesAligned : ∀ page ∈ pages, page % 4096 = 0)
    (blank : PageEntry.isBlank (s.memory (wordOf root (virt.path (height + 1)))) = true)
    (mapped : RootMapped hhdm stock (insert (virt.path (height + 1)) known) virt target entry pages
      fresh extra height root (s.zeroWord root (virt.path (height + 1))) s')
    (empty : slots hhdm (s.zeroWord root (virt.path (height + 1))).memory root
      (virt.path (height + 1)) = .empty)
    (same : footprint (slots hhdm (s.zeroWord root (virt.path (height + 1))).memory)
    512 known height
      root = footprint (slots hhdm s.memory) 512 known height root)
    (walks : ∀ other : VirtualAddress, other.path (height + 1) ∈ known →
      leafOf hhdm (s.zeroWord root (virt.path (height + 1))).memory (height + 1) root other =
        leafOf hhdm s.memory (height + 1) root other) :
    RootMapped hhdm stock known virt target entry pages fresh extra height root s s' := by
  have rootAligned := pagesAligned root rooted.member
  have small := virt.path_lt (height + 1)
  have twice : insert (virt.path (height + 1)) (insert (virt.path (height + 1)) known) =
      insert (virt.path (height + 1)) known := Set.insert_eq_of_mem (Set.mem_insert _ _)
  have tables : footprint (slots hhdm (s.zeroWord root (virt.path (height + 1))).memory) 512
      (insert (virt.path (height + 1)) known) height root =
        footprint (slots hhdm s.memory) 512 known height root :=
    (footprint_insert_empty empty).trans same
  -- reading the entry as zero is a write to the root
  have zeroed : Kept (pages \ {root}) s.memory (s.zeroWord root (virt.path (height + 1))).memory :=
    Kept.store _ pagesAligned rootAligned small _
  refine ⟨mapped.unused, mapped.aligned, twice ▸ mapped.rooted, ?_, fun index bound other => ?_, ?_,
    mapped.along, fun other inside across => ?_, mapped.supplies⟩
  · have later := mapped.kept
    rw [tables] at later
    refine (zeroed.mono ?_).trans later
    exact fun page inside => ⟨inside.1, fun clash => inside.2 (.inl clash)⟩
  · rw [mapped.beside index bound other]
    apply Function.update_of_ne
    exact fun clash => other (wordOf_inj rootAligned rootAligned bound small clash).2
  · have grown := mapped.grown
    rwa [twice, tables] at grown
  · rw [mapped.across other (twice.symm ▸ inside) across]
    rcases inside with first | inside
    · have nowhere : leafOf hhdm s.memory (height + 1) root other = none := by
        apply leafOf_invalid
        rw [first]
        exact (isBlank_flags blank).1
      rw [nowhere, leafOf, find_empty (by rw [first, empty])]
    · exact walks other inside

/-- A call of `map` through a root where the entry of the address is known, with no leaf above the
target on the way, or is blank. It claims a frame for each table that the walk lacks. -/
theorem Rooted.map_run (phys : PhysicalAddress) (source : FrameSource hhdm stock)
    (mapAligned : hhdm % 4096 = 0)
    (maps : flags.Maps) (positive : 1 ≤ target.asUsize) (at_height : level.asUsize = height + 1)
    (reach : target.asUsize ≤ height) (rooted : Rooted hhdm known pages height root s.memory)
    (pagesAligned : ∀ page ∈ pages, page % 4096 = 0)
    (ready : virt.path (height + 1) ∈ known ∧
    ¬ Covered hhdm s.memory (height + 1) root virt target ∨
      virt.path (height + 1) ∉ known ∧
        PageEntry.isBlank (s.memory (wordOf root (virt.path (height + 1)))) = true)
    (supplied : stock (missing (slots hhdm s.memory) virt.path target.asUsize (height + 1) root +
      extra) pages s) :
    ∃ s' fresh, (Lsd.map hhdm root virt phys level target flags).run s = (.ok (), s') ∧
      RootMapped hhdm stock known virt target (leafEntry phys flags) pages fresh extra height root s
        s' ∧
      (target.asUsize = 1 → footprint (slots hhdm s.memory) 512 known height root ∪ fresh ⊆
        footprint (slots hhdm s'.memory) 512
          (insert (virt.path (height + 1)) known) height root) := by
  have short : height + 1 ≤ 5 := at_height ▸ level.asUsize_le
  have enough : height < walkLimit := by
    rw [walkLimit]
    omega
  rcases ready with ⟨here, uncovered⟩ | ⟨here, blank⟩
  · obtain ⟨s', fresh, ran, mapped, grown⟩ := mapLoop_maps source mapAligned maps positive at_height
      enough (by omega) (rooted.limbs.mono (Set.singleton_subset_iff.mpr here)) pagesAligned
      rooted.member (rooted.reachedInUse here) supplied uncovered
    refine ⟨s', fresh, ran, rooted.mapped here (by omega) mapped, fun lowest => ?_⟩
    rw [Set.insert_eq_of_mem here]
    exact (grown lowest).footprint_subset mapped.edits rooted.limbs rooted.bound here
      fun index => rooted.reachedInUse
  · obtain ⟨lower, rfl⟩ : ∃ lower, height = lower + 1 := ⟨height - 1, by omega⟩
    have limit : walkLimit = (walkLimit - 1) + 1 := rfl
    have below : lower < walkLimit - 1 := by omega
    have nowhere : ∀ child, slots hhdm s.memory root (virt.path (lower + 2)) ≠ .branch child := by
      intro child branch
      have invalid : PageEntry.getValid (s.memory (wordOf root (virt.path (lower + 2)))) = false :=
        (isBlank_flags blank).1
      rw [slots, PageEntry.slot] at branch
      simp only [PageEntry.isLeaf, PageEntry.isBranch, invalid, Bool.false_and,
        Bool.false_eq_true, if_false] at branch
      split at branch <;> cases branch
    rw [missing_above reach nowhere] at supplied
    obtain ⟨s', fresh, ran, mapped, grown⟩ :=
      mapLoop_makes source mapAligned maps positive at_height
      below reach blank pagesAligned rooted.member supplied
    have small := virt.path_lt (lower + 2)
    have rootAligned := pagesAligned root rooted.member
    -- nothing that the known entries reach is changed by reading the blank entry as zero
    have empty : slots hhdm (s.zeroWord root (virt.path (lower + 2))).memory root
        (virt.path (lower + 2)) = .empty := slots_store.trans slot_zero
    have others : ∀ index ∈ known, slots hhdm (s.zeroWord root (virt.path (lower + 2))).memory root
        index = slots hhdm s.memory root index := fun index member =>
      slots_store_ne rootAligned rootAligned small (rooted.bound index member)
        (.inr fun same => here (same ▸ member))
    have beyond : ∀ index ∈ known, Agree 512 (reached hhdm s.memory (lower + 1) root index)
        (slots hhdm s.memory) (slots hhdm (s.zeroWord root (virt.path (lower + 2))).memory) := by
      intro index member page inside other bound
      have apart : page ≠ root := fun same => rooted.limbs.acyclic index member (same ▸ inside)
      exact slots_store_ne rootAligned (pagesAligned page (rooted.reachedInUse member inside)) small
        bound (.inl apart)
    have limbs := (rooted.limbs.agree others beyond).insert_empty empty
    have same : footprint (slots hhdm (s.zeroWord root (virt.path (lower + 2))).memory) 512 known
        (lower + 1) root = footprint (slots hhdm s.memory) 512 known (lower + 1) root := by
      ext page
      refine or_congr_right (exists_congr fun index => and_congr_right fun member => ?_)
      rw [others index member, (beyond index member).under_eq]
    have zeroed : Rooted hhdm (insert (virt.path (lower + 2)) known) pages (lower + 1) root
        (s.zeroWord root (virt.path (lower + 2))).memory := by
      refine ⟨Set.forall_mem_insert.mpr ⟨small, rooted.bound⟩, limbs, ?_⟩
      rw [footprint_insert_empty empty, same]
      exact rooted.inUse
    have through := zeroed.mapped (Set.mem_insert _ _) (Nat.le_succ_of_le reach) mapped
    rw [← limit] at ran
    refine ⟨s', fresh, ran, through.of_zeroWord rooted pagesAligned blank empty same ?_,
      fun lowest => ?_⟩
    · exact fun other inside => (beyond _ inside).find_slot (others _ inside) other.path_lt
    · have more := (grown lowest).footprint_subset mapped.edits zeroed.limbs zeroed.bound
        (Set.mem_insert _ _) fun index => zeroed.reachedInUse
      rwa [footprint_insert_empty empty, same] at more

/-- A call of `map` that returned met no leaf above its target under a known entry. -/
theorem Rooted.uncovered (at_height : level.asUsize = height + 1)
    (rooted : Rooted hhdm known pages height root s.memory) (here : virt.path (height + 1) ∈ known)
    (ran : (Lsd.map hhdm root virt phys level target flags).run s = (.ok (), s')) :
    ¬ Covered hhdm s.memory (height + 1) root virt target := by
  have short : height + 1 ≤ 5 := at_height ▸ level.asUsize_le
  have enough : height < walkLimit := by
    rw [walkLimit]
    omega
  intro covered
  obtain ⟨message, stopped⟩ : ∃ message,
      (mapLoop hhdm virt phys target flags walkLimit root level).run s =
        (.error (.panic message), s) :=
    mapLoop_covered at_height enough (rooted.limbs.sound _ here) covered
  rw [Lsd.map, stopped] at ran
  cases ran

/-- A frame for each level above the target is enough for the tables that a walk lacks. -/
theorem FrameSource.enough (source : FrameSource hhdm stock)
    (supplied : stock (height + 1 - target.asUsize + extra) pages s) (virt : VirtualAddress)
    (root : UInt64) :
    stock (missing (slots hhdm s.memory) virt.path target.asUsize (height + 1) root +
      extra) pages s :=
  source.mono supplied (Nat.add_le_add_right missing_le extra)

/-- A call of `map` that returned, through a root where the entry of the address is known or
blank. -/
theorem Rooted.map (source : FrameSource hhdm stock) (mapAligned : hhdm % 4096 = 0)
    (maps : flags.Maps) (positive : 1 ≤ target.asUsize) (at_height : level.asUsize = height + 1)
    (reach : target.asUsize ≤ height) (rooted : Rooted hhdm known pages height root s.memory)
    (pagesAligned : ∀ page ∈ pages, page % 4096 = 0)
    (ready : virt.path (height + 1) ∈ known ∨
      PageEntry.isBlank (s.memory (wordOf root (virt.path (height + 1)))) = true)
    (supplied : stock (missing (slots hhdm s.memory) virt.path target.asUsize (height + 1) root +
      extra) pages s)
    (ran : (Lsd.map hhdm root virt phys level target flags).run s = (.ok (), s')) :
    ∃ fresh, RootMapped hhdm stock known virt target (leafEntry phys flags) pages fresh extra height
        root s s' ∧
      (target.asUsize = 1 → footprint (slots hhdm s.memory) 512 known height root ∪ fresh ⊆
        footprint (slots hhdm s'.memory) 512
          (insert (virt.path (height + 1)) known) height root) := by
  have either : virt.path (height + 1) ∈ known ∧
        ¬ Covered hhdm s.memory (height + 1) root virt target ∨
      virt.path (height + 1) ∉ known ∧
        PageEntry.isBlank (s.memory (wordOf root (virt.path (height + 1)))) = true := by
    by_cases here : virt.path (height + 1) ∈ known
    · exact .inl ⟨here, rooted.uncovered at_height here ran⟩
    · exact .inr ⟨here, ready.resolve_left here⟩
  obtain ⟨_, fresh, done, mapped⟩ := rooted.map_run phys source mapAligned maps positive at_height
    reach pagesAligned either supplied
  obtain ⟨-, rfl⟩ := Prod.mk.inj (done.symm.trans ran)
  exact ⟨fresh, mapped⟩

/-- It leaves the addresses under other entries of the root where they were. -/
theorem RootTree.map_aside (source : FrameSource hhdm stock) (mapAligned : hhdm % 4096 = 0)
    (maps : flags.Maps) (positive : 1 ≤ target.asUsize) (at_height : level.asUsize = height + 1)
    (reach : target.asUsize ≤ height) (tree : RootTree hhdm known pages height root s.memory)
    (pagesAligned : ∀ page ∈ pages, page % 4096 = 0) (supplied : stock (height + extra) pages s)
    (ran : (Lsd.map hhdm root virt phys level target flags).run s = (.ok (), s'))
    {other : VirtualAddress} (aside : other.path (height + 1) ≠ virt.path (height + 1)) :
    leafOf hhdm s'.memory (height + 1) root other =
      leafOf hhdm s.memory (height + 1) root other := by
  have ready : virt.path (height + 1) ∈ known ∨
      PageEntry.isBlank (s.memory (wordOf root (virt.path (height + 1)))) = true := by
    by_cases here : virt.path (height + 1) ∈ known
    · exact .inl here
    · exact .inr (tree.blank _ (virt.path_lt _) here)
  have few : height + 1 - target.asUsize + extra ≤ height + extra := by omega
  obtain ⟨fresh, mapped, -⟩ := tree.rooted.map source mapAligned maps positive at_height reach
    pagesAligned ready (source.enough (source.mono supplied few) virt root) ran
  by_cases inside : other.path (height + 1) ∈ known
  · exact mapped.across other (.inr inside) fun same =>
      aside (same _ (Nat.le_succ_of_le reach) (Nat.le_refl _))
  · have invalid := (isBlank_flags (tree.blank _ (other.path_lt _) inside)).1
    have word := mapped.beside _ (other.path_lt _) aside
    rw [leafOf_invalid invalid, leafOf_invalid (word ▸ invalid)]

end Map

/-- What a call of `unmap` of a small page through a root leaves behind. -/
structure RootUnmapped (hhdm : UInt64) (known : Set Nat) (pages : Set UInt64)
    (virt : VirtualAddress)
    (height : Nat) (root : UInt64) (s s' : Pmm) : Prop where
  /-- The entries of the root are known or blank. -/
  tree : RootTree hhdm known pages height root s'.memory
  /-- The root reaches the same tables. -/
  tables : footprint (slots hhdm s'.memory) 512 known height root =
    footprint (slots hhdm s.memory) 512 known height root
  /-- The frame list is the same. -/
  list : s'.regionList = s.regionList
  /-- Only tables were written. -/
  changed : ChangedWithin (footprint (slots hhdm s.memory) 512 known height root) s.memory s'.memory
  /-- The addresses of the page come to no leaf. -/
  gone : ∀ other : VirtualAddress, SamePath 1 (height + 1) virt.path other.path →
    leafOf hhdm s'.memory (height + 1) root other = none
  /-- Other addresses come to where they came before. -/
  still : ∀ other : VirtualAddress, ¬ SamePath 1 (height + 1) virt.path other.path →
    leafOf hhdm s'.memory (height + 1) root other = leafOf hhdm s.memory (height + 1) root other

/-- `unmap` of an address that comes to a small page. -/
theorem RootTree.unmap {hhdm root : UInt64} {known : Set Nat} {pages : Set UInt64} {height : Nat}
    {s : Pmm} {level : PageLevel} {virt : VirtualAddress} {entry : PageEntry}
    (at_height : level.asUsize = height + 1)
    (tree : RootTree hhdm known pages height root s.memory)
    (pagesAligned : ∀ page ∈ pages, page % 4096 = 0)
    (found : leafOf hhdm s.memory (height + 1) root virt = some (1, entry)) :
    ∃ s', (Lsd.unmap hhdm root virt level .level1).run s = (.ok (entry.getPpn <<< 12), s') ∧
      RootUnmapped hhdm known pages virt height root s s' := by
  have rooted := tree.rooted
  have here : virt.path (height + 1) ∈ known := by
    by_contra out
    have invalid := (isBlank_flags (tree.blank _ (virt.path_lt _) out)).1
    rw [leafOf_invalid invalid] at found
    nomatch found
  have enough : height < walkLimit := by
    have := level.asUsize_le
    rw [walkLimit]
    omega
  have positive : 1 ≤ PageLevel.level1.asUsize := Nat.le_refl 1
  have reach : PageLevel.level1.asUsize ≤ height + 1 := Nat.le_add_left 1 height
  have inUse : ∀ index ∈ known, reached hhdm s.memory height root index ⊆ pages :=
    fun index => rooted.reachedInUse
  obtain ⟨s', ran, unmapped⟩ := unmapLoop_edits positive at_height enough reach
    (rooted.limbs.mono (Set.singleton_subset_iff.mpr here)) pagesAligned rooted.member
    (inUse _ here)
    found
  have limbs := unmapped.edits.limbs rooted.limbs rooted.bound here inUse rooted.member
    (Set.empty_disjoint _)
  have fewer := unmapped.edits.footprint_subset rooted.limbs rooted.bound here rooted.inUse
  have more := (unmapped.grows rfl).footprint_subset unmapped.edits rooted.limbs
    rooted.bound here inUse
  rw [Set.union_empty] at fewer more
  have walks := fun (other : VirtualAddress) (inside : other.path (height + 1) ∈ known) =>
    unmapped.edits.find_eq rooted.limbs here inUse other.path_lt inside reach
  have words : ∀ index < 512, index ∉ known →
      s'.memory (wordOf root index) = s.memory (wordOf root index) := fun index bound out =>
    unmapped.beside index bound fun same => out (same ▸ here)
  refine ⟨s', ran, ⟨⟨rooted.bound, limbs, fewer.trans rooted.inUse⟩, fun index bound out => ?_⟩,
    fewer.antisymm more, unmapped.list, unmapped.changed.mono ?_, fun other along => ?_,
    fun other across => ?_⟩
  · rw [words index bound out]
    exact tree.blank index bound out
  · rintro page (same | reached)
    · exact .inl same
    · exact .inr ⟨_, here, reached⟩
  · have first : other.path (height + 1) = virt.path (height + 1) := along _ reach (Nat.le_refl _)
    exact (walks other (first ▸ here)).1 along
  · by_cases inside : other.path (height + 1) ∈ known
    · exact (walks other inside).2 across
    · have invalid := (isBlank_flags (tree.blank _ (other.path_lt _) inside)).1
      have word := words _ (other.path_lt (height + 1)) inside
      rw [leafOf_invalid invalid, leafOf_invalid (word ▸ invalid)]

section Range

variable {vaddr : VirtualAddress} {height count : Nat}

/-- The address of a page of a range. -/
def pageAt (vaddr : VirtualAddress) (page : Nat) : VirtualAddress :=
  vaddr + UInt64.ofNat (page * 0x1000)

/-- The address of a page, as a number. -/
theorem toNat_pageAt {page : Nat} (inRange : vaddr.toNat + count * 4096 ≤ 2 ^ pageBits (height + 2))
    (short : height + 1 ≤ 5) (bound : page < count) :
    (pageAt vaddr page).toNat = vaddr.toNat + page * 4096 := by
  have limit : 2 ^ pageBits (height + 2) ≤ 2 ^ 57 :=
    Nat.pow_le_pow_right (by decide) (by rw [pageBits]; omega)
  rw [pageAt, UInt64.toNat_add, UInt64.toNat_ofNat']
  omega

/-- Different pages of a range take different ways. -/
theorem pageAt_apart {first second : Nat}
    (inRange : vaddr.toNat + count * 4096 ≤ 2 ^ pageBits (height + 2)) (short : height + 1 ≤ 5)
    (firstInside : first < count) (secondInside : second < count) (apart : first ≠ second) :
    ¬ SamePath 1 (height + 1) (pageAt vaddr first).path (pageAt vaddr second).path := by
  have power : 2 ^ pageBits (height + 2) = 4096 * 512 ^ (height + 1) := by
    rw [pageBits, Nat.pow_add, Nat.pow_mul]
    rfl
  have inside : ∀ page < count, (pageAt vaddr page).toNat / 4096 < 512 ^ (height + 1) := by
    intro page bound
    rw [toNat_pageAt inRange short bound]
    rw [power] at inRange
    apply Nat.div_lt_of_lt_mul
    omega
  intro same
  have pages := page_eq_of_samePath same
  rw [Nat.mod_eq_of_lt (inside first firstInside), Nat.mod_eq_of_lt (inside second secondInside),
    toNat_pageAt inRange short firstInside, toNat_pageAt inRange short secondInside] at pages
  omega

end Range

end Lsd
