import Lsd.Verif.RootTable

/-!
# Counting claims

Each claim that returns makes the count of the frame list one smaller, in every
state, also when it has taken the last frame and the list is no longer well
formed. How many frames a run has claimed can therefore be read off the count
before and after it. As long as fewer were claimed than the list held, every
claim has found a frame behind the one it took.
-/

namespace Lsd

open Program Radix

/-- The count of the list. -/
abbrev Pmm.len (s : Pmm) : UInt64 := s.regionList.len

/-- The frames that were claimed between two states. -/
def Pmm.taken (before after : Pmm) : Nat := (before.len - after.len).toNat

/-- The list has become shorter by a number of frames. -/
def Shrunk (count : Nat) (before after : Pmm) : Prop :=
  after.len = before.len - UInt64.ofNat count

section Shrunk

variable {hhdm frames base : UInt64} {first second third : Pmm} {count more : Nat}

/-- Nothing was claimed. -/
theorem Shrunk.of_len (same : second.len = first.len) : Shrunk 0 first second := by
  rw [Shrunk, same]
  exact (UInt64.sub_zero _).symm

/-- Claims one after the other add up. -/
theorem Shrunk.trans (left : Shrunk count first second) (right : Shrunk more second third) :
    Shrunk (count + more) first third := by
  rw [Shrunk] at left right ⊢
  rw [right, left, UInt64.ofNat_add]
  grind

/-- The count of the list shows how many frames were claimed. -/
theorem Shrunk.taken (shrunk : Shrunk count first second) (short : count < 2 ^ 64) :
    first.taken second = count := by
  have number : (UInt64.ofNat count).toNat = count := by
    rw [UInt64.toNat_ofNat']
    omega
  rw [Pmm.taken, shrunk, ← number]
  congr 1
  grind

/-- Access to an entry keeps the count. -/
theorem keeps_deref (entry : UInt64) : Prog.Keeps Pmm.len (deref entry) := .ite (.stop _) (.pure ())

/-- Reading a link keeps the count. -/
theorem keeps_load (entry : UInt64) :
    Prog.Keeps Pmm.len (loadPrev entry) ∧ Prog.Keeps Pmm.len (loadNext entry) :=
  ⟨.bind (keeps_deref entry) fun _ => .read _, .bind (keeps_deref entry) fun _ => .read _⟩

/-- Writing a link keeps the count. -/
theorem keeps_store (entry value : UInt64) :
    Prog.Keeps Pmm.len (storePrev entry value) ∧ Prog.Keeps Pmm.len (storeNext entry value) :=
  ⟨.bind (keeps_deref entry) fun _ => .update fun _ => rfl,
    .bind (keeps_deref entry) fun _ => .update fun _ => rfl⟩

/-- A claim that returned took one frame. -/
theorem claim_shrinks {frame : UInt64}
    (ran : (FreeList.claim hhdm).run first = (.ok frame, second)) : Shrunk 1 first second := by
  rw [FreeList.claim, Prog.run_bind_ok (Prog.run_read _ _)] at ran
  obtain ⟨entry, s₁, found, ran⟩ := Prog.run_bind_eq_ok ran
  obtain ⟨⟨⟩, s₂, stored, ran⟩ := Prog.run_bind_eq_ok ran
  rw [Prog.run_bind_ok (run_assign _)] at ran
  obtain ⟨-, rfl⟩ := Prod.mk.inj ran
  have next : Prog.Keeps Pmm.len (FreeList.claimNext hhdm first.regionList.head) :=
    .bind (keeps_load _).2 fun entry =>
      .ite (.bind (keeps_store _ _).2 fun _ => (keeps_load _).2) (.pure entry)
  change s₂.len - 1 = first.len - 1
  rw [(keeps_store entry 0).1.of_run stored, next.of_run found]

/-- The search loop keeps the count. -/
theorem keeps_scan (mayStart : UInt64 → Bool) (remaining : Nat) (base current found : UInt64) :
    Prog.Keeps Pmm.len (FreeList.scan frames mayStart remaining base current found) := by
  induction remaining generalizing base current found with
  | zero => exact .pure none
  | succ remaining ih =>
    exact .ite (.pure _) (.bind (keeps_load current).2 fun next => .ite (ih _ _ _) (ih _ _ _))

/-- Taking a section out of the list takes its length from the count. -/
theorem unlink_shrinks {current : UInt64}
    (ran : (FreeList.unlink frames base current).run first = (.ok (), second)) :
    second.len = first.len - frames := by
  rw [FreeList.unlink] at ran
  obtain ⟨previous, s₁, before, ran⟩ := Prog.run_bind_eq_ok ran
  obtain ⟨next, s₂, behind, ran⟩ := Prog.run_bind_eq_ok ran
  have unread : s₂.len = first.len :=
    ((keeps_load _).2.of_run behind).trans ((keeps_load _).1.of_run before)
  dsimp only at ran
  split at ran
  · rw [Prog.run_bind_ok (run_assign _)] at ran
    obtain ⟨⟨⟩, s₃, stored, ran⟩ := Prog.run_bind_eq_ok ran
    obtain ⟨-, rfl⟩ := Prod.mk.inj ran
    change s₃.len - frames = _
    rw [(keeps_store _ _).1.of_run stored, ← unread]
  · obtain ⟨⟨⟩, s₃, linked, ran⟩ := Prog.run_bind_eq_ok ran
    obtain ⟨⟨⟩, s₄, stored, ran⟩ := Prog.run_bind_eq_ok ran
    obtain ⟨-, rfl⟩ := Prod.mk.inj ran
    have kept : s₄.len = s₂.len :=
      ((keeps_store _ _).1.of_run stored).trans ((keeps_store _ _).2.of_run linked)
    change s₄.len - frames = _
    rw [kept, unread]

/-- A search that returned frames took as many as it was asked for. -/
theorem claimWindow_shrinks {mayStart : UInt64 → Bool}
    (ran : (FreeList.claimWindow hhdm frames mayStart).run first = (.ok (.ok base), second)) :
    Shrunk frames.toNat first second := by
  rw [FreeList.claimWindow] at ran
  by_cases single : frames = 1
  · rw [if_pos single] at ran
    obtain ⟨frame, s₁, claimed, ran⟩ := Prog.run_bind_eq_ok ran
    obtain ⟨-, rfl⟩ := Prod.mk.inj ran
    rw [single]
    exact claim_shrinks claimed
  · rw [if_neg single, Prog.run_bind_ok (Prog.run_read _ _)] at ran
    obtain ⟨found, s₁, scanned, ran⟩ := Prog.run_bind_eq_ok ran
    have same : s₁.len = first.len := (keeps_scan _ _ _ _ _).of_run scanned
    cases found with
    | none =>
      obtain ⟨none, -⟩ := Prod.mk.inj ran
      cases none
    | some ends =>
      obtain ⟨⟨⟩, s₂, unlinked, ran⟩ := Prog.run_bind_eq_ok ran
      obtain ⟨-, rfl⟩ := Prod.mk.inj ran
      rw [Shrunk, UInt64.ofNat_toNat, unlink_shrinks unlinked, same]

end Shrunk

section Walk

variable {hhdm : UInt64} {virt : VirtualAddress} {phys : PhysicalAddress} {target level : PageLevel}
  {flags : PageFlags} {steps height : Nat} {table : UInt64} {s s' : Pmm} {pages : Set UInt64}
  {nodes : List UInt64}

/-- One step of a walk of `map` that returned, in any state: it claimed at most one frame, and did
so at a blank entry. -/
theorem mapLoop_step (above : level ≠ target)
    (ran : (mapLoop hhdm virt phys target flags (steps + 1) table level).run s = (.ok (), s')) :
    ∃ next s₁, ∃ count ≤ 1, Shrunk count s s₁ ∧
      (mapLoop hhdm virt phys target flags steps next level.below).run s₁ = (.ok (), s') ∧
      (PageEntry.isBlank (s.memory (wordOf table (virt.index level).toNat)) = true →
        count = 1) := by
  rw [mapLoop, Prog.run_bind_ok (run_loadTable _ _)] at ran
  obtain ⟨⟨⟩, s₁, checked, ran⟩ := Prog.run_bind_eq_ok ran
  have keeps : Prog.Keeps Pmm.len (checkIndex 512 (virt.index level).toNat) :=
    .ite (.pure ()) (.stop _)
  have first : Shrunk 0 s s₁ := .of_len (keeps.of_run checked)
  rw [if_neg above] at ran
  dsimp only at ran
  split at ran
  · next branch =>
    refine ⟨_, s₁, 0, Nat.zero_le 1, first, ran, fun blank => ?_⟩
    have invalid : (readTable s.memory table (virt.index level).toNat).getValid = false :=
      (isBlank_flags blank).1
    rw [valid_of_isBranch branch] at invalid
    contradiction
  · split at ran
    · cases ran
    · split at ran
      · obtain ⟨frame, s₂, claimed, ran⟩ := Prog.run_bind_eq_ok ran
        rw [Prog.run_bind_ok (run_storeTable _ _ _), Prog.run_bind_ok (run_storeTable _ _ _),
          Prog.run_bind_ok (Prog.run_pure _ _)] at ran
        have shrunk : Shrunk 1 s₁ s₂ := claim_shrinks claimed
        refine ⟨frame, _, 0 + 1, Nat.le_refl 1, ?_, ran, fun _ => rfl⟩
        exact first.trans shrunk
      · next valid =>
        refine ⟨_, s₁, 0, Nat.zero_le 1, first, ran, fun blank => ?_⟩
        have invalid : (readTable s.memory table (virt.index level).toNat).getValid = false :=
          (isBlank_flags blank).1
        rw [invalid] at valid
        exact absurd rfl valid

/-- A walk of `map` that returned, in any state, claimed at most one frame for each level above its
target. -/
theorem mapLoop_shrinks (positive : 1 ≤ target.asUsize) (at_height : level.asUsize = height)
    (reach : target.asUsize ≤ height)
    (ran : (mapLoop hhdm virt phys target flags steps table level).run s = (.ok (), s')) :
    ∃ count ≤ height - target.asUsize, Shrunk count s s' := by
  induction steps generalizing height table level s with
  | zero => cases ran
  | succ steps ih =>
    by_cases here : level = target
    · rw [mapLoop, Prog.run_bind_ok (run_loadTable _ _)] at ran
      obtain ⟨⟨⟩, s₁, checked, ran⟩ := Prog.run_bind_eq_ok ran
      have keeps : Prog.Keeps Pmm.len (checkIndex 512 (virt.index level).toNat) :=
        .ite (.pure ()) (.stop _)
      have same : s₁.len = s.len := keeps.of_run checked
      rw [if_pos here] at ran
      obtain ⟨-, rfl⟩ := Prod.mk.inj ran
      exact ⟨0, Nat.zero_le _, .of_len same⟩
    · have apart : target.asUsize ≠ height := fun same =>
        here (PageLevel.asUsize_inj (at_height.trans same.symm))
      obtain ⟨lower, rfl⟩ : ∃ lower, height = lower + 1 := ⟨height - 1, by omega⟩
      obtain ⟨next, s₁, one, least, claimed, ran, -⟩ := mapLoop_step here ran
      obtain ⟨count, few, shrunk⟩ := ih (PageLevel.asUsize_below at_height) (by omega) ran
      exact ⟨one + count, by omega, claimed.trans shrunk⟩

/-- A walk of `map` that makes a table at a blank entry and has returned, from a list with no more
frames than it lacks tables, has claimed as many frames as the list held. -/
theorem mapLoop_spends_blank (mapAligned : hhdm % 4096 = 0) (positive : 1 ≤ target.asUsize)
    (at_height : level.asUsize = height + 2) (above : target.asUsize ≤ height + 1)
    (member : table ∈ pages)
    (blank : PageEntry.isBlank (s.memory (wordOf table (virt.path (height + 2)))) = true)
    (stock : Stock hhdm pages s nodes) (few : nodes.length ≤ height + 2 - target.asUsize)
    (below : ∀ (frame : UInt64) (s₁ : Pmm) (rest : List UInt64), nodes = frame :: rest →
      (∀ index < 512, slots hhdm s₁.memory frame index = .empty) →
      Stock hhdm (insert frame pages) s₁ rest →
      (mapLoop hhdm virt phys target flags steps frame level.below).run s₁ = (.ok (), s') →
      ∃ count, rest.length ≤ count ∧ count ≤ height + 1 - target.asUsize ∧ Shrunk count s₁ s')
    (ran : (mapLoop hhdm virt phys target flags (steps + 1) table level).run s = (.ok (), s')) :
    ∃ count, nodes.length ≤ count ∧ count ≤ height + 2 - target.asUsize ∧ Shrunk count s s' := by
  have here : level ≠ target := by
    rintro rfl
    omega
  have small := virt.path_lt (height + 2)
  obtain ⟨first, whole⟩ := stock.holds.head_eq
  cases first with
  | nil =>
    -- the claim took the last frame, and what the walk did after it is not known
    obtain ⟨next, s₁, one, -, claimed, ran, made⟩ := mapLoop_step here ran
    rw [virt.toNat_index at_height] at made
    obtain ⟨count, most, shrunk⟩ :=
      mapLoop_shrinks positive (PageLevel.asUsize_below at_height) above ran
    obtain rfl := made blank
    refine ⟨1 + count, ?_, by omega, claimed.trans shrunk⟩
    rw [whole, List.length_singleton]
    omega
  | cons b rest =>
    rw [whole] at stock
    obtain ⟨s₁, claimed, fresh, kept, -, later⟩ := stock.claim
    obtain ⟨empty, -, -, changed⟩ :=
      attachBlank_spec mapAligned stock.pagesAligned fresh kept member small blank
    rw [mapLoop_invalid at_height here rfl (isBlank_flags blank).1 claimed fun index bound =>
      writeTable_kept stock.pagesAligned fresh kept member bound _] at ran
    obtain ⟨count, all, most, shrunk⟩ := below _ _ _ whole empty (later.write changed) ran
    have first : Shrunk 1 s s₁ := claim_shrinks claimed
    refine ⟨1 + count, ?_, by omega, first.trans shrunk⟩
    rw [whole, List.length_cons]
    omega

/-- An empty slot is a blank entry. -/
theorem isBlank_of_empty {memory : Memory} {index : Nat}
    (empty : slots hhdm memory table index = .empty) :
    PageEntry.isBlank (memory (wordOf table index)) = true := by
  have zero : memory (wordOf table index) = 0 := by
    by_contra other
    rw [slots, PageEntry.slot, if_neg other] at empty
    split at empty
    · cases empty
    · split at empty <;> cases empty
  rw [zero]
  exact isBlank_zero

/-- A list of frames is not empty. -/
theorem Stock.nonempty (stock : Stock hhdm pages s nodes) : 1 ≤ nodes.length := by
  obtain ⟨rest, whole⟩ := stock.holds.head_eq
  rw [whole, List.length_cons]
  omega

/-- A walk of `map` through a table of zeroes that has returned, from a list with no more frames
than there are levels above the target, has claimed as many frames as the list held. -/
theorem mapLoop_spends_fresh (mapAligned : hhdm % 4096 = 0) (positive : 1 ≤ target.asUsize)
    (at_height : level.asUsize = height + 1) (reach : target.asUsize ≤ height + 1)
    (empty : ∀ index < 512, slots hhdm s.memory table index = .empty) (member : table ∈ pages)
    (stock : Stock hhdm pages s nodes) (few : nodes.length ≤ height + 1 - target.asUsize)
    (ran : (mapLoop hhdm virt phys target flags steps table level).run s = (.ok (), s')) :
    ∃ count, nodes.length ≤ count ∧ count ≤ height + 1 - target.asUsize ∧ Shrunk count s s' := by
  induction steps generalizing height table level pages s nodes with
  | zero => cases ran
  | succ steps ih =>
    have nonempty := stock.nonempty
    cases height with
    | zero => omega
    | succ height =>
      have blank := isBlank_of_empty (empty _ (virt.path_lt (height + 2)))
      refine mapLoop_spends_blank mapAligned positive at_height (by omega) member blank stock few
        (fun frame s₁ rest whole empty later went => ?_) ran
      rw [whole, List.length_cons] at few
      exact ih (PageLevel.asUsize_below at_height) (by omega) empty (Set.mem_insert _ _) later
        (by omega) went

/-- A walk of `map` that has returned, from a list with no more frames than the walk lacks tables,
has claimed as many frames as the list held. -/
theorem mapLoop_spends (mapAligned : hhdm % 4096 = 0) (positive : 1 ≤ target.asUsize)
    (at_height : level.asUsize = height + 1)
    (limbs : PageLimbs hhdm s.memory {virt.path (height + 1)} height table)
    (member : table ∈ pages)
    (inUse : reached hhdm s.memory height table (virt.path (height + 1)) ⊆ pages)
    (stock : Stock hhdm pages s nodes)
    (few : nodes.length ≤ missing (slots hhdm s.memory) virt.path target.asUsize (height + 1) table)
    (ran : (mapLoop hhdm virt phys target flags steps table level).run s = (.ok (), s')) :
    ∃ count, nodes.length ≤ count ∧ count ≤ height + 1 - target.asUsize ∧ Shrunk count s s' := by
  induction steps generalizing height table level with
  | zero => cases ran
  | succ steps ih =>
    have nonempty := stock.nonempty
    have most := few.trans missing_le
    have here : level ≠ target := by
      rintro rfl
      omega
    cases height with
    | zero => omega
    | succ height =>
      rcases sound_cases (limbs.sound _ rfl) with zero | leaf | ⟨branch, -, below⟩
      · have blank : PageEntry.isBlank
            (s.memory (wordOf table (virt.path (height + 2)))) = true := by
          rw [zero]
          exact isBlank_zero
        refine mapLoop_spends_blank mapAligned positive at_height (by omega) member blank stock most
          (fun frame s₁ rest whole empty later went => ?_) ran
        rw [whole, List.length_cons] at most
        exact mapLoop_spends_fresh mapAligned positive
          (PageLevel.asUsize_below at_height) (by omega)
          empty (Set.mem_insert _ _) later (by omega) went
      · obtain ⟨message, stopped⟩ := @mapLoop_leaf hhdm virt phys target level flags steps
          (height + 1) table s at_height here _ rfl leaf
        rw [stopped] at ran
        cases ran
      · have slot : slots hhdm s.memory table (virt.path (height + 2)) = _ := slot_branch branch
        obtain ⟨-, limbs', member', inUse'⟩ :=
          limbs_below slot limbs inUse (virt.path_lt (height + 1))
        rw [mapLoop_branch at_height here rfl branch] at ran
        rw [missing_branch (by omega) slot] at few
        obtain ⟨count, all, most, shrunk⟩ := ih (PageLevel.asUsize_below at_height) limbs' member'
          inUse' few ran
        exact ⟨count, all, by omega, shrunk⟩

/-- A call of `map` that has returned, through a root where the entry of the address is known or
blank, from a list with no more frames than the walk lacks tables, has claimed as many frames as the
list held. -/
theorem Rooted.map_spends {root : UInt64} {known : Set Nat} (mapAligned : hhdm % 4096 = 0)
    (positive : 1 ≤ target.asUsize) (at_height : level.asUsize = height + 1)
    (reach : target.asUsize ≤ height) (rooted : Rooted hhdm known pages height root s.memory)
    (ready : virt.path (height + 1) ∈ known ∨
      PageEntry.isBlank (s.memory (wordOf root (virt.path (height + 1)))) = true)
    (stock : Stock hhdm pages s nodes)
    (few : nodes.length ≤ missing (slots hhdm s.memory) virt.path target.asUsize (height + 1) root)
    (ran : (Lsd.map hhdm root virt phys level target flags).run s = (.ok (), s')) :
    ∃ count, nodes.length ≤ count ∧ count ≤ height + 1 - target.asUsize ∧ Shrunk count s s' := by
  rcases ready with here | blank
  · exact mapLoop_spends mapAligned positive at_height
      (rooted.limbs.mono (Set.singleton_subset_iff.mpr here)) rooted.member
      (rooted.reachedInUse here) stock few ran
  · obtain ⟨lower, rfl⟩ : ∃ lower, height = lower + 1 := ⟨height - 1, by omega⟩
    have limit : walkLimit = (walkLimit - 1) + 1 := rfl
    have most := few.trans missing_le
    rw [Lsd.map, limit] at ran
    refine mapLoop_spends_blank mapAligned positive at_height reach rooted.member blank stock most
      (fun frame s₁ rest whole empty later went => ?_) ran
    rw [whole, List.length_cons] at most
    exact mapLoop_spends_fresh mapAligned positive (PageLevel.asUsize_below at_height) reach empty
      (Set.mem_insert _ _) later (by omega) went

end Walk

/-- A stock that is what claims have left of a list: the frames that they took came into use. -/
def StockRest (hhdm : UInt64) (given : List UInt64) (used : Set UInt64) (count : Nat)
    (pages : Set UInt64) (s : Pmm) : Prop :=
  ∃ taken rest, given = taken ++ rest ∧ Stock hhdm pages s rest ∧ count < rest.length ∧
    pages = used ∪ {frame | frame ∈ taken}

section StockRest

variable {hhdm : UInt64} {given nodes : List UInt64} {used pages : Set UInt64} {count : Nat}
  {s s₀ : Pmm}

/-- The next claim takes the first frame that is left. -/
theorem StockRest.claim (stocked : StockRest hhdm given used (count + 1) pages s) :
    ∃ frame s', (FreeList.claim hhdm).run s = (.ok frame, s') ∧ FreshFrame hhdm pages frame ∧
      Kept pages s.memory s'.memory ∧ frame ∈ given ∧
      StockRest hhdm given used count (insert frame pages) s' := by
  obtain ⟨taken, rest, parts, stock, enough, inUse⟩ := stocked
  match rest with
  | [] | [a] => simp at enough
  | a :: b :: rest =>
    obtain ⟨s', ran, fresh, kept, -, later⟩ := stock.claim
    refine ⟨a, s', ran, fresh, kept, parts ▸ List.mem_append_right _ List.mem_cons_self,
      taken ++ [a], b :: rest, ?_, later, by simpa using enough, ?_⟩
    · rw [parts, List.append_assoc, List.singleton_append]
    · rw [inUse, ← Set.union_insert]
      congr 1
      ext frame
      simp [or_comm]

/-- It is a supply of frames. -/
theorem stockRest_source (hhdm : UInt64) (given : List UInt64) (used : Set UInt64) :
    FrameSource hhdm (StockRest hhdm given used) := by
  have write : ∀ {count : Nat} {pages : Set UInt64} {s : Pmm} {memory : Memory},
      StockRest hhdm given used count pages s → ChangedWithin pages s.memory memory →
        StockRest hhdm given used count pages { s with memory := memory } := by
    rintro count pages s memory ⟨taken, rest, parts, stock, enough, inUse⟩ changed
    exact ⟨taken, rest, parts, stock.write changed, enough, inUse⟩
  refine ⟨fun stocked changed => ?_, write, ?_⟩
  · obtain ⟨frame, s', ran, fresh, kept, -, later⟩ := (write stocked changed).claim
    exact ⟨frame, s', ran, fresh, kept, later⟩
  · rintro count fewer pages s ⟨taken, rest, parts, stock, enough, inUse⟩ le
    exact ⟨taken, rest, parts, stock, by omega, inUse⟩

/-- The frames that are left and those that were claimed are as many as there were. -/
theorem Shrunk.length (shrunk : Shrunk count s₀ s) (few : count < given.length)
    (before : s₀.Holds given) (after : s.Holds nodes) : nodes.length + count = given.length := by
  have short := before.length_le
  have number : (UInt64.ofNat count).toNat = count := by
    rw [UInt64.toNat_ofNat']
    omega
  have first : s₀.len.toNat = given.length := before.len
  have inside : UInt64.ofNat count ≤ s₀.len := by
    rw [UInt64.le_iff_toNat_le, number, first]
    omega
  have second : s.len.toNat = nodes.length := after.len
  rw [shrunk, UInt64.toNat_sub_of_le _ _ inside, number, first] at second
  omega

end StockRest

end Lsd
