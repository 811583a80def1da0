import Lsd.Lib.Linked
import Lsd.Lib.Window
import Lsd.Memory.Pmm

/-!
# The frame list keeps its shape

A list is well formed when it holds its nodes as a doubly linked chain with
null ends, with the head, the tail and the count that belong to them. Each
operation has one lemma that says what it does to a well-formed list. The two
searches remove the first window of adjacent frames that they find; unlinking it
writes through the `next` link of its last frame, which is null at the tail.
-/

namespace Lsd

open Program Linked

/-- The link words of some entries. -/
def LinkWords (nodes : List UInt64) (address : UInt64) : Prop :=
  ∃ node ∈ nodes, address = node ∨ address = node + 8

/-- Memory changed at most in the link words of some entries. -/
def ChangedLinks (nodes : List UInt64) (old new : Memory) : Prop :=
  ∀ address, ¬ LinkWords nodes address → new address = old address

/-- Link words of some entries are link words of more entries. -/
theorem ChangedLinks.mono {few many : List UInt64} {old new : Memory}
    (changed : ChangedLinks few old new) (subset : few ⊆ many) : ChangedLinks many old new :=
  fun address out => changed address fun ⟨node, member, inside⟩ =>
    out ⟨node, subset member, inside⟩

/-- `nodes` is what the list holds, in order. -/
structure FreeList.WellFormed (list : FreeList) (memory : Memory) (nodes : List UInt64) : Prop where
  /-- Every node is a frame. -/
  frames : ∀ node ∈ nodes, IsFrame node
  /-- The head is the first node. -/
  head : nodes.head? = some list.head
  /-- The tail is the last node. -/
  tail : nodes.getLast? = some list.tail
  /-- The links mirror each other and end in null on both sides. -/
  links : Chain (prevOf memory) (nextOf memory) 0 nodes 0
  /-- The count is the number of nodes. -/
  len : list.len.toNat = nodes.length

/-- The list of a frame-list state is well formed with these nodes. -/
abbrev Pmm.Holds (s : Pmm) (nodes : List UInt64) : Prop :=
  s.regionList.WellFormed s.memory nodes

section Links

variable {memory : Memory} {entry other value : UInt64}

/-- The second word of a frame is no frame address. -/
theorem IsFrame.ne_next (frame : entry % 4096 = 0) (node : other % 4096 = 0) :
    other ≠ entry + 8 := by
  intro same
  have := aligned_toNat frame
  have := aligned_toNat node
  have := congrArg UInt64.toNat same
  simp only [UInt64.toNat_add, UInt64.reduceToNat] at this
  omega

/-- A store to `prev` updates one backward link. -/
theorem prevOf_store : prevOf (memory.store entry value) =
    Function.update (prevOf memory) entry value := rfl

/-- A store to `next` updates one forward link. -/
theorem nextOf_store_next : nextOf (memory.store (entry + 8) value) =
    Function.update (nextOf memory) entry value := by
  funext x
  simp only [nextOf, Memory.store, Function.update_apply, UInt64.add_left_inj]

/-- A store to a `next` word leaves backward links alone. -/
theorem prevOf_store_next (frame : entry % 4096 = 0) (node : other % 4096 = 0) :
    prevOf (memory.store (entry + 8) value) other = prevOf memory other :=
  Function.update_of_ne (IsFrame.ne_next frame node) _ _

/-- A store to a `prev` word leaves forward links alone. -/
theorem nextOf_store_prev (frame : entry % 4096 = 0) (node : other % 4096 = 0) :
    nextOf (memory.store entry value) other = nextOf memory other :=
  Function.update_of_ne (IsFrame.ne_next node frame).symm _ _

/-- Stores to the link words of listed entries change link words only. -/
theorem ChangedLinks.store {nodes : List UInt64} {old : Memory} {address : UInt64}
    (changed : ChangedLinks nodes old memory) (inside : LinkWords nodes address) :
    ChangedLinks nodes old (memory.store address value) := by
  intro a out
  have apart : a ≠ address := fun same => out (same ▸ inside)
  exact (Function.update_of_ne apart _ _).trans (changed a out)

end Links

section Primitives

variable {s : Pmm} {entry value : UInt64}

/-- A read of `prev` through a good pointer. -/
theorem run_loadPrev (nonzero : entry ≠ 0) :
    (loadPrev entry).run s = (.ok (prevOf s.memory entry), s) := by
  simp [loadPrev, deref, nonzero, Prog.run_bind]

/-- A read of `next` through a good pointer. -/
theorem run_loadNext (nonzero : entry ≠ 0) :
    (loadNext entry).run s = (.ok (nextOf s.memory entry), s) := by
  simp [loadNext, deref, nonzero, Prog.run_bind]

/-- A write of `prev` through a good pointer. -/
theorem run_storePrev (nonzero : entry ≠ 0) : (storePrev entry value).run s =
    (.ok (), { s with memory := s.memory.store entry value }) := by
  simp [storePrev, deref, nonzero, Prog.run_bind]

/-- A write of `next` through a good pointer. -/
theorem run_storeNext (nonzero : entry ≠ 0) : (storeNext entry value).run s =
    (.ok (), { s with memory := s.memory.store (entry + 8) value }) := by
  simp [storeNext, deref, nonzero, Prog.run_bind]

/-- A write through the null pointer stops. -/
theorem run_storePrev_null : (storePrev 0 value).run s = (.error .nullAccess, s) := by
  simp [storePrev, deref, Prog.run_bind]

/-- Assigning list fields changes no memory. -/
theorem run_assign (change : FreeList → FreeList) : (assign change).run s =
    (.ok (), { s with regionList := change s.regionList }) := rfl

/-- A checked entry passes when it is a page-aligned address in the direct map. -/
theorem run_checkEntry {hhdm new : UInt64} {below : String} (inMap : hhdm ≤ new)
    (aligned : new % 4096 = 0) :
    (FreeList.checkEntry hhdm new below).run s = (.ok (), s) := by
  have high : ¬ new < hhdm := UInt64.not_lt.mpr inMap
  simp [FreeList.checkEntry, entrySize, high, aligned]

end Primitives

namespace FreeList.WellFormed

variable {list : FreeList} {memory : Memory} {nodes : List UInt64}

/-- A well-formed list visits no frame twice. -/
theorem nodup (wf : list.WellFormed memory nodes) : nodes.Nodup :=
  wf.links.nodup fun zero => (wf.frames 0 zero).nonzero rfl

/-- The last node and the nodes before it. -/
theorem tail_eq (wf : list.WellFormed memory nodes) : ∃ init, nodes = init ++ [list.tail] :=
  List.getLast?_eq_some_iff.mp wf.tail

/-- The first node and the nodes after it. -/
theorem head_eq (wf : list.WellFormed memory nodes) : ∃ rest, nodes = list.head :: rest :=
  List.head?_eq_some_iff.mp wf.head

/-- The tail is a frame. -/
theorem tail_frame (wf : list.WellFormed memory nodes) : IsFrame list.tail :=
  wf.frames _ (List.mem_of_getLast? wf.tail)

/-- The head is a frame. -/
theorem head_frame (wf : list.WellFormed memory nodes) : IsFrame list.head :=
  wf.frames _ (List.mem_of_head? wf.head)

/-- One more frame is still counted, since distinct addresses never fill a word. -/
theorem len_succ {new : UInt64} (wf : list.WellFormed memory nodes) (frame : IsFrame new)
    (fresh : new ∉ nodes) : (list.len + 1).toNat = nodes.length + 1 := by
  have distinct : ((0 :: new :: nodes).map UInt64.toNat).Nodup := by
    refine List.Nodup.map (fun _ _ => UInt64.toNat_inj.mp) ?_
    have zero : (0 : UInt64) ∉ nodes := fun h => (wf.frames 0 h).nonzero rfl
    simp [zero, fresh, wf.nodup, frame.nonzero.symm]
  have words : (0 :: new :: nodes).map UInt64.toNat ⊆ List.range (2 ^ 64) := by
    intro number member
    obtain ⟨word, -, rfl⟩ := List.mem_map.mp member
    exact List.mem_range.mpr word.toNat_lt
  have fits := (List.subperm_of_subset distinct words).length_le
  simp only [List.length_map, List.length_cons, List.length_range] at fits
  simp only [UInt64.toNat_add, wf.len, UInt64.reduceToNat]
  exact Nat.mod_eq_of_lt (by omega)

/-- A list survives changes of memory that spare the frames it holds. -/
theorem spare {other : Memory} (wf : list.WellFormed memory nodes)
    (same : ∀ node ∈ nodes, ∀ index < 512, other (wordOf node index) = memory (wordOf node index)) :
    list.WellFormed other nodes where
  frames := wf.frames
  head := wf.head
  tail := wf.tail
  len := wf.len
  links := wf.links.congr fun node member =>
    have first := same node member 0 (by decide)
    ⟨by rwa [wordOf_zero] at first, same node member 1 (by decide)⟩

/-- A list holds no more frames than there are pages. -/
theorem length_le (wf : list.WellFormed memory nodes) : nodes.length ≤ 2 ^ 52 := by
  have numbers : (nodes.map fun node => node.toNat / 4096).Nodup := by
    refine List.Nodup.map_on (fun first one second two same => ?_) wf.nodup
    have left := aligned_toNat (wf.frames first one).aligned
    have right := aligned_toNat (wf.frames second two).aligned
    exact UInt64.toNat_inj.mp (by omega)
  have within : (nodes.map fun node => node.toNat / 4096) ⊆ List.range (2 ^ 52) := by
    intro number listed
    obtain ⟨node, -, rfl⟩ := List.mem_map.mp listed
    have bound := node.toNat_lt
    exact List.mem_range.mpr (by omega)
  have counted := (List.subperm_of_subset numbers within).length_le
  rwa [List.length_map, List.length_range] at counted

end FreeList.WellFormed

namespace FreeList

variable {hhdm new : UInt64} {s : Pmm} {nodes : List UInt64}

/-- `push` appends a frame that the list does not hold. -/
theorem push_spec (wf : s.Holds nodes) (frame : IsFrame new) (inMap : hhdm ≤ new)
    (fresh : new ∉ nodes) :
    ∃ s', (push hhdm new).run s = (.ok (), s') ∧ s'.Holds (nodes ++ [new]) ∧
      ChangedLinks (nodes ++ [new]) s.memory s'.memory := by
  obtain ⟨init, whole⟩ := wf.tail_eq
  have tail := wf.tail_frame
  refine ⟨⟨⟨s.regionList.head, new, s.regionList.len + 1⟩, ((s.memory.store (new + 8) 0).store new
    s.regionList.tail).store (s.regionList.tail + 8) new⟩, ?run,
    ⟨?frames, ?head, ?tail, ?links, ?len⟩, ?changed⟩
  case run =>
    simp only [push, Prog.run_bind, run_checkEntry inMap frame.aligned,
      run_storeNext frame.nonzero, Prog.run_read, run_storePrev frame.nonzero,
      run_storeNext tail.nonzero, run_assign]
  case frames =>
    intro node member
    rcases List.mem_append.mp member with old | single
    · exact wf.frames node old
    · exact List.mem_singleton.mp single ▸ frame
  case head => rw [List.head?_append, wf.head]; rfl
  case tail => simp
  case links =>
    have links := wf.links
    have nodup := wf.nodup
    rw [whole] at links nodup fresh
    rw [whole]
    refine (links.snoc nodup fresh).congr fun x member => ?_
    have node : x % 4096 = 0 := by
      rw [← whole] at member
      rcases List.mem_append.mp member with old | single
      · exact (wf.frames x old).aligned
      · exact List.mem_singleton.mp single ▸ frame.aligned
    rw [prevOf_store_next tail.aligned node, prevOf_store, nextOf_store_next]
    refine ⟨?_, ?_⟩
    · simp only [Function.update_apply, prevOf_store_next frame.aligned node]
    · simp only [Function.update_apply, nextOf_store_prev frame.aligned node, nextOf_store_next]
  case len => simpa using wf.len_succ frame fresh
  case changed =>
    have last : s.regionList.tail ∈ nodes ++ [new] :=
      List.mem_append_left _ (List.mem_of_getLast? wf.tail)
    exact (((show ChangedLinks _ s.memory s.memory from fun _ _ => rfl).store
      ⟨new, by simp, .inr rfl⟩).store ⟨new, by simp, .inl rfl⟩).store ⟨_, last, .inr rfl⟩

/-- `pull` prepends a frame that the list does not hold. -/
theorem pull_spec (wf : s.Holds nodes) (frame : IsFrame new) (inMap : hhdm ≤ new)
    (fresh : new ∉ nodes) :
    ∃ s', (pull hhdm new).run s = (.ok (), s') ∧ s'.Holds (new :: nodes) ∧
      ChangedLinks (new :: nodes) s.memory s'.memory := by
  obtain ⟨rest, whole⟩ := wf.head_eq
  have head := wf.head_frame
  refine ⟨⟨⟨new, s.regionList.tail, s.regionList.len + 1⟩, ((s.memory.store new 0).store (new + 8)
    s.regionList.head).store s.regionList.head new⟩, ?run,
    ⟨?frames, ?head, ?tail, ?links, ?len⟩, ?changed⟩
  case run =>
    simp only [pull, Prog.run_bind, run_checkEntry inMap frame.aligned,
      run_storePrev frame.nonzero, Prog.run_read, run_storeNext frame.nonzero,
      run_storePrev head.nonzero, run_assign]
  case frames => exact List.forall_mem_cons.mpr ⟨frame, wf.frames⟩
  case head => simp
  case tail => rw [List.getLast?_cons, wf.tail]; rfl
  case links =>
    have links := wf.links
    have nodup := wf.nodup
    rw [whole] at links nodup fresh
    rw [whole]
    refine (links.cons nodup fresh).congr fun x member => ?_
    have node : x % 4096 = 0 := by
      rw [← whole] at member
      rcases List.mem_cons.mp member with same | old
      · exact same ▸ frame.aligned
      · exact (wf.frames x old).aligned
    rw [prevOf_store, nextOf_store_prev head.aligned node, nextOf_store_next]
    refine ⟨?_, ?_⟩
    · simp only [Function.update_apply, prevOf_store_next frame.aligned node]
      simp only [prevOf_store, Function.update_apply]
    · simp only [Function.update_apply, nextOf_store_prev frame.aligned node]
  case len => simpa using wf.len_succ frame fresh
  case changed =>
    have first : s.regionList.head ∈ new :: nodes :=
      List.mem_cons_of_mem _ (List.mem_of_head? wf.head)
    exact (((show ChangedLinks _ s.memory s.memory from fun _ _ => rfl).store
      ⟨new, by simp, .inl rfl⟩).store ⟨new, by simp, .inr rfl⟩).store ⟨_, first, .inl rfl⟩

/-- Frames that are given back one after the other are in front of the list, the last one first. -/
theorem pulls_spec {given : List UInt64} (wf : s.Holds nodes)
    (frames : ∀ frame ∈ given, IsFrame frame ∧ hhdm ≤ frame) (nodup : given.Nodup)
    (fresh : ∀ frame ∈ given, frame ∉ nodes) :
    ∃ s', (given.forM (pull hhdm)).run s = (.ok (), s') ∧
      s'.Holds (given.reverse ++ nodes) ∧
      ChangedLinks (given.reverse ++ nodes) s.memory s'.memory := by
  induction given generalizing s nodes with
  | nil => exact ⟨s, rfl, wf, fun _ _ => rfl⟩
  | cons frame given ih =>
    obtain ⟨⟨isFrame, inMap⟩, others⟩ := List.forall_mem_cons.mp frames
    obtain ⟨unlisted, freshOthers⟩ := List.forall_mem_cons.mp fresh
    obtain ⟨apart, distinct⟩ := List.nodup_cons.mp nodup
    obtain ⟨middle, first, holds, links⟩ := pull_spec wf isFrame inMap unlisted
    have later : ∀ other ∈ given, other ∉ frame :: nodes := by
      intro other member listed
      rcases List.mem_cons.mp listed with rfl | old
      · exact apart member
      · exact freshOthers other member old
    obtain ⟨s', rounds, holds', links'⟩ := ih holds others distinct later
    rw [List.reverse_cons, List.append_assoc, List.singleton_append]
    refine ⟨s', (Prog.run_forM_cons_ok first).trans rounds, holds', fun address outside => ?_⟩
    rw [links' address outside]
    refine links address fun ⟨node, member, inside⟩ => outside ⟨node, ?_, inside⟩
    exact List.mem_append_right _ member

/-- One node fewer is one less in the count. -/
theorem len_sub {frames : UInt64} {count : Nat} (list : FreeList) (removed : Nat)
    (len : list.len.toNat = count + removed) (same : frames.toNat = removed) :
    (list.len - frames).toNat = count := by
  rw [UInt64.toNat_sub_of_le _ _ (UInt64.le_iff_toNat_le.mpr (by omega))]
  omega

/-- The fallback of `claim` applies to a `next` link below the direct map, unless that link
already is the frame above the head. -/
def NextUsable (hhdm ogHead nextEntry : UInt64) : Prop :=
  hhdm ≤ nextEntry ∨ nextEntry = ogHead + entrySize

/-- `claim` takes the first frame of a list that has a usable second one. -/
theorem claim_spec {a b : UInt64} {rest : List UInt64} (wf : s.Holds (a :: b :: rest))
    (usable : NextUsable hhdm a b) :
    ∃ s', (claim hhdm).run s = (.ok a, s') ∧ s'.Holds (b :: rest) ∧
      ChangedLinks (a :: b :: rest) s.memory s'.memory := by
  have frameA := wf.frames a (by simp)
  have frameB := wf.frames b (by simp)
  have head : s.regionList.head = a := by simpa using wf.head.symm
  have next : nextOf s.memory a = b := wf.links.2.1
  -- whichever way the next entry is found, it is `b`, and only the link of `a` may be rewritten
  have found : ∃ memory, (claimNext hhdm a).run s = (.ok b, { s with memory := memory }) ∧
      ChangedLinks [a] s.memory memory := by
    by_cases low : b < hhdm
    · have above : b = a + entrySize :=
        usable.resolve_left (UInt64.not_le.mpr low)
      refine ⟨s.memory.store (a + 8) b, ?_, ChangedLinks.store (fun _ _ => rfl)
        ⟨a, by simp, .inr rfl⟩⟩
      simp only [claimNext, Prog.run_bind, run_loadNext frameA.nonzero, next, if_pos low,
        run_storeNext frameA.nonzero, nextOf_store_next, Function.update_self, ← above]
    · refine ⟨s.memory, ?_, fun _ _ => rfl⟩
      simp only [claimNext, Prog.run_bind, run_loadNext frameA.nonzero, next, if_neg low,
        Prog.run_pure]
  obtain ⟨memory, ran, changed⟩ := found
  have nodup := wf.nodup
  refine ⟨⟨⟨b, s.regionList.tail, s.regionList.len - 1⟩, memory.store b 0⟩, ?run,
    ⟨?frames, ?head, ?tail, ?links, ?len⟩, ?changed⟩
  case run =>
    simp only [claim, Prog.run_bind, Prog.run_read, head, ran, run_storePrev frameB.nonzero,
      run_assign, Prog.run_pure]
  case frames => exact fun node member => wf.frames node (List.mem_cons_of_mem a member)
  case head => rfl
  case tail => simpa using wf.tail
  case links =>
    have tail : Chain (prevOf s.memory) (nextOf s.memory) a (b :: rest) 0 := wf.links.2.2
    refine (tail.update_first (List.nodup_cons.mp nodup.of_cons).1 0).congr fun x member => ?_
    have frameX := (wf.frames x (List.mem_cons_of_mem a member)).aligned
    have apart : x ≠ a := ne_of_mem_of_not_mem member (List.nodup_cons.mp nodup).1
    have out : ∀ offset, offset = 0 ∨ offset = 8 → ¬ LinkWords [a] (x + offset) := by
      rintro offset which ⟨node, single, inside⟩
      rw [List.mem_singleton.mp single] at inside
      rcases which with rfl | rfl <;> rcases inside with same | same
      · exact apart (by simpa using same)
      · exact IsFrame.ne_next frameA.aligned frameX (by simpa using same)
      · exact IsFrame.ne_next frameX frameA.aligned same.symm
      · exact apart ((UInt64.add_left_inj 8).mp same)
    rw [prevOf_store, nextOf_store_prev frameB.aligned frameX]
    refine ⟨?_, changed _ (out 8 (.inr rfl))⟩
    have keep : memory x = s.memory x := by simpa using changed _ (out 0 (.inl rfl))
    simp only [Function.update_apply, prevOf, keep]
  case len =>
    refine len_sub s.regionList 1 ?_ rfl
    simpa using wf.len
  case changed =>
    exact (changed.mono (by simp)).store ⟨b, by simp, .inl rfl⟩

/-- Behind a `next` link below the direct map `claim` makes up an entry, one frame above the head,
unless that address is null. -/
theorem claim_fallback {a : UInt64} {rest : List UInt64} (wf : s.Holds (a :: rest))
    (low : nextOf s.memory a < hhdm) :
    ((claim hhdm).run s).1 = .error .nullAccess ∨
      ((claim hhdm).run s).1 = .ok a ∧
        ((claim hhdm).run s).2.regionList.head = a + entrySize ∧ a + entrySize ≠ 0 := by
  have frameA := wf.frames a (by simp)
  have head : s.regionList.head = a := by simpa using wf.head.symm
  by_cases wraps : a + entrySize = 0
  · left
    simp only [claim, claimNext, Prog.run_bind, Prog.run_read, head, run_loadNext frameA.nonzero,
      if_pos low, run_storeNext frameA.nonzero, nextOf_store_next, Function.update_self, wraps,
      run_storePrev_null]
  · right
    simp only [claim, claimNext, Prog.run_bind, Prog.run_read, head, run_loadNext frameA.nonzero,
      if_pos low, run_storeNext frameA.nonzero, nextOf_store_next, Function.update_self,
      run_storePrev wraps, run_assign, Prog.run_pure]
    exact ⟨trivial, trivial, wraps⟩

/-- On the last frame `claim` falls back, or writes through the null link itself. -/
theorem claim_last {a : UInt64} (wf : s.Holds [a]) :
    ((claim hhdm).run s).1 = .error .nullAccess ∨
      ((claim hhdm).run s).1 = .ok a ∧
        ((claim hhdm).run s).2.regionList.head = a + entrySize ∧ a + entrySize ≠ 0 := by
  have frameA := wf.frames a (by simp)
  have head : s.regionList.head = a := by simpa using wf.head.symm
  have next : nextOf s.memory a = 0 := wf.links.2.1
  by_cases low : (0 : UInt64) < hhdm
  · exact claim_fallback wf (by rwa [next])
  · left
    simp only [claim, claimNext, Prog.run_bind, Prog.run_read, head, run_loadNext frameA.nonzero,
      next, if_neg low, Prog.run_pure, run_storePrev_null]

/-- `unlink` takes a section out of the list when a frame follows it. -/
theorem unlink_spec {frames base current b : UInt64} {pre window post : List UInt64}
    (wf : s.Holds (pre ++ window ++ b :: post)) (head : window.head? = some base)
    (last : window.getLast? = some current) (size : window.length = frames.toNat) :
    ∃ s', (unlink frames base current).run s = (.ok (), s') ∧ s'.Holds (pre ++ b :: post) ∧
      ChangedLinks (pre ++ window ++ b :: post) s.memory s'.memory := by
  obtain ⟨inner, rfl⟩ := List.getLast?_eq_some_iff.mp last
  obtain ⟨later, more⟩ := List.head?_eq_some_iff.mp head
  have frameBase := wf.frames base (by simp [more])
  have frameCurrent := wf.frames current (by simp)
  have frameB := wf.frames b (by simp)
  have links := wf.links
  have nodup := wf.nodup
  have previous : prevOf s.memory base = pre.getLastD 0 := by
    rw [more, List.append_assoc, List.cons_append] at links
    exact links.node.1
  have next : nextOf s.memory current = b := by
    have := links
    rw [List.append_assoc, List.append_assoc, List.singleton_append, ← List.append_assoc] at this
    exact this.node.2
  have len : ∀ list : FreeList, list.len = s.regionList.len →
      (list.len - frames).toNat = (pre ++ b :: post).length := by
    intro list same
    refine len_sub list frames.toNat ?_ rfl
    rw [same, wf.len, ← size]
    simp only [List.length_append, List.length_cons]
    omega
  have kept : ∀ node ∈ pre ++ b :: post, IsFrame node := fun node member =>
    wf.frames node (by simp only [List.mem_append] at member ⊢; tauto)
  have tail : (pre ++ b :: post).getLast? = some s.regionList.tail := by
    rw [← wf.tail, List.getLast?_append_of_ne_nil _ (by simp),
      List.getLast?_append_of_ne_nil _ (by simp)]
  rcases List.eq_nil_or_concat pre with rfl | ⟨front, p, rfl⟩
  · -- the section starts at the head, so the head moves past it
    refine ⟨⟨⟨b, s.regionList.tail, s.regionList.len - frames⟩, s.memory.store b 0⟩, ?_,
      ⟨kept, rfl, tail, ?_, len _ rfl⟩,
      ChangedLinks.store (fun _ _ => rfl) ⟨b, by simp, .inl rfl⟩⟩
    · simp only [unlink, Prog.run_bind, run_loadPrev frameBase.nonzero, previous,
        run_loadNext frameCurrent.nonzero, next, List.getLastD_nil, ↓reduceIte, run_assign,
        run_storePrev frameB.nonzero]
    · rw [List.nil_append, chain_append] at links
      refine (links.2.update_first (List.nodup_cons.mp nodup.of_append_right).1 0).congr
        fun x member => ⟨rfl, ?_⟩
      exact nextOf_store_prev frameB.aligned (kept x (by simpa using member)).aligned
  · -- otherwise the neighbours on both sides are joined
    rw [List.concat_eq_append] at *
    have frameP := wf.frames p (by simp)
    have previous : prevOf s.memory base = p := by
      rw [previous]
      simp [List.getLastD_eq_getLast?]
    refine ⟨⟨⟨s.regionList.head, s.regionList.tail, s.regionList.len - frames⟩,
      (s.memory.store (p + 8) b).store b p⟩, ?_, ⟨kept, ?_, tail, ?_, len _ rfl⟩, ?_⟩
    · simp only [unlink, Prog.run_bind, run_loadPrev frameBase.nonzero, previous,
        run_loadNext frameCurrent.nonzero, next, if_neg frameP.nonzero,
        run_storeNext frameP.nonzero, run_storePrev frameB.nonzero, run_assign]
    · rw [← wf.head]
      cases front <;> rfl
    · refine (links.cut nodup).congr fun x member => ?_
      have frameX := (kept x member).aligned
      rw [prevOf_store, nextOf_store_prev frameB.aligned frameX, nextOf_store_next]
      refine ⟨?_, rfl⟩
      simp only [Function.update_apply, prevOf_store_next frameP.aligned frameX]
    · exact (ChangedLinks.store (fun _ _ => rfl) ⟨p, by simp, .inr rfl⟩).store
        ⟨b, by simp, .inl rfl⟩

/-- Unlinking a section at the end of the list writes through the null `next` of the tail. -/
theorem unlink_tail (frames : UInt64) {base current : UInt64} {pre window : List UInt64}
    (wf : s.Holds (pre ++ window)) (head : window.head? = some base)
    (last : window.getLast? = some current) :
    ((unlink frames base current).run s).1 = .error .nullAccess := by
  obtain ⟨inner, rfl⟩ := List.getLast?_eq_some_iff.mp last
  obtain ⟨later, more⟩ := List.head?_eq_some_iff.mp head
  have frameBase := wf.frames base (by simp [more])
  have frameCurrent := wf.frames current (by simp)
  have links := wf.links
  have next : nextOf s.memory current = 0 := by
    rw [← List.append_assoc] at links
    exact links.node.2
  have previous : prevOf s.memory base ≠ 0 → prevOf s.memory base ∈ pre := by
    rw [more] at links
    rw [links.node.1]
    intro nonzero
    rcases List.eq_nil_or_concat pre with rfl | ⟨front, p, rfl⟩
    · exact absurd rfl nonzero
    · simp [List.getLastD_eq_getLast?]
  by_cases first : prevOf s.memory base = 0
  · simp only [unlink, Prog.run_bind, run_loadPrev frameBase.nonzero,
      run_loadNext frameCurrent.nonzero, next, if_pos first, run_assign, run_storePrev_null]
  · simp only [unlink, Prog.run_bind, run_loadPrev frameBase.nonzero,
      run_loadNext frameCurrent.nonzero, next, if_neg first, run_storeNext first,
      run_storePrev_null]

end FreeList

end Lsd
