import Lsd.Lib.Transition
import Lsd.Verif.FrameWindow

/-!
# Who owns a frame

A ledger runs the frame list and records which frames were ever donated to it
and which it has handed out. While no operation takes the last frame of the
list, the frames in the list and the frames handed out are the donated frames,
each once, whatever the owners of the other frames store in them. A claim of
the last frame breaks this: the list continues with an address nobody donated.
-/

namespace Lsd

open Program Linked

/-- The operations of the frame list. -/
inductive FrameOp where
  | init (new : UInt64)
  | push (new : UInt64)
  | pull (new : UInt64)
  | claim
  | claimContinuous (frames : UInt64)
  | claimAligned (frames : UInt64) (align : PageSize)

/-- The frames that a search hands out. -/
def handOut (frames : UInt64) : Except String UInt64 → List UInt64
  | .ok base => framesFrom base frames.toNat
  | .error _ => []

/-- Run an operation and return the frames it hands out. -/
def FrameOp.run (hhdm : UInt64) : FrameOp → Kernel Pmm (List UInt64)
  | .init new => do
    FreeList.init new
    pure []
  | .push new => do
    FreeList.push hhdm new
    pure []
  | .pull new => do
    FreeList.pull hhdm new
    pure []
  | .claim => do
    let frame ← FreeList.claim hhdm
    pure [frame]
  | .claimContinuous frames => do
    let result ← FreeList.claimContinuous hhdm frames
    pure (handOut frames result)
  | .claimAligned frames align => do
    let result ← FreeList.claimAligned hhdm frames align
    pure (handOut frames result)

/-- The frame that an operation gives to the list. -/
def FrameOp.given : FrameOp → Option UInt64
  | .init new | .push new | .pull new => some new
  | .claim | .claimContinuous _ | .claimAligned _ _ => none

/-- The frame list with a record of its donations and of the frames it has handed out. -/
structure Ledger where
  /-- The list and the memory. -/
  pmm : Pmm
  /-- Every frame ever given to the list. -/
  donated : List UInt64
  /-- Frames handed out and not yet given back. -/
  handedOut : List UInt64

/-- Record a frame that is given to the list: given back, or donated. -/
def Ledger.give (ledger : Ledger) : Option UInt64 → Ledger
  | none => ledger
  | some new =>
    if new ∈ ledger.handedOut then { ledger with handedOut := ledger.handedOut.erase new }
    else { ledger with donated := new :: ledger.donated }

/-- One operation, with its record. -/
def Ledger.step (hhdm : UInt64) (op : FrameOp) : Kernel Ledger (List UInt64) := fun ledger =>
  match (op.run hhdm).run ledger.pmm with
  | (.ok frames, pmm) =>
    let after := ledger.give op.given
    (.ok frames, { after with pmm := pmm, handedOut := frames ++ after.handedOut })
  | (.error reason, pmm) => (.error reason, { ledger with pmm := pmm })

/-- The frames that are free: donated and not handed out. -/
def Ledger.Free (ledger : Ledger) (frame : UInt64) : Prop :=
  frame ∈ ledger.donated ∧ frame ∉ ledger.handedOut

/-- What a caller of `push` and `pull` owes: a page-aligned frame at or above the start of the
direct map that is not currently free. -/
def FrameOp.Permitted (hhdm : UInt64) (ledger : Ledger) : FrameOp → Prop
  | .push new | .pull new => new % 4096 = 0 ∧ hhdm ≤ new ∧ ¬ ledger.Free new
  | _ => True

/-- The entries met from the head, as many as the list counts. -/
def entriesFrom (memory : Memory) : Nat → UInt64 → List UInt64
  | 0, _ => []
  | count + 1, entry => entry :: entriesFrom memory count (nextOf memory entry)

/-- The entries of the list. -/
def Pmm.entries (s : Pmm) : List UInt64 :=
  entriesFrom s.memory s.regionList.len.toNat s.regionList.head

/-- When an operation is safe: `init` comes first and once, no frame is given to a list that has
none, null is no frame, and no claim takes the last frame of the list. -/
def FrameOp.Careful (hhdm : UInt64) (ledger : Ledger) : FrameOp → Prop
  | .init new => IsFrame new ∧ ledger.donated = []
  | .push new | .pull new => new ≠ 0 ∧ ledger.donated ≠ []
  | .claim => FreeList.LeavesTail hhdm 1 (fun _ => true) ledger.pmm.entries
  | .claimContinuous frames =>
    FreeList.LeavesTail hhdm frames (fun _ => true) ledger.pmm.entries
  | .claimAligned frames align =>
    FreeList.LeavesTail hhdm frames (fun base => base &&& (align.bytes - 1) == 0)
      ledger.pmm.entries

/-- What the list holds: its nodes, or nothing while it is not yet in use. -/
def Pmm.Lists (s : Pmm) (free : List UInt64) : Prop :=
  s.Holds free ∨ s.regionList = FreeList.null ∧ free = []

/-- Frame ownership with the frames in the list named: they and the frames handed out are
disjoint, none occurs twice, and together they are the frames ever donated. -/
structure Ledger.Owns (ledger : Ledger) (free : List UInt64) : Prop where
  /-- The frames are those in the list. -/
  lists : ledger.pmm.Lists free
  /-- A list that was given a frame holds one. -/
  used : ledger.donated ≠ [] → ledger.pmm.Holds free
  /-- No frame is held twice. -/
  distinct : (free ++ ledger.handedOut).Nodup
  /-- Held frames are the donated ones. -/
  exact : ∀ frame, frame ∈ free ++ ledger.handedOut ↔ frame ∈ ledger.donated

/-- Frame ownership. -/
def Ledger.Owned (ledger : Ledger) : Prop := ∃ free, ledger.Owns free

/-- What happens to a ledger: an operation, or a store by the owner of some other memory. -/
inductive FrameEvent where
  | op (op : FrameOp)
  | store (address value : UInt64)

/-- A step of a run in which every operation is permitted and careful. -/
def Ledger.Next (hhdm : UInt64) (before : Ledger) : FrameEvent → Ledger → Prop
  | .op op, after => op.Permitted hhdm before ∧ op.Careful hhdm before ∧
      ∃ frames, (Ledger.step hhdm op).run before = (.ok frames, after)
  | .store address value, after =>
    (∀ frame index, before.Free frame → index < 512 → address ≠ wordOf frame index) ∧
      after = { before with
        pmm := { before.pmm with memory := before.pmm.memory.store address value } }

/-- The list as it is before its first use, over any memory. -/
def Ledger.Start (ledger : Ledger) : Prop :=
  ledger.pmm.regionList = FreeList.null ∧ ledger.donated = [] ∧ ledger.handedOut = []

namespace FreeList

variable {memory : Memory} {list : FreeList} {nodes : List UInt64}

/-- The entries met from the head of a well-formed list are its nodes. -/
theorem WellFormed.entries {s : Pmm} (wf : s.Holds nodes) : s.entries = nodes := by
  have walk : ∀ (before entry : UInt64) (rest : List UInt64),
      Chain (prevOf s.memory) (nextOf s.memory) before (entry :: rest) 0 →
        entriesFrom s.memory (rest.length + 1) entry = entry :: rest := by
    intro before entry rest links
    induction rest generalizing before entry with
    | nil => rfl
    | cons next rest ih =>
      have link : nextOf s.memory entry = next := links.2.1
      rw [List.length_cons, entriesFrom, link, ih entry next links.2.2]
  obtain ⟨rest, rfl⟩ := wf.head_eq
  have len : s.regionList.len.toNat = rest.length + 1 := by simpa using wf.len
  rw [Pmm.entries, len]
  exact walk 0 _ rest wf.links

end FreeList

section Operations

variable {hhdm : UInt64} {s : Pmm} {free : List UInt64}

/-- What an operation does to the frames in the list: it returns, and the frames left and handed
out are together the frames that were there and the frame that was given. -/
def FrameOp.Moves (hhdm : UInt64) (op : FrameOp) (s : Pmm) (free : List UInt64) : Prop :=
  ∃ frames s' later, (op.run hhdm).run s = (.ok frames, s') ∧ s'.Lists later ∧
    (op.given.isSome ∨ s.Holds free → s'.Holds later) ∧
    (later ++ frames).Perm (op.given.toList ++ free) ∧ (op.given.isSome → frames = [])

/-- A search of the list before its first use finds nothing. -/
theorem claimWindow_null {frames : UInt64} {mayStart : UInt64 → Bool}
    (null : s.regionList = FreeList.null) (wide : frames ≠ 1) :
    (FreeList.claimWindow hhdm frames mayStart).run s =
      (.ok (.error (FreeList.notFound 0)), s) := by
  simp only [FreeList.claimWindow, if_neg wide, Prog.run_bind, Prog.run_read, null, FreeList.null,
    UInt64.reduceToNat, FreeList.scan, Prog.run_pure]
  rfl

/-- A search that leaves the tail in the list moves the frames of its window out, or nothing. -/
theorem claimWindow_moves {frames : UInt64} {mayStart : UInt64 → Bool} (lists : s.Lists free)
    (leaves : FreeList.LeavesTail hhdm frames mayStart s.entries) :
    ∃ result s' later, (FreeList.claimWindow hhdm frames mayStart).run s = (.ok result, s') ∧
      s'.Lists later ∧ (s.Holds free → s'.Holds later) ∧
      (later ++ handOut frames result).Perm free := by
  rcases lists with wf | ⟨null, rfl⟩
  · rw [wf.entries] at leaves
    rcases FreeList.claimWindow_cases wf
      leaves with ran | ⟨base, s', pre, post, ran, parts, holds, -⟩
    · exact ⟨_, s, free, ran, .inl wf, fun _ => wf, by simp [handOut]⟩
    · refine ⟨_, s', pre ++ post, ran, .inl holds, fun _ => holds, ?_⟩
      rw [parts, handOut, List.append_assoc, List.append_assoc]
      exact List.perm_append_comm.append_left pre
  · have wide : frames ≠ 1 := by
      rintro rfl
      rw [FreeList.LeavesTail, if_pos rfl, Pmm.entries, null] at leaves
      obtain ⟨a, b, rest, none, -⟩ := leaves
      exact absurd none (by simp [FreeList.null, entriesFrom])
    exact ⟨_, s, [], claimWindow_null null wide, .inr ⟨null, rfl⟩, id, by simp [handOut]⟩

/-- Every careful operation moves frames between the list and its callers and loses none. -/
theorem FrameOp.moves {ledger : Ledger} {op : FrameOp} (owns : ledger.Owns free)
    (permitted : op.Permitted hhdm ledger) (careful : op.Careful hhdm ledger) :
    op.Moves hhdm ledger.pmm free := by
  have notListed : ∀ new, ¬ ledger.Free new → new ∉ free := by
    intro new taken listed
    refine taken ⟨(owns.exact new).mp (List.mem_append_left _ listed), fun out => ?_⟩
    exact owns.distinct.disjoint listed out
  cases op with
  | init new =>
    obtain ⟨frame, unused⟩ := careful
    have empty : free = [] := by
      refine List.eq_nil_iff_forall_not_mem.mpr fun f listed => ?_
      have := (owns.exact f).mp (List.mem_append_left _ listed)
      simp [unused] at this
    subst empty
    have ran : (FrameOp.run hhdm (.init new)).run ledger.pmm = (.ok [],
        ⟨⟨new, new, 1⟩, (ledger.pmm.memory.store new 0).store (new + 8) 0⟩) := by
      simp only [FrameOp.run, FreeList.init, Prog.run_bind, run_storePrev frame.nonzero,
        run_storeNext frame.nonzero, run_assign, Prog.run_pure]
    have holds : Pmm.Holds ⟨⟨new, new, 1⟩, (ledger.pmm.memory.store new 0).store (new + 8) 0⟩
        [new] := by
      refine ⟨by simpa using frame, rfl, rfl, ⟨?_, ?_, trivial⟩, rfl⟩
      · rw [prevOf_store_next frame.aligned frame.aligned, prevOf_store, Function.update_self]
      · rw [nextOf_store_next, Function.update_self]
        rfl
    exact ⟨_, _, [new], ran, .inl holds, fun _ => holds, by simp [FrameOp.given], fun _ => rfl⟩
  | push new =>
    obtain ⟨aligned, inMap, taken⟩ := permitted
    obtain ⟨nonzero, used⟩ := careful
    obtain ⟨s', ran, holds, -⟩ := FreeList.push_spec (owns.used used) ⟨nonzero, aligned⟩ inMap
      (notListed new taken)
    refine ⟨[], s', free ++ [new], ?_, .inl holds, fun _ => holds, ?_, fun _ => rfl⟩
    · rw [FrameOp.run, Prog.run_bind_ok ran, Prog.run_pure]
    · simp [FrameOp.given]
  | pull new =>
    obtain ⟨aligned, inMap, taken⟩ := permitted
    obtain ⟨nonzero, used⟩ := careful
    obtain ⟨s', ran, holds, -⟩ := FreeList.pull_spec (owns.used used) ⟨nonzero, aligned⟩ inMap
      (notListed new taken)
    refine ⟨[], s', new :: free, ?_, .inl holds, fun _ => holds, by simp [FrameOp.given],
      fun _ => rfl⟩
    rw [FrameOp.run, Prog.run_bind_ok ran, Prog.run_pure]
  | claim =>
    rcases owns.lists with wf | ⟨null, rfl⟩
    · rw [FrameOp.Careful, FreeList.LeavesTail, if_pos rfl, wf.entries] at careful
      obtain ⟨a, b, rest, rfl, usable⟩ := careful
      obtain ⟨s', ran, holds, -⟩ := FreeList.claim_spec wf usable
      refine ⟨[a], s', b :: rest, ?_, .inl holds, fun _ => holds, ?_, fun given => ?_⟩
      · rw [FrameOp.run, Prog.run_bind_ok ran, Prog.run_pure]
      · have swap : (b :: rest ++ [a]).Perm ([a] ++ b :: rest) := List.perm_append_comm
        simpa [FrameOp.given] using swap
      · simp [FrameOp.given] at given
    · rw [FrameOp.Careful, FreeList.LeavesTail, if_pos rfl, Pmm.entries, null] at careful
      obtain ⟨a, b, rest, none, -⟩ := careful
      exact absurd none (by simp [FreeList.null, entriesFrom])
  | claimContinuous frames =>
    obtain ⟨result, s', later, ran, lists, holds, perm⟩ := claimWindow_moves owns.lists careful
    refine ⟨_, s', later, ?_, lists, fun was => holds (was.resolve_left (by simp [FrameOp.given])),
      perm, fun given => by simp [FrameOp.given] at given⟩
    rw [FrameOp.run, FreeList.claimContinuous, Prog.run_bind_ok ran, Prog.run_pure]
  | claimAligned frames align =>
    obtain ⟨result, s', later, ran, lists, holds, perm⟩ := claimWindow_moves owns.lists careful
    refine ⟨_, s', later, ?_, lists, fun was => holds (was.resolve_left (by simp [FrameOp.given])),
      perm, fun given => by simp [FrameOp.given] at given⟩
    rw [FrameOp.run, FreeList.claimAligned, Prog.run_bind_ok ran, Prog.run_pure]

end Operations

namespace Ledger

open FreeList (sampleMap sampleFrame)

variable {hhdm : UInt64} {ledger : Ledger} {free : List UInt64}

/-- Recording a frame that is given to the list adds it to what is held. -/
theorem give_perm {new : UInt64} (fresh : new ∉ free)
    (held : ∀ frame, frame ∈ free ++ ledger.handedOut ↔ frame ∈ ledger.donated)
    (distinct : (free ++ ledger.handedOut).Nodup) :
    (new :: free ++ (ledger.give (some new)).handedOut).Nodup ∧
      ∀ frame, frame ∈ new :: free ++ (ledger.give (some new)).handedOut ↔
        frame ∈ (ledger.give (some new)).donated := by
  by_cases out : new ∈ ledger.handedOut
  · -- a frame given back moves from one side to the other
    have swap : (new :: free ++ ledger.handedOut.erase new).Perm (free ++ ledger.handedOut) :=
      List.perm_middle.symm.trans ((List.perm_cons_erase out).symm.append_left free)
    simp only [give, if_pos out]
    exact ⟨swap.nodup_iff.mpr distinct, fun frame => swap.mem_iff.trans (held frame)⟩
  · simp only [give, if_neg out, List.cons_append]
    refine ⟨List.nodup_cons.mpr ⟨by simp [fresh, out], distinct⟩, fun frame => ?_⟩
    rw [List.mem_cons, List.mem_cons, held]

/-- A frame that is not free is not in the list. -/
theorem Owns.not_listed (owns : ledger.Owns free) {new : UInt64} (taken : ¬ ledger.Free new) :
    new ∉ free := fun listed =>
  taken ⟨(owns.exact new).mp (List.mem_append_left _ listed), owns.distinct.disjoint listed⟩

/-- The frames in the list are the free ones. -/
theorem Owns.mem_iff (owns : ledger.Owns free) {frame : UInt64} :
    frame ∈ free ↔ ledger.Free frame := by
  refine ⟨fun listed => ?_, fun ⟨given, kept⟩ => ?_⟩
  · by_contra taken
    exact owns.not_listed taken listed
  · exact (List.mem_append.mp ((owns.exact frame).mpr given)).resolve_right kept

/-- One careful operation keeps ownership and hands out frames that were free. -/
theorem owns_step {op : FrameOp} (owns : ledger.Owns free) (permitted : op.Permitted hhdm ledger)
    (careful : op.Careful hhdm ledger) :
    ∃ frames after later, (step hhdm op).run ledger = (.ok frames, after) ∧ after.Owns later ∧
      ∀ frame ∈ frames, frame ∈ free := by
  obtain ⟨frames, s', later, ran, lists, holds, perm, none⟩ := op.moves owns permitted careful
  refine ⟨frames, { ledger.give op.given with
    pmm := s', handedOut := frames ++ (ledger.give op.given).handedOut }, later, ?_, ?_⟩
  · change step hhdm op ledger = _
    simp only [step, ran]
  · cases given : op.given with
    | none =>
      rw [given, Option.toList_none, List.nil_append] at perm
      have whole : (later ++ (frames ++ ledger.handedOut)).Perm (free ++ ledger.handedOut) := by
        rw [← List.append_assoc]
        exact perm.append_right _
      refine ⟨⟨lists, fun used => holds (.inr (owns.used used)),
        whole.nodup_iff.mpr owns.distinct, fun frame => whole.mem_iff.trans (owns.exact frame)⟩, ?_⟩
      exact fun frame out => perm.mem_iff.mp (List.mem_append_right _ out)
    | some new =>
      obtain rfl := none (by simp [given])
      rw [given, Option.toList_some, List.append_nil, List.singleton_append] at perm
      -- the list it was added to repeats no frame
      have fresh : new ∉ free :=
        (List.nodup_cons.mp (perm.nodup_iff.mp (holds (by simp [given])).nodup)).1
      obtain ⟨distinct, held⟩ := give_perm fresh owns.exact owns.distinct
      refine ⟨⟨lists, fun _ => holds (by simp [given]), ?_, fun frame => ?_⟩, by simp⟩
      · exact (perm.append_right _).nodup_iff.mpr distinct
      · exact ((perm.append_right _).mem_iff).trans (held frame)

/-- A store by the owner of some other memory keeps ownership. -/
theorem owns_store {address value : UInt64} (owns : ledger.Owns free)
    (other : ∀ frame index, ledger.Free frame → index < 512 → address ≠ wordOf frame index) :
    Owns { ledger with
      pmm := { ledger.pmm with memory := ledger.pmm.memory.store address value } } free := by
  have spare : ∀ node ∈ free, ∀ index < 512,
      ledger.pmm.memory.store address value (wordOf node index) =
        ledger.pmm.memory (wordOf node index) := fun node listed index bound =>
    Function.update_of_ne (other node index (owns.mem_iff.mp listed) bound).symm _ _
  refine ⟨?_, fun used => (owns.used used).spare spare, owns.distinct, owns.exact⟩
  rcases owns.lists with wf | unused
  · exact .inl (wf.spare spare)
  · exact .inr unused

/-- Every step of a careful run keeps ownership. -/
theorem owned_next {before after : Ledger} {event : FrameEvent} (owned : before.Owned)
    (step : before.Next hhdm event after) : after.Owned := by
  obtain ⟨free, owns⟩ := owned
  cases event with
  | op op =>
    obtain ⟨permitted, careful, frames, ran⟩ := step
    obtain ⟨frames', after', later, ran', owns', -⟩ := owns_step owns permitted careful
    rw [ran] at ran'
    obtain ⟨rfl, rfl⟩ : frames = frames' ∧ after = after' := by simpa using ran'
    exact ⟨later, owns'⟩
  | store address value =>
    obtain ⟨other, rfl⟩ := step
    exact ⟨free, owns_store owns other⟩

/-- Ownership holds in every state that a careful run reaches. -/
theorem owned_of_reachable (reachable : Transition.Reachable Start (Next hhdm) ledger) :
    ledger.Owned := by
  refine reachable.invariant (fun start ⟨null, donated, handedOut⟩ => ?_)
    fun _ _ _ owned step => owned_next owned step
  exact ⟨[], .inr ⟨null, rfl⟩, fun used => absurd donated used, by simp [handedOut],
    by simp [donated, handedOut]⟩

/-- In every run whose operations are careful, ownership holds in every state reached, and the next
careful operation returns. What it hands out was free before it, and the head it leaves is a free
frame whenever the list is in use. -/
theorem frame_ownership (reachable : Transition.Reachable Start (Next hhdm) ledger) :
    ledger.Owned ∧ ∀ op : FrameOp, op.Permitted hhdm ledger → op.Careful hhdm ledger →
      ∃ frames after, (step hhdm op).run ledger = (.ok frames, after) ∧ after.Owned ∧
        (∀ frame ∈ frames, ledger.Free frame) ∧
        (after.donated ≠ [] → after.Free after.pmm.regionList.head) := by
  have owned := owned_of_reachable reachable
  refine ⟨owned, fun op permitted careful => ?_⟩
  obtain ⟨free, owns⟩ := owned
  obtain ⟨frames, after, later, ran, owns', out⟩ := owns_step owns permitted careful
  refine ⟨frames, after, ran, ⟨later, owns'⟩, fun frame member => ?_, fun used => ?_⟩
  · exact owns.mem_iff.mp (out frame member)
  · exact owns'.mem_iff.mp (List.mem_of_head? (owns'.used used).head)

/-- A list before its first use, over zeroed memory. -/
def blank : Ledger := ⟨⟨FreeList.null, fun _ => 0⟩, [], []⟩

/-- A list that was given its first frame. -/
def single : Ledger := ((step sampleMap (.init sampleFrame)).run blank).2

/-- A list that was given a second frame. -/
def double : Ledger := ((step sampleMap (.push (sampleFrame + 4096))).run single).2

/-- The second frame arrives by a careful run. -/
theorem double_reachable : Transition.Reachable Start (Next sampleMap) double := by
  have begun : Transition.Reachable Start (Next sampleMap) blank := .start ⟨rfl, rfl, rfl⟩
  have first : Transition.Reachable Start (Next sampleMap) single :=
    .next (.op (.init sampleFrame)) begun
      ⟨trivial, ⟨⟨by decide, by decide⟩, rfl⟩, [], rfl⟩
  have absent : ¬ single.Free (sampleFrame + 4096) := fun free =>
    absurd free.1 (by decide : sampleFrame + 4096 ∉ [sampleFrame])
  exact .next (.op (.push (sampleFrame + 4096))) first
    ⟨⟨by decide, by decide, absent⟩, ⟨by decide, List.cons_ne_nil _ _⟩, [], rfl⟩

/-- The first of two frames is claimed and ownership is kept. -/
theorem frame_ownership_double :
    ∃ frames after, (step sampleMap .claim).run double = (.ok frames, after) ∧ after.Owned ∧
      (∀ frame ∈ frames, double.Free frame) ∧
      (after.donated ≠ [] → after.Free after.pmm.regionList.head) :=
  (frame_ownership double_reachable).2 .claim trivial
    ⟨sampleFrame, sampleFrame + 4096, [], rfl, .inl (by decide)⟩

/-- Two permitted operations that break ownership: the claim of the only frame makes the address
above it the head of the list, and nobody donated that address. -/
theorem claim_last_frame_invents :
    blank.Start ∧ FrameOp.Permitted sampleMap blank (.init sampleFrame) ∧
      (step sampleMap (.init sampleFrame)).run blank = (.ok [], single) ∧
      FrameOp.Permitted sampleMap single .claim ∧
      ∃ after, (step sampleMap .claim).run single = (.ok [sampleFrame], after) ∧
        after.pmm.regionList.head = sampleFrame + 4096 ∧
        sampleFrame + 4096 ∉ after.donated ∧ ¬ after.Owned := by
  refine ⟨⟨rfl, rfl, rfl⟩, trivial, rfl, trivial, _, rfl, rfl,
    (by decide : sampleFrame + 4096 ∉ [sampleFrame]), ?_⟩
  rintro ⟨free, owns⟩
  have wf := owns.used (List.cons_ne_nil _ _)
  have empty : free = [] := List.length_eq_zero_iff.mp wf.len.symm
  exact absurd wf.head (by simp [empty])

end Ledger

end Lsd
