import Lsd.Verif.FrameSupply

/-!
# A row of free frames

A frame list that is one row of adjacent frames, as a memory map with one usable
entry gives it. A single claim takes its first frame, and so does a search that
every frame may start, so what is left is a row again. A search that only some
frames may start finds a window no later than the first of these that has room.
-/

namespace Lsd

open Program

section Row

variable {hhdm base frames : UInt64} {length count place : Nat} {pages : Set UInt64} {s : Pmm}
  {mayStart : UInt64 → Bool}

/-- Frames in a row are adjacent. -/
theorem framesFrom_adjacent (base : UInt64) (count : Nat) :
    (framesFrom base count).IsChain fun frame next => adjacentFrames frame next := by
  induction count generalizing base with
  | zero => exact .nil
  | succ count ih =>
    cases count with
    | zero => exact .singleton base
    | succ count => exact .cons_cons (beq_self_eq_true _) (ih (base + 0x1000))

/-- A window begins wherever a frame that may start it has enough frames behind it. -/
theorem framesFrom_window (room : frames.toNat ≤ length) (positive : 0 < length)
    (start : mayStart base = true) :
    Window.At mayStart adjacentFrames frames.toNat (framesFrom base length) := by
  obtain ⟨rest, rfl⟩ := Nat.exists_eq_add_of_le room
  refine ⟨(framesFrom_length base _).symm ▸ room, ?_, ?_⟩
  · obtain ⟨more, same⟩ := Nat.exists_eq_succ_of_ne_zero positive.ne'
    rw [same]
    simpa [framesFrom] using start
  · rw [framesFrom_add, List.take_left' (framesFrom_length _ _)]
    exact framesFrom_adjacent base _

/-- A claim from a row that leaves a frame behind. -/
structure RowClaim (hhdm : UInt64) (mayStart : UInt64 → Bool) (frames base : UInt64)
    (length place : Nat) (pages : Set UInt64) (s s' : Pmm) (first : UInt64)
    (pre post : List UInt64) : Prop where
  /-- The claim returns. -/
  ran : (FreeList.claimWindow hhdm frames mayStart).run s = (.ok (.ok first), s')
  /-- It takes a part of the row. -/
  parts : framesFrom base length = pre ++ framesFrom first frames.toNat ++ post
  /-- The part begins no later than at some place. -/
  early : pre.length ≤ place
  /-- The rest is free. -/
  stock : Stock hhdm (pages ∪ {frame | frame ∈ framesFrom first frames.toNat}) s' (pre ++ post)
  /-- Pages in use keep their words. -/
  kept : Kept pages s.memory s'.memory

/-- A search in a row finds frames where one that may start has room. -/
theorem Stock.claimRow (stock : Stock hhdm pages s (framesFrom base length)) (positive : frames ≠ 0)
    (start : mayStart (base + UInt64.ofNat (place * 4096)) = true)
    (room : place + frames.toNat < length) :
    ∃ first s' pre post, RowClaim hhdm mayStart frames base length place pages s s' first
      pre post := by
  by_cases single : frames = 1
  · subst single
    obtain ⟨rest, rfl⟩ : ∃ rest, length = rest + 2 := ⟨length - 2, by
      change place + 1 < length at room
      omega⟩
    obtain ⟨s', ran, -, kept, -, left⟩ := stock.claim
    refine ⟨base, s', [], framesFrom (base + 0x1000) (rest + 1), ?_, rfl, Nat.zero_le _, ?_, kept⟩
    · rw [FreeList.claimWindow, if_pos rfl, Prog.run_bind_ok ran, Prog.run_pure]
    · have same : pages ∪ {frame | frame ∈ framesFrom base (1 : UInt64).toNat} =
          insert base pages := by
        ext frame
        simp [framesFrom, or_comm]
      rw [same]
      exact left
  · obtain ⟨rest, rfl⟩ :=
      Nat.exists_eq_add_of_lt (Nat.lt_of_le_of_lt (Nat.le_add_right place _) room)
    have cut : framesFrom base (place + rest + 1) = framesFrom base place ++
        framesFrom (base + UInt64.ofNat (place * 4096)) (rest + 1) := by
      rw [Nat.add_assoc, framesFrom_add]
    have here : Window.At mayStart adjacentFrames frames.toNat
        (framesFrom (base + UInt64.ofNat (place * 4096)) (rest + 1)) :=
      framesFrom_window (by omega) (Nat.succ_pos rest) start
    have several : 0 < frames.toNat := Nat.pos_of_ne_zero fun zero =>
      positive (UInt64.toNat_inj.mp zero)
    cases found : Window.first mayStart adjacentFrames frames.toNat
        (framesFrom base (place + rest + 1)) with
    | none => exact absurd here ((Window.first_eq_none several).mp found _ _ cut)
    | some parts =>
      obtain ⟨pre, window, post⟩ := parts
      obtain ⟨whole, size, -, -⟩ := Window.first_sound found
      have early := Window.first_earliest found cut here
      rw [framesFrom_length] at early
      have lengths := congrArg List.length whole
      rw [framesFrom_length, List.length_append, List.length_append, size] at lengths
      cases post with
      | nil =>
        rw [List.length_nil] at lengths
        omega
      | cons b post =>
        obtain ⟨first, s', ran, rfl, holds, links⟩ :=
          FreeList.claimWindow_spec hhdm stock.holds single positive found
        refine ⟨first, s', pre, b :: post, ran, whole, early, ?_, stock.kept links⟩
        rw [whole] at stock
        exact stock.take holds

/-- A stock whose frames are a row. -/
def RowStock (hhdm : UInt64) (count : Nat) (pages : Set UInt64) (s : Pmm) : Prop :=
  ∃ base length, Stock hhdm pages s (framesFrom base length) ∧ count < length

/-- A row is a source of frames. -/
theorem rowStock_source (hhdm : UInt64) : FrameSource hhdm (RowStock hhdm) := by
  refine ⟨?_, ?_, ?_⟩
  · rintro count pages s memory ⟨base, length, stock, enough⟩ changed
    obtain ⟨rest, rfl⟩ : ∃ rest, length = rest + 2 := ⟨length - 2, by omega⟩
    obtain ⟨s', ran, fresh, kept, -, left⟩ := (stock.write changed).claim
    exact ⟨base, s', ran, fresh, kept, base + 0x1000, rest + 1, left, by omega⟩
  · rintro count pages s memory ⟨base, length, stock, enough⟩ changed
    exact ⟨base, length, stock.write changed, enough⟩
  · rintro count fewer pages s ⟨base, length, stock, enough⟩ le
    exact ⟨base, length, stock, by omega⟩

/-- Frames in a row can be claimed, and leave a row. -/
theorem RowStock.claim (stocked : RowStock hhdm (frames.toNat + count) pages s)
    (positive : frames ≠ 0) :
    ∃ first s', (FreeList.claimContinuous hhdm frames).run s = (.ok (.ok first), s') ∧
      RowStock hhdm count (pages ∪ {frame | frame ∈ framesFrom first frames.toNat}) s' ∧
      (∀ frame ∈ framesFrom first frames.toNat, FreshFrame hhdm pages frame) ∧
      Kept pages s.memory s'.memory := by
  obtain ⟨base, length, stock, enough⟩ := stocked
  have room : 0 + frames.toNat < length := by omega
  obtain ⟨first, s', pre, post, claim⟩ :
    ∃ first s' pre post, RowClaim hhdm (fun _ => true) frames base
      length 0 pages s s' first pre post := stock.claimRow positive rfl room
  obtain rfl : pre = [] := List.length_eq_zero_iff.mp (Nat.le_zero.mp claim.early)
  obtain ⟨rest, rfl⟩ := Nat.exists_eq_add_of_lt room
  have parts := claim.parts
  rw [Nat.zero_add, Nat.add_assoc, framesFrom_add, List.nil_append] at parts
  obtain ⟨window, behind⟩ := List.append_inj parts (by simp)
  have fresh : ∀ frame ∈ framesFrom first frames.toNat, FreshFrame hhdm pages frame := by
    intro frame member
    apply stock.fresh
    rw [claim.parts]
    exact List.mem_append_left _ (List.mem_append_right _ member)
  have left := claim.stock
  rw [List.nil_append, ← behind] at left
  exact ⟨first, s', claim.ran, ⟨_, rest + 1, left, by omega⟩, fresh, claim.kept⟩

end Row

end Lsd
