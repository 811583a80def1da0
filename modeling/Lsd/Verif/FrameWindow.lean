import Lsd.Verif.FrameList

/-!
# What the two contiguous searches remove

On a well-formed list the search loop is the one-pass search for the first
window of adjacent frames. Its success branch works exactly when a frame follows
the window: at the end of the list it writes through a null pointer, and a
request for a single frame falls back to an entry that nobody donated.
-/

namespace Lsd

open Program Linked

/-- Frames that follow each other in memory. -/
def adjacentFrames (frame next : UInt64) : Bool := frame + 0x1000 == next

/-- `count` frames from `base` upwards. -/
def framesFrom (base : UInt64) : Nat → List UInt64
  | 0 => []
  | count + 1 => base :: framesFrom (base + 0x1000) count

/-- The run has as many frames as asked for. -/
@[simp] theorem framesFrom_length (base : UInt64) (count : Nat) :
    (framesFrom base count).length = count := by
  induction count generalizing base with
  | zero => rfl
  | succ count ih => rw [framesFrom, List.length_cons, ih]

/-- An unbroken window is the run of frames from its first one. -/
theorem window_framesFrom {window : List UInt64} {base : UInt64}
    (unbroken : window.IsChain (fun x y => adjacentFrames x y)) (head : window.head? = some base) :
    window = framesFrom base window.length := by
  induction window generalizing base with
  | nil => rfl
  | cons x window ih =>
    obtain rfl : x = base := by simpa using head
    cases window with
    | nil => rfl
    | cons y window =>
      rw [List.isChain_cons_cons] at unbroken
      have step : x + 0x1000 = y := by simpa [adjacentFrames] using unbroken.1
      change x :: y :: window = x :: framesFrom (x + 0x1000) (y :: window).length
      rw [step, ← ih unbroken.2 rfl]

namespace FreeList

variable {hhdm frames : UInt64} {mayStart : UInt64 → Bool} {s : Pmm} {nodes : List UInt64}

/-- The loop is the one-pass search, reads only, and never meets the null pointer. -/
theorem scan_eq_search {base current count before : UInt64} {rest : List UInt64}
    (links : Chain (prevOf s.memory) (nextOf s.memory) before (current :: rest) 0)
    (frame : ∀ node ∈ current :: rest, IsFrame node)
    (fits : count.toNat + rest.length < 2 ^ 64) :
    (scan frames mayStart (rest.length + 1) base current count).run s =
      (.ok (Window.search mayStart adjacentFrames frames.toNat base current count.toNat
        rest), s) := by
  have reached : ∀ count : UInt64, (count = frames) = (count.toNat = frames.toNat) := fun _ =>
    propext UInt64.toNat_inj.symm
  induction rest generalizing base current count before with
  | nil =>
    have nonzero := (frame current (by simp)).nonzero
    simp only [List.length_nil, scan, Prog.run_ite, reached, Window.search,
      Prog.run_pure, Prog.run_bind, run_loadNext nonzero, ite_self]
    split <;> rfl
  | cons next rest ih =>
    have nonzero := (frame current (by simp)).nonzero
    have link : nextOf s.memory current = next := links.2.1
    have frameRest : ∀ node ∈ next :: rest, IsFrame node := fun node member =>
      frame node (List.mem_cons_of_mem current member)
    simp only [List.length_cons] at fits
    have grown : (count + 1).toNat = count.toNat + 1 := by
      simp only [UInt64.toNat_add, UInt64.reduceToNat]
      exact Nat.mod_eq_of_lt (by omega)
    have unit : (1 : UInt64).toNat = 1 := rfl
    rw [List.length_cons, scan, Prog.run_ite, Window.search]
    simp only [reached, Prog.run_pure, Prog.run_bind, run_loadNext nonzero, link, Prog.run_ite]
    have longer := @ih base next (count + 1) current links.2.2 frameRest (by omega)
    have restarted := @ih next next 1 current links.2.2 frameRest (by omega)
    rw [longer, restarted, grown, unit]
    by_cases full : count.toNat = frames.toNat
    · simp only [if_pos full]
    · by_cases grow : (adjacentFrames current next && mayStart base) = true
      · simp only [if_neg full, if_pos grow]
        exact if_pos grow
      · simp only [if_neg full, if_neg grow]
        exact if_neg grow

/-- From the head the loop finds the two ends of the first window, if there is one. -/
theorem scan_eq_first (wf : s.Holds nodes) (wide : frames ≠ 1) :
    (scan frames mayStart s.regionList.len.toNat s.regionList.head s.regionList.head 1).run s =
      (.ok (if frames = 0 then none else
        (Window.first mayStart adjacentFrames frames.toNat nodes).map fun found =>
          (found.2.1.headD s.regionList.head, found.2.1.getLastD s.regionList.head)), s) := by
  obtain ⟨rest, rfl⟩ := wf.head_eq
  have len : s.regionList.len.toNat = rest.length + 1 := by simpa using wf.len
  have small := s.regionList.len.toNat_lt
  rw [len, scan_eq_search wf.links wf.frames (by simp; omega)]
  congr 2
  split
  · rename_i zero
    rw [zero]
    exact Window.search_zero (by simp)
  · rename_i positive
    have wide : 2 ≤ frames.toNat := by
      have notZero : frames.toNat ≠ 0 := fun h => positive (UInt64.toNat_inj.mp (by simpa using h))
      have notOne : frames.toNat ≠ 1 := fun h => wide (UInt64.toNat_inj.mp (by simpa using h))
      omega
    exact Window.search_eq_first wide (Window.Building.single wide)

/-- The message of a failed search. -/
def notFound (len : UInt64) : String := s!"Couldnt find contiguous frames out of {len} frames"

/-- When no window exists the search changes nothing and reports the count. -/
theorem claimWindow_none (wf : s.Holds nodes) (wide : frames ≠ 1)
    (absent : frames ≠ 0 → Window.first mayStart adjacentFrames frames.toNat nodes = none) :
    (claimWindow hhdm frames mayStart).run s = (.ok (.error (notFound s.regionList.len)), s) := by
  have nothing : (if frames = 0 then none else
      (Window.first mayStart adjacentFrames frames.toNat nodes).map fun found =>
        (found.2.1.headD s.regionList.head, found.2.1.getLastD s.regionList.head)) = none := by
    split
    · rfl
    · rename_i positive
      rw [absent positive]
      rfl
  simp only [claimWindow, if_neg wide, Prog.run_bind, Prog.run_read, scan_eq_first wf wide,
    nothing, Prog.run_pure]
  rfl

section Found

variable {pre window post : List UInt64}

/-- The ends of a found window. -/
theorem first_ends (base : UInt64) (positive : frames ≠ 0)
    (found : Window.first mayStart adjacentFrames frames.toNat nodes = some (pre, window, post)) :
    window.head? = some (window.headD base) ∧ window.getLast? = some (window.getLastD base) := by
  have size := (Window.first_sound found).2.1
  cases window with
  | nil =>
    have zero : frames.toNat = 0 := size.symm
    exact absurd (UInt64.toNat_inj.mp (by simpa using zero)) positive
  | cons x window => exact ⟨rfl, by simp [List.getLast?_cons, List.getLastD_eq_getLast?]⟩

/-- Finding a window runs `unlink` on its two ends. -/
theorem claimWindow_found (wf : s.Holds nodes) (wide : frames ≠ 1) (positive : frames ≠ 0)
    (found : Window.first mayStart adjacentFrames frames.toNat nodes = some (pre, window, post)) :
    (claimWindow hhdm frames mayStart).run s =
      ((unlink frames (window.headD s.regionList.head) (window.getLastD s.regionList.head)) >>=
        fun _ => pure (.ok (window.headD s.regionList.head))).run s := by
  simp only [claimWindow, if_neg wide, Prog.run_bind, Prog.run_read, scan_eq_first wf wide,
    if_neg positive, found, Option.map_some]

/-- A window with a frame behind it is removed and its first frame returned. -/
theorem claimWindow_spec (hhdm : UInt64) {b : UInt64} (wf : s.Holds nodes) (wide : frames ≠ 1)
    (positive : frames ≠ 0)
    (found : Window.first mayStart adjacentFrames frames.toNat nodes =
      some (pre, window, b :: post)) :
    ∃ base s', (claimWindow hhdm frames mayStart).run s = (.ok (.ok base), s') ∧
      window = framesFrom base frames.toNat ∧ s'.Holds (pre ++ b :: post) ∧
      ChangedLinks nodes s.memory s'.memory := by
  obtain ⟨whole, size, unbroken, -⟩ := Window.first_sound found
  obtain ⟨head, last⟩ := first_ends s.regionList.head positive found
  obtain ⟨s', ran, holds, changed⟩ := unlink_spec (whole ▸ wf) head last size
  refine ⟨window.headD s.regionList.head, s', ?_, ?_, holds, whole ▸ changed⟩
  · rw [claimWindow_found wf wide positive found, Prog.run_bind_ok ran, Prog.run_pure]
  · exact size ▸ window_framesFrom unbroken head

/-- A window that ends the list stops the kernel. -/
theorem claimWindow_tail (hhdm : UInt64) (wf : s.Holds nodes) (wide : frames ≠ 1)
    (positive : frames ≠ 0)
    (found : Window.first mayStart adjacentFrames frames.toNat nodes = some (pre, window, [])) :
    ((claimWindow hhdm frames mayStart).run s).1 = .error .nullAccess := by
  obtain ⟨whole, size, unbroken, -⟩ := Window.first_sound found
  obtain ⟨head, last⟩ := first_ends s.regionList.head positive found
  rw [List.append_nil] at whole
  have stops := unlink_tail frames (whole ▸ wf) head last
  rw [claimWindow_found wf wide positive found, Prog.run_bind_stop (Prod.ext stops rfl)]

end Found

/-- A claim of `frames` frames leaves the tail in the list: a single frame has a usable second
frame behind it, and the first window found has a frame behind it. -/
def LeavesTail (hhdm frames : UInt64) (mayStart : UInt64 → Bool) (nodes : List UInt64) : Prop :=
  if frames = 1 then ∃ a b rest, nodes = a :: b :: rest ∧ NextUsable hhdm a b
  else ∀ pre window,
    Window.first mayStart adjacentFrames frames.toNat nodes = some (pre, window, []) → window = []

/-- A claim that leaves the tail in the list fails and changes nothing, or takes out a run of
frames with the frames before and behind it left in order. -/
theorem claimWindow_cases (wf : s.Holds nodes) (leaves : LeavesTail hhdm frames mayStart nodes) :
    (claimWindow hhdm frames mayStart).run s = (.ok (.error (notFound s.regionList.len)), s) ∨
      ∃ base s' pre post, (claimWindow hhdm frames mayStart).run s = (.ok (.ok base), s') ∧
        nodes = pre ++ framesFrom base frames.toNat ++ post ∧ s'.Holds (pre ++ post) ∧
        ChangedLinks nodes s.memory s'.memory := by
  by_cases single : frames = 1
  · subst single
    rw [LeavesTail, if_pos rfl] at leaves
    obtain ⟨a, b, rest, rfl, usable⟩ := leaves
    obtain ⟨s', ran, holds, changed⟩ := claim_spec wf usable
    refine .inr ⟨a, s', [], b :: rest, ?_, rfl, holds, changed⟩
    simp only [claimWindow, ↓reduceIte]
    rw [Prog.run_bind_ok ran, Prog.run_pure]
  · rw [LeavesTail, if_neg single] at leaves
    by_cases positive : frames = 0
    · exact .inl (claimWindow_none wf single fun h => absurd positive h)
    · cases found : Window.first mayStart adjacentFrames frames.toNat nodes with
      | none => exact .inl (claimWindow_none wf single fun _ => found)
      | some parts =>
        obtain ⟨pre, window, post⟩ := parts
        cases post with
        | nil =>
          have size := (Window.first_sound found).2.1
          rw [leaves pre window found] at size
          exact absurd (UInt64.toNat_inj.mp size.symm) positive
        | cons b post =>
          obtain ⟨base, s', ran, same, holds, changed⟩ :=
            claimWindow_spec hhdm wf single positive found
          exact .inr ⟨base, s', pre, b :: post, ran, same ▸ (Window.first_sound found).1, holds,
            changed⟩

/-- The state after an operation holds what is left: the head is null when nothing is, and a
nonempty list is well formed. -/
structure Remains (s : Pmm) (nodes : List UInt64) : Prop where
  /-- The count is the number of frames left. -/
  len : s.regionList.len.toNat = nodes.length
  /-- An empty list has no head. -/
  empty : nodes = [] → s.regionList.head = 0
  /-- What is left of the list is well formed. -/
  wellFormed : nodes ≠ [] → s.Holds nodes

/-- What a search promises of its outcome: it writes through no null pointer, and on success it
has removed exactly the frames from the one it returns, keeping the others in order. -/
def RemovesWindow (frames : UInt64) (nodes : List UInt64) :
    Except Stop (Except String UInt64) × Pmm → Prop
  | (.ok (.ok base), s') =>
    ∃ pre post, nodes = pre ++ framesFrom base frames.toNat ++ post ∧ Remains s' (pre ++ post)
  | (.ok (.error _), _) => True
  | (.error _, _) => False

/-- A well-formed list is what remains of itself. -/
theorem Remains.of_holds (wf : s.Holds nodes) : Remains s nodes :=
  ⟨wf.len, fun empty => absurd wf.head (by simp [empty]), fun _ => wf⟩

/-- When `claim` moves the head to the entry it made up, the promise holds only if that entry is
the frame that was to follow. -/
theorem removesWindow_fallback {a : UInt64} {rest : List UInt64} (wf : s.Holds (a :: rest))
    (outcome : ((claim hhdm).run s).1 = .error .nullAccess ∨
      ((claim hhdm).run s).1 = .ok a ∧
        ((claim hhdm).run s).2.regionList.head = a + entrySize ∧ a + entrySize ≠ 0)
    (removes : RemovesWindow 1 (a :: rest) ((claimWindow hhdm 1 mayStart).run s)) :
    rest.head? = some (a + entrySize) := by
  simp only [claimWindow, ↓reduceIte] at removes
  rcases outcome with stopped | ⟨returned, moved, nonzero⟩
  · rw [Prog.run_bind_stop (Prod.ext stopped rfl)] at removes
    exact removes.elim
  · rw [Prog.run_bind_ok (Prod.ext returned rfl), Prog.run_pure] at removes
    obtain ⟨pre, post, parts, remains⟩ := removes
    -- no frame repeats, so the frame returned was the first
    obtain rfl : pre = [] := by
      cases pre with
      | nil => rfl
      | cons x pre =>
        obtain ⟨rfl, same⟩ := List.cons_eq_cons.mp (by simpa using parts)
        refine absurd ?_ (List.nodup_cons.mp wf.nodup).1
        simp [same, framesFrom]
    obtain rfl : rest = post := by simpa [framesFrom] using parts
    rw [List.nil_append] at remains
    cases rest with
    | nil => exact absurd (moved.symm.trans (remains.empty rfl)) nonzero
    | cons b rest => rw [(remains.wellFormed (by simp)).head, moved]

/-- A claim keeps its promise exactly when it leaves the tail in the list. -/
theorem removesWindow_iff (wf : s.Holds nodes) :
    RemovesWindow frames nodes ((claimWindow hhdm frames mayStart).run s) ↔
      LeavesTail hhdm frames mayStart nodes := by
  constructor
  · intro removes
    by_cases single : frames = 1
    · subst single
      rw [LeavesTail, if_pos rfl]
      obtain ⟨rest, rfl⟩ := wf.head_eq
      cases rest with
      | nil => simpa using removesWindow_fallback wf (claim_last wf) removes
      | cons b rest =>
        refine ⟨_, b, rest, rfl, ?_⟩
        by_cases low : b < hhdm
        · have next : nextOf s.memory s.regionList.head = b := wf.links.2.1
          have head := removesWindow_fallback wf (claim_fallback wf (by rwa [next])) removes
          exact .inr (by simpa using head)
        · exact .inl (UInt64.not_lt.mp low)
    · rw [LeavesTail, if_neg single]
      intro pre window found
      by_contra nonempty
      have positive : frames ≠ 0 := fun zero =>
        nonempty (List.length_eq_zero_iff.mp (by rw [(Window.first_sound found).2.1, zero]; rfl))
      have stops := claimWindow_tail hhdm wf single positive found
      rw [show (claimWindow hhdm frames mayStart).run s = (.error .nullAccess, _) from
        Prod.ext stops rfl] at removes
      exact removes
  · intro leaves
    rcases claimWindow_cases wf leaves with ran | ⟨base, s', pre, post, ran, parts, holds, -⟩
    · rw [ran]
      exact trivial
    · rw [ran]
      exact ⟨pre, post, parts, Remains.of_holds holds⟩

/-- On every well-formed list `push` appends and `pull` prepends a new frame, and the two searches
keep their promise exactly when they leave the tail in the list. -/
theorem operations_keep_shape (hhdm : UInt64) (wf : s.Holds nodes) :
    (∀ new, IsFrame new → hhdm ≤ new → new ∉ nodes →
      (∃ s', (push hhdm new).run s = (.ok (), s') ∧ s'.Holds (nodes ++ [new])) ∧
        ∃ s', (pull hhdm new).run s = (.ok (), s') ∧ s'.Holds (new :: nodes)) ∧
    (∀ frames, RemovesWindow frames nodes ((claimContinuous hhdm frames).run s) ↔
      LeavesTail hhdm frames (fun _ => true) nodes) ∧
    ∀ frames align, RemovesWindow frames nodes ((claimAligned hhdm frames align).run s) ↔
      LeavesTail hhdm frames (fun base => base &&& (align.bytes - 1) == 0) nodes := by
  refine ⟨fun new frame inMap fresh => ⟨?_, ?_⟩, fun frames => removesWindow_iff wf,
    fun frames align => removesWindow_iff wf⟩
  · obtain ⟨s', ran, holds, -⟩ := push_spec wf frame inMap fresh
    exact ⟨s', ran, holds⟩
  · obtain ⟨s', ran, holds, -⟩ := pull_spec wf frame inMap fresh
    exact ⟨s', ran, holds⟩

/-- A direct map start and a frame in it. -/
def sampleMap : UInt64 := 0xffff800000000000

/-- A frame of the sample map. -/
def sampleFrame : UInt64 := 0xffff800080000000

/-- The list of two adjacent frames, over zeroed memory elsewhere. -/
def pair : Pmm :=
  ((init sampleFrame >>= fun _ => push sampleMap (sampleFrame + 4096)).run ⟨null, fun _ => 0⟩).2

/-- The two frames are a well-formed list. -/
theorem pair_holds : pair.Holds [sampleFrame, sampleFrame + 4096] where
  frames := by
    intro node member
    rcases List.mem_pair.mp member with rfl | rfl <;> exact ⟨by decide, by decide⟩
  head := rfl
  tail := rfl
  links := ⟨rfl, rfl, rfl, rfl, trivial⟩
  len := rfl

/-- The frames of a list with a run of two in its middle. -/
def scatteredNodes : List UInt64 :=
  [sampleFrame + 0x5000, sampleFrame, sampleFrame + 0x1000, sampleFrame + 0x3000]

/-- The list of these frames, over zeroed memory elsewhere. -/
def scattered : Pmm :=
  ((do
    init (sampleFrame + 0x5000)
    push sampleMap sampleFrame
    push sampleMap (sampleFrame + 0x1000)
    push sampleMap (sampleFrame + 0x3000) : Kernel Pmm Unit).run ⟨null, fun _ => 0⟩).2

/-- The four frames are a well-formed list. -/
theorem scattered_holds : scattered.Holds scatteredNodes where
  frames := by
    have all : scatteredNodes.all (fun node => decide (node % 4096 = 0 ∧ node ≠ 0)) =
      true := by decide
    intro node member
    obtain ⟨aligned, nonzero⟩ := of_decide_eq_true (List.all_eq_true.mp all node member)
    exact ⟨nonzero, aligned⟩
  head := rfl
  tail := rfl
  links := ⟨rfl, rfl, rfl, rfl, rfl, rfl, rfl, rfl, trivial⟩
  len := rfl

/-- The two adjacent frames are taken out of the middle of the list. -/
theorem operations_keep_shape_scattered :
    RemovesWindow 2 scatteredNodes ((claimContinuous sampleMap 2).run scattered) := by
  have several : (2 : UInt64) ≠ 1 := by decide
  have found : Window.first (fun _ => true) adjacentFrames (2 : UInt64).toNat scatteredNodes =
      some ([sampleFrame + 0x5000], [sampleFrame, sampleFrame + 0x1000],
        [sampleFrame + 0x3000]) := by
    decide
  have leaves : LeavesTail sampleMap 2 (fun _ => true) scatteredNodes := by
    rw [LeavesTail, if_neg several, found]
    intro pre window last
    have behind := congrArg (fun parts : List UInt64 × List UInt64 × List UInt64 => parts.2.2)
      (Option.some.inj last)
    exact absurd behind (List.cons_ne_nil _ _)
  exact ((operations_keep_shape sampleMap scattered_holds).2.1 2).mpr leaves

/-- A search for both frames of a list of two stops at a write through the null pointer. -/
theorem claimContinuous_whole_list :
    pair.Holds [sampleFrame, sampleFrame + 4096] ∧
      ((claimContinuous sampleMap 2).run pair).1 = .error .nullAccess ∧
      ¬ RemovesWindow 2 [sampleFrame, sampleFrame + 4096]
        ((claimContinuous sampleMap 2).run pair) := by
  have stops : ((claimContinuous sampleMap 2).run pair).1 = .error .nullAccess := rfl
  refine ⟨pair_holds, stops, ?_⟩
  rw [show (claimContinuous sampleMap 2).run pair = (.error .nullAccess, _) from
    Prod.ext stops rfl]
  exact not_false

end FreeList

end Lsd
