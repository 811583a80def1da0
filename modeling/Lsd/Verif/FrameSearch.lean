import Lsd.Lib.Rounds
import Lsd.Verif.FrameWindow

/-!
# What the two contiguous searches find

The search loop as rounds over the section it builds. On every well-formed list
it finds the earliest run of consecutive nodes whose addresses go up by a frame,
and when there is none it has read the `next` link of every node and changed
nothing. The aligned search finds such a run that starts at a multiple of the
alignment; its shortcut for a single frame takes the head of the list, aligned or
not. For small pages both searches are one, on any list of aligned entries.
-/

namespace Lsd

open Program Linked

/-- A part of a list that is a run of frames: its addresses go up by 4096. -/
structure FrameRun (count : Nat) (nodes pre window post : List UInt64) : Prop where
  /-- It is a part of the list. -/
  parts : nodes = pre ++ window ++ post
  /-- It has as many nodes as asked for. -/
  length : window.length = count
  /-- Each address is 4096 above the one before. -/
  ascending : window.IsChain fun frame next => next.toNat = frame.toNat + 4096

/-- The run with the fewest nodes in front of it, among those that may start where they do. -/
structure EarliestRun (mayStart : UInt64 → Prop) (count : Nat)
    (nodes pre window post : List UInt64) :
    Prop extends FrameRun count nodes pre window post where
  /-- It may start there. -/
  starts : ∀ base ∈ window.head?, mayStart base
  /-- No other run that may start is in front of it. -/
  earliest : ∀ pre' window' post', FrameRun count nodes pre' window' post' →
    (∀ base ∈ window'.head?, mayStart base) → pre.length ≤ pre'.length

/-- The section that the search loop builds. -/
structure FrameSection where
  /-- `base_entry`. -/
  baseEntry : UInt64
  /-- `current_entry`. -/
  currentEntry : UInt64
  /-- `contiguous_frames`. -/
  contiguousFrames : UInt64

/-- One round of the search loop. -/
def scanRound (frames : UInt64) (mayStart : UInt64 → Bool) (built : FrameSection) :
    Kernel Pmm (FrameSection ⊕ Option (UInt64 × UInt64)) :=
  if built.contiguousFrames = frames then
    pure (.inr (some (built.baseEntry, built.currentEntry)))
  else do
    let next ← loadNext built.currentEntry
    if built.currentEntry + 0x1000 == next && mayStart built.baseEntry then
      pure (.inl ⟨built.baseEntry, next, built.contiguousFrames + 1⟩)
    else pure (.inl ⟨next, next, 1⟩)

/-- The nodes that the search passes in at most some number of rounds. -/
def scanPasses (frames : UInt64) (mayStart : UInt64 → Bool) (count : Nat) (built : FrameSection)
    (s : Pmm) : List UInt64 :=
  (Prog.places (scanRound frames mayStart) count built s).map (·.currentEntry)

namespace FreeList

variable {hhdm frames : UInt64} {mayStart : UInt64 → Bool} {s : Pmm}
    {nodes pre window post : List UInt64}

/-- The search loop is the loop of its rounds. -/
theorem scan_rounds (frames : UInt64) (mayStart : UInt64 → Bool) (count : Nat)
    (built : FrameSection) :
    scan frames mayStart count built.baseEntry built.currentEntry built.contiguousFrames =
      Prog.rounds (pure none) (scanRound frames mayStart) count built := by
  induction count generalizing built with
  | zero => rfl
  | succ count ih =>
    funext state
    change (scan frames mayStart (count + 1) _ _ _).run state = (Prog.rounds _ _ _ _).run state
    rw [scan, Prog.rounds, scanRound]
    by_cases full : built.contiguousFrames = frames
    · rw [if_pos full, if_pos full]
      rfl
    · rw [if_neg full, if_neg full, Prog.run_bind, Prog.run_bind, Prog.run_bind]
      cases (loadNext built.currentEntry).run state with
      | mk outcome later =>
        cases outcome with
        | error reason => rfl
        | ok next =>
          by_cases grow : (built.currentEntry + 0x1000 == next && mayStart built.baseEntry) = true
          · simp only [if_pos grow, Prog.run_pure]
            rw [← ih]
          · simp only [if_neg grow, Prog.run_pure]
            rw [← ih]

/-- A frame follows another in memory when its address is 4096 higher. -/
theorem adjacentFrames_iff {frame next : UInt64} (isFrame : IsFrame frame)
    (nextFrame : IsFrame next) :
    adjacentFrames frame next = true ↔ next.toNat = frame.toNat + 4096 := by
  have aligned := aligned_toNat isFrame.aligned
  have bound := frame.toNat_lt
  have bound' := next.toNat_lt
  have nonzero : next.toNat ≠ 0 := fun zero => nextFrame.nonzero (UInt64.toNat_inj.mp zero)
  rw [adjacentFrames, beq_iff_eq, ← UInt64.toNat_inj, UInt64.toNat_add]
  change (frame.toNat + 4096) % 2 ^ 64 = next.toNat ↔ _
  omega

/-- An unbroken window of frames goes up by 4096. -/
theorem isChain_adjacent (isFrame : ∀ node ∈ window, IsFrame node) :
    window.IsChain (fun x y => adjacentFrames x y) ↔
      window.IsChain fun frame next => next.toNat = frame.toNat + 4096 := by
  induction window with
  | nil => simp
  | cons x rest ih =>
    cases rest with
    | nil => simp
    | cons y rest =>
      have first := isFrame x (by simp)
      have second := isFrame y (by simp)
      have others : ∀ node ∈ y :: rest, IsFrame node := fun node member =>
        isFrame node (List.mem_cons_of_mem x member)
      rw [List.isChain_cons_cons, List.isChain_cons_cons, ih others,
        adjacentFrames_iff first second]

/-- Where the one-pass search finds a window: a run that may start there. -/
theorem window_at {count : Nat} (positive : 0 < count) (isFrame : ∀ node ∈ window, IsFrame node)
    (length : window.length = count) :
    Window.At mayStart adjacentFrames count (window ++ post) ↔
      (∀ base ∈ window.head?, mayStart base = true) ∧
        window.IsChain fun frame next => next.toNat = frame.toNat + 4096 := by
  have nonempty : window ≠ [] := by
    rintro rfl
    rw [List.length_nil] at length
    omega
  obtain ⟨base, rest, rfl⟩ := List.exists_cons_of_ne_nil nonempty
  have taken : (base :: rest ++ post).take count = base :: rest := by
    rw [← length, List.take_left]
  have long : count ≤ (base :: rest ++ post).length := by
    rw [List.length_append]
    omega
  rw [Window.At, taken, isChain_adjacent isFrame]
  constructor
  · rintro ⟨-, starts, ascending⟩
    exact ⟨by simpa using starts, ascending⟩
  · rintro ⟨starts, ascending⟩
    exact ⟨long, by simpa using starts, ascending⟩

/-- The window that the one-pass search looks for is the earliest run that may start. -/
theorem first_iff (frame : ∀ node ∈ nodes, IsFrame node) {count : Nat} (positive : 0 < count) :
    Window.first mayStart adjacentFrames count nodes = some (pre, window, post) ↔
      EarliestRun (fun base => mayStart base) count nodes pre window post := by
  have inside : ∀ {pre' window' post' : List UInt64}, nodes = pre' ++ window' ++ post' →
      ∀ node ∈ window', IsFrame node := fun parts node member =>
    frame node (parts ▸ List.mem_append_left _ (List.mem_append_right _ member))
  constructor
  · intro found
    obtain ⟨whole, length, unbroken, starts⟩ := Window.first_sound found
    have ascending := (isChain_adjacent (inside whole)).mp unbroken
    refine ⟨⟨whole, length, ascending⟩, fun base member => ?_, ?_⟩
    · rw [member] at starts
      exact starts
    · intro pre' window' post' run starts'
      rw [run.parts, List.append_assoc] at found
      exact Window.first_earliest found rfl
        ((window_at positive (inside run.parts) run.length).mpr ⟨starts', run.ascending⟩)
  · intro run
    have here : Window.At mayStart adjacentFrames count (window ++ post) :=
      (window_at positive (inside run.parts) run.length).mpr ⟨run.starts, run.ascending⟩
    cases found : Window.first mayStart adjacentFrames count nodes with
    | none =>
      refine absurd here ((Window.first_eq_none positive).mp found pre _ ?_)
      rw [run.parts, List.append_assoc]
    | some parts =>
      obtain ⟨pre', window', post'⟩ := parts
      obtain ⟨whole, length, unbroken, starts⟩ := Window.first_sound found
      have before : pre'.length ≤ pre.length := by
        refine Window.first_earliest found ?_ here
        rw [run.parts, List.append_assoc]
      have behind : pre.length ≤ pre'.length := by
        refine run.earliest pre' window' post'
          ⟨whole, length, (isChain_adjacent (inside whole)).mp unbroken⟩ fun base member => ?_
        rw [member] at starts
        exact starts
      -- two parts of equal length at the same position
      have split := run.parts.symm.trans whole
      rw [List.append_assoc, List.append_assoc] at split
      obtain ⟨rfl, rest⟩ := List.append_inj split (Nat.le_antisymm behind before)
      obtain ⟨rfl, rfl⟩ := List.append_inj rest (run.length.trans length.symm)
      rfl

/-- A search that finds nothing has passed every node. -/
theorem scanPasses_all {base current count before : UInt64} {rest : List UInt64}
    (links : Chain (prevOf s.memory) (nextOf s.memory) before (current :: rest) 0)
    (frame : ∀ node ∈ current :: rest, IsFrame node) (fits : count.toNat + rest.length < 2 ^ 64)
    (missed : Window.search mayStart adjacentFrames frames.toNat base current count.toNat rest =
      none) :
    scanPasses frames mayStart (rest.length + 1) ⟨base, current, count⟩ s = current :: rest := by
  induction rest generalizing base current count before with
  | nil =>
    rw [Window.search] at missed
    rw [scanPasses, List.length_nil, Prog.places]
    split <;> rfl
  | cons next rest ih =>
    have nonzero := (frame current (by simp)).nonzero
    have link : nextOf s.memory current = next := links.2.1
    have frameRest : ∀ node ∈ next :: rest, IsFrame node := fun node member =>
      frame node (List.mem_cons_of_mem current member)
    rw [List.length_cons] at fits
    have grown : (count + 1).toNat = count.toNat + 1 := by
      rw [UInt64.toNat_add]
      exact Nat.mod_eq_of_lt (by change count.toNat + 1 < 2 ^ 64; omega)
    rw [Window.search] at missed
    by_cases full : count.toNat = frames.toNat
    · rw [if_pos full] at missed
      cases missed
    · have short : ¬ count = frames := fun same => full (congrArg UInt64.toNat same)
      rw [if_neg full] at missed
      have goes : ∀ built : FrameSection, (scanRound frames mayStart ⟨base, current, count⟩).run s =
          (.ok (.inl built), s) →
          scanPasses frames mayStart (rest.length + 1) built s = next :: rest →
            scanPasses frames mayStart ((next :: rest).length + 1) ⟨base, current, count⟩ s =
              current :: next :: rest := by
        intro built ran passes
        rw [scanPasses, List.length_cons, Prog.places_next ran, List.map_cons]
        exact congrArg (current :: ·) passes
      by_cases grow : (adjacentFrames current next && mayStart base) = true
      · rw [if_pos grow, ← grown] at missed
        refine goes ⟨base, next, count + 1⟩ ?_ (ih links.2.2 frameRest (by omega) missed)
        rw [scanRound, if_neg short, Prog.run_bind_ok (run_loadNext nonzero), link]
        exact congrFun (if_pos grow) s
      · rw [if_neg grow] at missed
        refine goes ⟨next, next, 1⟩ ?_ (ih links.2.2 frameRest (by change 1 + _ < _; omega) missed)
        rw [scanRound, if_neg short, Prog.run_bind_ok (run_loadNext nonzero), link]
        exact congrFun (if_neg grow) s

/-- On a list that may be empty the search finds the ends of the earliest run, if there is one, and
has passed every node if there is none. -/
theorem scan_remains (mayStart : UInt64 → Bool) (remains : Remains s nodes)
    (wide : 2 ≤ frames.toNat) :
    (∃ pre window post, EarliestRun (fun base => mayStart base) frames.toNat nodes pre window post ∧
      ∃ base current, window.head? = some base ∧ window.getLast? = some current ∧
        (scan frames mayStart s.regionList.len.toNat s.regionList.head s.regionList.head 1).run s =
          (.ok (some (base, current)), s)) ∨
    (∀ pre window post, FrameRun frames.toNat nodes pre window post →
        ∃ base ∈ window.head?, mayStart base = false) ∧
      (scan frames mayStart s.regionList.len.toNat s.regionList.head s.regionList.head 1).run s =
        (.ok none, s) ∧
      scanPasses frames mayStart s.regionList.len.toNat
        ⟨s.regionList.head, s.regionList.head, 1⟩ s = nodes := by
  have notOne : frames ≠ 1 := fun one => absurd wide (by rw [one]; decide)
  have notZero : frames ≠ 0 := fun zero => absurd wide (by rw [zero]; decide)
  by_cases empty : nodes = []
  · right
    have noRounds : s.regionList.len.toNat = 0 := by rw [remains.len, empty]; rfl
    rw [noRounds]
    refine ⟨fun pre window post run => ?_, rfl, empty.symm⟩
    have length := congrArg List.length run.parts
    rw [empty, List.length_append, List.length_append, run.length] at length
    simp only [List.length_nil] at length
    omega
  · have wf := remains.wellFormed empty
    rw [scan_eq_first wf notOne, if_neg notZero]
    cases found : Window.first mayStart adjacentFrames frames.toNat nodes with
    | some parts =>
      obtain ⟨pre, window, post⟩ := parts
      obtain ⟨head, last⟩ := first_ends s.regionList.head notZero found
      exact .inl ⟨pre, window, post,
        (first_iff wf.frames (by omega)).mp found, _, _, head, last, rfl⟩
    | none =>
      refine .inr ⟨fun pre window post run => ?_, rfl, ?_⟩
      · by_contra starts
        have every : ∀ base ∈ window.head?, mayStart base = true := by
          intro base member
          by_contra refused
          exact starts ⟨base, member, Bool.not_eq_true _ ▸ refused⟩
        have isFrame : ∀ node ∈ window, IsFrame node := fun node member =>
          wf.frames node (run.parts ▸ List.mem_append_left _ (List.mem_append_right _ member))
        refine (Window.first_eq_none (by omega)).mp found pre (window ++ post) ?_ ?_
        · rw [run.parts, List.append_assoc]
        · exact (window_at (by omega) isFrame run.length).mpr ⟨every, run.ascending⟩
      · obtain ⟨rest, whole⟩ := wf.head_eq
        have length : s.regionList.len.toNat = rest.length + 1 := by
          rw [wf.len, whole, List.length_cons]
        have small := s.regionList.len.toNat_lt
        have searched : Window.search mayStart adjacentFrames frames.toNat s.regionList.head
            s.regionList.head (1 : UInt64).toNat rest = none := by
          have part : Window.Building mayStart adjacentFrames frames.toNat s.regionList.head
              s.regionList.head [s.regionList.head] := Window.Building.single wide
          refine (Window.search_eq_first wide part).trans ?_
          rw [List.singleton_append, ← whole, found]
          rfl
        rw [length]
        exact (scanPasses_all (whole ▸ wf.links) (whole ▸ wf.frames)
          (by change 1 + rest.length < 2 ^ 64; omega) searched).trans whole.symm

/-- A failed search reports the count and leaves the list unchanged. -/
theorem claimWindow_refused (wide : 2 ≤ frames.toNat)
    (missed : (scan frames mayStart s.regionList.len.toNat s.regionList.head s.regionList.head
      1).run s = (.ok none, s)) :
    (claimWindow hhdm frames mayStart).run s = (.ok (.error (notFound s.regionList.len)), s) := by
  have notOne : frames ≠ 1 := fun one => absurd wide (by rw [one]; decide)
  rw [claimWindow, if_neg notOne, Prog.run_bind_ok (Prog.run_read _ _), Prog.run_bind_ok missed,
    Prog.run_pure]
  rfl

/-- A search that found the ends of a section goes on to take it out. -/
theorem claimWindow_scanned {base current : UInt64} (wide : 2 ≤ frames.toNat)
    (found : (scan frames mayStart s.regionList.len.toNat s.regionList.head
    s.regionList.head 1).run s =
      (.ok (some (base, current)), s)) :
    (claimWindow hhdm frames mayStart).run s =
      (do unlink frames base current; pure (.ok base) : Kernel Pmm
        (Except String UInt64)).run s := by
  have notOne : frames ≠ 1 := fun one => absurd wide (by rw [one]; decide)
  rw [claimWindow, if_neg notOne, Prog.run_bind_ok (Prog.run_read _ _), Prog.run_bind_ok found]

/-- What `claim_continuous` makes of a run that it found: it returns the first node and leaves the
others in order, or stops at a null pointer behind a run that ends the list. -/
def DeliversRun (base : UInt64) (pre post : List UInt64) :
    Except Stop (Except String UInt64) × Pmm → Prop
  | (.ok (.ok first), s') => first = base ∧ post ≠ [] ∧ s'.Holds (pre ++ post)
  | (.ok (.error _), _) => False
  | (.error stop, _) => stop = .nullAccess ∧ post = []

/-- The earliest run is the one that `claim_continuous` takes out. -/
theorem claimContinuous_delivers {base : UInt64} (holds : s.Holds nodes) (wide : 2 ≤ frames.toNat)
    (run : EarliestRun (fun _ => True) frames.toNat nodes pre window post)
    (head : window.head? = some base) :
    DeliversRun base pre post ((claimContinuous hhdm frames).run s) := by
  have notOne : frames ≠ 1 := fun one => absurd wide (by rw [one]; decide)
  have notZero : frames ≠ 0 := fun zero => absurd wide (by rw [zero]; decide)
  have starts : (fun _ : UInt64 => True) = fun base => (fun _ => true) base = true := by simp
  rw [starts] at run
  have found := (first_iff holds.frames (by omega)).mpr run
  cases post with
  | nil =>
    have stops := claimWindow_tail hhdm holds notOne notZero found
    rw [claimContinuous, show (claimWindow hhdm frames _).run s = (.error .nullAccess, _) from
      Prod.ext stops rfl]
    exact ⟨rfl, rfl⟩
  | cons next post =>
    obtain ⟨first, s', ran, frames', later, -⟩ := claimWindow_spec hhdm holds notOne notZero found
    rw [claimContinuous, ran]
    refine ⟨?_, List.cons_ne_nil _ _, later⟩
    obtain ⟨count, more⟩ : ∃ count, frames.toNat = count + 1 := ⟨frames.toNat - 1, by omega⟩
    rw [frames', more] at head
    exact Option.some.inj head

/-- For two frames or more the scan of `claim_continuous` reaches its success branch exactly when
some run of that many consecutive nodes goes up by 4096, with the two ends of the earliest such run,
which the call then takes out. Otherwise it passes every node, through no null pointer, and the call
returns `Err` with the list unchanged. -/
theorem scan_finds_earliest (hhdm : UInt64) (remains : Remains s nodes) (wide : 2 ≤ frames.toNat) :
    ((∃ base current, (scan frames (fun _ => true) s.regionList.len.toNat s.regionList.head
        s.regionList.head 1).run s = (.ok (some (base, current)), s)) ↔
      ∃ pre window post, FrameRun frames.toNat nodes pre window post) ∧
    (∀ base current, (scan frames (fun _ => true) s.regionList.len.toNat s.regionList.head
        s.regionList.head 1).run s = (.ok (some (base, current)), s) →
      (claimContinuous hhdm frames).run s = (do
        unlink frames base current
        pure (.ok base) : Kernel Pmm (Except String UInt64)).run s ∧
      ∃ pre window post, EarliestRun (fun _ => True) frames.toNat nodes pre window post ∧
        window.head? = some base ∧ window.getLast? = some current ∧
        DeliversRun base pre post ((claimContinuous hhdm frames).run s)) ∧
    ((¬ ∃ pre window post, FrameRun frames.toNat nodes pre window post) →
      (scan frames (fun _ => true) s.regionList.len.toNat s.regionList.head
        s.regionList.head 1).run s = (.ok none, s) ∧
      scan frames (fun _ => true) s.regionList.len.toNat s.regionList.head s.regionList.head 1 =
        Prog.rounds (pure none) (scanRound frames fun _ => true) s.regionList.len.toNat
          ⟨s.regionList.head, s.regionList.head, 1⟩ ∧
      scanPasses frames (fun _ => true) s.regionList.len.toNat
        ⟨s.regionList.head, s.regionList.head, 1⟩ s = nodes ∧
      (claimContinuous hhdm frames).run s = (.ok (.error (notFound s.regionList.len)), s)) := by
  rcases scan_remains (fun _ => true) remains wide with
    ⟨pre, window, post, run, base, current, head, last, ran⟩ | ⟨absent, ran, passes⟩
  · have exists_run : ∃ pre window post, FrameRun frames.toNat nodes pre window post :=
      ⟨pre, window, post, run.toFrameRun⟩
    refine ⟨⟨fun _ => exists_run, fun _ => ⟨base, current, ran⟩⟩, ?_,
      fun missed => absurd exists_run missed⟩
    intro base' current' ran'
    have same := (Prod.mk.inj (ran.symm.trans ran')).1
    obtain ⟨rfl, rfl⟩ := Prod.mk.inj (Option.some.inj (Except.ok.inj same))
    have earliest : EarliestRun (fun _ => True) frames.toNat nodes pre window post :=
      ⟨run.toFrameRun, fun _ _ => trivial, fun pre' window' post' other _ =>
        run.earliest pre' window' post' other fun _ _ => rfl⟩
    have nonempty : nodes ≠ [] := by
      intro empty
      have length := congrArg List.length run.parts
      rw [empty, List.length_append, List.length_append, run.length, List.length_nil] at length
      omega
    refine ⟨claimWindow_scanned wide ran, pre, window, post, earliest, head, last, ?_⟩
    exact claimContinuous_delivers (remains.wellFormed nonempty) wide earliest head
  · have missed : ¬ ∃ pre window post, FrameRun frames.toNat nodes pre window post := by
      rintro ⟨pre, window, post, run⟩
      obtain ⟨base, -, refused⟩ := absent pre window post run
      nomatch refused
    have nothing : ∀ base current, (scan frames (fun _ => true) s.regionList.len.toNat
        s.regionList.head s.regionList.head 1).run s ≠ (.ok (some (base, current)), s) := by
      intro base current found
      nomatch (Except.ok.inj (Prod.mk.inj (ran.symm.trans found)).1)
    refine ⟨⟨fun ⟨base, current, found⟩ => absurd found (nothing base current),
      fun found => absurd found missed⟩, fun base current found =>
        absurd found (nothing base current),
      fun _ => ⟨ran, ?_, passes, claimWindow_refused wide ran⟩⟩
    exact scan_rounds frames (fun _ => true) _ ⟨s.regionList.head, s.regionList.head, 1⟩

/-- In a list with two adjacent frames in its middle the search for two frames takes these out. -/
theorem scan_finds_earliest_scattered :
    ∃ s', (claimContinuous sampleMap 2).run scattered = (.ok (.ok sampleFrame), s') ∧
      s'.Holds [sampleFrame + 0x5000, sampleFrame + 0x3000] := by
  have wide : 2 ≤ (2 : UInt64).toNat := by decide
  have found : (scan 2 (fun _ => true) scattered.regionList.len.toNat scattered.regionList.head
      scattered.regionList.head 1).run scattered =
        (.ok (some (sampleFrame, sampleFrame + 0x1000)), scattered) := rfl
  obtain ⟨-, pre, window, post, run, head, -, delivers⟩ :=
    (scan_finds_earliest sampleMap (Remains.of_holds scattered_holds) wide).2.1 _ _ found
  have returned : ((claimContinuous sampleMap 2).run scattered).1 = .ok (.ok sampleFrame) := rfl
  rw [show (claimContinuous sampleMap 2).run scattered = (.ok (.ok sampleFrame), _) from
    Prod.ext returned rfl] at delivers
  obtain ⟨-, -, holds⟩ := delivers
  refine ⟨_, Prod.ext returned rfl, ?_⟩
  -- the frame that was returned is in no other place of the list than behind the first
  obtain ⟨behind, rfl⟩ := List.head?_eq_some_iff.mp head
  obtain ⟨second, rfl⟩ := List.length_eq_one_iff.mp (Nat.succ.inj run.length)
  have parts := run.parts
  cases pre with
  | nil => exact absurd (List.cons_eq_cons.mp parts).1 (by decide)
  | cons first pre =>
    obtain ⟨rfl, rest⟩ := List.cons_eq_cons.mp parts
    cases pre with
    | nil =>
      obtain rfl : [sampleFrame + 0x3000] = post :=
        (List.cons_eq_cons.mp (List.cons_eq_cons.mp rest).2).2
      exact holds
    | cons other pre =>
      have again : sampleFrame ∈ [sampleFrame + 0x1000, sampleFrame + 0x3000] := by
        rw [(List.cons_eq_cons.mp rest).2]
        simp
      exact absurd again (by decide)

/-- Whether `claim` gets past the entry behind the head: the link of the head, or what replaces a
link below the direct map, is not null. -/
def Claimable (hhdm head : UInt64) (rest : List UInt64) : Prop :=
  if rest.headD 0 < hhdm then head + entrySize ≠ 0 else rest.headD 0 ≠ 0

/-- A claim writes to the entry behind the head. -/
theorem claim_behind {entry : UInt64} {later : Pmm}
    (found : (claimNext hhdm s.regionList.head).run s = (.ok entry, later)) :
    (entry ≠ 0 → ((claim hhdm).run s).1 = .ok s.regionList.head) ∧
      (entry = 0 → ((claim hhdm).run s).1 = .error .nullAccess) := by
  rw [claim, Prog.run_bind_ok (Prog.run_read _ _), Prog.run_bind_ok found]
  constructor
  · intro nonzero
    rw [Prog.run_bind_ok (run_storePrev nonzero), Prog.run_bind_ok (run_assign _), Prog.run_pure]
  · intro null
    rw [null, Prog.run_bind_stop run_storePrev_null]

/-- A claim returns the head of the list, or stops at a null pointer. -/
theorem claim_returns {head : UInt64} {rest : List UInt64} (wf : s.Holds (head :: rest)) :
    (Claimable hhdm head rest → ((claim hhdm).run s).1 = .ok head) ∧
      (¬ Claimable hhdm head rest → ((claim hhdm).run s).1 = .error .nullAccess) := by
  have frame := wf.frames head (by simp)
  have first : s.regionList.head = head := by simpa using wf.head.symm
  have next : nextOf s.memory head = rest.headD 0 := by
    cases rest with
    | nil => exact wf.links.2.1
    | cons b rest => exact wf.links.2.1
  rw [Claimable, ← next, ← first]
  rw [← first] at frame
  by_cases low : nextOf s.memory s.regionList.head < hhdm
  · have linked : nextOf (s.memory.store (s.regionList.head + 8) (s.regionList.head + entrySize))
        s.regionList.head = s.regionList.head + entrySize := Function.update_self _ _ _
    have found : (claimNext hhdm s.regionList.head).run s = (.ok (s.regionList.head + entrySize),
        { s with
          memory := s.memory.store (s.regionList.head + 8) (s.regionList.head + entrySize) }) := by
      rw [claimNext, Prog.run_bind_ok (run_loadNext frame.nonzero), if_pos low,
        Prog.run_bind_ok (run_storeNext frame.nonzero), run_loadNext frame.nonzero, linked]
    rw [if_pos low]
    exact ⟨(claim_behind found).1, fun null => (claim_behind found).2 (not_not.mp null)⟩
  · have found : (claimNext hhdm s.regionList.head).run s =
        (.ok (nextOf s.memory s.regionList.head), s) := by
      rw [claimNext, Prog.run_bind_ok (run_loadNext frame.nonzero), if_neg low, Prog.run_pure]
    rw [if_neg low]
    exact ⟨(claim_behind found).1, fun null => (claim_behind found).2 (not_not.mp null)⟩

/-- What `claim_aligned` promises: a frame that it returns is a multiple of the alignment, and the
frames from it on were in the list; it returns `Err` only with the list unchanged and when no run of
the list starts at a multiple of the alignment. -/
def DeliversAligned (frames : UInt64) (align : PageSize) (nodes : List UInt64) (s : Pmm) :
    Except Stop (Except String UInt64) × Pmm → Prop
  | (.ok (.ok base), _) => base.toNat % align.bytes.toNat = 0 ∧
    ∀ frame ∈ framesFrom base frames.toNat, frame ∈ nodes
  | (.ok (.error _), s') =>
    s' = s ∧ ∀ pre window post, FrameRun frames.toNat nodes pre window post →
    ∀ base ∈ window.head?, base.toNat % align.bytes.toNat ≠ 0
  | (.error _, _) => True

/-- The mask test of the aligned search. -/
theorem mask_iff {align : PageSize} (real : align ≠ .none) (base : UInt64) :
    (base &&& (align.bytes - 1) == 0) = true ↔ base.toNat % align.bytes.toNat = 0 := by
  obtain ⟨exponent, bytes, mask⟩ : ∃ exponent, align.bytes.toNat = 2 ^ exponent ∧
      (align.bytes - 1).toNat = 2 ^ exponent - 1 := by
    cases align with
    | none => exact absurd rfl real
    | small => exact ⟨12, rfl, rfl⟩
    | medium => exact ⟨21, rfl, rfl⟩
    | large => exact ⟨30, rfl, rfl⟩
    | huge => exact ⟨39, rfl, rfl⟩
    | colossal => exact ⟨48, rfl, rfl⟩
  rw [beq_iff_eq, ← UInt64.toNat_inj, UInt64.toNat_and, mask, bytes, Nat.and_two_pow_sub_one_eq_mod]
  rfl

/-- The frames of a run in a list. -/
theorem run_frames {base : UInt64} (wf : s.Holds nodes)
    (run : FrameRun frames.toNat nodes pre window post) (head : window.head? = some base) :
    ∀ frame ∈ framesFrom base frames.toNat, frame ∈ nodes := by
  have isFrame : ∀ node ∈ window, IsFrame node := fun node member =>
    wf.frames node (run.parts ▸ List.mem_append_left _ (List.mem_append_right _ member))
  have whole := window_framesFrom ((isChain_adjacent isFrame).mpr run.ascending) head
  rw [run.length] at whole
  intro frame member
  rw [← whole] at member
  exact run.parts ▸ List.mem_append_left _ (List.mem_append_right _ member)

/-- A search for two frames or more keeps the promise. -/
theorem delivers_window {align : PageSize} (remains : Remains s nodes) (real : align ≠ .none)
    (wide : 2 ≤ frames.toNat) :
    DeliversAligned frames align nodes s ((claimAligned hhdm frames align).run s) := by
  have notOne : frames ≠ 1 := fun one => absurd wide (by rw [one]; decide)
  rcases scan_remains (fun base => base &&& (align.bytes - 1) == 0) remains wide with
    ⟨pre, window, post, run, base, current, head, -, ran⟩ | ⟨absent, ran, -⟩
  · have aligned := (mask_iff real base).mp (run.starts base head)
    have nonempty : nodes ≠ [] := by
      intro empty
      have length := congrArg List.length run.parts
      rw [empty, List.length_append, List.length_append, run.length, List.length_nil] at length
      omega
    have inside := run_frames (remains.wellFormed nonempty) run.toFrameRun head
    rw [claimAligned, claimWindow, if_neg notOne, Prog.run_bind_ok (Prog.run_read _ _),
      Prog.run_bind_ok ran, Prog.run_bind]
    cases (unlink frames base current).run s with
    | mk outcome later =>
      cases outcome with
      | ok value => exact ⟨aligned, inside⟩
      | error reason => trivial
  · rw [claimAligned, claimWindow_refused wide ran]
    refine ⟨rfl, fun pre window post run base member aligned => ?_⟩
    obtain ⟨other, listed, refused⟩ := absent pre window post run
    obtain rfl := Option.some.inj (member.symm.trans listed)
    rw [(mask_iff real _).mpr aligned] at refused
    contradiction

/-- A claim of one frame keeps the promise exactly when the head is aligned, if the claim
returns. -/
theorem delivers_single_iff {align : PageSize} (remains : Remains s nodes) :
    DeliversAligned 1 align nodes s ((claimAligned hhdm 1 align).run s) ↔
      ∀ head rest, nodes = head :: rest → Claimable hhdm head rest →
        head.toNat % align.bytes.toNat = 0 := by
  rw [claimAligned, claimWindow, if_pos rfl, Prog.run_bind]
  cases nodes with
  | nil =>
    have null := remains.empty rfl
    have stops : ((claim hhdm).run s) = (.error .nullAccess, s) := by
      rw [claim, Prog.run_bind_ok (Prog.run_read _ _), null]
      rfl
    rw [stops]
    exact ⟨fun _ head rest parts =>
      absurd parts.symm (List.cons_ne_nil head rest), fun _ => trivial⟩
  | cons head rest =>
    have outcome := @claim_returns hhdm s head rest (remains.wellFormed (List.cons_ne_nil _ _))
    by_cases claimable : Claimable hhdm head rest
    · rw [show (claim hhdm).run s = (.ok head, ((claim hhdm).run s).2) from
        Prod.ext (outcome.1 claimable) rfl]
      constructor
      · rintro ⟨aligned, -⟩ other rest' same -
        obtain ⟨rfl, -⟩ := List.cons_eq_cons.mp same
        exact aligned
      · intro aligned
        refine ⟨aligned head rest rfl claimable, fun frame member => ?_⟩
        obtain rfl := List.mem_singleton.mp member
        exact List.mem_cons_self
    · rw [show (claim hhdm).run s = (.error .nullAccess, ((claim hhdm).run s).2) from
        Prod.ext (outcome.2 claimable) rfl]
      refine ⟨fun _ other rest' same claimed => absurd claimed ?_, fun _ => trivial⟩
      obtain ⟨rfl, rfl⟩ := List.cons_eq_cons.mp same
      exact claimable

/-- `claim_aligned` delivers aligned windows exactly when more than one frame is asked for or the
head of the list, which the shortcut for a single frame takes, is itself a multiple of the
alignment. -/
theorem claimAligned_delivers_iff (hhdm : UInt64) {align : PageSize} (remains : Remains s nodes)
    (positive : frames ≠ 0) (real : align ≠ .none) :
    DeliversAligned frames align nodes s ((claimAligned hhdm frames align).run s) ↔
      (frames = 1 → ∀ head rest, nodes = head :: rest → Claimable hhdm head rest →
        head.toNat % align.bytes.toNat = 0) := by
  by_cases single : frames = 1
  · subst single
    rw [delivers_single_iff remains]
    exact ⟨fun aligned _ => aligned, fun aligned => aligned rfl⟩
  · have wide : 2 ≤ frames.toNat := by
      have notZero : frames.toNat ≠ 0 := fun zero => positive (UInt64.toNat_inj.mp zero)
      have notOne : frames.toNat ≠ 1 := fun one => single (UInt64.toNat_inj.mp one)
      omega
    exact ⟨fun _ one => absurd one single, fun _ => delivers_window remains real wide⟩

/-- A request for two frames from a multiple of two megabytes on is served with the two in the
middle of the list. -/
theorem claimAligned_delivers_scattered :
    ((claimAligned sampleMap 2 .medium).run scattered).1 = .ok (.ok sampleFrame) ∧
      DeliversAligned 2 .medium scatteredNodes scattered
        ((claimAligned sampleMap 2 .medium).run scattered) :=
  ⟨rfl, (claimAligned_delivers_iff sampleMap (Remains.of_holds scattered_holds) (by decide)
    (by decide)).mpr fun single => absurd single (by decide)⟩

/-- The list of two adjacent frames of which the second starts a page of two megabytes. -/
def oddPair : Pmm :=
  ((init (sampleFrame - 4096) >>= fun _ => push sampleMap sampleFrame).run ⟨null, fun _ => 0⟩).2

/-- The two frames are a well-formed list. -/
theorem oddPair_holds : oddPair.Holds [sampleFrame - 4096, sampleFrame] where
  frames := by
    intro node member
    rcases List.mem_pair.mp member with rfl | rfl <;> exact ⟨by decide, by decide⟩
  head := rfl
  tail := rfl
  links := ⟨rfl, rfl, rfl, rfl, trivial⟩
  len := rfl

/-- A request for one frame at a multiple of two megabytes is served with the frame below it. -/
theorem claimAligned_single_misaligned :
    oddPair.Holds [sampleFrame - 4096, sampleFrame] ∧
      ((claimAligned sampleMap 1 .medium).run oddPair).1 = .ok (.ok (sampleFrame - 4096)) ∧
      ¬ DeliversAligned 1 .medium [sampleFrame - 4096, sampleFrame] oddPair
        ((claimAligned sampleMap 1 .medium).run oddPair) := by
  have returned : ((claimAligned sampleMap 1 .medium).run oddPair).1 =
      .ok (.ok (sampleFrame - 4096)) := rfl
  refine ⟨oddPair_holds, returned, ?_⟩
  rw [show (claimAligned sampleMap 1 .medium).run oddPair = (.ok (.ok (sampleFrame - 4096)), _) from
    Prod.ext returned rfl]
  rintro ⟨aligned, -⟩
  exact absurd aligned (by decide)

/-- An entry that the links lead to, from the head of the list on. -/
inductive Met (s : Pmm) : UInt64 → Prop where
  /-- The head. -/
  | head : Met s s.regionList.head
  /-- What an entry links to. -/
  | next {entry : UInt64} : Met s entry → entry ≠ 0 → Met s (nextOf s.memory entry)

section Lockstep

variable {other : UInt64 → Bool} (agree : ∀ entry, Met s entry → mayStart entry = other entry)
include agree

/-- Two scans go the same way as long as they test the entries that they meet alike. -/
theorem scan_congr (remaining : Nat) {base current : UInt64} (contiguousFrames : UInt64)
    (baseMet : Met s base) (currentMet : Met s current) :
    (scan frames mayStart remaining base current contiguousFrames).run s =
      (scan frames other remaining base current contiguousFrames).run s := by
  induction remaining generalizing base current contiguousFrames with
  | zero => rfl
  | succ remaining ih =>
    rw [scan, scan]
    by_cases full : contiguousFrames = frames
    · rw [if_pos full, if_pos full]
    · rw [if_neg full, if_neg full]
      by_cases null : current = 0
      · have stops : (loadNext current).run s = (.error .nullAccess, s) := by
          rw [null]
          rfl
        rw [Prog.run_bind_stop stops, Prog.run_bind_stop stops]
      · have nextMet := Met.next currentMet null
        rw [Prog.run_bind_ok (run_loadNext null), Prog.run_bind_ok (run_loadNext null),
          agree base baseMet, Prog.run_ite, Prog.run_ite, ih (contiguousFrames + 1) baseMet nextMet,
          ih 1 nextMet nextMet]

/-- Two searches that test the entries of a list alike return the same and leave the same. -/
theorem claimWindow_congr :
    (claimWindow hhdm frames mayStart).run s = (claimWindow hhdm frames other).run s := by
  rw [claimWindow, claimWindow]
  by_cases single : frames = 1
  · rw [if_pos single, if_pos single]
  · rw [if_neg single, if_neg single, Prog.run_bind_ok (Prog.run_read _ _),
      Prog.run_bind_ok (Prog.run_read _ _), Prog.run_bind, Prog.run_bind,
      scan_congr agree s.regionList.len.toNat 1 Met.head Met.head]

end Lockstep

/-- On a list of page-aligned entries, whatever their links and its count are, the search that is
aligned to small pages returns what the other one returns and leaves what it leaves. -/
theorem claimAligned_small_eq (hhdm frames : UInt64)
    (aligned : ∀ entry, Met s entry → entry % 4096 = 0) :
    (claimAligned hhdm frames .small).run s = (claimContinuous hhdm frames).run s := by
  apply claimWindow_congr
  intro entry met
  exact (mask_iff (by decide) entry).mpr (aligned_toNat (aligned entry met))

/-- The links of a well-formed list lead to its frames only. -/
theorem Met.listed {entry : UInt64} (wf : s.Holds nodes) (met : Met s entry) :
    entry = 0 ∨ entry ∈ nodes := by
  induction met with
  | head => exact .inr (List.mem_of_head? wf.head)
  | @next entry met nonzero ih =>
    obtain ⟨before, behind, rfl⟩ := List.append_of_mem (ih.resolve_left nonzero)
    rw [wf.links.node.2]
    cases behind with
    | nil => exact .inl rfl
    | cons next behind => exact .inr (by simp)

/-- Both searches for two frames take the two in the middle of the list. -/
theorem claimAligned_small_scattered :
    (claimAligned sampleMap 2 .small).run scattered =
    (claimContinuous sampleMap 2).run scattered := by
  apply claimAligned_small_eq
  intro entry met
  rcases met.listed scattered_holds with rfl | listed
  · rfl
  · exact (scattered_holds.frames entry listed).aligned

end FreeList

end Lsd
