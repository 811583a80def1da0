import Lsd.Drivers.SplitQueue
import Lsd.Lib.Ring
import Lsd.Lib.Transition

/-!
# The rings of a virtqueue

A driver that calls `push` and `pop`, one call after the other, and a device that
receives entries and publishes elements, each with counters of 16 bits. They take
their accesses to the rings in any order. Both rings are queues, as long as no
more entries are under way in one than it has places; an entry counts from the
call that gives it until it is read.
-/

namespace Lsd

open Program Transition Ring

/-- What the driver does. -/
inductive Driver where
  /-- It is not in a call. -/
  | idle
  /-- It pushes an entry. -/
  | pushing (index : UInt16) (script : Script Stop SplitVirtqueue Unit)
  /-- It pops an element. -/
  | popping (script : Script Stop SplitVirtqueue (Option VirtqueueUsedElement))
  /-- It has stopped in a call. -/
  | failed (reason : Stop)

/-- A virtqueue with the driver and the device, and what has passed through it. -/
structure Virtio where
  /-- The queue. -/
  queue : SplitVirtqueue
  /-- The driver. -/
  driver : Driver
  /-- The entries that the device has received, as it counts them. -/
  lastAvail : UInt16
  /-- Whether the device has seen an entry that it will read next. -/
  seen : Bool
  /-- An element that the device has written and not counted. -/
  written : Option VirtqueueUsedElement
  /-- The entries whose `push` has returned. -/
  pushed : List UInt16
  /-- The entries that the device has read. -/
  received : List UInt16
  /-- The elements that the device has counted. -/
  published : List VirtqueueUsedElement
  /-- What `pop` has returned. -/
  answers : List (Option VirtqueueUsedElement)

/-- What can happen next. -/
inductive Virtio.Act where
  /-- The driver calls `push`. -/
  | callPush (index : UInt16)
  /-- The driver calls `pop`. -/
  | callPop
  /-- The driver makes an access. -/
  | driver
  /-- The device looks for an entry. -/
  | poll
  /-- The device reads the entry. -/
  | receive
  /-- The device writes an element to its ring. -/
  | write (element : VirtqueueUsedElement)
  /-- The device counts the element. -/
  | count

namespace Virtio

variable {s s' : Virtio} {queueSize : Nat} {queue : SplitVirtqueue}

/-- The machine with a new queue. -/
def start (queue : SplitVirtqueue) : Virtio := ⟨queue, .idle, 0, false, none, [], [], [], []⟩

/-- The elements that `pop` has returned. -/
def popped (s : Virtio) : List VirtqueueUsedElement := s.answers.filterMap id

/-- The driver's next access in a call of `push`. -/
def stepPush (s : Virtio) (index : UInt16) (script : Script Stop SplitVirtqueue Unit) :
    Option Virtio :=
  match script.step s.queue with
  | some (.done (), queue) =>
    some { s with queue := queue, driver := .idle, pushed := s.pushed ++ [index] }
  | some (.stopped reason, queue) => some { s with queue := queue, driver := .failed reason }
  | some (next, queue) => some { s with queue := queue, driver := .pushing index next }
  | none => none

/-- The driver's next access in a call of `pop`. -/
def stepPop (s : Virtio) (script : Script Stop SplitVirtqueue (Option VirtqueueUsedElement)) :
    Option Virtio :=
  match script.step s.queue with
  | some (.done answer, queue) =>
    some { s with queue := queue, driver := .idle, answers := s.answers ++ [answer] }
  | some (.stopped reason, queue) => some { s with queue := queue, driver := .failed reason }
  | some (next, queue) => some { s with queue := queue, driver := .popping next }
  | none => none

/-- One step of the driver or the device. -/
def step (s : Virtio) : Act → Option Virtio
  | .callPush index =>
    match s.driver with
    | .idle => some { s with driver := .pushing index (SplitVirtqueue.push index) }
    | _ => none
  | .callPop =>
    match s.driver with
    | .idle => some { s with driver := .popping SplitVirtqueue.pop }
    | _ => none
  | .driver =>
    match s.driver with
    | .pushing index script => stepPush s index script
    | .popping script => stepPop s script
    | _ => none
  | .poll => if s.seen then none else some { s with seen := s.lastAvail != s.queue.available.index }
  | .receive =>
    if s.seen then
      let place := s.lastAvail.toNat % s.queue.queueSize
      some { s with
        seen := false
        lastAvail := s.lastAvail + 1
        received := s.received ++ [s.queue.available.ring.getD place 0] }
    else none
  | .write element =>
    match s.written with
    | none =>
      let place := s.queue.used.index.toNat % s.queue.queueSize
      let used := { s.queue.used with ring := s.queue.used.ring.set place element }
      some { s with queue := { s.queue with used := used }, written := some element }
    | some _ => none
  | .count =>
    match s.written with
    | some element =>
      let used := { s.queue.used with index := s.queue.used.index + 1 }
      some { s with
        queue := { s.queue with used := used }
        written := none
        published := s.published ++ [element] }
    | none => none

/-- The entries that a call of the driver gives. -/
def Driver.entries : Driver → Nat
  | .pushing _ _ => 1
  | _ => 0

/-- No more entries are under way than the queue has places. -/
structure Bounded (s : Virtio) : Prop where
  /-- Entries for the device. -/
  available : s.pushed.length + Driver.entries s.driver ≤ s.received.length + s.queue.queueSize
  /-- Elements for the driver. -/
  used : s.published.length + s.written.toList.length ≤ s.popped.length + s.queue.queueSize

/-- The states that a new queue comes to while the bound is kept. -/
def Reaches (queue : SplitVirtqueue) : Virtio → Prop :=
  Reachable (fun s => s = start queue) fun s act s' => step s act = some s' ∧ s'.Bounded

open SplitVirtqueue
open Script (one)

/-- `push` once it knows its place. -/
def pushStore (index queueIndex : UInt16) (place : Nat) : Script Stop SplitVirtqueue Unit := do
  one (storeAvailable place index)
  one (publishAvailable queueIndex)

/-- Where a call of the driver stands. -/
def InCall (s : Virtio) : Driver → Prop
  | .idle => True
  | .pushing index script =>
    s.pushed.length < s.received.length + s.queue.queueSize ∧
      (script = push index ∨
        script = pushStore index s.queue.available.index
          (s.queue.available.index.toNat % s.queue.queueSize) ∨
        script = one (publishAvailable s.queue.available.index) ∧
          s.queue.available.ring[s.pushed.length % s.queue.queueSize]? = some index)
  | .popping script =>
    script = pop ∨ script = one takeUsed ∧ s.popped.length < s.published.length
  | .failed _ => False

/-- What holds while the bound is kept. -/
structure Flows (s : Virtio) : Prop where
  /-- The ring of the driver has its size. -/
  availableSize : s.queue.available.ring.length = s.queue.queueSize
  /-- The ring of the device has its size. -/
  usedSize : s.queue.used.ring.length = s.queue.queueSize
  /-- The size is one that `new` accepts. -/
  short : s.queue.queueSize ≤ 32768
  /-- The ring of the driver is a queue. -/
  available : Tracks 65536 s.queue.available.ring s.queue.available.index.toNat s.lastAvail.toNat
    s.pushed s.received.length
  /-- The device has received the first entries. -/
  received : s.received = s.pushed.take s.received.length
  /-- The ring of the device is a queue. -/
  used : Tracks 65536 s.queue.used.ring s.queue.used.index.toNat s.queue.lastSeen.toNat
    s.published s.popped.length
  /-- The driver has popped the first elements. -/
  popped : s.popped = s.published.take s.popped.length
  /-- An entry that the device has seen is there. -/
  seen : s.seen = true → s.received.length < s.pushed.length
  /-- An element that is written stands in its place. -/
  written : ∀ element, s.written = some element →
    s.published.length < s.popped.length + s.queue.queueSize ∧
      s.queue.used.ring[s.published.length % s.queue.queueSize]? = some element
  /-- The driver is where it should be in its call. -/
  driver : s.InCall s.driver

/-- A counter of 16 bits goes up by one and wraps. -/
theorem toNat_succ (counter : UInt16) : (counter + 1).toNat = (counter.toNat + 1) % 65536 := by
  rw [UInt16.toNat_add]
  rfl

/-- The sizes that `new` accepts divide the range of the counters. -/
theorem accepted_size (accepted : SplitVirtqueue.new queueSize = .ok queue) :
    0 < queueSize ∧ queueSize ≤ 32768 ∧ queueSize ∣ 65536 := by
  rw [SplitVirtqueue.new] at accepted
  split at accepted
  · nomatch accepted
  · next power =>
    split at accepted
    · next small =>
      have size : 2 ^ queueSize.log2 = queueSize := by simpa [isPowerOfTwo] using power
      have exponent : queueSize.log2 ≤ 15 := by
        rw [← size] at small
        exact (Nat.pow_le_pow_iff_right (by decide)).mp small
      refine ⟨size ▸ Nat.two_pow_pos _, small, ?_⟩
      rw [← size]
      exact Nat.pow_dvd_pow 2 (exponent.trans (by decide : 15 ≤ 16))
    · nomatch accepted

/-- What `new` makes. -/
theorem new_eq (accepted : SplitVirtqueue.new queueSize = .ok queue) : queue = {
    queueSize := queueSize
    freelist := (List.range queueSize).map UInt16.ofNat
    descriptors := List.replicate queueSize ⟨0, 0, 0, 0⟩
    available := ⟨0, List.replicate queueSize 0⟩
    used := ⟨0, List.replicate queueSize ⟨0, 0⟩⟩
    lastSeen := 0 } := by
  rw [SplitVirtqueue.new] at accepted
  split at accepted
  · nomatch accepted
  · split at accepted
    · exact (Except.ok.inj accepted).symm
    · nomatch accepted

/-- A new queue has not passed anything. -/
theorem Flows.of_start (accepted : SplitVirtqueue.new queueSize = .ok queue) :
    (start queue).Flows := by
  obtain ⟨positive, small, divides⟩ := accepted_size accepted
  have made := new_eq accepted
  subst made
  constructor
  case availableSize => exact List.length_replicate
  case usedSize => exact List.length_replicate
  case short => exact small
  case available =>
    apply Tracks.empty <;> simp only [start, List.length_replicate] <;> omega
  case received => rfl
  case used =>
    apply Tracks.empty <;> simp only [start, List.length_replicate] <;> omega
  case popped => rfl
  case seen => exact fun seen => nomatch seen
  case written => exact fun _ written => nomatch written
  case driver => trivial

/-- A remainder by a number that is not zero. -/
theorem remainder_run {σ : Type} {number divisor : Nat} (positive : 0 < divisor) (state : σ) :
    (remainder number divisor).run state = (.ok (number % divisor), state) := by
  rw [remainder, if_neg positive.ne', Prog.run_pure]

/-- An index in range. -/
theorem checked_run {σ : Type} {length index : Nat} (bound : index < length) (state : σ) :
    (checked length index).run state = (.ok index, state) := by
  rw [checked, if_pos bound, Prog.run_pure]

/-- `push` finds its place in a ring of the size of its queue. -/
theorem pushPlace_run (positive : 0 < queue.queueSize) (short : queue.queueSize ≤ 32768)
    (sized : queue.available.ring.length = queue.queueSize) : pushPlace.run queue =
      (.ok (queue.available.index, queue.available.index.toNat % queue.queueSize), queue) := by
  have length : (UInt16.ofNat queue.available.ring.length).toNat = queue.queueSize := by
    rw [sized, UInt16.toNat_ofNat']
    omega
  have place : queue.available.index.toNat % queue.queueSize < queue.available.ring.length := by
    rw [sized]
    exact Nat.mod_lt _ positive
  rw [pushPlace, Prog.run_bind_ok (Prog.run_read _ _)]
  simp only [id, length]
  rw [Prog.run_bind_ok (remainder_run positive _), Prog.run_bind_ok (checked_run place _),
    Prog.run_pure]

/-- `push` finds its place while the rings flow. -/
theorem Flows.pushPlace_run (flows : s.Flows) : pushPlace.run s.queue =
    (.ok (s.queue.available.index, s.queue.available.index.toNat % s.queue.queueSize), s.queue) :=
  Virtio.pushPlace_run (flows.availableSize ▸ flows.available.positive) flows.short
    flows.availableSize

/-- `pop` takes the oldest element. -/
theorem Flows.takeUsed_run (flows : s.Flows) (more : s.popped.length < s.published.length) :
    takeUsed.run s.queue = (.ok s.published[s.popped.length]?,
      { s.queue with lastSeen := s.queue.lastSeen + 1 }) := by
  have positive := flows.used.positive
  rw [takeUsed, Prog.run_bind_ok (Prog.run_read _ _)]
  simp only [id]
  rw [Prog.run_bind_ok (remainder_run positive _),
    Prog.run_bind_ok (checked_run (Nat.mod_lt _ positive) _),
    Prog.run_bind_ok (Prog.run_update _ _), Prog.run_pure, (flows.used.take more).1]

/-- The accesses of `push`, one after the other. -/
theorem Flows.stepPush_place (flows : s.Flows) (index : UInt16) :
    stepPush s index (push index) = some { s with
      driver := .pushing index (pushStore index s.queue.available.index
        (s.queue.available.index.toNat % s.queue.queueSize)) } := by
  have stepped : (push index).step s.queue = some (pushStore index s.queue.available.index
      (s.queue.available.index.toNat % s.queue.queueSize), s.queue) :=
    Script.step_one_bind flows.pushPlace_run
  rw [stepPush, stepped]
  rfl

/-- The write of `push` to the ring. -/
theorem stepPush_store (s : Virtio) (index queueIndex : UInt16) (place : Nat) :
    stepPush s index (pushStore index queueIndex place) = some { s with
      queue := ((storeAvailable place index).run s.queue).2
      driver := .pushing index (one (publishAvailable queueIndex)) } := by
  have stepped : (pushStore index queueIndex place).step s.queue =
      some (one (publishAvailable queueIndex), ((storeAvailable place index).run s.queue).2) :=
    Script.step_one_bind rfl
  rw [stepPush, stepped]
  rfl

/-- The write of `push` to the counter. -/
theorem stepPush_publish (s : Virtio) (index queueIndex : UInt16) :
    stepPush s index (one (publishAvailable queueIndex)) = some { s with
      queue := ((publishAvailable queueIndex).run s.queue).2
      driver := .idle
      pushed := s.pushed ++ [index] } := by
  have stepped : (one (publishAvailable queueIndex)).step s.queue =
      some (.done (), ((publishAvailable queueIndex).run s.queue).2) := Script.step_one rfl
  rw [stepPush, stepped]

/-- In a call of `pop` the driver makes its accesses. -/
theorem step_popping {script : Script Stop SplitVirtqueue (Option VirtqueueUsedElement)}
    (call : s.driver = .popping script) : step s .driver = stepPop s script := by
  rw [step, call]

/-- A `pop` that finds the counters equal returns nothing. -/
theorem stepPop_none (same : s.queue.lastSeen = s.queue.used.index) : stepPop s pop =
    some { s with driver := .idle, answers := s.answers ++ [none] } := by
  have read : (Prog.read fun self : SplitVirtqueue =>
    self.lastSeen != self.used.index).run s.queue =
      ((.ok false : Except Stop Bool), s.queue) := by
    rw [Prog.run_read, same, bne_self_eq_false]
  have stepped : pop.step s.queue = some (.done none, s.queue) := Script.step_one_bind read
  rw [stepPop, stepped]

/-- A `pop` that finds the counters different reads on. -/
theorem stepPop_some (apart : s.queue.lastSeen ≠ s.queue.used.index) : stepPop s pop =
    some { s with driver := .popping (one takeUsed) } := by
  have read : (Prog.read fun self : SplitVirtqueue =>
    self.lastSeen != self.used.index).run s.queue =
      ((.ok true : Except Stop Bool), s.queue) := by
    rw [Prog.run_read, bne_iff_ne.mpr apart]
  have stepped : pop.step s.queue = some (one takeUsed, s.queue) := Script.step_one_bind read
  rw [stepPop, stepped]
  rfl

/-- A `pop` that has seen an element returns it. -/
theorem Flows.stepPop_take (flows : s.Flows) (more : s.popped.length < s.published.length) :
    stepPop s (one takeUsed) = some { s with
      queue := { s.queue with lastSeen := s.queue.lastSeen + 1 }
      driver := .idle
      answers := s.answers ++ [some s.published[s.popped.length]] } := by
  have ran := flows.takeUsed_run more
  rw [List.getElem?_eq_getElem more] at ran
  have stepped := Script.step_one ran
  rw [stepPop, stepped]

/-- Counters of 16 bits are equal when their numbers are. -/
theorem Flows.unread_iff (flows : s.Flows) :
    s.queue.lastSeen = s.queue.used.index ↔ s.popped = s.published := by
  rw [← UInt16.toNat_inj, flows.used.empty_iff]
  constructor
  · intro all
    rw [flows.popped, all, List.take_length]
  · exact congrArg List.length

/-- The device finds its counter equal to that of the driver when it has received everything. -/
theorem Flows.received_iff (flows : s.Flows) :
    s.lastAvail = s.queue.available.index ↔ s.received = s.pushed := by
  rw [← UInt16.toNat_inj, flows.available.empty_iff]
  constructor
  · intro all
    rw [flows.received, all, List.take_length]
  · exact congrArg List.length

/-- An entry more of what was given is the next one. -/
theorem take_snoc {α : Type} {given taken : List α} (first : taken = given.take taken.length)
    (more : taken.length < given.length) :
    taken ++ [given[taken.length]] = given.take (taken ++ [given[taken.length]]).length := by
  rw [List.length_append, List.length_singleton, List.take_succ_eq_append_getElem more, ← first]

/-- The accesses of a call of `push` keep the rings queues. -/
theorem Flows.stepPush (flows : s.Flows) {index : UInt16}
    {script : Script Stop SplitVirtqueue Unit} (call : s.driver = .pushing index script) :
    ∃ s', Virtio.stepPush s index script = some s' ∧ s'.Flows := by
  have stands := flows.driver
  rw [call] at stands
  obtain ⟨room, rfl | rfl | ⟨rfl, written⟩⟩ := stands
  · refine ⟨_, flows.stepPush_place index, ?_⟩
    exact { flows with driver := ⟨room, .inr (.inl rfl)⟩ }
  · refine ⟨_, stepPush_store s _ _ _, ?_⟩
    have free : s.pushed.length < s.received.length + s.queue.available.ring.length := by
      rw [flows.availableSize]
      exact room
    obtain ⟨tracks, stands⟩ := flows.available.write free index
    rw [flows.availableSize] at tracks stands
    exact { flows with
      availableSize := List.length_set.trans flows.availableSize
      available := tracks
      driver := ⟨room, .inr (.inr ⟨rfl, stands⟩)⟩ }
  · refine ⟨_, stepPush_publish s _ _, ?_⟩
    have free : s.pushed.length < s.received.length + s.queue.available.ring.length := by
      rw [flows.availableSize]
      exact room
    rw [← flows.availableSize] at written
    have tracks := flows.available.publish free written
    rw [← toNat_succ] at tracks
    have behind := flows.available.behind
    exact { flows with
      available := tracks
      received := by
        change s.received = (s.pushed ++ [index]).take s.received.length
        rw [List.take_append_of_le_length behind]
        exact flows.received
      seen := fun seen => (flows.seen seen).trans_le (by
        change s.pushed.length ≤ (s.pushed ++ [index]).length
        rw [List.length_append]
        exact Nat.le_add_right _ _)
      driver := trivial }

/-- The accesses of a call of `pop` keep the rings queues. -/
theorem Flows.stepPop (flows : s.Flows)
    {script : Script Stop SplitVirtqueue (Option VirtqueueUsedElement)}
    (call : s.driver = .popping script) :
    ∃ s', Virtio.stepPop s script = some s' ∧ s'.Flows := by
  have stands := flows.driver
  rw [call] at stands
  obtain rfl | ⟨rfl, more⟩ := stands
  · by_cases same : s.queue.lastSeen = s.queue.used.index
    · refine ⟨_, stepPop_none same, ?_⟩
      have popped : Virtio.popped { s with driver := .idle, answers := s.answers ++ [none] } =
          s.popped := by
        rw [Virtio.popped, List.filterMap_append]
        exact List.append_nil _
      exact { flows with
        used := by
          rw [popped]
          exact flows.used
        popped := by
          rw [popped]
          exact flows.popped
        written := by
          rw [popped]
          exact flows.written
        driver := trivial }
    · refine ⟨_, stepPop_some same, ?_⟩
      have unread : s.popped ≠ s.published := fun all => same (flows.unread_iff.mpr all)
      have more : s.popped.length < s.published.length := by
        have behind := flows.used.behind
        have apart : s.popped.length ≠ s.published.length := fun all =>
          same (UInt16.toNat_inj.mp (flows.used.empty_iff.mpr all))
        omega
      exact { flows with driver := .inr ⟨rfl, more⟩ }
  · refine ⟨_, flows.stepPop_take more, ?_⟩
    let element := s.published[s.popped.length]
    have popped : Virtio.popped { s with
        queue := { s.queue with lastSeen := s.queue.lastSeen + 1 }
        driver := .idle
        answers := s.answers ++ [some element] } = s.popped ++ [element] := by
      rw [Virtio.popped, List.filterMap_append]
      rfl
    have tracks := (flows.used.take more).2
    rw [← toNat_succ] at tracks
    exact { flows with
      used := by
        rw [popped, List.length_append]
        exact tracks
      popped := by
        rw [popped]
        exact take_snoc flows.popped more
      written := by
        rw [popped, List.length_append]
        intro other written
        obtain ⟨room, stands⟩ := flows.written other written
        exact ⟨room.trans_le (Nat.add_le_add_right (Nat.le_add_right _ _) _), stands⟩
      driver := trivial }

/-- The device reads an entry that it has seen. -/
theorem Flows.receive (flows : s.Flows) (seen : s.seen = true) :
    ∃ s', step s .receive = some s' ∧ s'.Flows := by
  have more := flows.seen seen
  obtain ⟨stands, tracks⟩ := flows.available.take more
  rw [flows.availableSize, List.getElem?_eq_getElem more] at stands
  have entry : s.queue.available.ring.getD (s.lastAvail.toNat % s.queue.queueSize) 0 =
      s.pushed[s.received.length] := by
    rw [List.getD_eq_getElem?_getD, stands, Option.getD_some]
  refine ⟨_, if_pos seen, ?_⟩
  simp only [entry]
  rw [← toNat_succ] at tracks
  exact { flows with
    available := by
      rw [List.length_append]
      exact tracks
    received := take_snoc flows.received more
    seen := fun seen => nomatch seen
    driver := by
      have stands := flows.driver
      cases call : s.driver with
      | idle => trivial
      | pushing index script =>
        rw [call] at stands
        refine ⟨stands.1.trans_le (Nat.add_le_add_right ?_ _), stands.2⟩
        rw [List.length_append]
        exact Nat.le_add_right _ _
      | popping script =>
        rw [call] at stands
        exact stands
      | failed reason =>
        rw [call] at stands
        exact stands }

/-- The device writes an element to its ring while there is room for it. -/
theorem Flows.write (flows : s.Flows) {element : VirtqueueUsedElement}
    (stepped : step s (.write element) = some s') (bounded : s'.Bounded) : s'.Flows := by
  rw [step] at stepped
  split at stepped
  · obtain rfl := Option.some.inj stepped
    have room : s.published.length < s.popped.length + s.queue.queueSize := bounded.used
    have free : s.published.length < s.popped.length + s.queue.used.ring.length := by
      rw [flows.usedSize]
      exact room
    obtain ⟨tracks, stands⟩ := flows.used.write free element
    rw [flows.usedSize] at tracks stands
    exact { flows with
      usedSize := List.length_set.trans flows.usedSize
      used := tracks
      written := fun other same => Option.some.inj same ▸ ⟨room, stands⟩ }
  · nomatch stepped

/-- The device counts an element that it has written. -/
theorem Flows.count (flows : s.Flows) (stepped : step s .count = some s') : s'.Flows := by
  rw [step] at stepped
  split at stepped
  · next element written =>
    obtain rfl := Option.some.inj stepped
    obtain ⟨room, stands⟩ := flows.written element written
    rw [← flows.usedSize] at room stands
    have tracks := flows.used.publish room stands
    rw [← toNat_succ] at tracks
    exact { flows with
      used := tracks
      popped := by
        change s.popped = (s.published ++ [element]).take s.popped.length
        rw [List.take_append_of_le_length flows.used.behind]
        exact flows.popped
      written := fun _ same => nomatch same
      driver := by
        have stands := flows.driver
        cases call : s.driver with
        | idle => trivial
        | pushing index script =>
          rw [call] at stands
          exact stands
        | popping script =>
          rw [call] at stands
          refine stands.imp id fun ⟨taking, more⟩ => ⟨taking, more.trans_le ?_⟩
          change s.published.length ≤ (s.published ++ [element]).length
          rw [List.length_append]
          omega
        | failed reason =>
          rw [call] at stands
          exact stands }
  · nomatch stepped

/-- Every step within the bound keeps the rings queues. -/
theorem Flows.step (flows : s.Flows) {act : Act} (stepped : step s act = some s')
    (bounded : s'.Bounded) : s'.Flows := by
  cases act with
  | callPush index =>
    rw [Virtio.step] at stepped
    split at stepped
    · obtain rfl := Option.some.inj stepped
      exact { flows with driver := ⟨bounded.available, .inl rfl⟩ }
    · nomatch stepped
  | callPop =>
    rw [Virtio.step] at stepped
    split at stepped
    · obtain rfl := Option.some.inj stepped
      exact { flows with driver := .inl rfl }
    · nomatch stepped
  | driver =>
    rw [Virtio.step] at stepped
    split at stepped
    · next index script call =>
      obtain ⟨later, ran, flows⟩ := flows.stepPush call
      exact Option.some.inj (ran.symm.trans stepped) ▸ flows
    · next script call =>
      obtain ⟨later, ran, flows⟩ := flows.stepPop call
      exact Option.some.inj (ran.symm.trans stepped) ▸ flows
    · nomatch stepped
  | poll =>
    rw [Virtio.step] at stepped
    split at stepped
    · nomatch stepped
    · obtain rfl := Option.some.inj stepped
      refine { flows with seen := fun seen => ?_ }
      have apart : s.lastAvail ≠ s.queue.available.index := bne_iff_ne.mp seen
      have behind := flows.available.behind
      have more : s.received.length ≠ s.pushed.length := fun all =>
        apart (UInt16.toNat_inj.mp (flows.available.empty_iff.mpr all))
      exact lt_of_le_of_ne behind more
  | receive =>
    by_cases seen : s.seen = true
    · obtain ⟨later, ran, flows⟩ := flows.receive seen
      exact Option.some.inj (ran.symm.trans stepped) ▸ flows
    · rw [Virtio.step, if_neg seen] at stepped
      nomatch stepped
  | write element => exact flows.write stepped bounded
  | count => exact flows.count stepped

/-- The rings are queues in every state that the driver and the device come to. -/
theorem Flows.of_reaches (accepted : SplitVirtqueue.new queueSize = .ok queue)
    (reaches : Reaches queue s) : s.Flows :=
  reaches.invariant (fun _ begun => begun ▸ .of_start accepted)
    fun _ _ _ flows ⟨stepped, bounded⟩ => flows.step stepped bounded

/-- The first access of `pop` is not its second. -/
theorem takeUsed_ne_pop : one takeUsed ≠ pop := by
  intro same
  let queue : SplitVirtqueue := ⟨1, [], [], ⟨0, []⟩, ⟨0, [⟨0, 0⟩]⟩, 0⟩
  have counted := congrArg (fun script =>
    (script.step queue).map fun after => after.2.lastSeen) same
  exact absurd counted (by decide)

/-- For every size that `new` accepts, and however the driver and the device take their steps within
the bound: the device has received the first of the pushed entries, and its next look finds one
exactly when it has not received all; `pop` has returned the first of the published elements, and
its next look finds one, which it then returns, exactly when it has not returned all; and no call
panics. -/
theorem rings_are_queues (accepted : SplitVirtqueue.new queueSize = .ok queue)
    (reaches : Reaches queue s) :
    (s.received <+: s.pushed ∧
      (s.seen = false → ∃ s', step s .poll = some s' ∧
        (s'.seen = true ↔ s.received ≠ s.pushed)) ∧
      (s.seen = true → ∃ s', step s .receive = some s' ∧
        s'.received.length = s.received.length + 1)) ∧
    (s.popped <+: s.published ∧
      (∀ script, s.driver = .popping script → script = pop ∨ script = one takeUsed) ∧
      (s.driver = .popping pop → ∃ s', step s .driver = some s' ∧
        if s.popped = s.published then s'.driver = .idle ∧ s'.answers = s.answers ++ [none]
        else s'.driver = .popping (one takeUsed)) ∧
      (s.driver = .popping (one takeUsed) → ∃ s' element, step s .driver = some s' ∧
        s'.driver = .idle ∧ s'.answers = s.answers ++ [some element])) ∧
    ∀ reason, s.driver ≠ .failed reason := by
  have flows := Flows.of_reaches accepted reaches
  have stands := flows.driver
  refine ⟨⟨?_, fun unseen => ?_, fun seen => ?_⟩,
    ⟨?_, fun script call => ?_, fun call => ?_, fun call => ?_⟩, fun reason failed => ?_⟩
  · rw [flows.received]
    exact List.take_prefix _ _
  · refine ⟨_, if_neg (by rw [unseen]; decide), ?_⟩
    rw [← flows.received_iff.ne]
    exact bne_iff_ne
  · refine ⟨_, if_pos seen, ?_⟩
    exact List.length_append
  · rw [flows.popped]
    exact List.take_prefix _ _
  · rw [call] at stands
    exact stands.imp id And.left
  · by_cases all : s.popped = s.published
    · refine ⟨_, (step_popping call).trans (stepPop_none (flows.unread_iff.mpr all)), ?_⟩
      rw [if_pos all]
      exact ⟨rfl, rfl⟩
    · have apart : s.queue.lastSeen ≠ s.queue.used.index :=
        fun same => all (flows.unread_iff.mp same)
      refine ⟨_, (step_popping call).trans (stepPop_some apart), ?_⟩
      rw [if_neg all]
  · rw [call] at stands
    obtain ⟨-, more⟩ := stands.resolve_left takeUsed_ne_pop
    rw [step_popping call, flows.stepPop_take more]
    exact ⟨_, _, rfl, rfl, rfl⟩
  · rw [failed] at stands
    exact stands

/-- A queue of two places, as `new` makes it. -/
def twoPlaces : SplitVirtqueue :=
  ⟨2, [0, 1], List.replicate 2 ⟨0, 0, 0, 0⟩, ⟨0, [0, 0]⟩, ⟨0, List.replicate 2 ⟨0, 0⟩⟩, 0⟩

/-- In a queue of two places two entries are pushed, the device receives one and publishes an
element, and the driver pops it. The device then finds the other entry. -/
theorem rings_are_queues_pair :
    ∃ s, Reaches twoPlaces s ∧ s.pushed = [5, 7] ∧ s.received = [5] ∧ s.popped = [⟨5, 16⟩] ∧
      s.popped <+: s.published ∧ ∃ s', step s .poll = some s' ∧ s'.seen = true := by
  have begun : Reaches twoPlaces (start twoPlaces) := .start rfl
  have first := (((begun.next (.callPush 5) ⟨rfl, by decide, by decide⟩).next .driver
    ⟨rfl, by decide, by decide⟩).next .driver ⟨rfl, by decide, by decide⟩).next .driver
    ⟨rfl, by decide, by decide⟩
  have second := (((first.next (.callPush 7) ⟨rfl, by decide, by decide⟩).next .driver
    ⟨rfl, by decide, by decide⟩).next .driver ⟨rfl, by decide, by decide⟩).next .driver
    ⟨rfl, by decide, by decide⟩
  have received := (second.next .poll ⟨rfl, by decide, by decide⟩).next .receive
    ⟨rfl, by decide, by decide⟩
  have published := (received.next (.write ⟨5, 16⟩) ⟨rfl, by decide, by decide⟩).next .count
    ⟨rfl, by decide, by decide⟩
  have popped := ((published.next .callPop ⟨rfl, by decide, by decide⟩).next .driver
    ⟨rfl, by decide, by decide⟩).next .driver ⟨rfl, by decide, by decide⟩
  have accepted : SplitVirtqueue.new 2 = .ok twoPlaces := by decide
  obtain ⟨⟨-, look, -⟩, ⟨elements, -⟩, -⟩ := rings_are_queues accepted popped
  obtain ⟨later, looked, found⟩ := look rfl
  exact ⟨_, popped, rfl, rfl, rfl, elements, later, looked, found.mpr (by decide)⟩

end Virtio

end Lsd
