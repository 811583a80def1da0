import Lsd.Drivers.Devices
import Lsd.Verif.VirtqueueRings

/-!
# The entries of requests

The drivers of the input and the entropy device make requests in any order, with
interrupts, completions and changes of memory between them. A request makes the
entry with index 0 available, whatever descriptor it was given; so it publishes
the descriptor that it has filled only when that one is the last of the free
list.
-/

namespace Lsd

open Program Transition

/-- What has passed through a queue. -/
structure Traffic where
  /-- The entries that were made available and are not completed. -/
  inFlight : List UInt16
  /-- The elements that the device has used. -/
  published : List VirtqueueUsedElement
  /-- The number of elements that the driver has taken. -/
  popped : Nat

/-- The entries that were made available between two states of a queue. -/
def SplitVirtqueue.pushedSince (before after : SplitVirtqueue) : List UInt16 :=
  (List.range (after.available.index - before.available.index).toNat).map fun count =>
    after.available.ring.getD ((before.available.index.toNat + count) % before.queueSize) 0

/-- What has passed through a queue after its driver has run. -/
def Traffic.driven (traffic : Traffic) (before after : SplitVirtqueue) : Traffic := { traffic with
  inFlight := traffic.inFlight ++ before.pushedSince after
  popped := traffic.popped + (after.lastSeen - before.lastSeen).toNat }

/-- The drivers, and what has passed between them and their devices. -/
structure DeviceRun where
  /-- The drivers. -/
  drivers : Drivers
  /-- Why the kernel has stopped. -/
  stopped : Option Stop
  /-- What has passed. -/
  traffic : DeviceQueue → Traffic

/-- What can happen next. -/
inductive DeviceRun.Act where
  /-- A call of `Input::command`. -/
  | command (select : InputConfigSelect) (subsel : UInt8)
  /-- A call of `Entropy::request`. -/
  | request (byteLen : UInt64)
  /-- An interrupt of the input device. -/
  | interrupt
  /-- A device publishes an element. -/
  | complete (which : DeviceQueue) (element : VirtqueueUsedElement)
  /-- The devices and the rest of the kernel change memory, the frame list and `int_status`. -/
  | world (pmm : Pmm) (intStatus : UInt32)

/-- A request: its queue, how its region is made, and the bytes it is for. -/
structure DeviceRun.Call where
  /-- The queue. -/
  which : DeviceQueue
  /-- The region. -/
  region : Kernel Pmm DmaRegion
  /-- The bytes. -/
  size : UInt64

namespace DeviceRun

variable {hhdm : UInt64} {s s' : DeviceRun} {act : Act} {queueSize requestSize : Nat}
  {queue requests : SplitVirtqueue} {which other : DeviceQueue}

/-- The request that a step makes. -/
def Act.call (hhdm : UInt64) : Act → Option Call
  | .command select subsel =>
    some ⟨.status, Input.commandRegion hhdm select subsel, Input.configSize⟩
  | .request byteLen => some ⟨.req, Entropy.requestRegion hhdm byteLen, byteLen⟩
  | _ => none

/-- A driver runs. -/
def drive (s : DeviceRun) (program : Kernel Drivers Unit) : DeviceRun where
  drivers := (program.run s.drivers).2
  stopped := match (program.run s.drivers).1 with
    | .ok _ => none
    | .error reason => some reason
  traffic which := (s.traffic which).driven (s.drivers.queue which)
    ((program.run s.drivers).2.queue which)

/-- A device publishes an element. -/
def complete (s : DeviceRun) (which : DeviceQueue) (element : VirtqueueUsedElement) : DeviceRun :=
  let queue := s.drivers.queue which
  let place := queue.used.index.toNat % queue.queueSize
  let traffic := s.traffic which
  { s with
    drivers := s.drivers.putQueue which
      { queue with used := ⟨queue.used.index + 1, queue.used.ring.set place element⟩ }
    traffic := Function.update s.traffic which { traffic with
      inFlight := traffic.inFlight.erase element.startIndex.toUInt16
      published := traffic.published ++ [element] } }

/-- What a step leads to. -/
def after (hhdm : UInt64) (s : DeviceRun) : Act → DeviceRun
  | .command select subsel => s.drive (Input.command hhdm select subsel)
  | .request byteLen => s.drive (Entropy.request hhdm byteLen)
  | .interrupt => s.drive (Input.handleInt hhdm)
  | .complete which element => s.complete which element
  | .world pmm intStatus =>
    let header := { s.drivers.input.header with intStatus := intStatus }
    let input := { s.drivers.input with header := header }
    { s with drivers := { s.drivers with pmm := pmm, input := input } }

/-- A step, unless the kernel has stopped. -/
def step (hhdm : UInt64) (s : DeviceRun) (act : Act) : Option DeviceRun :=
  match s.stopped with
  | some _ => none
  | none => some (s.after hhdm act)

/-- The drivers with new queues. -/
def start (pmm : Pmm) (queue requests : SplitVirtqueue) : DeviceRun where
  drivers := ⟨pmm, ⟨⟨0, [], []⟩, queue, queue⟩, ⟨⟨0, [], []⟩, requests⟩, []⟩
  stopped := none
  traffic _ := ⟨[], [], 0⟩

/-- Every entry that a step makes available is the one that `alloc_descriptor` gives to its
request, its descriptor holds the region of the request and its length, and the entry is not in
flight. -/
def Owned (hhdm : UInt64) (s : DeviceRun) (act : Act) (s' : DeviceRun) : Prop :=
  ∀ which, ∀ index ∈ (s.drivers.queue which).pushedSince (s'.drivers.queue which),
    ∃ call, act.call hhdm = some call ∧ call.which = which ∧
      (SplitVirtqueue.allocDescriptor.run (s.drivers.queue which)).1 = .ok (some index) ∧
      (∃ region later entry, call.region.run s.drivers.pmm = (.ok region, later) ∧
        (s'.drivers.queue which).descriptors[index.toNat]? = some entry ∧
        entry.address = region.phys ∧ entry.length.toNat = call.size.toNat) ∧
      index ∉ (s.traffic which).inFlight

/-- A request that finds a region and a free descriptor finds index 0 at the end of the free list,
not in flight, and is for less than 4 GiB. -/
def LastFree (hhdm : UInt64) (s : DeviceRun) (act : Act) : Prop :=
  ∀ call, act.call hhdm = some call →
    ∀ region later, call.region.run s.drivers.pmm = (.ok region, later) →
    ∀ index, (s.drivers.queue call.which).freelist.getLast? = some index →
      index = 0 ∧ 0 ∉ (s.traffic call.which).inFlight ∧ call.size < 0x100000000

/-- What a queue is for its driver, apart from the elements that are used. -/
def supply (queue : SplitVirtqueue) : Nat × List UInt16 × List VirtqueueDescriptor ×
    VirtqueueAvailable :=
  (queue.queueSize, queue.freelist, queue.descriptors, queue.available)

/-- A queue of which a request has taken the last free descriptor. -/
def requested (queue : SplitVirtqueue) (index : UInt16) (desc : VirtqueueDescriptor) :
    SplitVirtqueue :=
  let place := queue.available.index.toNat % queue.queueSize
  { queue with
    freelist := queue.freelist.dropLast
    descriptors := queue.descriptors.set index.toNat desc
    available := ⟨queue.available.index + 1, queue.available.ring.set place 0⟩ }

/-- The sizes of a queue fit each other, and its free descriptors are in the table. -/
structure Sized (queue : SplitVirtqueue) : Prop where
  /-- There is a descriptor. -/
  positive : 0 < queue.queueSize
  /-- The size is one that `new` accepts. -/
  short : queue.queueSize ≤ 32768
  /-- The size of the table. -/
  descriptors : queue.descriptors.length = queue.queueSize
  /-- The size of the ring. -/
  available : queue.available.ring.length = queue.queueSize
  /-- A free descriptor is in the table. -/
  free : ∀ index ∈ queue.freelist, index.toNat < queue.queueSize

/-- A new queue has its sizes. -/
theorem Sized.of_new (accepted : SplitVirtqueue.new queueSize = .ok queue) : Sized queue := by
  obtain ⟨positive, short, -⟩ := Virtio.accepted_size accepted
  rw [Virtio.new_eq accepted]
  constructor
  case positive => exact positive
  case short => exact short
  case descriptors => exact List.length_replicate
  case available => exact List.length_replicate
  case free =>
    intro index member
    obtain ⟨number, listed, rfl⟩ := List.mem_map.mp member
    have bound := List.mem_range.mp listed
    rw [UInt16.toNat_ofNat', Nat.mod_eq_of_lt (by omega)]
    exact bound

/-- The sizes are those of the supply. -/
theorem Sized.of_supply {before after : SplitVirtqueue} (sized : Sized before)
    (same : supply after = supply before) : Sized after := by
  simp only [supply, Prod.mk.injEq] at same
  obtain ⟨size, free, table, ring⟩ := same
  constructor
  · rw [size]; exact sized.positive
  · rw [size]; exact sized.short
  · rw [size, table]; exact sized.descriptors
  · rw [size, ring]; exact sized.available
  · rw [size, free]; exact sized.free

/-- A request keeps the sizes. -/
theorem Sized.requested (sized : Sized queue) (index : UInt16) (desc : VirtqueueDescriptor) :
    Sized (requested queue index desc) where
  positive := sized.positive
  short := sized.short
  descriptors := List.length_set.trans sized.descriptors
  available := List.length_set.trans sized.available
  free other member := sized.free other (List.mem_of_mem_dropLast member)

/-- Nothing is made available without a change of the counter. -/
theorem pushedSince_same {before after : SplitVirtqueue}
    (same : supply after = supply before) : before.pushedSince after = [] := by
  simp only [supply, Prod.mk.injEq] at same
  rw [SplitVirtqueue.pushedSince, same.2.2.2, UInt16.sub_self]
  rfl

/-- A request makes the entry with index 0 available. -/
theorem pushedSince_requested (sized : Sized queue) (index : UInt16) (desc : VirtqueueDescriptor) :
    queue.pushedSince (requested queue index desc) = [0] := by
  have place : queue.available.index.toNat % queue.queueSize < queue.available.ring.length := by
    rw [sized.available]
    exact Nat.mod_lt _ sized.positive
  have grown : (queue.available.index + 1 - queue.available.index).toNat = 1 := by
    rw [UInt16.add_comm, UInt16.add_sub_cancel]
    rfl
  simp only [SplitVirtqueue.pushedSince, requested, grown, List.range_one, List.map_cons,
    List.map_nil, Nat.add_zero, List.getD_eq_getElem?_getD, List.getElem?_set_self place,
    Option.getD_some]

/-- A queue that was put in its place is found there. -/
@[simp] theorem queue_putQueue_self (drivers : Drivers) :
    (drivers.putQueue which queue).queue which = queue := by
  cases which <;> rfl

/-- The other queues stay. -/
theorem queue_putQueue_ne (drivers : Drivers) (apart : other ≠ which) :
    (drivers.putQueue which queue).queue other = drivers.queue other := by
  cases which <;> cases other <;> first | rfl | exact absurd rfl apart

/-- A queue that is put back changes nothing. -/
@[simp] theorem putQueue_queue (drivers : Drivers) :
    drivers.putQueue which (drivers.queue which) = drivers := by
  cases which <;> rfl

/-- The last queue that is put in a place stays there. -/
@[simp] theorem putQueue_putQueue (drivers : Drivers) (first second : SplitVirtqueue) :
    (drivers.putQueue which first).putQueue which second = drivers.putQueue which second := by
  cases which <;> rfl

open SplitVirtqueue Drivers

/-- The entry that `push` adds to a queue of fitting sizes. -/
theorem push_run (sized : Sized queue) (index : UInt16) : (push index).whole.run queue =
    (.ok (), { queue with available :=
      ⟨queue.available.index + 1,
        queue.available.ring.set (queue.available.index.toNat % queue.queueSize) index⟩ }) := by
  simp only [push, Script.whole_bind, Script.whole_one]
  rw [Prog.run_bind_ok (Virtio.pushPlace_run sized.positive sized.short sized.available)]
  rfl

/-- A program on a queue replaces it. -/
theorem onQueue_run {α : Type} {program : Kernel SplitVirtqueue α} {result : Except Stop α}
    {later : SplitVirtqueue} (which : DeviceQueue) (drivers : Drivers)
    (ran : program.run queue = (result, later)) :
    (onQueue which program).run (drivers.putQueue which queue) =
      (result, drivers.putQueue which later) := by
  rw [← putQueue_putQueue drivers queue later]
  apply Prog.run_within
  rw [queue_putQueue_self, ran]

/-- A request needs a free descriptor. -/
theorem makeRequest_none {drivers : Drivers} (region : DmaRegion)
    (dry : (drivers.queue which).freelist.getLast? = none) :
    (makeRequest which region).run drivers =
      (.error (.panic "called `Option::unwrap()` on a `None` value"), drivers) := by
  have found : allocDescriptor.run (drivers.queue which) = (.ok none, drivers.queue which) := by
    rw [allocDescriptor, Prog.run_bind_ok (Prog.run_read _ _)]
    simp only [id, dry, Prog.run_pure]
  have taken := onQueue_run which drivers found
  rw [putQueue_queue] at taken
  rw [makeRequest, Prog.run_bind_ok taken]
  rfl

/-- A request takes the last free descriptor, and makes the entry with index 0 available. -/
theorem makeRequest_some {drivers : Drivers} {index : UInt16} (region : DmaRegion)
    (sized : Sized (drivers.queue which))
    (last : (drivers.queue which).freelist.getLast? = some index) :
    (makeRequest which region).run drivers = (.ok (), drivers.putQueue which
      (requested (drivers.queue which) index ⟨region.phys, region.size.toUInt32, .write, 0⟩)) := by
  let desc : VirtqueueDescriptor := ⟨region.phys, region.size.toUInt32, .write, 0⟩
  let taken := { drivers.queue which with freelist := (drivers.queue which).freelist.dropLast }
  let filled := { taken with descriptors := taken.descriptors.set index.toNat desc }
  have found : allocDescriptor.run (drivers.queue which) = (.ok (some index), taken) := by
    rw [allocDescriptor, Prog.run_bind_ok (Prog.run_read _ _)]
    simp only [id, last]
    rfl
  have bound : index.toNat < taken.descriptors.length := by
    change _ < (drivers.queue which).descriptors.length
    rw [sized.descriptors]
    exact sized.free index (List.mem_of_getLast? last)
  have wrote : (writeDescriptor index desc).run taken = (.ok (), filled) := by
    rw [writeDescriptor, Prog.run_bind_ok (Prog.run_read _ _)]
    simp only [id]
    rw [Prog.run_bind_ok (Virtio.checked_run bound _)]
    rfl
  have sized' : Sized filled := ⟨sized.positive, sized.short,
    List.length_set.trans sized.descriptors, sized.available,
    fun other member => sized.free other (List.mem_of_mem_dropLast member)⟩
  have first := onQueue_run which drivers found
  rw [putQueue_queue] at first
  rw [makeRequest, Prog.run_bind_ok first, unwrapSome, Prog.run_bind_ok (Prog.run_pure _ _),
    Prog.run_bind_ok (onQueue_run which drivers wrote)]
  exact onQueue_run which drivers (push_run sized' 0)

/-- A program on a queue keeps a part of the queues when it keeps that of its own. -/
theorem keeps_onQueue {α τ : Type} {part : SplitVirtqueue → τ} {program : Kernel SplitVirtqueue α}
    (keeps : Prog.Keeps part program) :
    Prog.Keeps (fun drivers => part (drivers.queue other)) (onQueue which program) := by
  intro drivers
  cases ran : program.run (drivers.queue which) with
  | mk result later =>
    have first := onQueue_run which drivers ran
    rw [putQueue_queue] at first
    rw [first]
    change part ((drivers.putQueue which later).queue other) = part (drivers.queue other)
    by_cases same : other = which
    · subst same
      rw [queue_putQueue_self]
      exact keeps.of_run ran
    · rw [queue_putQueue_ne drivers same]

/-- A checked index keeps everything. -/
theorem keeps_checked {σ τ : Type} {part : σ → τ} (length index : Nat) :
    Prog.Keeps part (checked length index) :=
  .ite (.pure _) (.stop _)

/-- A checked remainder keeps everything. -/
theorem keeps_remainder {σ τ : Type} {part : σ → τ} (number divisor : Nat) :
    Prog.Keeps part (remainder number divisor) :=
  .ite (.stop _) (.pure _)

/-- `pop` keeps the supply. -/
theorem keeps_pop : Prog.Keeps supply pop.whole := by
  simp only [pop, Script.whole_bind, Script.whole_one, Script.whole_ite, Script.whole_pure]
  apply Prog.Keeps.bind (.read _)
  intro new
  apply Prog.Keeps.ite _ (.pure _)
  apply Prog.Keeps.bind (.read _)
  intro self
  apply Prog.Keeps.bind (keeps_remainder _ _)
  intro place
  apply Prog.Keeps.bind (keeps_checked _ _)
  intro place
  exact .bind (.update fun _ => rfl) fun _ => .pure _

/-- Reading a descriptor keeps the supply. -/
theorem keeps_readDescriptor (index : UInt16) : Prog.Keeps supply (readDescriptor index) := by
  apply Prog.Keeps.bind (.read _)
  intro self
  exact .bind (keeps_checked _ _) fun _ => .pure _

/-- Handling a configuration keeps the supplies. -/
theorem keeps_handleConfig (config : UInt64) (select : Option InputConfigSelect) :
    Prog.Keeps (fun drivers => supply (drivers.queue other))
      (Input.handleConfig config select) := by
  match select with
  | some .idName =>
    apply Prog.Keeps.bind (.read _)
    intro size
    apply Prog.Keeps.forM
    intro index _
    exact .bind (keeps_checked _ _) fun _ => .update fun _ => by cases other <;> rfl
  | some .unset | some .idSerial | some .idDevIDs | some .propBits | some .evBits
  | some .absInfo | none => exact .stop _

/-- The interrupt handler keeps the supplies. -/
theorem keeps_handleInt :
    Prog.Keeps (fun drivers => supply (drivers.queue other)) (Input.handleInt hhdm) := by
  have taken : Prog.Keeps (fun drivers => supply (drivers.queue other)) Input.completed := by
    apply Prog.Keeps.bind (keeps_onQueue keeps_pop)
    intro index
    cases index with
    | some index => exact keeps_onQueue (keeps_readDescriptor _)
    | none =>
      apply Prog.Keeps.bind (keeps_onQueue keeps_pop)
      intro index
      cases index with
      | some index => exact keeps_onQueue (keeps_readDescriptor _)
      | none => exact .stop _
  apply Prog.Keeps.bind (.read _)
  intro status
  apply Prog.Keeps.bind taken
  intro desc
  apply Prog.Keeps.bind (.read _)
  intro select
  exact .bind (keeps_handleConfig _ select) fun _ => .update fun _ => by cases other <;> rfl

/-- A request, with what notifies the device. -/
def Call.program (call : Call) (notify : Drivers → Drivers) : Kernel Drivers Unit := do
  let region ← Drivers.onPmm call.region
  makeRequest call.which region
  Prog.update notify

/-- A step that makes a request runs it. -/
theorem after_call {call : Call} (made : act.call hhdm = some call) :
    ∃ notify, (∀ drivers other, (notify drivers).queue other = drivers.queue other) ∧
      s.after hhdm act = s.drive (call.program notify) := by
  cases act with
  | command select subsel =>
    obtain rfl := Option.some.inj made
    exact ⟨_, fun _ other => by cases other <;> rfl, rfl⟩
  | request byteLen =>
    obtain rfl := Option.some.inj made
    exact ⟨_, fun _ other => by cases other <;> rfl, rfl⟩
  | interrupt => nomatch made
  | complete which element => nomatch made
  | world pmm intStatus => nomatch made

/-- What a step does to the supplies of the queues. -/
inductive Supplies (hhdm : UInt64) (s : DeviceRun) (act : Act) (s' : DeviceRun) : Prop where
  /-- No request takes a descriptor. -/
  | kept (same : ∀ which, supply (s'.drivers.queue which) = supply (s.drivers.queue which))
      (dry : ∀ call, act.call hhdm = some call → ∀ region later,
        call.region.run s.drivers.pmm = (.ok region, later) →
        (s.drivers.queue call.which).freelist.getLast? = none)
  /-- A request takes the last free descriptor. -/
  | request (call : Call) (region : DmaRegion) (later : Pmm) (index : UInt16)
      (made : act.call hhdm = some call)
      (found : call.region.run s.drivers.pmm = (.ok region, later))
      (last : (s.drivers.queue call.which).freelist.getLast? = some index)
      (taken : s'.drivers.queue call.which = requested (s.drivers.queue call.which) index
        ⟨region.phys, region.size.toUInt32, .write, 0⟩)
      (others : ∀ which, which ≠ call.which → s'.drivers.queue which = s.drivers.queue which)

/-- Making a region leaves the queues alone. -/
theorem onPmm_run {α : Type} {program : Kernel Pmm α} {drivers : Drivers} {result : Except Stop α}
    {later : Pmm} (ran : program.run drivers.pmm = (result, later)) :
    ∃ middle, (Drivers.onPmm program).run drivers = (result, middle) ∧
      ∀ which, middle.queue which = drivers.queue which := by
  refine ⟨{ drivers with pmm := later }, Prog.run_within ran, ?_⟩
  intro which
  cases which <;> rfl

/-- A step that makes a request does one of the two. -/
theorem supplies_call {call : Call} (sized : ∀ which, Sized (s.drivers.queue which))
    (made : act.call hhdm = some call) : Supplies hhdm s act (s.after hhdm act) := by
  obtain ⟨notify, keeps, same⟩ := @after_call hhdm s act call made
  rw [same]
  have again : ∀ {other}, act.call hhdm = some other → other = call := fun found =>
    Option.some.inj (found.symm.trans made)
  cases ran : call.region.run s.drivers.pmm with
  | mk result later =>
    obtain ⟨middle, claimed, queues⟩ := onPmm_run ran
    cases result with
    | error reason =>
      have stops : (call.program notify).run s.drivers = (.error reason, middle) := by
        rw [Call.program, Prog.run_bind_stop claimed]
      apply Supplies.kept
      · intro which
        rw [drive, stops, queues]
      · intro other found region later' claims
        rw [again found, ran] at claims
        nomatch claims
    | ok region =>
      cases last : (s.drivers.queue call.which).freelist.getLast? with
      | none =>
        rw [← queues call.which] at last
        have stops : (call.program notify).run s.drivers =
            (.error (.panic "called `Option::unwrap()` on a `None` value"), middle) := by
          rw [Call.program, Prog.run_bind_ok claimed,
            Prog.run_bind_stop (makeRequest_none region last)]
        apply Supplies.kept
        · intro which
          rw [drive, stops, queues]
        · intro other found region later' claims
          rw [again found, ← queues call.which, last]
      | some index =>
        have sized' : Sized (middle.queue call.which) := queues call.which ▸ sized call.which
        have last' := last
        rw [← queues call.which] at last'
        have runs := makeRequest_some region sized' last'
        apply Supplies.request call region later index made ran last
        · rw [drive, Call.program, Prog.run_bind_ok claimed, Prog.run_bind_ok runs, Prog.run_update]
          simp only [keeps, queue_putQueue_self, queues]
        · intro which apart
          rw [drive, Call.program, Prog.run_bind_ok claimed, Prog.run_bind_ok runs, Prog.run_update]
          simp only [keeps, queue_putQueue_ne _ apart, queues]

/-- Every step does one of the two. -/
theorem supplies (sized : ∀ which, Sized (s.drivers.queue which))
    (stepped : step hhdm s act = some s') : Supplies hhdm s act s' := by
  rw [step] at stepped
  split at stepped
  · nomatch stepped
  · obtain rfl := Option.some.inj stepped
    cases act with
    | command select subsel => exact supplies_call sized rfl
    | request byteLen => exact supplies_call sized rfl
    | interrupt => exact .kept (fun which => keeps_handleInt s.drivers) fun _ made => nomatch made
    | complete which element =>
      apply Supplies.kept
      · intro other
        rw [after, complete]
        by_cases same : other = which
        · rw [same, queue_putQueue_self]
          rfl
        · rw [queue_putQueue_ne _ same]
      · intro _ made
        nomatch made
    | world pmm intStatus =>
      apply Supplies.kept
      · intro which
        cases which <;> rfl
      · intro _ made
        nomatch made

/-- Every step keeps the sizes. -/
theorem Supplies.sized (supplies : Supplies hhdm s act s')
    (sized : ∀ which, Sized (s.drivers.queue which)) (which : DeviceQueue) :
    Sized (s'.drivers.queue which) := by
  cases supplies with
  | kept same dry => exact (sized which).of_supply (same which)
  | request call region later index made found last taken others =>
    by_cases same : which = call.which
    · rw [same, taken]
      exact (sized call.which).requested index _
    · rw [others which same]
      exact sized which

/-- A region that is made for a command has the size of one. -/
theorem commandRegion_size {select : InputConfigSelect} {subsel : UInt8} {region : DmaRegion}
    {pmm later : Pmm}
    (ran : (Input.commandRegion hhdm select subsel).run pmm = (.ok region, later)) :
    region.size = Input.configSize := by
  obtain ⟨raw, _, made, rest⟩ := Prog.run_bind_eq_ok ran
  obtain ⟨_, _, -, rest⟩ := Prog.run_bind_eq_ok rest
  obtain ⟨_, _, -, rest⟩ := Prog.run_bind_eq_ok rest
  obtain ⟨_, _, -, rest⟩ := Prog.run_bind_eq_ok rest
  obtain ⟨_, _, -, made⟩ := Prog.run_bind_eq_ok made
  obtain ⟨_, _, -, made⟩ := Prog.run_bind_eq_ok made
  obtain ⟨_, _, -, made⟩ := Prog.run_bind_eq_ok made
  obtain ⟨_, _, -, made⟩ := Prog.run_bind_eq_ok made
  rw [← Except.ok.inj (Prod.mk.inj rest).1, ← Except.ok.inj (Prod.mk.inj made).1]

/-- A region that is made for a request has its size. -/
theorem requestRegion_size {byteLen : UInt64} {region : DmaRegion} {pmm later : Pmm}
    (ran : (Entropy.requestRegion hhdm byteLen).run pmm = (.ok region, later)) :
    region.size = byteLen := by
  obtain ⟨raw, _, made, rest⟩ := Prog.run_bind_eq_ok ran
  obtain ⟨_, _, -, rest⟩ := Prog.run_bind_eq_ok rest
  obtain ⟨_, _, -, made⟩ := Prog.run_bind_eq_ok made
  obtain ⟨_, _, -, made⟩ := Prog.run_bind_eq_ok made
  obtain ⟨_, _, -, made⟩ := Prog.run_bind_eq_ok made
  rw [← Except.ok.inj (Prod.mk.inj rest).1, ← Except.ok.inj (Prod.mk.inj made).1]

/-- A region has the size that it was made for. -/
theorem region_size {call : Call} {region : DmaRegion} {pmm later : Pmm}
    (made : act.call hhdm = some call) (ran : call.region.run pmm = (.ok region, later)) :
    region.size = call.size := by
  cases act with
  | command select subsel =>
    obtain rfl := Option.some.inj made
    exact commandRegion_size ran
  | request byteLen =>
    obtain rfl := Option.some.inj made
    exact requestRegion_size ran
  | interrupt => nomatch made
  | complete which element => nomatch made
  | world pmm intStatus => nomatch made

/-- What `alloc_descriptor` gives. -/
theorem allocDescriptor_eq (queue : SplitVirtqueue) :
    (allocDescriptor.run queue).1 = .ok queue.freelist.getLast? := by
  rw [allocDescriptor, Prog.run_bind_ok (Prog.run_read _ _)]
  simp only [id]
  cases queue.freelist.getLast? <;> rfl

/-- A length that is cut to 32 bits is itself when it fits. -/
theorem cut_iff {size : UInt64} : size.toUInt32.toNat = size.toNat ↔ size < 0x100000000 := by
  rw [UInt64.toNat_toUInt32, UInt64.lt_iff_toNat_lt]
  change _ ↔ _ < 4294967296
  omega

/-- A step makes its entries available as it should when it is no request, or finds what it
needs. -/
theorem owned_iff (sized : ∀ which, Sized (s.drivers.queue which))
    (stepped : step hhdm s act = some s') : Owned hhdm s act s' ↔ LastFree hhdm s act := by
  cases supplies sized stepped with
  | kept same dry =>
    constructor
    · intro _ call made region later found index last
      nomatch (dry call made region later found).symm.trans last
    · intro _ which index pushed
      rw [pushedSince_same (same which)] at pushed
      nomatch pushed
  | request call region later index made found last taken others =>
    have pushed : (s.drivers.queue call.which).pushedSince (s'.drivers.queue call.which) = [0] := by
      rw [taken, pushedSince_requested (sized call.which)]
    have bound : index.toNat < (s.drivers.queue call.which).descriptors.length := by
      rw [(sized call.which).descriptors]
      exact (sized call.which).free index (List.mem_of_getLast? last)
    have entry : (s'.drivers.queue call.which).descriptors[index.toNat]? =
        some ⟨region.phys, region.size.toUInt32, .write, 0⟩ := by
      rw [taken, requested, List.getElem?_set_self bound]
    constructor
    · intro owned other again region' later' found' index' last'
      obtain rfl := Option.some.inj (made.symm.trans again)
      obtain rfl := Option.some.inj (last.symm.trans last')
      obtain ⟨call', again', -, given, ⟨region', later', entry', found', held, -, length⟩, fresh⟩ :=
        owned call.which 0 (pushed ▸ List.mem_singleton_self 0)
      obtain rfl := Option.some.inj (made.symm.trans again')
      rw [allocDescriptor_eq, last] at given
      have zero : index = 0 := Option.some.inj (Except.ok.inj given)
      subst zero
      obtain rfl := Option.some.inj (entry.symm.trans held)
      rw [← region_size made found] at length ⊢
      exact ⟨rfl, fresh, cut_iff.mp length⟩
    · intro free which index' member
      obtain ⟨rfl, fresh, short⟩ := free call made region later found index last
      by_cases same : which = call.which
      · subst same
        rw [pushed, List.mem_singleton] at member
        subst member
        refine ⟨call, made, rfl, ?_, ⟨region, later, _, found, entry, rfl, ?_⟩, fresh⟩
        · rw [allocDescriptor_eq, last]
        · rw [← region_size made found] at short ⊢
          exact cut_iff.mpr short
      · rw [others which same, pushedSince_same rfl] at member
        nomatch member

/-- However the two drivers, their devices and the rest of the kernel take their steps from new
queues: every entry that is made available is one that the driver owns and has filled, if and only
if every request that finds a region and a free descriptor finds index 0 at the end of the free
list and not in flight, and is for less than 4 GiB. -/
theorem entries_owned_iff (input : SplitVirtqueue.new queueSize = .ok queue)
    (entropy : SplitVirtqueue.new requestSize = .ok requests) (pmm : Pmm) (acts : List Act) :
    Along (step hhdm) (Owned hhdm) (start pmm queue requests) acts ↔
      Along (step hhdm) (fun s act _ => LastFree hhdm s act) (start pmm queue requests) acts := by
  have begun : ∀ which, Sized ((start pmm queue requests).drivers.queue which) := by
    intro which
    cases which with
    | event => exact .of_new input
    | status => exact .of_new input
    | req => exact .of_new entropy
  apply Along.iff (fun s => ∀ which, Sized (s.drivers.queue which)) begun
  · intro s act _ s' sized stepped
    exact (owned_iff sized stepped).mp
  · intro s act s' sized stepped free
    exact ⟨(owned_iff sized stepped).mpr free, (supplies sized stepped).sized sized⟩

/-- A request that finds a region and a free descriptor has a queue of one descriptor, and is for
less than 4 GiB. -/
def Single (hhdm : UInt64) (s : DeviceRun) (act : Act) : Prop :=
  ∀ call, act.call hhdm = some call →
    ∀ region later, call.region.run s.drivers.pmm = (.ok region, later) →
    ∀ index, (s.drivers.queue call.which).freelist.getLast? = some index →
      (s.drivers.queue call.which).queueSize = 1 ∧ call.size < 0x100000000

/-- Every queue has all its descriptors and no entry in flight, or no descriptor. -/
def Unused (s : DeviceRun) : Prop :=
  ∀ which, Sized (s.drivers.queue which) ∧
    ((s.drivers.queue which).freelist =
        (List.range (s.drivers.queue which).queueSize).map UInt16.ofNat ∧
      (s.traffic which).inFlight = [] ∨ (s.drivers.queue which).freelist = [])

/-- Without a request no entry of a queue comes into flight. -/
theorem inFlight_kept (stepped : step hhdm s act = some s')
    (same : supply (s'.drivers.queue which) = supply (s.drivers.queue which))
    (nothing : (s.traffic which).inFlight = []) : (s'.traffic which).inFlight = [] := by
  have driven : ∀ program, s' = s.drive program → (s'.traffic which).inFlight = [] := by
    rintro program rfl
    change (s.traffic which).inFlight ++ _ = []
    rw [nothing, List.nil_append]
    exact pushedSince_same same
  rw [step] at stepped
  split at stepped
  · cases stepped
  · have led := (Option.some.inj stepped).symm
    cases act with
    | command select subsel => exact driven _ led
    | request byteLen => exact driven _ led
    | interrupt => exact driven _ led
    | complete other element =>
      subst led
      by_cases here : which = other
      · subst here
        simp [after, complete, nothing]
      · simp [after, complete, here, nothing]
    | world pmm intStatus =>
      subst led
      exact nothing

/-- In terms of the sizes of the queues: all requests find what they need when each has a queue of
one descriptor, and is for less than 4 GiB. -/
theorem lastFree_iff_single (input : SplitVirtqueue.new queueSize = .ok queue)
    (entropy : SplitVirtqueue.new requestSize = .ok requests) (pmm : Pmm) (acts : List Act) :
    Along (step hhdm) (fun s act _ => LastFree hhdm s act) (start pmm queue requests) acts ↔
      Along (step hhdm) (fun s act _ => Single hhdm s act) (start pmm queue requests) acts := by
  have full : ∀ {size : Nat} {made : SplitVirtqueue}, SplitVirtqueue.new size = .ok made →
      made.freelist = (List.range made.queueSize).map UInt16.ofNat := by
    intro size made accepted
    rw [Virtio.new_eq accepted]
  have begun : (start pmm queue requests).Unused := by
    intro which
    cases which with
    | event => exact ⟨.of_new input, .inl ⟨full input, rfl⟩⟩
    | status => exact ⟨.of_new input, .inl ⟨full input, rfl⟩⟩
    | req => exact ⟨.of_new entropy, .inl ⟨full entropy, rfl⟩⟩
  -- the last of all descriptors is the one before the size
  have last : ∀ {queue : SplitVirtqueue} {index : UInt16}, Sized queue →
      queue.freelist = (List.range queue.queueSize).map UInt16.ofNat →
      queue.freelist.getLast? = some index → index.toNat + 1 = queue.queueSize := by
    intro queue index sized all found
    obtain ⟨before, size⟩ := Nat.exists_eq_succ_of_ne_zero sized.positive.ne'
    have short := sized.short
    rw [all, size, Nat.succ_eq_add_one, List.range_succ, List.map_append, List.map_singleton,
      List.getLast?_concat] at found
    obtain rfl := Option.some.inj found
    rw [UInt16.toNat_ofNat', size]
    omega
  apply Along.iff Unused begun
  · intro s act _ s' unused _ free call made region later found index end_eq
    obtain ⟨zero, -, short⟩ := free call made region later found index end_eq
    obtain ⟨sized, ⟨all, -⟩ | dry⟩ := unused call.which
    · have size := last sized all end_eq
      rw [zero] at size
      exact ⟨size.symm, short⟩
    · rw [dry] at end_eq
      cases end_eq
  · intro s act s' unused stepped single
    have sized : ∀ which, Sized (s.drivers.queue which) := fun which => (unused which).1
    constructor
    · intro call made region later found index end_eq
      obtain ⟨size, short⟩ := single call made region later found index end_eq
      obtain ⟨sized, ⟨all, nothing⟩ | dry⟩ := unused call.which
      · have zero := last sized all end_eq
        rw [size] at zero
        exact ⟨UInt16.toNat_inj.mp (Nat.succ.inj zero), by simp [nothing], short⟩
      · rw [dry] at end_eq
        cases end_eq
    · intro which
      refine ⟨(supplies sized stepped).sized sized which, ?_⟩
      cases supplies sized stepped with
      | kept same _ =>
        have supplied := same which
        simp only [supply, Prod.mk.injEq] at supplied
        obtain ⟨size, free, -⟩ := supplied
        rw [size, free]
        exact (unused which).2.imp (fun fresh =>
          ⟨fresh.1, inFlight_kept stepped (same which) fresh.2⟩) id
      | request call region later index made found end_eq taken others =>
        by_cases here : which = call.which
        · obtain ⟨size, -⟩ := single call made region later found index end_eq
          obtain ⟨-, ⟨all, -⟩ | dry⟩ := unused call.which
          · right
            rw [here, taken]
            change (s.drivers.queue call.which).freelist.dropLast = []
            rw [all, size]
            rfl
          · rw [dry] at end_eq
            cases end_eq
        · have kept := others which here
          rw [kept]
          exact (unused which).2.imp (fun fresh =>
            ⟨fresh.1, inFlight_kept stepped (congrArg supply kept) fresh.2⟩) id

/-- Memory with two free frames. -/
def twoFrames : Pmm :=
  ⟨⟨0xffff800080000000, 0xffff800080001000, 2⟩, fun _ => 0xffff800080001000⟩

/-- A queue of eight descriptors, as `new` makes it. -/
def eight : SplitVirtqueue :=
  ⟨8, [0, 1, 2, 3, 4, 5, 6, 7], List.replicate 8 ⟨0, 0, 0, 0⟩, ⟨0, List.replicate 8 0⟩,
    ⟨0, List.replicate 8 ⟨0, 0⟩⟩, 0⟩

/-- A queue of one descriptor, as `new` makes it. -/
def smallest : SplitVirtqueue :=
  ⟨1, [0], [⟨0, 0, 0, 0⟩], ⟨0, [0]⟩, ⟨0, [⟨0, 0⟩]⟩, 0⟩

/-- With a queue of one descriptor, the first command publishes its own. -/
theorem entries_owned_smallest :
    ∃ s', step 0xffff800000000000 (start twoFrames smallest eight) (.command .idName 0) =
        some s' ∧ (s'.traffic .status).inFlight = [0] ∧
      Owned 0xffff800000000000 (start twoFrames smallest eight) (.command .idName 0) s' := by
  have input : SplitVirtqueue.new 1 = .ok smallest := by decide
  have entropy : SplitVirtqueue.new 8 = .ok eight := by decide
  have free : Along (step 0xffff800000000000)
      (fun s act _ => LastFree 0xffff800000000000 s act)
      (start twoFrames smallest eight) [.command .idName 0] := by
    intro s' _
    refine ⟨?_, trivial⟩
    intro call made region later found index last
    obtain rfl := Option.some.inj made
    obtain rfl := Option.some.inj last
    exact ⟨rfl, by decide, by decide⟩
  have owned := (entries_owned_iff input entropy twoFrames [.command .idName 0]).mpr free _ rfl
  exact ⟨_, rfl, by decide +kernel, owned.1⟩

/-- The command that `init` sends is given descriptor 7 and makes entry 0 available, whose
descriptor is empty. -/
theorem first_command_lost : SplitVirtqueue.new 8 = .ok eight ∧
    ∃ s', step 0xffff800000000000 (start twoFrames eight eight) (.command .idName 0) = some s' ∧
      (SplitVirtqueue.allocDescriptor.run eight).1 = .ok (some 7) ∧
      (s'.traffic .status).inFlight = [0] ∧
      (s'.drivers.queue .status).descriptors[0]? = some ⟨0, 0, 0, 0⟩ ∧
      ¬ Owned 0xffff800000000000 (start twoFrames eight eight) (.command .idName 0) s' := by
  refine ⟨by decide, _, rfl, by decide, by decide +kernel, by decide +kernel, ?_⟩
  intro owned
  have pushed : (0 : UInt16) ∈ ((start twoFrames eight eight).drivers.queue .status).pushedSince
      (((start twoFrames eight eight).after 0xffff800000000000
        (.command .idName 0)).drivers.queue .status) := by
    decide +kernel
  obtain ⟨_, -, -, given, -, -⟩ := owned .status 0 pushed
  exact absurd given (by decide)

end DeviceRun

end Lsd
