import Lsd.Verif.RequestEntries

/-!
# The completions of commands

The interrupt handler of the input device takes at most one element, and gives no
descriptor back. So it does what it should with the elements that are there only
when there are none; and as long as it finds none, the free list is full whenever
nothing is under way.
-/

namespace Lsd

open Program Transition

/-- The elements that the driver has not taken. -/
def Traffic.unread (traffic : Traffic) : List VirtqueueUsedElement :=
  traffic.published.drop traffic.popped

namespace DeviceRun

variable {hhdm : UInt64} {s s' : DeviceRun} {act : Act} {queueSize requestSize : Nat}
  {queue requests : SplitVirtqueue} {which other : DeviceQueue}

/-- The descriptors of a queue. -/
def indices (queue : SplitVirtqueue) : List UInt16 := (List.range queue.queueSize).map UInt16.ofNat

/-- The unread elements of the input device are each taken once, and their descriptors are given
back. -/
def Consumed (s s' : DeviceRun) : Prop :=
  ∀ which, which ≠ .req →
    (s'.traffic which).popped = (s.traffic which).published.length ∧
      (s'.drivers.queue which).freelist.Perm ((s.drivers.queue which).freelist ++
        (s.traffic which).unread.map fun element => element.startIndex.toUInt16)

/-- No command is under way, and no element of the input device is unread. -/
def Quiescent (s : DeviceRun) : Prop :=
  ∀ which, which ≠ .req → (s.traffic which).inFlight = [] ∧ (s.traffic which).unread = []

/-- Every interrupt takes the unread elements and gives their descriptors back, the free lists are
full whenever nothing is under way, and a command then finds a descriptor. -/
structure Recycled (s : DeviceRun) (act : Act) (s' : DeviceRun) : Prop where
  /-- What an interrupt does. -/
  consumed : act = .interrupt → Consumed s s'
  /-- The free lists hold all descriptors. -/
  full : s'.Quiescent → ∀ which, which ≠ .req →
    (s'.drivers.queue which).freelist.Perm (indices (s'.drivers.queue which))
  /-- A command is given a descriptor. -/
  supplied : s.Quiescent → ∀ select subsel, act = .command select subsel →
    (SplitVirtqueue.allocDescriptor.run (s.drivers.queue .status)).1 ≠ .ok none

/-- An interrupt finds no unread element. -/
def NothingUnread (s : DeviceRun) (act : Act) : Prop :=
  act = .interrupt → ∀ which, which ≠ .req → (s.traffic which).unread = []

/-- What holds as long as interrupts find nothing. -/
structure Untaken (s : DeviceRun) : Prop where
  /-- The sizes fit. -/
  sized : ∀ which, Sized (s.drivers.queue which)
  /-- No element was taken. -/
  popped : ∀ which, which ≠ .req → (s.traffic which).popped = 0
  /-- The driver has counted none. -/
  lastSeen : ∀ which, which ≠ .req → (s.drivers.queue which).lastSeen = 0
  /-- The device counts the elements. -/
  index : ∀ which, which ≠ .req →
    (s.drivers.queue which).used.index.toNat = (s.traffic which).published.length % 65536
  /-- A queue that nothing has passed through is full. -/
  full : ∀ which, which ≠ .req → (s.traffic which).published = [] →
    (s.traffic which).inFlight = [] →
      (s.drivers.queue which).freelist = indices (s.drivers.queue which)

/-- A driver that leaves the queues alone leaves what has passed through them. -/
theorem driven_same (traffic : Traffic) (queue : SplitVirtqueue) :
    traffic.driven queue queue = traffic := by
  have pushed : queue.pushedSince queue = [] := pushedSince_same rfl
  rw [Traffic.driven, pushed, List.append_nil, UInt16.sub_self]
  rfl

open SplitVirtqueue Drivers

/-- `pop` finds nothing when the counters are equal. -/
theorem pop_none (same : queue.lastSeen = queue.used.index) :
    pop.whole.run queue = (.ok none, queue) := by
  simp only [pop, Script.whole_bind, Script.whole_one, Script.whole_ite, Script.whole_pure]
  rw [Prog.run_bind_ok (Prog.run_read _ _), same, bne_self_eq_false]
  rfl

/-- The interrupt handler stops when it finds nothing. -/
theorem handleInt_none {drivers : Drivers}
    (nothing : ∀ which, which ≠ .req →
      (drivers.queue which).lastSeen = (drivers.queue which).used.index) :
    (Input.handleInt hhdm).run drivers = (.error (.panic "No used entry"), drivers) := by
  have status := onQueue_run .status drivers (pop_none (nothing .status (by decide)))
  have event := onQueue_run .event drivers (pop_none (nothing .event (by decide)))
  rw [putQueue_queue] at status event
  have taken : Input.completed.run drivers = (.error (.panic "No used entry"), drivers) := by
    rw [Input.completed, Prog.run_bind_ok status]
    simp only []
    rw [Prog.run_bind_ok event]
    rfl
  rw [Input.handleInt, Prog.run_bind_ok (Prog.run_read _ _), Prog.run_bind_stop taken]

/-- The part of a queue that a request leaves alone. -/
def seen (queue : SplitVirtqueue) : VirtqueueUsed × UInt16 := (queue.used, queue.lastSeen)

/-- `push` leaves it alone. -/
theorem keeps_push (index : UInt16) : Prog.Keeps seen (push index).whole := by
  simp only [push, Script.whole_bind, Script.whole_one]
  apply Prog.Keeps.bind
  · apply Prog.Keeps.bind (.read _)
    intro self
    apply Prog.Keeps.bind (keeps_remainder _ _)
    intro place
    exact .bind (keeps_checked _ _) fun _ => .pure _
  · intro place
    exact .bind (.update fun _ => rfl) fun _ => .update fun _ => rfl

/-- A request leaves it alone. -/
theorem keeps_makeRequest (region : DmaRegion) :
    Prog.Keeps (fun drivers => seen (drivers.queue other)) (makeRequest which region) := by
  apply Prog.Keeps.bind (keeps_onQueue _)
  · intro found
    apply Prog.Keeps.bind
    · cases found with
      | some index => exact .pure _
      | none => exact .stop _
    · intro index
      apply Prog.Keeps.bind (keeps_onQueue _)
      · intro _
        exact keeps_onQueue (keeps_push 0)
      · apply Prog.Keeps.bind (.read _)
        intro self
        exact .bind (keeps_checked _ _) fun _ => .update fun _ => rfl
  · apply Prog.Keeps.bind (.read _)
    intro self
    cases self.freelist.getLast? with
    | some index => exact .bind (.update fun _ => rfl) fun _ => .pure _
    | none => exact .pure _

/-- A request takes no element. -/
theorem call_seen {call : Call} (made : act.call hhdm = some call) :
    seen ((s.after hhdm act).drivers.queue other) = seen (s.drivers.queue other) := by
  obtain ⟨notify, keeps, same⟩ := @after_call hhdm s act call made
  rw [same]
  have region : Prog.Keeps (fun drivers : Drivers => seen (drivers.queue other))
      (Drivers.onPmm call.region) := by
    intro drivers
    cases ran : call.region.run drivers.pmm with
    | mk result later =>
      obtain ⟨middle, claimed, queues⟩ := onPmm_run ran
      rw [claimed]
      exact congrArg seen (queues other)
  have whole : Prog.Keeps (fun drivers : Drivers => seen (drivers.queue other))
      (call.program notify) :=
    .bind region fun _ => .bind (keeps_makeRequest _) fun _ =>
      .update fun drivers => congrArg seen (keeps drivers other)
  exact whole s.drivers

/-- What has passed through the queues after a request. -/
theorem call_traffic {call : Call} (made : act.call hhdm = some call) :
    (s.after hhdm act).traffic other = { s.traffic other with
      inFlight := (s.traffic other).inFlight ++ (s.drivers.queue other).pushedSince
        ((s.after hhdm act).drivers.queue other) } := by
  have same := @call_seen hhdm s act other call made
  obtain ⟨notify, keeps, again⟩ := @after_call hhdm s act call made
  rw [again] at same ⊢
  have counted : ((s.drive (call.program notify)).drivers.queue other).lastSeen =
      (s.drivers.queue other).lastSeen := (Prod.mk.inj same).2
  change (s.traffic other).driven _ _ = _
  rw [Traffic.driven]
  change ({ s.traffic other with
    inFlight := _
    popped := (s.traffic other).popped +
      (((s.drive (call.program notify)).drivers.queue other).lastSeen -
        (s.drivers.queue other).lastSeen).toNat } : Traffic) = _
  rw [counted, UInt16.sub_self]
  rfl

/-- New queues are untaken. -/
theorem Untaken.of_start (input : SplitVirtqueue.new queueSize = .ok queue)
    (entropy : SplitVirtqueue.new requestSize = .ok requests) (pmm : Pmm) :
    (start pmm queue requests).Untaken := by
  have made := Virtio.new_eq input
  constructor
  case sized =>
    intro which
    cases which with
    | event => exact .of_new input
    | status => exact .of_new input
    | req => exact .of_new entropy
  case popped => exact fun _ _ => rfl
  case lastSeen =>
    intro which apart
    cases which with
    | event | status => exact congrArg (·.lastSeen) made
    | req => exact absurd rfl apart
  case index =>
    intro which apart
    cases which with
    | event | status => exact congrArg (·.used.index.toNat) made
    | req => exact absurd rfl apart
  case full =>
    intro which apart _ _
    cases which with
    | event | status =>
      change queue.freelist = indices queue
      rw [made]
      rfl
    | req => exact absurd rfl apart

/-- A request leaves the queues untaken. -/
theorem Untaken.call {call : Call} (untaken : s.Untaken) (made : act.call hhdm = some call) :
    (s.after hhdm act).Untaken := by
  have supplies := supplies_call untaken.sized made
  have taken := fun other => @call_seen hhdm s act other call made
  have traffic := fun other => @call_traffic hhdm s act other call made
  constructor
  case sized => exact supplies.sized untaken.sized
  case popped =>
    intro which apart
    rw [traffic which]
    exact untaken.popped which apart
  case lastSeen =>
    intro which apart
    exact (Prod.mk.inj (taken which)).2.trans (untaken.lastSeen which apart)
  case index =>
    intro which apart
    rw [traffic which, (Prod.mk.inj (taken which)).1]
    exact untaken.index which apart
  case full =>
    intro which apart fresh idle
    rw [traffic which] at fresh idle
    obtain ⟨before, pushed⟩ := List.append_eq_nil_iff.mp idle
    cases supplies with
    | kept same none =>
      have supply := same which
      simp only [DeviceRun.supply, Prod.mk.injEq] at supply
      rw [indices, supply.1, supply.2.1]
      exact untaken.full which apart fresh before
    | request call region later index made found last taken others =>
      by_cases same : which = call.which
      · subst same
        rw [taken, pushedSince_requested (untaken.sized _)] at pushed
        cases pushed
      · rw [others which same]
        exact untaken.full which apart fresh before

/-- The counters of a queue are equal while nothing is unread. -/
theorem Untaken.counters (untaken : s.Untaken) (apart : which ≠ .req)
    (read : (s.traffic which).unread = []) :
    (s.traffic which).published = [] ∧
      (s.drivers.queue which).lastSeen = (s.drivers.queue which).used.index := by
  have fresh : (s.traffic which).published = [] := by
    rwa [Traffic.unread, untaken.popped which apart, List.drop_zero] at read
  refine ⟨fresh, ?_⟩
  rw [← UInt16.toNat_inj, untaken.lastSeen which apart, untaken.index which apart, fresh]
  rfl

/-- Whether the queues are untaken is told by them and by what has passed. -/
theorem Untaken.of_same (untaken : s.Untaken)
    (queues : ∀ which, s'.drivers.queue which = s.drivers.queue which)
    (traffic : s'.traffic = s.traffic) : s'.Untaken := by
  obtain ⟨sized, popped, lastSeen, index, full⟩ := untaken
  constructor
  all_goals simp only [queues, traffic]
  · exact sized
  · exact popped
  · exact lastSeen
  · exact index
  · exact full

/-- An element leaves the queues untaken. -/
theorem Untaken.complete (untaken : s.Untaken) (which : DeviceQueue)
    (element : VirtqueueUsedElement) : (s.complete which element).Untaken := by
  have queue : (s.complete which element).drivers.queue which = { s.drivers.queue which with
      used := ⟨(s.drivers.queue which).used.index + 1, (s.drivers.queue which).used.ring.set
        ((s.drivers.queue which).used.index.toNat % (s.drivers.queue which).queueSize) element⟩ } :=
    queue_putQueue_self _
  have queues : ∀ other, other ≠ which →
      (s.complete which element).drivers.queue other = s.drivers.queue other :=
    fun _ apart => queue_putQueue_ne _ apart
  have traffic : ((s.complete which element).traffic which).published =
      (s.traffic which).published ++ [element] :=
    congrArg (·.published) (Function.update_self which _ s.traffic)
  have traffics : ∀ other, other ≠ which →
      (s.complete which element).traffic other = s.traffic other :=
    fun _ apart => Function.update_of_ne apart _ _
  have popped : ((s.complete which element).traffic which).popped = (s.traffic which).popped :=
    congrArg (·.popped) (Function.update_self which _ s.traffic)
  constructor
  case sized =>
    intro other
    by_cases same : other = which
    · rw [same, queue]
      exact (untaken.sized which).of_supply rfl
    · rw [queues other same]
      exact untaken.sized other
  case popped =>
    intro other apart
    by_cases same : other = which
    · rw [same, popped]
      exact untaken.popped which (same ▸ apart)
    · rw [traffics other same]
      exact untaken.popped other apart
  case lastSeen =>
    intro other apart
    by_cases same : other = which
    · rw [same, queue]
      exact untaken.lastSeen which (same ▸ apart)
    · rw [queues other same]
      exact untaken.lastSeen other apart
  case index =>
    intro other apart
    by_cases same : other = which
    · have counted := untaken.index which (same ▸ apart)
      rw [same, queue, traffic, List.length_append, List.length_singleton,
        Virtio.toNat_succ, counted]
      omega
    · rw [queues other same, traffics other same]
      exact untaken.index other apart
  case full =>
    intro other apart fresh idle
    by_cases same : other = which
    · rw [same, traffic] at fresh
      exact absurd fresh (List.append_ne_nil_of_right_ne_nil _ (List.cons_ne_nil _ _))
    · rw [traffics other same] at fresh idle
      rw [queues other same]
      exact untaken.full other apart fresh idle

/-- An interrupt that finds nothing unread changes nothing but that the kernel stops. -/
theorem Untaken.interrupt (untaken : s.Untaken) (nothing : s.NothingUnread .interrupt) :
    (s.after hhdm .interrupt).drivers = s.drivers ∧
      (s.after hhdm .interrupt).traffic = s.traffic := by
  have stops := @handleInt_none hhdm s.drivers fun which apart =>
    (untaken.counters apart (nothing rfl which apart)).2
  rw [after, drive, stops]
  exact ⟨rfl, funext fun which => driven_same _ _⟩

/-- A step that finds nothing unread leaves the queues untaken. -/
theorem Untaken.step (untaken : s.Untaken) (stepped : step hhdm s act = some s')
    (nothing : s.NothingUnread act) : s'.Untaken := by
  rw [DeviceRun.step] at stepped
  split at stepped
  · cases stepped
  · obtain rfl := Option.some.inj stepped
    cases act with
    | command select subsel => exact untaken.call rfl
    | request byteLen => exact untaken.call rfl
    | interrupt =>
      obtain ⟨drivers, traffic⟩ := @Untaken.interrupt hhdm s untaken nothing
      exact untaken.of_same (fun which => by rw [drivers]) traffic
    | complete which element => exact untaken.complete which element
    | world pmm intStatus => exact untaken.of_same (fun which => by cases which <;> rfl) rfl

/-- The free lists are full when nothing is under way. -/
theorem Untaken.quiescent (untaken : s.Untaken) (quiescent : s.Quiescent) (apart : which ≠ .req) :
    (s.drivers.queue which).freelist = indices (s.drivers.queue which) := by
  obtain ⟨idle, read⟩ := quiescent which apart
  exact untaken.full which apart (untaken.counters apart read).1 idle

/-- While the queues are untaken, a step that finds nothing unread does what it should. -/
theorem Untaken.recycled (untaken : s.Untaken) (stepped : DeviceRun.step hhdm s act = some s')
    (nothing : s.NothingUnread act) : Recycled s act s' := by
  have later := untaken.step stepped nothing
  constructor
  case consumed =>
    rintro rfl which apart
    rw [DeviceRun.step] at stepped
    split at stepped
    · cases stepped
    · obtain rfl := Option.some.inj stepped
      obtain ⟨drivers, traffic⟩ := @Untaken.interrupt hhdm s untaken nothing
      have read := nothing rfl which apart
      rw [drivers, traffic, (untaken.counters apart read).1, untaken.popped which apart, read]
      exact ⟨rfl, .of_eq (List.append_nil _).symm⟩
  case full =>
    intro quiescent which apart
    exact .of_eq (later.quiescent quiescent apart)
  case supplied =>
    intro quiescent _ _ _ dry
    rw [allocDescriptor_eq] at dry
    have empty := List.getLast?_eq_none_iff.mp (Except.ok.inj dry)
    have full : (s.drivers.queue .status).freelist = indices (s.drivers.queue .status) :=
      untaken.quiescent quiescent (by decide)
    have positive := (untaken.sized .status).positive
    have length := congrArg List.length full
    rw [empty, indices, List.length_map, List.length_range, List.length_nil] at length
    omega

/-- An interrupt that does what it should finds nothing unread. -/
theorem Recycled.nothingUnread (recycled : Recycled s act s')
    (stepped : step hhdm s act = some s') : s.NothingUnread act := by
  rintro rfl which apart
  have given := (recycled.consumed rfl which apart).2
  rw [step] at stepped
  split at stepped
  · cases stepped
  · obtain rfl := Option.some.inj stepped
    have kept := @keeps_handleInt hhdm which s.drivers
    have same : ((s.after hhdm .interrupt).drivers.queue which).freelist =
        (s.drivers.queue which).freelist := (Prod.mk.inj (Prod.mk.inj kept).2).1
    have length := given.length_eq
    rw [same, List.length_append, List.length_map] at length
    exact List.eq_nil_of_length_eq_zero (by omega)

/-- However commands, requests, interrupts and completions follow each other from new queues: every
interrupt takes each unread element of the input device once and gives its descriptor back, the
free lists are full whenever nothing is under way, and commands do not run dry, if and only if no
interrupt finds an unread element. -/
theorem completions_recycled_iff (input : SplitVirtqueue.new queueSize = .ok queue)
    (entropy : SplitVirtqueue.new requestSize = .ok requests) (pmm : Pmm) (acts : List Act) :
    Along (step hhdm) Recycled (start pmm queue requests) acts ↔
      Along (step hhdm) (fun s act _ => s.NothingUnread act) (start pmm queue requests) acts := by
  apply Along.iff Untaken (.of_start input entropy pmm)
  · intro s act _ s' _ stepped recycled
    exact recycled.nothingUnread stepped
  · intro s act s' untaken stepped nothing
    exact ⟨untaken.recycled stepped nothing, untaken.step stepped nothing⟩

/-- A queue of two descriptors, as `new` makes it. -/
def two : SplitVirtqueue :=
  ⟨2, [0, 1], List.replicate 2 ⟨0, 0, 0, 0⟩, ⟨0, [0, 0]⟩, ⟨0, List.replicate 2 ⟨0, 0⟩⟩, 0⟩

/-- A command, then an interrupt while its element is not yet there: the handler stops, and nothing
is lost. -/
theorem completions_recycled_early :
    Along (step 0xffff800000000000) Recycled (start twoFrames two two)
      [.command .idName 0, .interrupt] := by
  have accepted : SplitVirtqueue.new 2 = .ok two := by decide
  apply (completions_recycled_iff accepted accepted twoFrames _).mpr
  intro s stepped
  refine ⟨fun interrupt => (nomatch interrupt), fun later _ => ⟨?_, trivial⟩⟩
  obtain rfl := Option.some.inj stepped
  rintro - (_ | _ | _) apart
  · decide +kernel
  · decide +kernel
  · exact absurd rfl apart

/-- A kernel that has not stopped takes a step. -/
theorem step_running (running : s.stopped = none) : step hhdm s act = some (s.after hhdm act) := by
  rw [step, running]

/-- A kernel that has not stopped goes on with its steps. -/
theorem steps_running (running : s.stopped = none) (acts : List Act) :
    (act :: acts).foldlM (step hhdm) s = acts.foldlM (step hhdm) (s.after hhdm act) := by
  rw [List.foldlM_cons, step_running running]
  rfl

/-- An element does not stop the kernel. -/
theorem complete_running (running : s.stopped = none) (which : DeviceQueue)
    (element : VirtqueueUsedElement) : (s.after hhdm (.complete which element)).stopped = none :=
  running

/-- Two commands whose elements are both there when the interrupt comes. -/
def twoCompleted : List Act :=
  [.command .idName 0, .command .idName 0, .complete .status ⟨0, 136⟩, .complete .status ⟨0, 136⟩]

/-- What they lead to. -/
def twoWaiting : DeviceRun :=
  twoCompleted.foldl (after 0xffff800000000000) (start twoFrames two two)

/-- The handler takes one of the two elements, acknowledges the interrupt and gives no descriptor
back; when it has taken the other nothing is under way, and no descriptor is free. -/
theorem second_element_left :
    twoCompleted.foldlM (step 0xffff800000000000) (start twoFrames two two) = some twoWaiting ∧
    ∃ s' s'', step 0xffff800000000000 twoWaiting .interrupt = some s' ∧
      s'.drivers.input.header.acked = [0] ∧ (s'.traffic .status).popped = 1 ∧
      (s'.traffic .status).published.length = 2 ∧ ¬ Recycled twoWaiting .interrupt s' ∧
      step 0xffff800000000000 s' .interrupt = some s'' ∧ (s''.traffic .status).unread = [] ∧
      (s''.traffic .status).inFlight = [] ∧ (s''.drivers.queue .status).freelist = [] := by
  have first : (start twoFrames two two).stopped = none := rfl
  have second : ((start twoFrames two two).after 0xffff800000000000
      (.command .idName 0)).stopped = none := by decide +kernel
  have third : (((start twoFrames two two).after 0xffff800000000000 (.command .idName 0)).after
      0xffff800000000000 (.command .idName 0)).stopped = none := by decide +kernel
  have waiting : twoWaiting.stopped = none := by decide +kernel
  have handled : (twoWaiting.after 0xffff800000000000 .interrupt).stopped = none := by
    decide +kernel
  have popped : ((twoWaiting.after 0xffff800000000000 .interrupt).traffic .status).popped = 1 := by
    decide +kernel
  refine ⟨?_, _, _, step_running waiting, by decide +kernel, popped, by decide +kernel, ?_,
    step_running handled, by decide +kernel, by decide +kernel, by decide +kernel⟩
  · exact (steps_running first _).trans ((steps_running second _).trans
      ((steps_running third _).trans (steps_running (complete_running third .status ⟨0, 136⟩) _)))
  · intro recycled
    have all := (recycled.consumed rfl .status (by decide)).1
    exact absurd (popped.symm.trans all) (by decide +kernel)

end DeviceRun

end Lsd
