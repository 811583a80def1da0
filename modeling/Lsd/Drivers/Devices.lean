import Lsd.Drivers.SplitQueue
import Lsd.Memory.Dma

/-!
# The input and entropy drivers

`drivers::virtio::input` and `drivers::virtio::entropy` on their queues. A
request claims a region for its answer, fills a descriptor with it, makes an
entry available and notifies the device; the interrupt handler of the input
device takes an element that it has used. The registers are those that these
paths read and write.
-/

namespace Lsd

open Program

/-- The queues of the two drivers. -/
inductive DeviceQueue where
  /-- `Input::eventqueue`. -/
  | event
  /-- `Input::statusqueue`. -/
  | status
  /-- `Entropy::req`. -/
  | req
deriving DecidableEq, Repr

/-- `VirtIOHeader`. -/
structure VirtIOHeader where
  /-- `int_status`. -/
  intStatus : UInt32
  /-- What was written to `queue_notify`. -/
  notified : List UInt32
  /-- What was written to `int_ack`. -/
  acked : List UInt32

/-- `Input`. -/
structure Input where
  /-- Its registers. -/
  header : VirtIOHeader
  /-- The queue of events. -/
  eventqueue : SplitVirtqueue
  /-- The queue of commands. -/
  statusqueue : SplitVirtqueue

/-- `Entropy`. -/
structure Entropy where
  /-- Its registers. -/
  header : VirtIOHeader
  /-- The queue of requests. -/
  req : SplitVirtqueue

/-- The drivers, and the memory they share with their devices. -/
structure Drivers where
  /-- Memory and the frame list. -/
  pmm : Pmm
  /-- `INPUT_DEV`. -/
  input : Input
  /-- The entropy driver. -/
  entropy : Entropy
  /-- The characters of the names that were printed. -/
  printed : List UInt8

namespace Drivers

/-- A queue of the drivers. -/
def queue (s : Drivers) : DeviceQueue → SplitVirtqueue
  | .event => s.input.eventqueue
  | .status => s.input.statusqueue
  | .req => s.entropy.req

/-- The drivers with a queue replaced. -/
def putQueue (which : DeviceQueue) (s : Drivers) (queue : SplitVirtqueue) : Drivers :=
  match which with
  | .event => { s with input := { s.input with eventqueue := queue } }
  | .status => { s with input := { s.input with statusqueue := queue } }
  | .req => { s with entropy := { s.entropy with req := queue } }

/-- Code on memory and the frame list. -/
def onPmm {α : Type} (program : Kernel Pmm α) : Kernel Drivers α :=
  program.within (·.pmm) fun s pmm => { s with pmm := pmm }

/-- Code on a queue. -/
def onQueue {α : Type} (which : DeviceQueue) (program : Kernel SplitVirtqueue α) :
    Kernel Drivers α :=
  program.within (·.queue which) (putQueue which)

/-- A request for a region to be written: a descriptor is taken and filled, and the entry with
index 0 is made available. -/
def makeRequest (which : DeviceQueue) (region : DmaRegion) : Kernel Drivers Unit := do
  let desc : VirtqueueDescriptor := ⟨region.phys, region.size.toUInt32, .write, 0⟩
  let found ← onQueue which SplitVirtqueue.allocDescriptor
  let idx ← unwrapSome found
  onQueue which (SplitVirtqueue.writeDescriptor idx desc)
  onQueue which (SplitVirtqueue.push 0).whole

end Drivers

open Drivers

/-- `InputConfigSelect`. -/
inductive InputConfigSelect where
  | unset | idName | idSerial | idDevIDs | propBits | evBits | absInfo
deriving DecidableEq, Repr

/-- The discriminants of `InputConfigSelect`. -/
def InputConfigSelect.byte : InputConfigSelect → UInt8
  | .unset => 0x00
  | .idName => 0x01
  | .idSerial => 0x02
  | .idDevIDs => 0x03
  | .propBits => 0x10
  | .evBits => 0x11
  | .absInfo => 0x12

/-- The value with a discriminant. -/
def InputConfigSelect.ofByte (byte : UInt8) : Option InputConfigSelect :=
  [unset, idName, idSerial, idDevIDs, propBits, evBits, absInfo].find? (·.byte = byte)

/-- The names of the values, as they are printed. -/
def InputConfigSelect.name : InputConfigSelect → String
  | .unset => "Unset"
  | .idName => "IDName"
  | .idSerial => "IDSerial"
  | .idDevIDs => "IDDevIDs"
  | .propBits => "PropBits"
  | .evBits => "EVBits"
  | .absInfo => "ABSInfo"

namespace Input

/-- `size_of::<InputConfig>()`. -/
def configSize : UInt64 := 136

/-- The region of a command: its selectors, and zeroes. -/
def commandRegion (hhdm : UInt64) (select : InputConfigSelect) (subsel : UInt8) :
    Kernel Pmm DmaRegion := do
  let region ← DmaRegion.newRaw hhdm configSize true
  storeByte region.virt select.byte
  storeByte (region.virt + 1) subsel
  DmaRegion.zero (region.virt + 2) 134
  pure region

/-- `Input::command`. -/
def command (hhdm : UInt64) (select : InputConfigSelect) (subsel : UInt8) :
    Kernel Drivers Unit := do
  let region ← onPmm (commandRegion hhdm select subsel)
  makeRequest .status region
  Prog.update fun s =>
    let header := { s.input.header with notified := s.input.header.notified ++ [1] }
    { s with input := { s.input with header := header } }

/-- The descriptor of the element that `handle_int` takes: from the commands, or else from the
events. -/
def completed : Kernel Drivers VirtqueueDescriptor := do
  let index ← onQueue .status SplitVirtqueue.pop.whole
  match index with
  | some index => onQueue .status (SplitVirtqueue.readDescriptor index.startIndex.toUInt16)
  | none => do
    let index ← onQueue .event SplitVirtqueue.pop.whole
    match index with
    | some index => onQueue .event (SplitVirtqueue.readDescriptor index.startIndex.toUInt16)
    | none => Prog.stop (.panic "No used entry")

/-- A character of the name that `handle_int` prints. -/
def printName (config : UInt64) (index : Nat) : Kernel Drivers Unit := do
  let place ← SplitVirtqueue.checked 128 index
  Prog.update fun s =>
    { s with printed := s.printed ++ [byteAt s.pmm.memory (config + 8 + UInt64.ofNat place)] }

/-- The match of `handle_int` on the request that a configuration is for. -/
def handleConfig (config : UInt64) : Option InputConfigSelect → Kernel Drivers Unit
  | some .idName => do
    let size ← Prog.read fun s => byteAt s.pmm.memory (config + 2)
    (List.range size.toNat).forM (printName config)
  | some req => Prog.stop (.panic s!"Cant handle request `{req.name}` yet")
  -- no value of the enumeration has the byte that was read
  | none => Prog.stop (.panic "Cant handle request")

/-- `handle_int`. -/
def handleInt (hhdm : UInt64) : Kernel Drivers Unit := do
  let status ← Prog.read (·.input.header.intStatus)
  let desc ← completed
  let config := desc.address + hhdm
  let select ← Prog.read fun s => InputConfigSelect.ofByte (byteAt s.pmm.memory config)
  handleConfig config select
  Prog.update fun s =>
    let header := { s.input.header with acked := s.input.header.acked ++ [status] }
    { s with input := { s.input with header := header } }

end Input

namespace Entropy

/-- The region of a request: zeroes. -/
def requestRegion (hhdm byteLen : UInt64) : Kernel Pmm DmaRegion := do
  let dma ← DmaRegion.newMany hhdm byteLen
  DmaRegion.zero dma.virt byteLen.toNat
  pure dma

/-- `Entropy::request`. -/
def request (hhdm byteLen : UInt64) : Kernel Drivers Unit := do
  let region ← onPmm (requestRegion hhdm byteLen)
  makeRequest .req region
  Prog.update fun s =>
    let header := { s.entropy.header with notified := s.entropy.header.notified ++ [0] }
    { s with entropy := { s.entropy with header := header } }

end Entropy

end Lsd
