import Dx.Memory.AddressSpace
import Dx.Library.Run

/-!
# The memory machine

The system calls and the other events that change address spaces, as one machine: creating and
destroying address spaces and threads, `EXPAND_ADDRESS_SPACE`, sending and receiving messages,
`DELETE_MESSAGE`, `UNMAP_DEVICE` for memory, and writes by user threads, with the faults they cause.

One action is one system call or one event. What the code does not determine is part of the action:
the frames that are allocated, whether there is memory in the kernel's heap, and the ids of new
address spaces and threads. A message that has been sent is received by any thread: who receives it
is settled by mailboxes, which are not part of this machine.
-/

namespace Dx.Memory

inductive Action
  /-- `CREATE_ADDRESS_SPACE`, with the id of the new address space. -/
  | createAddressSpace (a : ℕ)
  /-- The last reference to an address space is dropped. -/
  | deleteAddressSpace (a : ℕ)
  /-- `CREATE_THREAD`, with the id of the new thread. -/
  | createThread (t a : ℕ) (capabilities : List Capability)
  /-- The last reference to a thread is dropped. -/
  | deleteThread (t : ℕ)
  /-- `EXPAND_ADDRESS_SPACE`; `frames` are the frames that are allocated, if there are enough. -/
  | expand (t : ℕ) (firstNewPage size : Word) (frames : Option (List ℕ)) (heap : Heap)
  | sendMessage (t : ℕ) (payload size receiverPayload : Word) (heap : Heap)
  /-- `RECEIVE_MESSAGE`, of message `m`. -/
  | receiveMessage (t m : ℕ) (frame : Option ℕ) (heap : Heap)
  /-- A message is deleted that is never received. -/
  | discardMessage (m : ℕ)
  | deleteMessage (t : ℕ) (data size : Word)
  /-- `UNMAP_DEVICE`, of memory. -/
  | unmapDevice (t : ℕ) (mappedAddress size : Word)
  /-- A user thread writes a byte. -/
  | write (t : ℕ) (address : Word) (byte : UInt8) (frame : Option ℕ) (heap : Heap)

namespace State

def finish (status : Status) (s : State) : State := { s with result := ⟨status, 0, 0⟩ }

/-! ### Address spaces and threads -/

/-- The loop of the destructor of an address space, with the next page that is present; there are no
more than `n` of them. -/
def releaseFrames (a : ℕ) : ℕ → ℕ → State → State
  | 0, _, s => s
  | n + 1, page, s =>
    let d := (s.space a).directory
    let (entry, page) := d.findPresentEntry page
    if userBase ≤ page then
      releaseFrames a n page ((s.setDirectory a (d.set .clear entry)).freeFrame (d.get entry).frame)
    else s

def destroyAddressSpace (a : ℕ) (s : State) : State :=
  let ids := (s.space a).sharedFrames.map (·.2)
  let s := (s.setSpace a { s.space a with sharedFrames := [] }).removeReferences ids
  let s := s.releaseFrames a (2 ^ 20 + 2 ^ 10) userBase
  { s with addressSpaces := s.addressSpaces.erase a }

def createThread (t a : ℕ) (capabilities : List Capability) (s : State) : State :=
  let (block, pools) := (s.space a).largePools.allocate 1
  let s := s.setSpace a { s.space a with largePools := pools }
  match block with
  | none => s.finish .insufficientMemory
  | some copyPage =>
    { s with
      threads := t :: s.threads
      thread := Function.update s.thread t ⟨a, copyPage, capabilities⟩ }.finish .success

def freeLargePayloadBlock (a block : ℕ) (s : State) : Status × State :=
  let (status, pools) := (s.space a).largePools.free block
  (status, s.setSpace a { s.space a with largePools := pools })

def destroyThread (t : ℕ) (s : State) : State :=
  let (_, s) := s.freeLargePayloadBlock (s.thread t).addressSpace (s.thread t).copyPage
  { s with threads := s.threads.erase t }

/-! ### Expanding an address space -/

def expandAddressSpacePageCount : ℕ := 96

/-- `expand`, once the arguments are known to be right: add `count` pages. -/
def addPages (a firstNewPage count : ℕ) (frames : Option (List ℕ)) (heap : Heap) (s : State) :
    Option State :=
  match frames with
  | none => some (s.finish .insufficientMemory)
  | some frames =>
    if frames.length = count ∧ s.Available frames then
      let (status, s) :=
        (s.allocateFrames frames).commitFrames a heap memoryUserDefault frames firstNewPage
      if status = .success then some (s.finish .success)
      else
        -- `decommit_frame` writes over the array of the frames that were allocated
        let (frames, s) := s.decommitFrames a count firstNewPage
        some ((s.freeFrames frames).finish status)
    else none

def expand (t firstNewPage size : ℕ) (frames : Option (List ℕ)) (heap : Heap) (s : State) :
    Option State :=
  let a := (s.thread t).addressSpace
  let count := pageCount 0 size
  let lastNewPage := (firstNewPage + (count - 1) * pageSize) % 2 ^ 32
  let nextPresentPage := ((s.space a).directory.findPresentEntry firstNewPage).2
  if .expandAddressSpace ∉ (s.thread t).capabilities then some (s.finish .accessDenied)
  else if count = 0 ∨ expandAddressSpacePageCount < count then some (s.finish .insufficientMemory)
  else if firstNewPage % pageSize ≠ 0 ∨ ¬ isUserAddress firstNewPage ∨ lastNewPage < firstNewPage then
    some (s.finish .invalidData)
  else if firstNewPage ≤ nextPresentPage ∧ nextPresentPage ≤ lastNewPage then
    some (s.finish .resourceConflict)
  else s.addPages a firstNewPage count frames heap

/-! ### Messages -/

/-- `memcpy` from an address space; `none` is a fault. -/
def readBytes (s : State) (a : ℕ) : ℕ → ℕ → Option (List UInt8)
  | 0, _ => some []
  | n + 1, address =>
    (s.read a address).bind fun byte =>
      (s.readBytes a n ((address + 1) % 2 ^ 32)).map fun bytes => byte :: bytes

/-- The destructor of a message, with what it has references to. -/
def removeMessage (m : ℕ) (s : State) : State :=
  { s with messages := s.messages.erase m }.removeReferences (s.message m).frames

def newMessage (payload : Payload) (s : State) : State :=
  { s with
    messages := s.nextMessage :: s.messages
    message := Function.update s.message s.nextMessage payload
    nextMessage := s.nextMessage + 1 }

/-- The checks of `large_message_c::collect_payload`; the result is where the payload is to go. -/
def checkPayload (capabilities : List Capability) (senderPayload : ℕ) (receiverPayload : Word) :
    Except Status (Option UserAddress) :=
  if senderPayload = 0 then .error .invalidData
  else if receiverPayload.toNat = 0 then .ok none
  else if .explicitTargetAddress ∉ capabilities then .error .accessDenied
  else if pageOffset senderPayload ≠ pageOffset receiverPayload.toNat then .error .ioError
  else if h : payloadAreaBase ≤ receiverPayload.toNat then
    .ok (some ⟨receiverPayload.toNat, h, receiverPayload.isLt⟩)
  else .error .accessDenied

/-- The end of a send: if the payload could not be collected then the message is deleted. -/
def finishCollecting (m : ℕ) (result : Status × State) : State :=
  (if result.1 = .success then result.2 else result.2.removeMessage m).finish result.1

/-- `large_message_c::collect_payload`, of a new message. -/
def collectLargePayload (t senderPayload size : ℕ) (receiverPayload : Word) (heap : Heap)
    (s : State) : State :=
  match checkPayload (s.thread t).capabilities senderPayload receiverPayload with
  | .error status => s.finish status
  | .ok target =>
    finishCollecting s.nextMessage
      ((s.newMessage (.large senderPayload size target [])).shareFrames (s.thread t).addressSpace
        s.nextMessage heap (pageCount senderPayload size) senderPayload)

/-- `allocate_message` and `collect_payload`. A medium message whose payload is not mapped faults. -/
def sendMessage (t payload size : ℕ) (receiverPayload : Word) (heap : Heap) (s : State) :
    Option State :=
  if mediumMessagePayloadSize < size ∨ receiverPayload.toNat ≠ 0 then
    some (s.collectLargePayload t payload size receiverPayload heap)
  else if 0 < size then
    (s.readBytes (s.thread t).addressSpace size payload).map fun bytes =>
      (s.newMessage (.medium bytes)).finish .success
  else some ((s.newMessage (.small payload)).finish .success)

/-- `allocate_medium_payload_block()`, if the frame it allocates can be allocated. -/
def allocateMediumPayloadBlock (a : ℕ) (heap : Heap) (frame : Option ℕ) (s : State) :
    Option (Option ℕ × State) :=
  let sp := s.space a
  match sp.mediumPool.allocateBlock with
  | (none, pool) => some (none, s.setSpace a { sp with mediumPool := pool })
  | (some block, pool) =>
    let failed (d : PageDirectory) : Option (Option ℕ × State) :=
      some (none, s.setSpace a { sp with directory := d, mediumPool := (pool.freeBlock block).2 })
    match sp.directory.findEntryExpand heap.table block with
    | none => failed sp.directory
    | some d =>
      if (d.get (d.findEntry block)).present then
        some (some block, s.setSpace a { sp with directory := d, mediumPool := pool })
      else
        match frame with
        | none => failed d
        | some frame =>
          if s.Available [frame] then
            some (some block, (s.allocateFrames [frame]).setSpace a { sp with
              directory := d.set (.ofFrame frame memoryUserDefault) (d.findEntry block)
              mediumPool := pool })
          else none

/-- `medium_message_c::deliver_payload`. -/
def deliverMediumPayload (t : ℕ) (bytes : List UInt8) (heap : Heap) (frame : Option ℕ) (s : State) :
    Option State :=
  let a := (s.thread t).addressSpace
  match s.allocateMediumPayloadBlock a heap frame with
  | none => none
  | some (none, s) => some (s.finish .insufficientMemory)
  | some (some block, s) =>
    match s.write a (s.thread t).copyPage block bytes heap frame with
    | some (true, s) => some { s with result := ⟨.success, block, bytes.length⟩ }
    | _ => none

/-- The end of `large_message_c::deliver_payload`: map the frames at `page`. -/
def mapPayload (a page payload size : ℕ) (frames : List ℕ) (heap : Heap) (s : State) : State :=
  let result := s.commitSharedFrames a heap memoryPayload frames page
  if result.1 = .success then { result.2 with result := ⟨.success, payload, size⟩ }
  else result.2.finish result.1

/-- `large_message_c::deliver_payload`. -/
def deliverLargePayload (t senderPayload size : ℕ) (receiverPayload : Option UserAddress)
    (frames : List ℕ) (heap : Heap) (s : State) : State :=
  let a := (s.thread t).addressSpace
  match receiverPayload with
  | some target => s.mapPayload a (pageBase target) target size frames heap
  | none =>
    let (block, pools) := (s.space a).largePools.allocate frames.length
    let s := s.setSpace a { s.space a with largePools := pools }
    match block with
    | none => s.finish .insufficientMemory
    | some page => s.mapPayload a page (page + pageOffset senderPayload) size frames heap

/-- `deliver_payload`, after which the message is deleted. -/
def receiveMessage (t m : ℕ) (frame : Option ℕ) (heap : Heap) (s : State) : Option State :=
  match s.message m with
  | .small word => some { s.removeMessage m with result := ⟨.success, word, 0⟩ }
  | .medium bytes => (s.deliverMediumPayload t bytes heap frame).map fun s => s.removeMessage m
  | .large sender size receiver frames =>
    some ((s.deliverLargePayload t sender size receiver frames heap).removeMessage m)

/-- `syscall_delete_message`. -/
def deleteMessage (t data size : ℕ) (s : State) : State :=
  let a := (s.thread t).addressSpace
  if 0 < size then
    if largePayloadPoolBase ≤ data then
      let (status, s) := (s.unshareFrames a (pageCount data size) data).freeLargePayloadBlock a data
      s.finish status
    else
      let (status, pool) := (s.space a).mediumPool.freeBlock data
      (s.setSpace a { s.space a with mediumPool := pool }).finish status
  else s.finish .success

/-- `device_proxy_c::unmap_memory`. -/
def unmapDevice (t mappedAddress size : ℕ) (s : State) : State :=
  let a := (s.thread t).addressSpace
  let count := pageCount mappedAddress size
  if .unmapDevice ∉ (s.thread t).capabilities then s.finish .accessDenied
  else if mappedAddress = 0 ∨ mappedAddress % pageSize ≠ 0 ∨ ¬ isUserAddress mappedAddress ∨
      count = 0 then s.finish .invalidData
  else
    let (_, s) := (s.decommitFrames a count mappedAddress).2.freeLargePayloadBlock a mappedAddress
    s.finish .success

/-- A write of a user thread: the page must be there for users. -/
def userWrite (t address : ℕ) (byte : UInt8) (frame : Option ℕ) (heap : Heap) (s : State) :
    Option State :=
  let d := (s.space (s.thread t).addressSpace).directory
  if (d.get (d.findEntry address)).present && (d.get (d.findEntry address)).user then
    (s.write (s.thread t).addressSpace (s.thread t).copyPage address [byte] heap frame).map (·.2)
  else none

/-! ### The machine -/

def step (s : State) (action : Action) : Option State :=
  let s := { s with returned := [] }
  match action with
  | .createAddressSpace a =>
    if a ∉ s.addressSpaces then
      some ({ s with addressSpaces := a :: s.addressSpaces }.setSpace a .new)
    else none
  | .deleteAddressSpace a =>
    if a ∈ s.addressSpaces ∧ a ≠ 0 ∧ ∀ t ∈ s.threads, (s.thread t).addressSpace ≠ a then
      some (s.destroyAddressSpace a)
    else none
  | .createThread t a capabilities =>
    if t ∉ s.threads ∧ a ∈ s.addressSpaces then some (s.createThread t a capabilities) else none
  | .deleteThread t => if t ∈ s.threads then some (s.destroyThread t) else none
  | .expand t first size frames heap =>
    if t ∈ s.threads then s.expand t first.toNat size.toNat frames heap else none
  | .sendMessage t payload size receiver heap =>
    if t ∈ s.threads then s.sendMessage t payload.toNat size.toNat receiver heap else none
  | .receiveMessage t m frame heap =>
    if t ∈ s.threads ∧ m ∈ s.messages then s.receiveMessage t m frame heap else none
  | .discardMessage m => if m ∈ s.messages then some (s.removeMessage m) else none
  | .deleteMessage t data size =>
    if t ∈ s.threads then some (s.deleteMessage t data.toNat size.toNat) else none
  | .unmapDevice t address size =>
    if t ∈ s.threads then some (s.unmapDevice t address.toNat size.toNat) else none
  | .write t address byte frame heap =>
    if t ∈ s.threads then s.userWrite t address.toNat byte frame heap else none

end State

/-- How the machine is started: where the ramdisk is, how much memory there is, and what is in it. -/
structure Boot where
  /-- The pages of the ramdisk. -/
  ramdisk : ℕ
  /-- Their number. -/
  ramdiskPages : ℕ
  /-- The end of the memory. -/
  memorySize : ℕ
  bytes : ℕ → UInt8
  /-- The ramdisk is made of whole pages. -/
  aligned : ramdisk % pageSize = 0
  /-- It is in the superpages for the kernel and the ramdisk. -/
  fits : ramdisk + ramdiskPages * pageSize ≤ kernelDataPage0Base

/-- The state after the kernel has started: one address space, its own, that shares the ramdisk. -/
def Boot.initial (boot : Boot) : State :=
  State.shareKernelFrames 0 boot.ramdiskPages boot.ramdisk
    { addressSpaces := [0]
      space := fun _ => .new
      threads := []
      thread := fun _ => ⟨0, 0, []⟩
      messages := []
      message := fun _ => .small 0
      nextMessage := 0
      descriptor := fun _ => none
      nextDescriptor := 0
      free := fun frame => decide (State.Managed frame ∧ frame < boot.memorySize)
      returned := []
      bytes := boot.bytes
      result := ⟨.success, 0, 0⟩ }

def Boot.small : Boot where
  ramdisk := 0x400000
  ramdiskPages := 0
  memorySize := 0xC10000
  bytes := fun _ => 0
  aligned := by decide
  fits := by decide

end Dx.Memory
