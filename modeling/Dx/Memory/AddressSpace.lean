import Dx.Memory.PayloadPool
import Dx.Memory.FrameManager
import Dx.Library.Bytes

/-!
# Address spaces

`address_space.cpp` and `shared_frame.cpp`. An address space has a page directory, the pools its
payload blocks come from, and a table of the pages it shares with others. A page that is not shared
owns its frame; a page that is shared refers to a frame through a descriptor with a reference count,
and so does a message on its way from one address space to another.

Nothing but the code keeps the page directory and the table of shared pages in step, and the frames,
the descriptors and the reference counts are common to all address spaces. So the state is that of
all of them together, and each function says which address space it is called on.

What is left open is part of the call: which frames the page frame manager allocates, if it does,
and for which page tables, descriptors and nodes of the table of shared pages there is memory in the
kernel's heap. A page that gets no node is silently not in the table; a list that cannot grow stops
the kernel, so lists always can. The kernel's locks make each of these functions atomic.
-/

namespace Dx.Memory

open Library Function

/-- `address_space_c`. -/
structure AddressSpace where
  directory : PageDirectory
  /-- `medium_payload_pool`. -/
  mediumPool : MemoryPool
  /-- `large_payload_pool`. -/
  largePools : LargePools
  /-- `shared_frame_table`: the shared pages, each with its descriptor. -/
  sharedFrames : List (ℕ × ℕ)

def mediumMessagePayloadSize : ℕ := 256

def AddressSpace.new : AddressSpace where
  directory := .new
  mediumPool := .new mediumPayloadPoolBase (mediumMessagePayloadSize * 1024) mediumMessagePayloadSize
  largePools := .new
  sharedFrames := []

/-- `shared_frame_c`. -/
structure SharedFrame where
  address : ℕ
  referenceCount : ℕ
deriving DecidableEq, Repr

inductive Capability
  | expandAddressSpace
  | explicitTargetAddress
  | unmapDevice
deriving DecidableEq, Repr

/-- `thread_c`, as far as memory is concerned. -/
structure Thread where
  addressSpace : ℕ
  copyPage : ℕ
  /-- `capability_mask`. -/
  capabilities : List Capability
deriving DecidableEq, Repr

/-- An address at which a payload may be mapped. -/
abbrev UserAddress := { v : ℕ // payloadAreaBase ≤ v ∧ v < 2 ^ 32 }

inductive Payload
  /-- `small_message_c`: one word. -/
  | small (word : ℕ)
  /-- `medium_message_c`: a copy of the bytes. -/
  | medium (bytes : List UInt8)
  /-- `large_message_c`: the descriptors of the frames, and where they are to be mapped, unless the
  receiver's address space is to choose. -/
  | large (senderPayload size : ℕ) (receiverPayload : Option UserAddress) (frames : List ℕ)
deriving DecidableEq, Repr

def Payload.frames : Payload → List ℕ
  | .large _ _ _ frames => frames
  | _ => []

/-- Append a frame to `frame_list`. -/
def Payload.addFrame (id : ℕ) : Payload → Payload
  | .large sender size receiver frames => .large sender size receiver (frames ++ [id])
  | payload => payload

structure Result where
  status : Status
  /-- `data3`: the payload. -/
  payload : ℕ
  /-- `data4`: its size. -/
  size : ℕ
deriving DecidableEq, Repr

/-- The memory of the whole system. -/
structure State where
  /-- The address spaces that exist. -/
  addressSpaces : List ℕ
  space : ℕ → AddressSpace
  /-- The threads that exist. -/
  threads : List ℕ
  thread : ℕ → Thread
  /-- The messages that have been sent and not received. -/
  messages : List ℕ
  message : ℕ → Payload
  nextMessage : ℕ
  descriptor : ℕ → Option SharedFrame
  nextDescriptor : ℕ
  /-- The frames the page frame manager has. -/
  free : ℕ → Bool
  /-- The frames that have been returned to it since the last action began. -/
  returned : List ℕ
  /-- The physical memory. -/
  bytes : ℕ → UInt8
  /-- What the last system call returned. -/
  result : Result

/-- For what there is memory in the kernel's heap. -/
structure Heap where
  /-- For a page table, at an index of the directory. -/
  table : ℕ → Bool
  /-- For a descriptor, of a page. -/
  descriptor : ℕ → Bool
  /-- For a node of the table of shared pages, with its key, of a page. -/
  node : ℕ → Bool

def Heap.plenty : Heap := ⟨fun _ => true, fun _ => true, fun _ => true⟩

/-- `shared_frame_table.add(page, shared_frame)`. -/
def AddressSpace.addShared (heap : Heap) (page id : ℕ) (sp : AddressSpace) : List (ℕ × ℕ) :=
  if heap.node page then sp.sharedFrames ++ [(page, id)] else sp.sharedFrames

namespace State

/-- Change the address space `a`. -/
def setSpace (a : ℕ) (sp : AddressSpace) (s : State) : State :=
  { s with space := update s.space a sp }

/-- Change the page directory of `a`. -/
def setDirectory (a : ℕ) (d : PageDirectory) (s : State) : State :=
  s.setSpace a { s.space a with directory := d }

/-! ### Frames -/

def Managed (frame : ℕ) : Prop := frame % pageSize = 0 ∧ kernelPagedBoundary ≤ frame
deriving Decidable

/-- `allocate_frames` can return these frames. -/
def Available (s : State) (frames : List ℕ) : Prop :=
  frames.Nodup ∧ ∀ frame ∈ frames, s.free frame = true ∧ Managed frame
deriving Decidable

/-- `allocate_frames`, when these are the frames. -/
def allocateFrames (frames : List ℕ) (s : State) : State :=
  { s with free := fun frame => s.free frame && decide (frame ∉ frames) }

/-- `free_frames(&frame, 1)`. The memory below the boundary is not in any region. -/
def freeFrame (frame : ℕ) (s : State) : State :=
  if frame < kernelPagedBoundary then s
  else { s with free := update s.free frame true, returned := frame :: s.returned }

def freeFrames (frames : List ℕ) (s : State) : State :=
  frames.foldl (fun s frame => s.freeFrame frame) s

def addReference (id : ℕ) (s : State) : State :=
  match s.descriptor id with
  | none => s
  | some d => { s with
      descriptor := update s.descriptor id (some { d with referenceCount := d.referenceCount + 1 }) }

/-- `remove_reference(shared_frame)`: the destructor frees the frame. -/
def removeReference (id : ℕ) (s : State) : State :=
  match s.descriptor id with
  | none => s
  | some d =>
    if d.referenceCount = 1 then
      { s with descriptor := update s.descriptor id none }.freeFrame d.address
    else { s with
      descriptor := update s.descriptor id (some { d with referenceCount := d.referenceCount - 1 }) }

/-- `remove_reference`, of each. -/
def removeReferences (ids : List ℕ) (s : State) : State :=
  ids.foldl (fun s id => s.removeReference id) s

def translate (s : State) (a address : ℕ) : Option ℕ := (s.space a).directory.translate address

def read (s : State) (a address : ℕ) : Option UInt8 := (s.translate a address).map s.bytes

/-! ### Sharing -/

/-- `share_frame(address)`: the descriptor, which now has one more reference. -/
def shareFrame (a address : ℕ) (heap : Heap) (s : State) : Option ℕ × State :=
  let sp := s.space a
  let page := pageBase address
  match sp.sharedFrames.lookup page with
  | some id => (some id, s.addReference id)
  | none =>
    let e := sp.directory.get (sp.directory.findEntry page)
    if e.superPage then (none, s)
    else if e.present then
      let d := sp.directory.sharePage page
      if heap.descriptor page then
        -- one reference for the table, and one for the caller
        (some s.nextDescriptor,
          { s with
            descriptor := update s.descriptor s.nextDescriptor (some ⟨e.frame, 2⟩)
            nextDescriptor := s.nextDescriptor + 1 }.setSpace a
          { sp with directory := d, sharedFrames := sp.addShared heap page s.nextDescriptor })
      else (none, s.setDirectory a (d.clearPage page))
    else (none, s)

def addFrame (m id : ℕ) (s : State) : State :=
  { s with message := update s.message m ((s.message m).addFrame id) }

/-- The loop of `share_frame(address, size, frame_list)`, where the list is that of message `m`. -/
def shareFrames (a m : ℕ) (heap : Heap) : ℕ → ℕ → State → Status × State
  | 0, _, s => (.success, s)
  | n + 1, page, s =>
    match s.shareFrame a page heap with
    | (none, s) => (.insufficientMemory, s)
    | (some id, s) => shareFrames a m heap n ((page + pageSize) % 2 ^ 32) (s.addFrame m id)

def unshareFrame (a address : ℕ) (s : State) : State :=
  let sp := s.space a
  let page := pageBase address
  let e := sp.directory.get (sp.directory.findEntry page)
  match sp.sharedFrames.lookup page with
  | some id =>
    (s.setSpace a { sp with
      directory := if e.superPage then sp.directory else sp.directory.clearPage page
      sharedFrames := sp.sharedFrames.eraseP fun x => x.1 == page }).removeReference id
  | none =>
    if e.present then (s.setDirectory a (sp.directory.clearPage page)).freeFrame e.frame else s

/-- The loop of `unshare_frame(address, size)`. -/
def unshareFrames (a : ℕ) : ℕ → ℕ → State → State
  | 0, _, s => s
  | n + 1, page, s => unshareFrames a n ((page + pageSize) % 2 ^ 32) (s.unshareFrame a page)

/-- The loop of `share_kernel_frames(address, size)`, with `n` blocks left. -/
def shareKernelFrames (a : ℕ) : ℕ → ℕ → State → State
  | 0, _, s => s
  | n + 1, block, s =>
    shareKernelFrames a n (block + pageSize)
      (match (s.space a).sharedFrames.lookup block with
      | some _ => s
      | none =>
        { s with
          descriptor := update s.descriptor s.nextDescriptor (some ⟨block, 1⟩)
          nextDescriptor := s.nextDescriptor + 1 }.setSpace a
        { s.space a with
          sharedFrames := (s.space a).sharedFrames ++ [(block, s.nextDescriptor)] })

/-! ### Committing -/

/-- The loop of `commit_frame(page, page_count, frame, flags)`. -/
def commitFrames (a : ℕ) (heap : Heap) (flags : MemoryFlags) : List ℕ → ℕ → State → Status × State
  | [], _, s => (.success, s)
  | frame :: frames, page, s =>
    match (s.space a).directory.commitPage heap.table page frame flags with
    | .error status => (status, s)
    | .ok d => commitFrames a heap flags frames ((page + pageSize) % 2 ^ 32) (s.setDirectory a d)

/-- The loop of `commit_frame(page, frame, flags)`, of shared frames. -/
def commitSharedFrames (a : ℕ) (heap : Heap) (flags : MemoryFlags) :
    List ℕ → ℕ → State → Status × State
  | [], _, s => (.success, s)
  | id :: ids, page, s =>
    match (s.space a).directory.commitPage heap.table page
        (((s.descriptor id).map SharedFrame.address).getD 0) flags with
    | .error status => (status, s)
    | .ok d =>
      commitSharedFrames a heap flags ids ((page + pageSize) % 2 ^ 32)
        ((s.addReference id).setSpace a { s.space a with
          directory := d
          sharedFrames := (s.space a).addShared heap page id })

/-- The loop of `decommit_frame(page, page_count, frame)`. -/
def decommitFrames (a : ℕ) : ℕ → ℕ → State → List ℕ × State
  | 0, _, s => ([], s)
  | n + 1, page, s =>
    let d := (s.space a).directory
    let (frames, s') := decommitFrames a n ((page + pageSize) % 2 ^ 32)
      (s.setDirectory a (d.clearPage page))
    ((d.get (d.findEntry page)).frame :: frames, s')

/-! ### Writing -/

/-- `memcpy`, of one frame to another. -/
def copyFrame (bytes : ℕ → UInt8) (source target : ℕ) : ℕ → UInt8 := fun x =>
  if target ≤ x ∧ x < target + pageSize then bytes (source + (x - target)) else bytes x

/-- The middle of `copy_on_write`: the frame is allocated and mapped at the copy page, the page is
copied, and the copy page is unmapped. -/
def copyOut (a copyPage frame source target : ℕ) (d : PageDirectory) (s : State) : State :=
  { s.allocateFrames [frame] with bytes := copyFrame s.bytes source target }.setDirectory a
    (d.clearPage copyPage)

/-- The end of `copy_on_write`: the page is bound to the new frame. Its entry is still in its
place. -/
def rebind (a address frame : ℕ) (heap : Heap) (s : State) : State :=
  let s := s.unshareFrame a address
  match (s.space a).directory.commitPage heap.table address frame memoryUserDefault with
  | .ok d => s.setDirectory a d
  | .error _ => s

/-- `copy_on_write(address)`, of a thread with the given copy page; `frame` is what
`allocate_frames` returns. If something is mapped at the copy page, then the copy goes there, and if
it may not be written then the kernel faults again. -/
def copyOnWrite (a copyPage address : ℕ) (heap : Heap) (frame : Option ℕ) (s : State) :
    Option (Bool × State) :=
  let d := (s.space a).directory
  let entry := d.get (d.findEntry address)
  if entry.copyOnWrite then
    match d.findEntryExpand heap.table copyPage, frame with
    | none, _ => some (false, s)
    | some d, none => some (false, s.setDirectory a d)
    | some d, some frame =>
      let copyEntry := d.get (d.findEntry copyPage)
      if s.Available [frame] then
        if copyEntry.present && !copyEntry.writable then none
        else
          let target := if copyEntry.present then copyEntry.frame else frame
          some (true, (s.copyOut a copyPage frame entry.frame target d).rebind a address frame heap)
      else none
  else some (false, s)

/-- Write bytes within one page; a page that is read-only is copied first. The result is whether the
bytes have been written, or else there is a fault that the kernel does not resolve. -/
def write (a copyPage address : ℕ) (bytes : List UInt8) (heap : Heap) (frame : Option ℕ) (s : State) :
    Option (Bool × State) :=
  let d := (s.space a).directory
  let e := d.get (d.findEntry address)
  if e.present && e.writable then
    (s.translate a address).map fun x => (true, { s with bytes := store s.bytes x bytes })
  else
    match s.copyOnWrite a copyPage address heap frame with
    | some (true, s) =>
      (s.translate a address).map fun x => (true, { s with bytes := store s.bytes x bytes })
    | other => other

end State

end Dx.Memory
