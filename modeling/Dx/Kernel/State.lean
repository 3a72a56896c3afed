import Mathlib.Algebra.Group.Nat.Defs
import Dx.Library.PackedPool

/-!
# The state of the messaging kernel

The kernel proper is a set of threads that exchange messages. Each thread has a mailbox; every
message in a mailbox is at the same time a ticket in one pool, from which the scheduler draws
the thread to run next; a thread that sends and waits for the reply is blocked on the recipient
and lends it the processor. This module is the data: messages, the fields of a thread, the
pool, and what is left to do of the kernel calls that are in progress.

## The model

The machine has one processor. The sections of the source that hold a lock are atomic (the lock
disables interrupts), and between two of them the running thread may be interrupted, so a kernel
call is a list of `Frame`s, each of which is one atomic section or a call that is still to be
made; the frames of a thread, innermost call first, are its `stack`. An interrupt pushes its own
frames on the stack of the thread it interrupts.

A thread is named by its id, which no two threads share. A message is named by a reference, as
the source names it by its address; a reference is not used again for another message.

The fields of `State` are the fields of `thread_c`, `mailbox_c`, `message_c`, `io_manager_c`,
`thread_manager_c` and `device_proxy_c` that the messaging code reads and writes, each as a map
from threads (or messages) to values, followed by what the processor keeps for each thread.
`history` records what happened to each message and is read by nothing in the kernel.

What is *not* formalized here: address spaces and payloads (collecting or delivering a payload
succeeds or fails, either way), the counters kept for statistics, and the removal of interrupt
handlers.
-/

namespace Dx.Kernel

open Library

abbrev ThreadId := ℕ

abbrev MessageRef := ℕ

/-! ### Constants -/

/-- `THREAD_ID_NULL`: the idle thread. -/
def threadIdNull : ThreadId := 2 ^ 32 - 256
/-- `THREAD_ID_BOOT`: the context the kernel boots in. -/
def threadIdBoot : ThreadId := 2 ^ 32 - 16
/-- `THREAD_ID_CLEANUP`: the thread that deletes threads. -/
def threadIdCleanup : ThreadId := 2 ^ 32 - 15
/-- `THREAD_ID_LOOPBACK`: whichever thread uses it. -/
def threadIdLoopback : ThreadId := 2 ^ 32 - 2

/-- `MESSAGE_ID_ATOMIC`: the id of a message that expects no reply. -/
def messageIdAtomic : ℕ := 0xffffffff

def systemMessage (v : ℕ) : ℕ := 0x80000000 + v
def messageTypeNull : ℕ := systemMessage 0
def messageTypeAbort : ℕ := systemMessage 1
def messageTypeDeleteThread : ℕ := systemMessage 2
def messageTypeDeleteThreadComplete : ℕ := systemMessage 3
def messageTypeHandleInterrupt : ℕ := systemMessage 6

/-- `MAILBOX_DEFAULT_LIMIT`: a mailbox with this many messages is full. -/
def mailboxDefaultLimit : ℕ := 64
/-- `SCHEDULING_QUANTUM_DEFAULT`: the clock ticks a thread may run for. -/
def schedulingQuantumDefault : ℤ := 12

def capabilityCreateThread : ℕ := 0x10
def capabilityDeleteThread : ℕ := 0x20
def capabilityMapDevice : ℕ := 0x40
def capabilityAll : ℕ := 0xffffffff

/-- `INTERRUPT_VECTOR_PIC_COUNT`: the number of interrupt lines. -/
def interruptVectorPicCount : ℕ := 16

/-- `status_t`, as far as the messaging code produces it. -/
inductive Status
  | success
  | mailboxDisabled
  | threadExited
  | accessDenied
  | insufficientMemory
  | invalidData
  | ioError
  | mailboxEmpty
  | mailboxOverflow
  | messageDeadlock
deriving DecidableEq, Repr

/-- The value of a status, as the payload of a reply: a 32-bit word. -/
def Status.toWord : Status → ℕ
  | .success => 0
  | .mailboxDisabled => 2 ^ 32 - 1000
  | .threadExited => 2 ^ 32 - 1001
  | .accessDenied => 2 ^ 32 - 2
  | .insufficientMemory => 2 ^ 32 - 49
  | .invalidData => 2 ^ 32 - 28
  | .ioError => 2 ^ 32 - 29
  | .mailboxEmpty => 2 ^ 32 - 43
  | .mailboxOverflow => 2 ^ 32 - 64
  | .messageDeadlock => 2 ^ 32 - 16

/-! ### Messages and threads -/

/-- `message_c`: a message. Its place in the pool is kept by the pool. -/
structure Message where
  source : ThreadId
  destination : ThreadId
  type : ℕ
  /-- The id, by which a reply is matched to its request. -/
  id : ℕ
  /-- What `read_payload()` returns. -/
  payload : ℕ
  /-- A `small_message_c`, whose payload is a word and needs no memory. -/
  small : Bool
  /-- `MESSAGE_CONTROL_BLOCKING`: the sender waits for the reply. -/
  blocking : Bool
deriving DecidableEq, Repr, Inhabited

/-- `thread_state_t`. -/
inductive ThreadState
  | ready
  | blocked
deriving DecidableEq, Repr

/-- On whose behalf `get_message` takes a message from the mailbox. -/
inductive Reception
  /-- `receive_message`, which may wait for a message. -/
  | receive (wait : Bool)
  /-- The loop of the cleanup thread, which waits and then serves the message. -/
  | cleanup
  /-- `send_message`, for the reply of `recipient` to the request `requestId`. -/
  | reply (recipient : ThreadId) (requestId : ℕ)
deriving DecidableEq, Repr

/-- What is left to do of a kernel call: one atomic section, or a call still to be made. -/
inductive Frame
  /-- `put_message(m)`, after which the caller deletes `m` if it was not delivered. -/
  | putMessage (m : MessageRef)
  /-- `send_message(m)`; the flag says whether the caller deletes `m` when that fails. -/
  | sendMessage (m : MessageRef) (deletes : Bool)
  /-- The `put_message(m)` of `send_message`, once interrupts are off. -/
  | putRequest (m : MessageRef) (recipient : ThreadId) (requestId : ℕ) (interrupts deletes : Bool)
  | yield
  /-- `enable_interrupts(interrupts)`: back to the state before. -/
  | restoreInterrupts (interrupts : Bool)
  /-- `get_message()`: the part that takes the message from the mailbox. -/
  | getMessage (r : Reception)
  /-- `get_message()`: the part that takes the message from the pool. -/
  | removePending (m : MessageRef) (r : Reception)
  /-- `get_message()`: the part that delivers the payload. -/
  | deliverPayload (m : MessageRef) (r : Reception)
  /-- `abort_send_message()`, after `get_message` returned `status`. -/
  | abortSendMessage (recipient : ThreadId) (requestId : ℕ) (status : Status)
  /-- `send_message()` returns the reply `m` to its caller. -/
  | returnReply (recipient : ThreadId) (requestId : ℕ) (m : MessageRef)
  | deleteMessage (m : MessageRef)
  /-- `remove_reference(t)`. -/
  | dropReference (t : ThreadId)
  /-- The cleanup thread's `delete_thread(m)`, after which it deletes `m`. -/
  | deleteThread (m : MessageRef)
  /-- `victim.mark_for_deletion(acknowledgement)`, in `delete_messages`. -/
  | markForDeletion (victim : ThreadId) (acknowledgement : Option MessageRef)
  /-- The rest of `delete_messages`: to take the leftover messages from the pool, and so on. -/
  | unlinkMessages (leftover : List MessageRef)
  /-- The rest of `delete_messages`: to answer and delete the leftover messages. -/
  | abortMessages (leftover : List MessageRef)
  /-- `thread_table.remove(victim)`, after which the reference of the table is dropped. -/
  | removeFromTable (victim : ThreadId)
  /-- The loop of `wake_interrupt_handlers`, before handler `i` of `n`. -/
  | wakeInterruptHandlers (irq i n : ℕ)
deriving DecidableEq, Repr

inductive Event
  /-- It was put at the tail of its destination's mailbox. -/
  | queued (m : MessageRef)
  /-- It was put at the head, as the reply its destination was blocked for. -/
  | woke (m : MessageRef)
  /-- Its destination took it from its mailbox. -/
  | taken (m : MessageRef)
  /-- Its payload was delivered, and `get_message` returned it. -/
  | received (m : MessageRef)
  /-- Its payload could not be delivered, and `get_message` returned that error. -/
  | failed (m : MessageRef)
  /-- It was left over when its destination was marked for deletion. -/
  | discarded (m : MessageRef)
  /-- The reply to the discarded message `m` is `response`. -/
  | aborted (m response : MessageRef)
deriving DecidableEq, Repr

/-! ### The state -/

structure State where
  /-- `thread_c::blocking_message_id`. -/
  blockingMessageId : ThreadId → ℕ
  /-- `thread_c::blocking_thread`. -/
  blockingThread : ThreadId → Option ThreadId
  /-- `thread_c::bonus_message`. -/
  bonusMessage : ThreadId → Option MessageRef
  /-- `thread_c::capability_mask`. -/
  capabilityMask : ThreadId → ℕ
  /-- `thread_c::deletion_acknowledgement`. -/
  deletionAcknowledgement : ThreadId → Option MessageRef
  /-- `thread_c::mailbox.enabled`. -/
  mailboxEnabled : ThreadId → Bool
  /-- `thread_c::mailbox.message_queue`, head first. -/
  messageQueue : ThreadId → List MessageRef
  /-- `thread_c::state`. -/
  threadState : ThreadId → ThreadState
  /-- `thread_c::tick_count`. -/
  tickCount : ThreadId → ℤ
  /-- `thread_c::reference_count`. -/
  referenceCount : ThreadId → ℤ
  message : MessageRef → Message
  /-- `io_manager_c::pending_messages`, with `message_c::pool_index`. -/
  pendingMessages : Pool MessageRef
  /-- `thread_manager_c::thread_table`. -/
  threadTable : List ThreadId
  /-- `device_proxy_c::interrupt_handler`. -/
  interruptHandler : ℕ → List ThreadId
  currentThread : ThreadId
  /-- The interrupt flag of each thread. -/
  interruptsEnabled : ThreadId → Bool
  /-- What is left of the kernel calls of each thread, innermost first. -/
  stack : ThreadId → List Frame
  /-- The thread has had the processor. -/
  started : ThreadId → Bool
  /-- The thread object has been destroyed. -/
  destroyed : ThreadId → Bool
  /-- The threads that have ever been created. -/
  threads : List ThreadId
  /-- The messages that have been allocated and not been deleted. -/
  allocated : List MessageRef
  /-- The next reference for a message. -/
  nextMessage : MessageRef
  /-- What happened to each message, first event first. -/
  history : List Event

namespace State

/-- Call `frames`, first one first, from the running thread. -/
def push (frames : List Frame) (s : State) : State :=
  { s with stack := Function.update s.stack s.currentThread (frames ++ s.stack s.currentThread) }

def record (e : Event) (s : State) : State := { s with history := s.history ++ [e] }

/-- `thread_c::has_capability`. -/
def hasCapability (s : State) (t : ThreadId) (capability : ℕ) : Bool :=
  s.capabilityMask t &&& capability == capability

end State

end Dx.Kernel
