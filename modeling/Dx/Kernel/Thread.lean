import Dx.Kernel.State
import Dx.Library.Chain

/-!
# Threads

The methods of `thread_c`, and the reference counts of the threads. A thread's mailbox takes a
message at its tail, unless the message is the reply the thread is blocked for, which goes to
its head and unblocks it; the thread that puts a blocking message blocks on the recipient.

`findBlockingThread` follows the blocked threads to the one that keeps them all from running.
Its loop is bounded here by the number of threads, so that it is a total function: `none` is a
loop that does not end.
-/

namespace Dx.Kernel.State

open Library Function

/-! ### References -/

def addReference (t : ThreadId) (s : State) : State :=
  { s with referenceCount := update s.referenceCount t (s.referenceCount t + 1) }

/-- `~thread_c`: the thread gives up the reference to the thread it was blocked on, and the
acknowledgement of its deletion is put. -/
def destroyThread (t : ThreadId) (s : State) : State :=
  { s with
    destroyed := update s.destroyed t true
    blockingThread := update s.blockingThread t none
    threadState := update s.threadState t .ready
    deletionAcknowledgement := update s.deletionAcknowledgement t none }.push
    ((s.blockingThread t).toList.map Frame.dropReference ++
      (s.deletionAcknowledgement t).toList.map Frame.putMessage)

/-- `remove_reference(t)`: the last reference takes the thread with it. -/
def removeReference (t : ThreadId) (s : State) : State :=
  let count := s.referenceCount t - 1
  let s := { s with referenceCount := update s.referenceCount t count }
  if count = 0 then s.destroyThread t else s

/-- `remove_reference` changes the counts and what the destruction of a thread changes; the
messages, the mailboxes and the pool it leaves alone. -/
theorem removeReference_eq (t : ThreadId) (s : State) :
    ∃ referenceCount destroyed blockingThread threadState deletionAcknowledgement stack,
      s.removeReference t = { s with
        referenceCount := referenceCount, destroyed := destroyed,
        blockingThread := blockingThread, threadState := threadState,
        deletionAcknowledgement := deletionAcknowledgement, stack := stack } := by
  rw [removeReference]
  split <;> exact ⟨_, _, _, _, _, _, rfl⟩

/-- `new message`, whose reference is `s.nextMessage`: it refers to its source and its
destination. -/
def allocateMessage (message : Message) (s : State) : State :=
  ({ s with
    message := update s.message s.nextMessage message
    allocated := s.allocated ++ [s.nextMessage]
    nextMessage := s.nextMessage + 1 }.addReference message.source).addReference
      message.destination

@[simp] theorem message_allocateMessage (message : Message) (s : State) :
    (s.allocateMessage message).message s.nextMessage = message := by
  simp [allocateMessage, addReference]

/-- The reply of a given type and payload to a request (`small_message_c(request, ..)`). -/
def response (s : State) (request : MessageRef) (type payload : ℕ) : Message where
  source := (s.message request).destination
  destination := (s.message request).source
  type := type
  id := (s.message request).id
  payload := payload
  small := true
  blocking := false

/-! ### Blocking -/

/-- `thread_c::find_blocking_thread`: the thread that keeps `t` from running, if it is blocked. -/
def findBlockingThread (s : State) (t : ThreadId) : Option (Option ThreadId) :=
  match s.blockingThread t with
  | none => some none
  | some b => (chase s.blockingThread (s.threads.length + 1) b).map some

/-- `thread_c::causes_scheduling_loop`: putting the message to `t` would make the running thread
wait for itself. -/
def causesSchedulingLoop (s : State) (t : ThreadId) (m : MessageRef) : Option Bool :=
  if (s.message m).blocking then
    if s.currentThread = t then some true
    else (s.findBlockingThread t).map fun b => b == some s.currentThread
  else some false

/-- `thread_c::block_on`: the running thread waits for the reply of `t`, if the message asks for
one. -/
def blockOn (t : ThreadId) (m : MessageRef) (s : State) : State :=
  if (s.message m).blocking then
    { s with
      threadState := update s.threadState s.currentThread .blocked
      blockingMessageId := update s.blockingMessageId s.currentThread (s.message m).id
      blockingThread := update s.blockingThread s.currentThread (some t) }.addReference t
  else s

/-- The test of `thread_c::unblock_on`: the message is the reply `t` is blocked for. -/
def unblocks (s : State) (t : ThreadId) (m : MessageRef) : Bool :=
  s.threadState t == .blocked && s.blockingThread t == some (s.message m).source &&
    s.blockingMessageId t == (s.message m).id

/-- The effect of `thread_c::unblock_on` once the test has succeeded, so that the source of the
message is the thread `t` was blocked on. -/
def unblock (t : ThreadId) (m : MessageRef) (s : State) : State :=
  let s := { s with threadState := update s.threadState t .ready }
  let s := s.removeReference (s.message m).source
  { s with blockingThread := update s.blockingThread t none }

theorem unblock_eq (t : ThreadId) (m : MessageRef) (s : State) :
    ∃ referenceCount destroyed blockingThread threadState deletionAcknowledgement stack,
      s.unblock t m = { s with
        referenceCount := referenceCount, destroyed := destroyed,
        blockingThread := blockingThread, threadState := threadState,
        deletionAcknowledgement := deletionAcknowledgement, stack := stack } := by
  obtain ⟨rc, de, bt, ts, ak, st, h⟩ := removeReference_eq (s.message m).source
    { s with threadState := update s.threadState t .ready }
  refine ⟨rc, de, update bt t none, ts, ak, st, ?_⟩
  simp only [unblock, h]

theorem blockOn_eq (t : ThreadId) (m : MessageRef) (s : State) :
    ∃ referenceCount blockingThread threadState blockingMessageId, s.blockOn t m = { s with
        referenceCount := referenceCount, blockingThread := blockingThread,
        threadState := threadState, blockingMessageId := blockingMessageId } := by
  rw [blockOn]
  split
  · exact ⟨_, _, _, _, rfl⟩
  · exact ⟨_, _, _, _, rfl⟩

/-! ### The mailbox -/

/-- `message_queue.push_head(m)`. -/
def pushHead (t : ThreadId) (m : MessageRef) (s : State) : State :=
  { s with messageQueue := update s.messageQueue t (m :: s.messageQueue t) }.record
    (.woke m)

/-- `message_queue.push(m)`. -/
def pushTail (t : ThreadId) (m : MessageRef) (s : State) : State :=
  { s with messageQueue := update s.messageQueue t (s.messageQueue t ++ [m]) }.record
    (.queued m)

/-- `mailbox.overflow()`. -/
def mailboxOverflow (s : State) (t : ThreadId) : Bool :=
  mailboxDefaultLimit ≤ (s.messageQueue t).length

/-- `thread_c::put_message`, of thread `t`; `none` when the search for a loop does not end. -/
def threadPutMessage (t : ThreadId) (m : MessageRef) (s : State) : Option (Status × State) :=
  if s.mailboxEnabled t = false then some (.mailboxDisabled, s)
  else
    match s.causesSchedulingLoop t m with
    | none => none
    | some true => some (.messageDeadlock, s)
    | some false =>
      if s.unblocks t m then some (.success, ((s.unblock t m).pushHead t m).blockOn t m)
      else if s.mailboxOverflow t then some (.mailboxOverflow, s)
      else some (.success, (s.pushTail t m).blockOn t m)

/-- `thread_c::get_message`, of the running thread, when the mailbox is not empty. -/
def popMessage (m : MessageRef) (rest : List MessageRef) (s : State) : State :=
  { s with messageQueue := update s.messageQueue s.currentThread rest }.record (.taken m)

/-- `thread_c::get_bonus_message`, of thread `t`: it no longer has a bonus message. -/
def clearBonusMessage (t : ThreadId) (s : State) : State :=
  { s with bonusMessage := update s.bonusMessage t none }

/-- The test of `thread_c::maybe_put_bonus_message`: the running thread has nothing in the pool. -/
def needsBonusMessage (s : State) : Bool :=
  s.mailboxEnabled s.currentThread && (s.messageQueue s.currentThread).isEmpty &&
    (s.bonusMessage s.currentThread).isNone

/-- The message `thread_c::maybe_put_bonus_message` allocates. -/
def bonusFor (t : ThreadId) : Message where
  source := threadIdNull
  destination := t
  type := messageTypeNull
  id := messageIdAtomic
  payload := 0xffffffff
  small := true
  blocking := false

/-- The messages `thread_c::mark_for_deletion` takes from thread `t`. -/
def leftoverMessages (s : State) (t : ThreadId) : List MessageRef :=
  s.messageQueue t ++ (s.bonusMessage t).toList

/-- `thread_c::mark_for_deletion`, of thread `t`. -/
def markForDeletion (t : ThreadId) (acknowledgement : Option MessageRef) (s : State) : State :=
  { s with
    mailboxEnabled := update s.mailboxEnabled t false
    messageQueue := update s.messageQueue t []
    bonusMessage := update s.bonusMessage t none
    deletionAcknowledgement :=
      match acknowledgement with
      | none => s.deletionAcknowledgement
      | some a => update s.deletionAcknowledgement t (some a)
    history := s.history ++ (s.leftoverMessages t).map Event.discarded }

end Dx.Kernel.State
