import Dx.Kernel.Thread
import Dx.Library.Run
import Dx.Library.Update

/-!
# The messaging machine

The I/O manager (`put_message`, `get_message`, `send_message`, `delete_messages` and the lottery
of `select_next_thread`), the thread manager, the cleanup thread and the interrupts, as one
machine that takes a step at a time.

## The model

`step s a` is the action `a` in the state `s`:

* `run` — the running thread does the innermost frame of its stack;
* `call` — a thread that is not in the kernel makes a system call;
* `loop` — the cleanup thread or the null thread goes round its loop;
* `clock` — the clock interrupts the running thread, and the lottery is drawn when its quantum
  is over;
* `device` — a device interrupts the running thread, which sends a message to every thread that
  handles the interrupt.

What the code does not determine is part of the action: whether a payload can be collected or
delivered, the ticket that is drawn, the id `rand()` gives, the id of a new thread. Memory for
messages never runs out.
-/

namespace Dx.Kernel

open Library Function

/-- What is left open in the step of a frame. -/
structure Outcome where
  /-- What collecting or delivering the payload of the message returns, if it is not small. -/
  payload : Status
  /-- The slot of the ticket that is drawn. -/
  lot : ℕ
  /-- The id `rand()` gives a message. -/
  random : ℕ
deriving DecidableEq, Repr

inductive SystemCall
  | sendMessage (destination : ThreadId) (type id payload : ℕ) (small : Bool)
  | sendAndReceiveMessage (destination : ThreadId) (type id payload : ℕ) (small : Bool)
  | receiveMessage (wait : Bool)
  /-- `DELETE_THREAD`, with the id `rand()` gives the request. -/
  | deleteThread (victim : ThreadId) (random : ℕ)
  /-- `CREATE_THREAD`, with the id of the new thread. -/
  | createThread (id : ThreadId) (capabilityMask : ℕ)
  /-- `MAP_DEVICE`, of an interrupt. -/
  | registerInterruptHandler (irq : ℕ)
deriving DecidableEq, Repr

inductive Action
  /-- The innermost frame of the running thread. -/
  | run (o : Outcome)
  /-- A system call of the running thread. -/
  | call (c : SystemCall)
  /-- Once more round the loop of the cleanup thread or the null thread. -/
  | loop
  /-- An interrupt of the clock. -/
  | clock (lot : ℕ)
  /-- An interrupt of a device. -/
  | device (irq : ℕ)
deriving DecidableEq, Repr

namespace State

/-! ### Putting a message -/

/-- `pending_messages += m`. -/
def addPending (m : MessageRef) (s : State) : State :=
  { s with pendingMessages := s.pendingMessages.add m }

/-- `pending_messages -= m`. -/
def dropPending (m : MessageRef) (s : State) : State :=
  { s with pendingMessages := s.pendingMessages.remove m }

/-- `collect_payload()` or `deliver_payload()`, which cannot fail for a small message. -/
def payloadStatus (payload : Status) (m : MessageRef) (s : State) : Status :=
  if (s.message m).small then .success else payload

/-- `io_manager_c::put_message`, up to the test for an overflow. -/
def putMessage (payload : Status) (m : MessageRef) (s : State) : Option (Status × State) :=
  if s.payloadStatus payload m = .success then
    match s.threadPutMessage (s.message m).destination m with
    | none => none
    | some (status, s') => some (status, if status = .success then s'.addPending m else s')
  else some (s.payloadStatus payload m, s)

/-- The message `io_manager_c::put_message` sends when the mailbox of `t` is full. -/
def deletionRequest (t : ThreadId) : Message where
  source := threadIdNull
  destination := threadIdCleanup
  type := messageTypeDeleteThread
  id := messageIdAtomic
  payload := t
  small := true
  blocking := false

/-- The end of `io_manager_c::put_message`: a thread whose mailbox is full is to be deleted. -/
def killOnOverflow (status : Status) (t : ThreadId) (s : State) : State :=
  if status = .mailboxOverflow then
    (s.allocateMessage (deletionRequest t)).push [.putMessage s.nextMessage]
  else s

/-- What putting the message `m` can come to. -/
inductive Put (s : State) (m : MessageRef) : Status → State → Prop
  /-- The message is not taken, and nothing changes. -/
  | refused {status : Status} : status ≠ .success → Put s m status s
  /-- The message is the reply its destination is blocked for. -/
  | woken : s.mailboxEnabled (s.message m).destination = true →
      s.causesSchedulingLoop (s.message m).destination m = some false →
      s.unblocks (s.message m).destination m = true →
      Put s m .success ((((s.unblock (s.message m).destination m).pushHead
        (s.message m).destination m).blockOn (s.message m).destination m).addPending m)
  /-- The message is queued. -/
  | queued : s.mailboxEnabled (s.message m).destination = true →
      s.causesSchedulingLoop (s.message m).destination m = some false →
      s.unblocks (s.message m).destination m = false →
      s.mailboxOverflow (s.message m).destination = false →
      Put s m .success (((s.pushTail (s.message m).destination m).blockOn
        (s.message m).destination m).addPending m)

variable {s s' : State} {lot : ℕ}

theorem put_of_putMessage {payload status : Status} {m : MessageRef}
    (h : s.putMessage payload m = some (status, s')) : Put s m status s' := by
  rw [putMessage] at h
  split at h
  case isFalse hpay =>
    cases h
    exact .refused hpay
  simp only [threadPutMessage] at h
  cases hen : s.mailboxEnabled (s.message m).destination with
  | false =>
    simp only [hen, if_true, reduceCtorEq, if_false, Option.some.injEq, Prod.mk.injEq] at h
    obtain ⟨rfl, rfl⟩ := h
    exact .refused (by simp)
  | true =>
    simp only [hen, reduceCtorEq, if_false] at h
    cases hloop : s.causesSchedulingLoop (s.message m).destination m with
    | none => simp [hloop] at h
    | some loop =>
      cases loop with
      | true =>
        simp only [hloop, reduceCtorEq, if_false, Option.some.injEq, Prod.mk.injEq] at h
        obtain ⟨rfl, rfl⟩ := h
        exact .refused (by simp)
      | false =>
        cases hun : s.unblocks (s.message m).destination m with
        | true =>
          simp only [hloop, hun, if_true, Option.some.injEq, Prod.mk.injEq] at h
          obtain ⟨rfl, rfl⟩ := h
          exact .woken hen hloop hun
        | false =>
          cases hov : s.mailboxOverflow (s.message m).destination with
          | true =>
            simp only [hloop, hun, hov, if_true, if_false, Bool.false_eq_true, reduceCtorEq,
              Option.some.injEq, Prod.mk.injEq] at h
            obtain ⟨rfl, rfl⟩ := h
            exact .refused (by simp)
          | false =>
            simp only [hloop, hun, hov, if_true, if_false, Bool.false_eq_true, Option.some.injEq,
              Prod.mk.injEq] at h
            obtain ⟨rfl, rfl⟩ := h
            exact .queued hen hloop hun hov

/-! ### The lottery -/

/-- The lottery of `select_next_thread`: the thread whose ticket is drawn, which gives up its
bonus message; the null thread when there are no tickets. -/
def drawThread (lot : ℕ) (s : State) : Option (ThreadId × State) :=
  if s.pendingMessages.items = [] then some (threadIdNull, s)
  else
    match s.pendingMessages.items[lot]? with
    | none => none
    | some m =>
      match s.bonusMessage (s.message m).destination with
      | none => some ((s.message m).destination, s)
      | some b =>
        some ((s.message m).destination,
          (s.clearBonusMessage (s.message m).destination).dropPending b)

/-- `io_manager_c::select_next_thread`: the thread that keeps the running thread from running;
or else the winner of the lottery, or the thread that keeps the winner from running. -/
def selectNextThread (lot : ℕ) (s : State) : Option (ThreadId × State) :=
  match s.findBlockingThread s.currentThread with
  | none => none
  | some (some t) => some (t, s)
  | some none =>
    match s.drawThread lot with
    | none => none
    | some (t, s') =>
      match s'.findBlockingThread t with
      | none => none
      | some none => some (t, s')
      | some (some t') => some (t', s')

/-- The processor goes to `t`, with a new quantum. -/
def switchTo (t : ThreadId) (s : State) : State :=
  { s with
    currentThread := t
    started := update s.started t true
    tickCount := update s.tickCount t schedulingQuantumDefault }

/-- `INTERRUPT_VECTOR_YIELD`. -/
def yield (lot : ℕ) (s : State) : Option State :=
  match s.selectNextThread lot with
  | none => none
  | some (t, s') => some (s'.switchTo t)

/-- What drawing a ticket can come to. -/
inductive Drawn (lot : ℕ) (s : State) : ThreadId → State → Prop
  /-- There are no tickets. -/
  | idle : s.pendingMessages.items = [] → Drawn lot s threadIdNull s
  /-- The ticket of a thread that has no bonus message. -/
  | ticket {m : MessageRef} : s.pendingMessages.items[lot]? = some m →
      s.bonusMessage (s.message m).destination = none → Drawn lot s (s.message m).destination s
  /-- The ticket of a thread that has a bonus message. -/
  | bonus {m b : MessageRef} : s.pendingMessages.items[lot]? = some m →
      s.bonusMessage (s.message m).destination = some b →
      Drawn lot s (s.message m).destination
        ((s.clearBonusMessage (s.message m).destination).dropPending b)

theorem drawn_of_drawThread {t : ThreadId} (h : s.drawThread lot = some (t, s')) :
    Drawn lot s t s' := by
  rw [drawThread] at h
  split at h
  case isTrue hempty =>
    cases h
    exact .idle hempty
  split at h
  case h_1 => cases h
  case h_2 m hm =>
    split at h
    case h_1 hb =>
      cases h
      exact .ticket hm hb
    case h_2 b hb =>
      cases h
      exact .bonus hm hb

/-- What selecting the next thread can come to. -/
inductive Selected (lot : ℕ) (s : State) : ThreadId → State → Prop
  /-- The running thread is blocked, and hands the processor on. -/
  | handoff {t : ThreadId} : s.findBlockingThread s.currentThread = some (some t) →
      Selected lot s t s
  /-- The winner of the lottery can run. -/
  | winner {t : ThreadId} {s' : State} : s.findBlockingThread s.currentThread = some none →
      Drawn lot s t s' → s'.findBlockingThread t = some none → Selected lot s t s'
  /-- The winner of the lottery is blocked, and hands the processor on. -/
  | passed {w t : ThreadId} {s' : State} : s.findBlockingThread s.currentThread = some none →
      Drawn lot s w s' → s'.findBlockingThread w = some (some t) → Selected lot s t s'

theorem selected_of_selectNextThread {t : ThreadId} (h : s.selectNextThread lot = some (t, s')) :
    Selected lot s t s' := by
  rw [selectNextThread] at h
  split at h
  case h_1 => cases h
  case h_2 hb =>
    cases h
    exact .handoff hb
  case h_3 hb =>
    split at h
    case h_1 => cases h
    case h_2 w s₁ hd =>
      have hd := drawn_of_drawThread hd
      split at h
      case h_1 => cases h
      case h_2 hw =>
        cases h
        exact .winner hb hd hw
      case h_3 hw =>
        cases h
        exact .passed hb hd hw

theorem yield_eq_some (h : s.yield lot = some s') :
    ∃ t s₁, Selected lot s t s₁ ∧ s' = s₁.switchTo t := by
  rw [yield] at h
  split at h
  case h_1 => cases h
  case h_2 t s₁ hs =>
    cases h
    exact ⟨t, s₁, selected_of_selectNextThread hs, rfl⟩

/-- Giving up the processor changes who has it, and the bonus message of the winner. -/
theorem yield_eq (hy : s.yield lot = some s') :
    ∃ bonusMessage pendingMessages currentThread started tickCount, s' = { s with
        bonusMessage := bonusMessage, pendingMessages := pendingMessages,
        currentThread := currentThread, started := started, tickCount := tickCount } := by
  obtain ⟨t, s₁, hsel, rfl⟩ := yield_eq_some hy
  cases hsel with
  | handoff => exact ⟨_, _, _, _, _, rfl⟩
  | winner _ hd | passed _ hd => cases hd <;> exact ⟨_, _, _, _, _, rfl⟩

/-- `thread_c::maybe_put_bonus_message`, and its message into the pool. -/
def maybePutBonusMessage (s : State) : State :=
  if s.needsBonusMessage then
    let b := s.nextMessage
    let s := s.allocateMessage (bonusFor s.currentThread)
    { s with bonusMessage := update s.bonusMessage s.currentThread (some b) }.addPending b
  else s

def tick (s : State) : State :=
  { s with
    tickCount := update s.tickCount s.currentThread (s.tickCount s.currentThread - 1) }

/-- The running thread is about to lose the processor: unless it is the null thread it keeps a
ticket in the pool. -/
def keepTicket (s : State) : State :=
  if s.currentThread = threadIdNull then s else s.maybePutBonusMessage

theorem keepTicket_cases {P : State → Prop} (hs : P s)
    (hbonus : s.needsBonusMessage = true → P ({ s.allocateMessage (bonusFor s.currentThread) with
      bonusMessage := update s.bonusMessage s.currentThread (some s.nextMessage) }.addPending
        s.nextMessage)) : P s.keepTicket := by
  rw [keepTicket]
  split
  · exact hs
  rw [maybePutBonusMessage]
  split
  case isTrue hneeds => exact hbonus hneeds
  case isFalse => exact hs

theorem keepTicket_eq (s : State) :
    ∃ message allocated nextMessage referenceCount bonusMessage pendingMessages,
      s.keepTicket = { s with
        message := message, allocated := allocated, nextMessage := nextMessage,
        referenceCount := referenceCount, bonusMessage := bonusMessage,
        pendingMessages := pendingMessages } := by
  rw [keepTicket]
  split
  · exact ⟨_, _, _, _, _, _, rfl⟩
  rw [maybePutBonusMessage]
  split <;> exact ⟨_, _, _, _, _, _, rfl⟩

theorem quantum_eq (hy : s.tick.keepTicket.yield lot = some s') :
    ∃ message allocated nextMessage referenceCount bonusMessage pendingMessages currentThread started
        tickCount,
      s' = { s with
        message := message, allocated := allocated, nextMessage := nextMessage,
        referenceCount := referenceCount, bonusMessage := bonusMessage,
        pendingMessages := pendingMessages, currentThread := currentThread, started := started,
        tickCount := tickCount } := by
  obtain ⟨_, _, _, _, _, hkeep⟩ := yield_eq hy
  obtain ⟨_, _, _, _, _, _, htick⟩ := s.tick.keepTicket_eq
  rw [htick] at hkeep
  exact ⟨_, _, _, _, _, _, _, _, _, hkeep⟩

/-- `INTERRUPT_VECTOR_PIC_IRQ0`. -/
def clockInterrupt (lot : ℕ) (s : State) : Option State :=
  if 0 < s.tick.tickCount s.currentThread then some s.tick else s.tick.keepTicket.yield lot

/-! ### Sending and receiving -/

/-- `io_manager_c::send_message`, up to `put_message`: the request is marked as blocking and
interrupts go off. -/
def sendMessage (m : MessageRef) (deletes : Bool) (s : State) : State :=
  ({ s with
    message := update s.message m { s.message m with blocking := true }
    interruptsEnabled := update s.interruptsEnabled s.currentThread false }.addReference
      (s.message m).destination).push
    [.putRequest m (s.message m).destination (s.message m).id
      (s.interruptsEnabled s.currentThread) deletes]

/-- The message `abort_send_message` makes up. -/
def abortedReply (s : State) (recipient : ThreadId) (requestId : ℕ) (status : Status) :
    Message where
  source := recipient
  destination := s.currentThread
  type := messageTypeAbort
  id := requestId
  payload := status.toWord
  small := true
  blocking := false

/-- `io_manager_c::get_message`: the part that takes the message from the mailbox, and what its
caller does when the mailbox is empty. -/
def getMessage (r : Reception) (s : State) : State :=
  match s.messageQueue s.currentThread with
  | m :: rest => (s.popMessage m rest).push [.removePending m r]
  | [] =>
    match r with
    | .receive true => s.push [.yield, .getMessage r]
    | .receive false => s
    | .cleanup => s.push [.yield, .getMessage r]
    | .reply recipient requestId => s.push [.abortSendMessage recipient requestId .mailboxEmpty]

/-- What the caller of `get_message` does with the message `m`. -/
def continuation (s : State) (m : MessageRef) : Reception → List Frame
  | .receive _ => [.deleteMessage m]
  | .cleanup =>
    if (s.message m).type = messageTypeDeleteThread then [.deleteThread m]
    else [.deleteMessage m]
  | .reply recipient requestId =>
    [.dropReference recipient, .returnReply recipient requestId m]

/-- What the caller of `get_message` does when the payload could not be delivered: only
`send_message` goes on, with a reply of its own. -/
def failure (status : Status) : Reception → List Frame
  | .receive _ => []
  | .cleanup => []
  | .reply recipient requestId => [.abortSendMessage recipient requestId status]

section

variable {m : MessageRef} {r : Reception} {f : Frame}

theorem mem_continuation {s : State} (hf : f ∈ s.continuation m r) :
    f = .deleteMessage m ∨
      (f = .deleteThread m ∧ (s.message m).type = messageTypeDeleteThread) ∨
      ∃ recipient requestId, r = .reply recipient requestId ∧
        (f = .dropReference recipient ∨ f = .returnReply recipient requestId m) := by
  cases r with
  | receive wait => exact .inl (List.mem_singleton.1 hf)
  | cleanup =>
    simp only [continuation] at hf
    split at hf
    case isTrue htype => exact .inr (.inl ⟨List.mem_singleton.1 hf, htype⟩)
    case isFalse => exact .inl (List.mem_singleton.1 hf)
  | reply recipient requestId => exact .inr (.inr ⟨_, _, rfl, by simpa [continuation] using hf⟩)

theorem mem_failure {status : Status} (hf : f ∈ failure status r) : ∃ recipient requestId,
    r = .reply recipient requestId ∧ f = .abortSendMessage recipient requestId status := by
  cases r with
  | receive wait | cleanup => cases hf
  | reply recipient requestId => exact ⟨_, _, rfl, List.mem_singleton.1 hf⟩

end

/-- Answer the request `m` with an error, if its sender waits for an answer. -/
def abortRequest (m : MessageRef) (status : Status) (s : State) : State :=
  if (s.message m).blocking then
    (s.allocateMessage (s.response m messageTypeAbort status.toWord)).push
      [.putMessage s.nextMessage]
  else s

/-- `io_manager_c::get_message`: the part that delivers the payload. -/
def deliverPayload (payload : Status) (m : MessageRef) (r : Reception) (s : State) : State :=
  if s.payloadStatus payload m = .success then
    (s.record (.received m)).push (s.continuation m r)
  else
    ((s.record (.failed m)).push (.deleteMessage m :: failure (s.payloadStatus payload m) r)).abortRequest
      m .ioError

/-- `delete(m)`: the message gives up its references. -/
def deleteMessage (m : MessageRef) (s : State) : State :=
  { s with allocated := s.allocated.erase m }.push
    [.dropReference (s.message m).source, .dropReference (s.message m).destination]

/-! ### Deleting a thread -/

/-- `thread_manager_c::find_thread`. -/
def findThread (s : State) (id : ThreadId) : Option ThreadId :=
  if id = s.currentThread ∨ id = threadIdLoopback then some s.currentThread
  else if id ∈ s.threadTable then some id else none

/-- The thread a deletion request names. -/
def victimOf (s : State) (m : MessageRef) : ThreadId :=
  if (s.message m).payload = threadIdLoopback then (s.message m).source
  else (s.message m).payload

/-- The source of the request may delete the thread it names. -/
def mayDelete (s : State) (m : MessageRef) : Bool :=
  s.hasCapability (s.message m).source capabilityDeleteThread ||
    (s.message m).source == (s.message m).payload || (s.message m).source == threadIdLoopback

/-- Answer the request `m` with an abort. -/
def refuse (m : MessageRef) (status : Status) (s : State) : State :=
  (s.allocateMessage (s.response m messageTypeAbort status.toWord)).push
    [.putMessage s.nextMessage]

/-- The frames of `thread_manager_c::delete_thread(victim, acknowledgement)`, and of the
reference `find_thread` took. -/
def deletionFrames (victim : ThreadId) (acknowledgement : Option MessageRef) : List Frame :=
  [.markForDeletion victim acknowledgement, .removeFromTable victim, .dropReference victim]

/-- The `delete_thread` of the cleanup thread. -/
def deleteThread (m : MessageRef) (s : State) : State :=
  let s := s.push [.deleteMessage m]
  if s.mayDelete m = false then s.refuse m .accessDenied
  else
    match s.findThread (s.victimOf m) with
    | none => s.refuse m .invalidData
    | some victim =>
      if (s.message m).source ≠ victim ∧ (s.message m).blocking = true then
        ((s.addReference victim).allocateMessage
          (s.response m messageTypeDeleteThreadComplete Status.success.toWord)).push
            (deletionFrames victim (some s.nextMessage))
      else (s.addReference victim).push (deletionFrames victim none)

/-- The last loop of `io_manager_c::delete_messages`: each message that asks for a reply is
answered, and then deleted. -/
def abortMessages (leftover : List MessageRef) (s : State) : State :=
  match leftover with
  | [] => s
  | m :: rest =>
    let s := s.push [.deleteMessage m, .abortMessages rest]
    if (s.message m).blocking then
      ((s.record (.aborted m s.nextMessage)).allocateMessage
        (s.response m messageTypeAbort Status.threadExited.toWord)).push
          [.putMessage s.nextMessage]
    else s

/-- The loop of `device_proxy_c::wake_interrupt_handlers`; `rand()` gives the id. -/
def wakeInterruptHandlers (random irq i n : ℕ) (s : State) : Option State :=
  if i < n then
    match (s.interruptHandler irq)[i]? with
    | none => none
    | some handler =>
      some ((s.allocateMessage
        { source := s.currentThread, destination := handler, type := messageTypeHandleInterrupt,
          id := random, payload := irq, small := true, blocking := false }).push
            [.sendMessage s.nextMessage true, .wakeInterruptHandlers irq (i + 1) n])
  else some s

/-! ### What the code that only prepares more work changes -/

/-- Messages have been allocated, references taken and frames pushed, and that is all; that a
request is aborted is recorded. -/
inductive Grown (s : State) : State → Prop
  | refl : Grown s s
  | push {s' : State} (frames : List Frame) : Grown s s' → Grown s (s'.push frames)
  | addReference {s' : State} (t : ThreadId) : Grown s s' → Grown s (s'.addReference t)
  | allocate {s' : State} (message : Message) : Grown s s' → Grown s (s'.allocateMessage message)
  | failed {s' : State} (m : MessageRef) : Grown s s' → Grown s (s'.record (.failed m))
  | aborted {s' : State} (m reply : MessageRef) : Grown s s' → Grown s (s'.record (.aborted m reply))

theorem Grown.eq (h : Grown s s') :
    ∃ message allocated nextMessage referenceCount stack history, s' = { s with
        message := message, allocated := allocated, nextMessage := nextMessage,
        referenceCount := referenceCount, stack := stack, history := history } := by
  induction h with
  | refl => exact ⟨_, _, _, _, _, _, rfl⟩
  | aborted _ _ _ ih =>
    obtain ⟨_, _, _, _, _, _, rfl⟩ := ih
    exact ⟨_, _, _, _, _, _, rfl⟩
  | _ _ _ ih =>
    obtain ⟨_, _, _, _, _, _, rfl⟩ := ih
    exact ⟨_, _, _, _, _, _, rfl⟩

theorem grown_killOnOverflow (frames : List Frame) (status : Status) (t : ThreadId) (s : State) :
    Grown s ((s.push frames).killOnOverflow status t) := by
  rw [killOnOverflow]
  split
  · exact .push _ (.allocate _ (.push _ .refl))
  · exact .push _ .refl

theorem grown_abortRequest (frames : List Frame) (m : MessageRef) (status : Status) (s : State) :
    Grown s (((s.record (.failed m)).push frames).abortRequest m status) := by
  rw [abortRequest]
  split
  · exact .push _ (.allocate _ (.push _ (.failed _ .refl)))
  · exact .push _ (.failed _ .refl)

theorem grown_deleteThread (m : MessageRef) (s : State) : Grown s (s.deleteThread m) := by
  simp only [deleteThread]
  split
  · exact .push _ (.allocate _ (.push _ .refl))
  split
  · exact .push _ (.allocate _ (.push _ .refl))
  split
  · exact .push _ (.allocate _ (.addReference _ (.push _ .refl)))
  · exact .push _ (.addReference _ (.push _ .refl))

theorem grown_abortMessages (l : List MessageRef) (s : State) : Grown s (s.abortMessages l) := by
  cases l with
  | nil => exact .refl
  | cons m rest =>
    simp only [abortMessages]
    split
    · exact .push _ (.allocate _ (.aborted _ _ (.push _ .refl)))
    · exact .push _ .refl

/-! ### The step -/

/-- The frame `f`, done by the running thread; `s` is the state without it on the stack. -/
def exec (o : Outcome) (f : Frame) (s : State) : Option State :=
  match f with
  | .putMessage m =>
    match s.putMessage o.payload m with
    | none => none
    | some (status, s') =>
      some ((if status = .success then s' else s'.push [.deleteMessage m]).killOnOverflow status
        (s.message m).destination)
  | .sendMessage m deletes => some (s.sendMessage m deletes)
  | .putRequest m recipient requestId interrupts deletes =>
    match s.putMessage o.payload m with
    | none => none
    | some (status, s') =>
      some ((if status = .success then
          s'.push [.yield, .restoreInterrupts interrupts, .getMessage (.reply recipient requestId)]
        else s'.push ([.restoreInterrupts interrupts, .dropReference recipient] ++
          if deletes then [.deleteMessage m] else [])).killOnOverflow status
            (s.message m).destination)
  | .yield => s.yield o.lot
  | .restoreInterrupts interrupts =>
    some { s with
      interruptsEnabled := update s.interruptsEnabled s.currentThread interrupts }
  | .getMessage r => some (s.getMessage r)
  | .removePending m r => some ((s.dropPending m).push [.deliverPayload m r])
  | .deliverPayload m r => some (s.deliverPayload o.payload m r)
  | .abortSendMessage recipient requestId status =>
    some ((s.allocateMessage (s.abortedReply recipient requestId status)).push
      [.dropReference recipient, .returnReply recipient requestId s.nextMessage])
  | .returnReply _ _ m => some (s.push [.deleteMessage m])
  | .deleteMessage m => some (s.deleteMessage m)
  | .dropReference t => some (s.removeReference t)
  | .deleteThread m => some (s.deleteThread m)
  | .markForDeletion victim acknowledgement =>
    some ((s.markForDeletion victim acknowledgement).push
      [.unlinkMessages (s.leftoverMessages victim)])
  | .unlinkMessages leftover =>
    some ({ s with pendingMessages := s.pendingMessages.removeAll leftover }.push
      [.abortMessages leftover])
  | .abortMessages leftover => some (s.abortMessages leftover)
  | .removeFromTable victim =>
    some ({ s with threadTable := s.threadTable.erase victim }.push [.dropReference victim])
  | .wakeInterruptHandlers irq i n => s.wakeInterruptHandlers o.random irq i n

/-- What executing a frame can come to. -/
inductive Executed (s : State) (o : Outcome) : Frame → State → Prop
  | put {m : MessageRef} {s' : State} : Put s m .success s' → Executed s o (.putMessage m) s'
  | putRefused {m : MessageRef} {status : Status} :
      s.putMessage o.payload m = some (status, s) → status ≠ .success →
      Executed s o (.putMessage m)
        ((s.push [.deleteMessage m]).killOnOverflow status (s.message m).destination)
  /-- A request is about to be put. -/
  | send {m : MessageRef} {deletes : Bool} :
      Executed s o (.sendMessage m deletes) (s.sendMessage m deletes)
  | request {m : MessageRef} {recipient : ThreadId} {requestId : ℕ} {interrupts deletes : Bool}
      {s' : State} : Put s m .success s' →
      Executed s o (.putRequest m recipient requestId interrupts deletes)
        (s'.push [.yield, .restoreInterrupts interrupts, .getMessage (.reply recipient requestId)])
  | requestRefused {m : MessageRef} {recipient : ThreadId} {requestId : ℕ}
      {interrupts deletes : Bool} {status : Status} :
      s.putMessage o.payload m = some (status, s) → status ≠ .success →
      Executed s o (.putRequest m recipient requestId interrupts deletes)
        ((s.push ([.restoreInterrupts interrupts, .dropReference recipient] ++
          if deletes then [.deleteMessage m] else [])).killOnOverflow status
            (s.message m).destination)
  /-- The processor goes to another thread. -/
  | yield {s' : State} : s.yield o.lot = some s' → Executed s o .yield s'
  /-- The interrupt flag is what it was. -/
  | restore {interrupts : Bool} :
      Executed s o (.restoreInterrupts interrupts) { s with
        interruptsEnabled := update s.interruptsEnabled s.currentThread interrupts }
  /-- A message is taken from the mailbox. -/
  | get {r : Reception} {m : MessageRef} {rest : List MessageRef} :
      s.messageQueue s.currentThread = m :: rest →
      Executed s o (.getMessage r) ((s.popMessage m rest).push [.removePending m r])
  /-- The mailbox is empty, and the thread waits. -/
  | wait {r : Reception} : s.messageQueue s.currentThread = [] →
      r = .receive true ∨ r = .cleanup →
      Executed s o (.getMessage r) (s.push [.yield, .getMessage r])
  /-- The mailbox is empty, and the thread does not wait. -/
  | empty : s.messageQueue s.currentThread = [] → Executed s o (.getMessage (.receive false)) s
  /-- The mailbox has no reply. -/
  | noReply {recipient : ThreadId} {requestId : ℕ} : s.messageQueue s.currentThread = [] →
      Executed s o (.getMessage (.reply recipient requestId))
        (s.push [.abortSendMessage recipient requestId .mailboxEmpty])
  /-- A message is taken from the pool. -/
  | remove {m : MessageRef} {r : Reception} :
      Executed s o (.removePending m r) ((s.dropPending m).push [.deliverPayload m r])
  | deliver {m : MessageRef} {r : Reception} :
      Executed s o (.deliverPayload m r) ((s.record (.received m)).push (s.continuation m r))
  | undeliverable {m : MessageRef} {r : Reception} {status : Status} : status ≠ .success →
      (s.message m).small = false →
      Executed s o (.deliverPayload m r)
        (((s.record (.failed m)).push (.deleteMessage m :: failure status r)).abortRequest m
          .ioError)
  /-- A reply is made up. -/
  | abortSend {recipient : ThreadId} {requestId : ℕ} {status : Status} :
      Executed s o (.abortSendMessage recipient requestId status)
        ((s.allocateMessage (s.abortedReply recipient requestId status)).push
          [.dropReference recipient, .returnReply recipient requestId s.nextMessage])
  /-- A reply is returned, and its receiver deletes it. -/
  | reply {recipient : ThreadId} {requestId : ℕ} {m : MessageRef} :
      Executed s o (.returnReply recipient requestId m) (s.push [.deleteMessage m])
  | delete {m : MessageRef} : Executed s o (.deleteMessage m) (s.deleteMessage m)
  | drop {t : ThreadId} : Executed s o (.dropReference t) (s.removeReference t)
  /-- The cleanup thread serves a request. -/
  | deleteThread {m : MessageRef} : Executed s o (.deleteThread m) (s.deleteThread m)
  | mark {victim : ThreadId} {acknowledgement : Option MessageRef} :
      Executed s o (.markForDeletion victim acknowledgement)
        ((s.markForDeletion victim acknowledgement).push
          [.unlinkMessages (s.leftoverMessages victim)])
  /-- Leftover messages are taken from the pool. -/
  | unlink {leftover : List MessageRef} :
      Executed s o (.unlinkMessages leftover)
        ({ s with pendingMessages := s.pendingMessages.removeAll leftover }.push
          [.abortMessages leftover])
  /-- Leftover messages are answered and deleted. -/
  | abort {leftover : List MessageRef} :
      Executed s o (.abortMessages leftover) (s.abortMessages leftover)
  /-- A thread is taken from the thread table. -/
  | table {victim : ThreadId} :
      Executed s o (.removeFromTable victim)
        ({ s with threadTable := s.threadTable.erase victim }.push [.dropReference victim])
  /-- A message goes to the next interrupt handler. -/
  | wake {irq i n : ℕ} {handler : ThreadId} :
      (s.interruptHandler irq)[i]? = some handler →
      Executed s o (.wakeInterruptHandlers irq i n)
        ((s.allocateMessage
          { source := s.currentThread, destination := handler, type := messageTypeHandleInterrupt,
            id := o.random, payload := irq, small := true, blocking := false }).push
              [.sendMessage s.nextMessage true, .wakeInterruptHandlers irq (i + 1) n])
  /-- There are no more interrupt handlers. -/
  | wakeDone {irq i n : ℕ} : Executed s o (.wakeInterruptHandlers irq i n) s

theorem executed_of_exec {o : Outcome} {f : Frame} (h : s.exec o f = some s') :
    Executed s o f s' := by
  cases f with
  | putMessage m =>
    simp only [exec] at h
    split at h
    case h_1 => cases h
    case h_2 status s₁ hput =>
      cases h
      have hp := put_of_putMessage hput
      by_cases hst : status = .success
      · subst hst
        exact .put hp
      · cases hp with
        | refused =>
          rw [if_neg hst]
          exact .putRefused hput hst
        | woken | queued => exact absurd rfl hst
  | putRequest m recipient requestId interrupts deletes =>
    simp only [exec] at h
    split at h
    case h_1 => cases h
    case h_2 status s₁ hput =>
      cases h
      have hp := put_of_putMessage hput
      by_cases hst : status = .success
      · subst hst
        exact .request hp
      · cases hp with
        | refused =>
          rw [if_neg hst]
          exact .requestRefused hput hst
        | woken | queued => exact absurd rfl hst
  | yield => exact .yield h
  | getMessage r =>
    cases h
    simp only [getMessage]
    split
    case h_1 m rest hq => exact .get hq
    case h_2 hq =>
      rcases r with (_ | _) | _ | ⟨recipient, requestId⟩
      · exact .empty hq
      · exact .wait hq (.inl rfl)
      · exact .wait hq (.inr rfl)
      · exact .noReply hq
  | deliverPayload m r =>
    cases h
    rw [deliverPayload]
    split
    case isTrue => exact .deliver
    case isFalse hst =>
      refine .undeliverable hst ?_
      by_contra hsmall
      exact hst (by simp [payloadStatus, (by simpa using hsmall : (s.message m).small = true)])
  | wakeInterruptHandlers irq i n =>
    simp only [exec, wakeInterruptHandlers] at h
    split at h
    case isTrue =>
      split at h
      case h_1 => cases h
      case h_2 handler hh =>
        cases h
        exact .wake hh
    cases h
    exact .wakeDone
  | sendMessage => cases h; exact .send
  | restoreInterrupts => cases h; exact .restore
  | removePending => cases h; exact .remove
  | abortSendMessage => cases h; exact .abortSend
  | returnReply => cases h; exact .reply
  | deleteMessage => cases h; exact .delete
  | dropReference => cases h; exact .drop
  | deleteThread => cases h; exact .deleteThread
  | markForDeletion => cases h; exact .mark
  | unlinkMessages => cases h; exact .unlink
  | abortMessages => cases h; exact .abort
  | removeFromTable => cases h; exact .table

/-- The message a system call allocates. -/
def userMessage (s : State) (destination : ThreadId) (type id payload : ℕ) (small : Bool) :
    Message where
  source := s.currentThread
  destination := destination
  type := type
  id := id
  payload := payload
  small := small
  blocking := false

/-- A new thread (`thread_c`), in the thread table; its creator holds a reference to it. -/
def createThread (t : ThreadId) (capabilityMask : ℕ) (s : State) : State :=
  { s with
    blockingThread := update s.blockingThread t none
    bonusMessage := update s.bonusMessage t none
    capabilityMask := update s.capabilityMask t
      (capabilityMask &&& s.capabilityMask s.currentThread)
    deletionAcknowledgement := update s.deletionAcknowledgement t none
    mailboxEnabled := update s.mailboxEnabled t true
    messageQueue := update s.messageQueue t []
    threadState := update s.threadState t .ready
    tickCount := update s.tickCount t 0
    referenceCount := update s.referenceCount t 2
    threadTable := s.threadTable ++ [t]
    interruptsEnabled := update s.interruptsEnabled t true
    stack := update s.stack t []
    started := update s.started t false
    destroyed := update s.destroyed t false
    threads := s.threads ++ [t] }

/-- A system call of the running thread, up to its first frame; `none` when the id chosen for a
new thread is not a free one. -/
def systemCall (s : State) : SystemCall → Option State
  | .sendMessage id type messageId payload small =>
    match s.findThread id with
    | none => some s
    | some t =>
      some (((s.addReference t).allocateMessage
        (s.userMessage t type messageId payload small)).push
          [.putMessage s.nextMessage, .dropReference t])
  | .sendAndReceiveMessage id type messageId payload small =>
    match s.findThread id with
    | none => some s
    | some t =>
      some (((s.addReference t).allocateMessage
        (s.userMessage t type messageId payload small)).push
          [.sendMessage s.nextMessage true, .dropReference t])
  | .receiveMessage wait => some (s.push [.getMessage (.receive wait)])
  | .deleteThread victim random =>
    some ((s.allocateMessage (s.userMessage threadIdCleanup messageTypeDeleteThread random victim
      true)).push [.sendMessage s.nextMessage false])
  | .createThread t mask =>
    if s.hasCapability s.currentThread capabilityCreateThread = false then some s
    else if t ∈ s.threads ∨ t = threadIdLoopback then none
    else some ((s.createThread t mask).push [.dropReference t])
  | .registerInterruptHandler irq =>
    if s.hasCapability s.currentThread capabilityMapDevice && irq < interruptVectorPicCount then
      some ({ s with
        interruptHandler := update s.interruptHandler irq
          (s.interruptHandler irq ++ [s.currentThread]) }.addReference s.currentThread)
    else some s

/-- What a system call can come to. -/
inductive Called (s : State) : SystemCall → State → Prop
  /-- The call fails, and nothing changes. -/
  | failed {c : SystemCall} : Called s c s
  /-- A message is to be put. -/
  | send {id t : ThreadId} {type messageId payload : ℕ} {small : Bool} :
      s.findThread id = some t →
      Called s (.sendMessage id type messageId payload small)
        (((s.addReference t).allocateMessage
          (s.userMessage t type messageId payload small)).push
            [.putMessage s.nextMessage, .dropReference t])
  /-- A message is to be sent, and its reply awaited. -/
  | sendAndReceive {id t : ThreadId} {type messageId payload : ℕ} {small : Bool} :
      s.findThread id = some t →
      Called s (.sendAndReceiveMessage id type messageId payload small)
        (((s.addReference t).allocateMessage
          (s.userMessage t type messageId payload small)).push
            [.sendMessage s.nextMessage true, .dropReference t])
  | receive {wait : Bool} :
      Called s (.receiveMessage wait) (s.push [.getMessage (.receive wait)])
  /-- The cleanup thread is asked to delete a thread. -/
  | delete {victim : ThreadId} {random : ℕ} :
      Called s (.deleteThread victim random)
        ((s.allocateMessage (s.userMessage threadIdCleanup messageTypeDeleteThread random victim
          true)).push [.sendMessage s.nextMessage false])
  | create {t : ThreadId} {mask : ℕ} : t ∉ s.threads → t ≠ threadIdLoopback →
      Called s (.createThread t mask) ((s.createThread t mask).push [.dropReference t])
  /-- The running thread is to handle an interrupt. -/
  | register {irq : ℕ} : irq < interruptVectorPicCount →
      Called s (.registerInterruptHandler irq)
        ({ s with
          interruptHandler := update s.interruptHandler irq
            (s.interruptHandler irq ++ [s.currentThread]) }.addReference s.currentThread)

/-- Apart from the creation of a thread and of an interrupt handler, a call only prepares work. -/
theorem Called.grown {c : SystemCall} (hc : Called s c s') :
    Grown s s' ∨
      (∃ t mask, t ∉ s.threads ∧ s' = (s.createThread t mask).push [.dropReference t]) ∨
      ∃ interruptHandler,
        s' = { s with interruptHandler := interruptHandler }.addReference s.currentThread := by
  cases hc with
  | failed => exact .inl .refl
  | send | sendAndReceive => exact .inl (.push _ (.allocate _ (.addReference _ .refl)))
  | receive => exact .inl (.push _ .refl)
  | delete => exact .inl (.push _ (.allocate _ .refl))
  | create hnew => exact .inr (.inl ⟨_, _, hnew, rfl⟩)
  | register => exact .inr (.inr ⟨_, rfl⟩)

theorem called_of_systemCall {c : SystemCall} (h : s.systemCall c = some s') : Called s c s' := by
  cases c with
  | sendMessage id type messageId payload small =>
    simp only [systemCall] at h
    split at h
    · cases h
      exact .failed
    case h_2 t ht =>
      cases h
      exact .send ht
  | sendAndReceiveMessage id type messageId payload small =>
    simp only [systemCall] at h
    split at h
    · cases h
      exact .failed
    case h_2 t ht =>
      cases h
      exact .sendAndReceive ht
  | receiveMessage wait =>
    cases h
    exact .receive
  | deleteThread victim random =>
    cases h
    exact .delete
  | createThread t mask =>
    simp only [systemCall] at h
    split at h
    · cases h
      exact .failed
    split at h
    · cases h
    case isFalse hnew =>
      cases h
      exact .create (fun ht => hnew (.inl ht)) fun ht => hnew (.inr ht)
  | registerInterruptHandler irq =>
    simp only [systemCall] at h
    split at h
    case isTrue hirq =>
      cases h
      simp only [Bool.and_eq_true, decide_eq_true_eq] at hirq
      exact .register hirq.2
    cases h
    exact .failed

/-- The innermost frame of the running thread has been taken from its stack. -/
def pop (rest : List Frame) (s : State) : State :=
  { s with stack := update s.stack s.currentThread rest }

theorem mem_stack_of_pop {f g : Frame} {rest : List Frame} {t : ThreadId}
    (hs : s.stack s.currentThread = f :: rest) (hg : g ∈ (s.pop rest).stack t) : g ∈ s.stack t := by
  rcases update_cases (P := (g ∈ ·)) hg with ⟨rfl, hnew⟩ | ⟨-, hold⟩
  · exact hs ▸ List.mem_cons_of_mem _ hnew
  · exact hold

/-- **One step of the machine.** -/
def step (s : State) : Action → Option State
  | .run o =>
    match s.stack s.currentThread with
    | [] => none
    | f :: rest => (s.pop rest).exec o f
  | .call c =>
    if s.stack s.currentThread = [] ∧ s.currentThread ≠ threadIdCleanup ∧
        s.currentThread ≠ threadIdNull then
      s.systemCall c
    else none
  | .loop =>
    if s.stack s.currentThread = [] then
      if s.currentThread = threadIdCleanup then some (s.push [.getMessage .cleanup])
      else if s.currentThread = threadIdNull then some (s.push [.getMessage (.receive false)])
      else none
    else none
  | .clock lot =>
    if s.interruptsEnabled s.currentThread then s.clockInterrupt lot else none
  | .device irq =>
    if s.interruptsEnabled s.currentThread ∧ 0 < irq ∧ irq < interruptVectorPicCount ∧
        s.interruptHandler irq ≠ [] then
      some ({ s with
        interruptsEnabled := update s.interruptsEnabled s.currentThread false }.push
          [.wakeInterruptHandlers irq 0 (s.interruptHandler irq).length, .restoreInterrupts true])
    else none

/-- What a step can come to. -/
inductive Stepped (s : State) : Action → State → Prop
  /-- The running thread executes its innermost frame. -/
  | run {o : Outcome} {f : Frame} {rest : List Frame} {s' : State} :
      s.stack s.currentThread = f :: rest → Executed (s.pop rest) o f s' → Stepped s (.run o) s'
  | call {c : SystemCall} {s' : State} : s.stack s.currentThread = [] →
      s.currentThread ≠ threadIdCleanup → s.currentThread ≠ threadIdNull → Called s c s' →
      Stepped s (.call c) s'
  /-- The cleanup thread waits for a message. -/
  | cleanupLoop : s.stack s.currentThread = [] → s.currentThread = threadIdCleanup →
      Stepped s .loop (s.push [.getMessage .cleanup])
  /-- The null thread looks for a message. -/
  | nullLoop : s.stack s.currentThread = [] → s.currentThread = threadIdNull →
      Stepped s .loop (s.push [.getMessage (.receive false)])
  | tick {lot : ℕ} : s.interruptsEnabled s.currentThread = true → Stepped s (.clock lot) s.tick
  /-- The quantum of the running thread is over. -/
  | quantum {lot : ℕ} {s' : State} : s.interruptsEnabled s.currentThread = true →
      ¬ 0 < s.tick.tickCount s.currentThread → s.tick.keepTicket.yield lot = some s' →
      Stepped s (.clock lot) s'
  /-- A device interrupts the running thread. -/
  | device {irq : ℕ} : s.interruptsEnabled s.currentThread = true → irq < interruptVectorPicCount →
      Stepped s (.device irq)
        ({ s with
          interruptsEnabled := update s.interruptsEnabled s.currentThread false }.push
            [.wakeInterruptHandlers irq 0 (s.interruptHandler irq).length, .restoreInterrupts true])

theorem stepped_of_step {a : Action} (h : s.step a = some s') : Stepped s a s' := by
  cases a with
  | run o =>
    simp only [step] at h
    split at h
    · cases h
    case h_2 hstack => exact .run hstack (executed_of_exec h)
  | call c =>
    simp only [step] at h
    split at h
    case isTrue hc => exact .call hc.1 hc.2.1 hc.2.2 (called_of_systemCall h)
    case isFalse => cases h
  | loop =>
    obtain ⟨hstack, h⟩ := Option.ite_none_right_eq_some.1 h
    split at h
    case isTrue hc =>
      cases h
      exact .cleanupLoop hstack hc
    obtain ⟨hn, h⟩ := Option.ite_none_right_eq_some.1 h
    cases h
    exact .nullLoop hstack hn
  | clock lot =>
    obtain ⟨hi, h⟩ := Option.ite_none_right_eq_some.1 h
    rw [clockInterrupt] at h
    split at h
    · cases h
      exact .tick hi
    case isFalse hover => exact .quantum hi hover h
  | device irq =>
    obtain ⟨hi, h⟩ := Option.ite_none_right_eq_some.1 h
    cases h
    exact .device hi.1 hi.2.2.1

/-- The state in which the boot thread starts the messaging: the boot, cleanup and null threads
are there, the last two with the reference the kernel keeps to them. -/
def initial : State where
  blockingMessageId := fun _ => 0
  blockingThread := fun _ => none
  bonusMessage := fun _ => none
  capabilityMask := fun _ => capabilityAll
  deletionAcknowledgement := fun _ => none
  mailboxEnabled := fun _ => true
  messageQueue := fun _ => []
  threadState := fun _ => .ready
  tickCount := update (fun _ => 0) threadIdBoot 0x7fffffff
  referenceCount := update (fun _ => 2) threadIdBoot 1
  message := fun _ => default
  pendingMessages := .empty fun _ => 0xffffffff
  threadTable := [threadIdBoot, threadIdCleanup, threadIdNull]
  interruptHandler := fun _ => []
  currentThread := threadIdBoot
  interruptsEnabled := fun _ => true
  stack := fun _ => []
  started := update (fun _ => false) threadIdBoot true
  destroyed := fun _ => false
  threads := [threadIdBoot, threadIdCleanup, threadIdNull]
  allocated := []
  nextMessage := 0
  history := []

/-- A state the machine can get to. -/
def Reachable (s : State) : Prop := Run step Always initial s

end State

end Dx.Kernel
