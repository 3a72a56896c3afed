import Dx.Kernel.Machine

/-!
# Putting a message when memory is short

`io_manager_c::put_message` takes memory from the kernel heap in three places: `queue_m::push` and
`push_head` allocate a node, `dynamic_array_m::write` a larger array for the pool, and, when the mailbox
of the recipient is full, `::put_message` a request to delete the recipient, which is put in its turn.

In the machine this memory never runs out. Here it may: a queue without a node takes no message, and says
nothing about it; a pool without an array panics. Nested calls are counted for a heap with room for a
given number of messages.
-/

namespace Dx.Kernel.State

open Library

/-! ### The nodes and the array -/

/-- `message_queue.push_head(m)`, when there may be no node for it. -/
def pushHeadUnder (node : Bool) (t : ThreadId) (m : MessageRef) (s : State) : State :=
  if node then s.pushHead t m else s

/-- `message_queue.push(m)`, when there may be no node for it. -/
def pushTailUnder (node : Bool) (t : ThreadId) (m : MessageRef) (s : State) : State :=
  if node then s.pushTail t m else s

/-- `thread_c::put_message`, when there may be no node for the message. -/
def threadPutMessageUnder (node : Bool) (t : ThreadId) (m : MessageRef) (s : State) :
    Option (Status × State) :=
  if s.mailboxEnabled t = false then some (.mailboxDisabled, s)
  else
    match s.causesSchedulingLoop t m with
    | none => none
    | some true => some (.messageDeadlock, s)
    | some false =>
      if s.unblocks t m then some (.success, ((s.unblock t m).pushHeadUnder node t m).blockOn t m)
      else if s.mailboxOverflow t then some (.mailboxOverflow, s)
      else some (.success, (s.pushTailUnder node t m).blockOn t m)

/-- `io_manager_c::put_message`, up to the test for an overflow, when there may be no node for the queue
and no array for the pool; `none` when it does not return. -/
def putMessageUnder (payload : Status) (node array : Bool) (m : MessageRef) (s : State) :
    Option (Status × State) :=
  if s.payloadStatus payload m = .success then
    match s.threadPutMessageUnder node (s.message m).destination m with
    | none => none
    | some (status, s') =>
      if status = .success then
        if array then some (status, s'.addPending m) else none    -- `expand` panics
      else some (status, s')
  else some (s.payloadStatus payload m, s)

/-- The mailbox of the recipient is asked to take the message: the payload has been copied, the mailbox
is enabled and the recipient is not waiting for the sender. -/
def Offered (payload : Status) (m : MessageRef) (s : State) : Prop :=
  s.payloadStatus payload m = .success ∧ s.mailboxEnabled (s.message m).destination = true ∧
    s.causesSchedulingLoop (s.message m).destination m = some false
deriving Decidable

/-- The recipient takes the message: it waits for it, or its mailbox is not full. -/
def Accepts (payload : Status) (m : MessageRef) (s : State) : Prop :=
  s.Offered payload m ∧ (s.unblocks (s.message m).destination m = true ∨
    s.mailboxOverflow (s.message m).destination = false)

/-- The mailbox of the recipient, which does not wait for the message, is full; or this is the status
that the copy of the payload has ended with. -/
def Overflows (payload : Status) (m : MessageRef) (s : State) : Prop :=
  s.payloadStatus payload m = .mailboxOverflow ∨
    s.Offered payload m ∧ s.unblocks (s.message m).destination m = false ∧
      s.mailboxOverflow (s.message m).destination = true
deriving Decidable

variable {s s' : State} {m : MessageRef} {t : ThreadId} {payload status : Status} {node array : Bool}

theorem putMessageUnder_true (payload : Status) (m : MessageRef) (s : State) :
    s.putMessageUnder payload true true m = s.putMessage payload m := by
  have hthread : s.threadPutMessageUnder true (s.message m).destination m =
      s.threadPutMessage (s.message m).destination m := rfl
  rw [putMessageUnder, putMessage, hthread]
  cases hput : s.threadPutMessage (s.message m).destination m with
  | none => rfl
  | some result =>
    obtain ⟨status, s'⟩ := result
    by_cases hsuccess : status = .success
    · simp only [if_pos hsuccess, if_true]
    · simp only [if_neg hsuccess]

/-- The mailbox and the pool, once the message has been accepted. -/
structure Accepted (node : Bool) (m : MessageRef) (s s' : State) : Prop where
  queue : m ∈ s'.messageQueue (s.message m).destination ↔
    node = true ∨ m ∈ s.messageQueue (s.message m).destination
  pool : m ∈ s'.pendingMessages.items

theorem Accepted.of_queue {node : Bool} {x : State}
    (h : m ∈ x.messageQueue (s.message m).destination ↔
      node = true ∨ m ∈ s.messageQueue (s.message m).destination) :
    Accepted node m s ((x.blockOn (s.message m).destination m).addPending m) := by
  obtain ⟨_, _, _, _, hblock⟩ := blockOn_eq (s.message m).destination m x
  rw [hblock]
  exact ⟨h, Pool.mem_add.2 (.inr rfl)⟩

theorem Accepted.woken (node : Bool) (m : MessageRef) (s : State) :
    Accepted node m s (((((s.unblock (s.message m).destination m).pushHeadUnder node
      (s.message m).destination m).blockOn (s.message m).destination m)).addPending m) := by
  obtain ⟨_, _, _, _, _, _, hunblock⟩ := unblock_eq (s.message m).destination m s
  refine .of_queue ?_
  cases node with
  | false => simp [pushHeadUnder, hunblock]
  | true => simp [pushHeadUnder, pushHead, record]

theorem Accepted.queued (node : Bool) (m : MessageRef) (s : State) :
    Accepted node m s (((s.pushTailUnder node (s.message m).destination m).blockOn
      (s.message m).destination m).addPending m) := by
  refine .of_queue ?_
  cases node with
  | false => simp [pushTailUnder]
  | true => simp [pushTailUnder, pushTail, record]

/-- A message that is not accepted changes nothing. -/
theorem accepted_or_refused (h : s.putMessageUnder payload node array m = some (status, s')) :
    s.Accepts payload m ∧ status = .success ∧ Accepted node m s s' ∨
      ¬s.Accepts payload m ∧ status ≠ .success ∧ s' = s := by
  rw [putMessageUnder] at h
  by_cases hpayload : s.payloadStatus payload m ≠ .success
  · rw [if_neg hpayload] at h
    cases h
    exact .inr ⟨fun haccepts => hpayload haccepts.1.1, hpayload, rfl⟩
  rw [not_not] at hpayload
  rw [if_pos hpayload, threadPutMessageUnder] at h
  by_cases henabled : s.mailboxEnabled (s.message m).destination = false
  · rw [if_pos henabled] at h
    cases h
    exact .inr ⟨fun haccepts => absurd haccepts.1.2.1 (by simp [henabled]), by decide, rfl⟩
  rw [if_neg henabled] at h
  cases hloop : s.causesSchedulingLoop (s.message m).destination m with
  | none =>
    rw [hloop] at h
    cases h
  | some loop =>
    rw [hloop] at h
    cases loop with
    | true =>
      cases h
      exact .inr ⟨fun haccepts => absurd haccepts.1.2.2 (by simp [hloop]), by decide, rfl⟩
    | false =>
      have hoffered : s.Offered payload m := ⟨hpayload, eq_true_of_ne_false henabled, hloop⟩
      by_cases hunblocks : s.unblocks (s.message m).destination m = true
      · simp only [hunblocks, if_true] at h
        obtain ⟨-, heq⟩ := Option.ite_none_right_eq_some.1 h
        cases heq
        exact .inl ⟨⟨hoffered, .inl hunblocks⟩, rfl, .woken node m s⟩
      · simp only [hunblocks, Bool.false_eq_true, if_false] at h
        by_cases hfull : s.mailboxOverflow (s.message m).destination = true
        · simp only [hfull, if_true] at h
          cases h
          exact .inr ⟨fun haccepts => haccepts.2.elim hunblocks (by simp [hfull]), by decide, rfl⟩
        · simp only [hfull, Bool.false_eq_true, if_false, if_true] at h
          obtain ⟨-, heq⟩ := Option.ite_none_right_eq_some.1 h
          cases heq
          exact .inl ⟨⟨hoffered, .inr (eq_false_of_ne_true hfull)⟩, rfl, .queued node m s⟩

/-- The postcondition of `io_manager_c::put_message`: the message is in both the mailbox and the pool, or
in neither of them, and then it has blocked or woken no thread. -/
def Posted (m : MessageRef) (s : State) (status : Status) (s' : State) : Prop :=
  if status = .success then
    m ∈ s'.messageQueue (s.message m).destination ∧ m ∈ s'.pendingMessages.items
  else
    m ∉ s'.messageQueue (s.message m).destination ∧ m ∉ s'.pendingMessages.items ∧
      s'.threadState = s.threadState ∧ s'.blockingThread = s.blockingThread

/-- **`put_message` keeps its postcondition** if and only if there is a node for the message whenever the
recipient takes it. -/
theorem putMessageUnder_posted_iff (hqueue : m ∉ s.messageQueue (s.message m).destination)
    (hpool : m ∉ s.pendingMessages.items)
    (h : s.putMessageUnder payload node array m = some (status, s')) :
    Posted m s status s' ↔ (s.Accepts payload m → node = true) := by
  rcases accepted_or_refused h with ⟨haccepts, rfl, haccepted⟩ | ⟨hnot, hrefused, rfl⟩
  · rw [Posted, if_pos rfl, haccepted.queue, or_iff_left hqueue, and_iff_left haccepted.pool]
    exact ⟨fun hnode _ => hnode, fun hnode => hnode haccepts⟩
  · rw [Posted, if_neg hrefused]
    exact iff_of_true ⟨hqueue, hpool, rfl, rfl⟩ fun haccepts => absurd haccepts hnot

/-- A message to the cleanup thread, just after it has been allocated. -/
def freshRequest : State := initial.allocateMessage (deletionRequest threadIdBoot)

/-- There is memory for a message to the cleanup thread. -/
theorem putMessageUnder_posted_fresh :
    ∃ s', freshRequest.putMessageUnder .success true true 0 = some (.success, s') ∧
      Posted 0 freshRequest .success s' := by
  have hcall : freshRequest.putMessageUnder .success true true 0 = some (.success,
      ((freshRequest.pushTail threadIdCleanup 0).blockOn threadIdCleanup 0).addPending 0) := rfl
  exact ⟨_, hcall, (putMessageUnder_posted_iff (by decide) (by decide) hcall).2 fun _ => rfl⟩

/-- Without a node, the message is in the pool alone, and the call succeeds. -/
theorem not_putMessageUnder_posted :
    ¬∀ (s s' : State) (m : MessageRef) (payload status : Status) (node array : Bool),
      m ∉ s.messageQueue (s.message m).destination → m ∉ s.pendingMessages.items →
      s.putMessageUnder payload node array m = some (status, s') → Posted m s status s' := by
  intro hposted
  have hcall := hposted freshRequest _ 0 .success .success false true (by decide) (by decide) rfl
  rw [Posted, if_pos rfl] at hcall
  exact absurd hcall.1 (by decide)

/-! ### Nested calls -/

/-- The calls of `put_message` that are nested in the one for `m`, when the heap has room for so many
messages. -/
def nestedCalls (payload : Status) : ℕ → MessageRef → State → ℕ
  | 0, _, _ => 0
  | heap + 1, m, s =>
    match s.putMessage payload m with
    | some (.mailboxOverflow, s') =>
      nestedCalls .success heap s'.nextMessage
        (s'.allocateMessage (deletionRequest (s.message m).destination)) + 1
    | _ => 0

/-- The mailbox of the cleanup thread is full, and it does not wait for a request to delete a thread. -/
def CleanupFull (s : State) : Prop :=
  s.mailboxEnabled threadIdCleanup = true ∧ s.mailboxOverflow threadIdCleanup = true ∧
    ¬(s.threadState threadIdCleanup = .blocked ∧ s.blockingThread threadIdCleanup = some threadIdNull ∧
      s.blockingMessageId threadIdCleanup = messageIdAtomic)

/-- The request to delete `t`, as a message that has just been allocated. -/
def requestDeletion (t : ThreadId) (s : State) : State := s.allocateMessage (deletionRequest t)

theorem overflows_iff (payload : Status) (m : MessageRef) (s : State) :
    s.Overflows payload m ↔ (s.putMessage payload m).map Prod.fst = some .mailboxOverflow := by
  rw [Overflows, Offered, putMessage, threadPutMessage]
  by_cases hpayload : s.payloadStatus payload m = .success
  · cases s.mailboxEnabled (s.message m).destination <;>
      cases s.unblocks (s.message m).destination m <;>
      cases s.mailboxOverflow (s.message m).destination <;>
      rcases s.causesSchedulingLoop (s.message m).destination m with _ | _ | _ <;> simp [hpayload]
  · simp [hpayload]

theorem putMessage_of_overflows (h : s.Overflows payload m) :
    s.putMessage payload m = some (.mailboxOverflow, s) := by
  obtain ⟨⟨status, s'⟩, hput, hstatus⟩ := Option.map_eq_some_iff.1 ((overflows_iff ..).1 h)
  obtain rfl : status = .mailboxOverflow := hstatus
  rw [hput]
  cases put_of_putMessage hput with
  | refused => rfl

theorem nestedCalls_of_overflows (h : s.Overflows payload m) (heap : ℕ) :
    s.nestedCalls payload (heap + 1) m =
      (s.requestDeletion (s.message m).destination).nestedCalls .success heap s.nextMessage + 1 := by
  rw [nestedCalls, putMessage_of_overflows h]
  rfl

theorem nestedCalls_of_not_overflows (h : ¬s.Overflows payload m) (heap : ℕ) :
    s.nestedCalls payload heap m = 0 := by
  cases heap with
  | zero => rfl
  | succ heap =>
    rw [nestedCalls]
    split
    · rename_i s' hput
      exact absurd ((overflows_iff ..).2 (congrArg (Option.map Prod.fst) hput)) h
    · rfl

/-- Whether the request fits depends on the cleanup thread alone. -/
theorem overflows_requestDeletion_iff (t : ThreadId) (s : State) :
    (s.requestDeletion t).Overflows .success s.nextMessage ↔ s.CleanupFull := by
  have hmessage : (s.requestDeletion t).message s.nextMessage = deletionRequest t :=
    message_allocateMessage ..
  have hpayload : (s.requestDeletion t).payloadStatus .success s.nextMessage = .success := by
    rw [payloadStatus, hmessage]
    rfl
  have hloop : (s.requestDeletion t).causesSchedulingLoop threadIdCleanup s.nextMessage = some false := by
    rw [causesSchedulingLoop, hmessage]
    rfl
  have hunblocks : (s.requestDeletion t).unblocks threadIdCleanup s.nextMessage = true ↔
      s.threadState threadIdCleanup = .blocked ∧ s.blockingThread threadIdCleanup = some threadIdNull ∧
        s.blockingMessageId threadIdCleanup = messageIdAtomic := by
    rw [unblocks, hmessage, Bool.and_eq_true, Bool.and_eq_true, beq_iff_eq, beq_iff_eq, beq_iff_eq,
      and_assoc]
    rfl
  have henabled : (s.requestDeletion t).mailboxEnabled = s.mailboxEnabled := rfl
  have hfull : (s.requestDeletion t).mailboxOverflow threadIdCleanup =
    s.mailboxOverflow threadIdCleanup := rfl
  have hdestination : (deletionRequest t).destination = threadIdCleanup := rfl
  rw [Overflows, Offered, CleanupFull, ← hunblocks, hpayload, hmessage, hdestination, hloop, henabled,
    hfull]
  simp [and_comm]

/-- The requests of a cleanup thread whose mailbox is full use up the heap. -/
theorem nestedCalls_of_cleanupFull (h : s.CleanupFull) (t : ThreadId) (heap : ℕ) :
    (s.requestDeletion t).nestedCalls .success heap s.nextMessage = heap := by
  induction heap generalizing s t with
  | zero => rfl
  | succ heap ih =>
    have hfull : (s.requestDeletion t).CleanupFull := h
    rw [nestedCalls_of_overflows ((overflows_requestDeletion_iff t s).2 h)]
    exact congrArg (· + 1) (ih hfull _)

/-- **The calls that are nested in one call** are at most one, unless the mailboxes of the recipient and
of the cleanup thread are both full: then there is no bound for them but the size of the heap. -/
theorem nestedCalls_bounded_iff (payload : Status) (m : MessageRef) (s : State) :
    ((∀ heap, s.nestedCalls payload heap m ≤ 1) ↔ ¬(s.Overflows payload m ∧ s.CleanupFull)) ∧
      ((∃ bound, ∀ heap, s.nestedCalls payload heap m ≤ bound) ↔
        ¬(s.Overflows payload m ∧ s.CleanupFull)) := by
  by_cases hover : s.Overflows payload m
  · by_cases hfull : s.CleanupFull
    · have hcalls (heap : ℕ) : s.nestedCalls payload (heap + 1) m = heap + 1 := by
        rw [nestedCalls_of_overflows hover, nestedCalls_of_cleanupFull hfull]
      refine ⟨iff_of_false (fun hone => ?_) (not_not.2 ⟨hover, hfull⟩),
        iff_of_false ?_ (not_not.2 ⟨hover, hfull⟩)⟩
      · have htwo := hone 2
        rw [hcalls] at htwo
        omega
      · rintro ⟨bound, hbound⟩
        have hmore := hbound (bound + 1)
        rw [hcalls] at hmore
        omega
    · have hone (heap : ℕ) : s.nestedCalls payload heap m ≤ 1 := by
        cases heap with
        | zero => exact Nat.zero_le _
        | succ heap =>
          refine Nat.le_of_eq ?_
          rw [nestedCalls_of_overflows hover,
            nestedCalls_of_not_overflows (mt (overflows_requestDeletion_iff _ s).1 hfull)]
      exact ⟨iff_of_true hone fun hboth => hfull hboth.2,
        iff_of_true ⟨1, hone⟩ fun hboth => hfull hboth.2⟩
  · have hone (heap : ℕ) : s.nestedCalls payload heap m ≤ 1 := by
      rw [nestedCalls_of_not_overflows hover]
      exact Nat.zero_le _
    exact ⟨iff_of_true hone fun hboth => hover hboth.1,
      iff_of_true ⟨1, hone⟩ fun hboth => hover hboth.1⟩

/-- The boot thread fills the mailbox of the cleanup thread, and is about to put one message more. -/
def flooding : List Action :=
  let send : Action := .call (.sendMessage threadIdCleanup 5 7 0 true)
  (List.replicate mailboxDefaultLimit
    [send, .run ⟨.success, 0, 0⟩, .run ⟨.success, 0, 0⟩]).flatten ++ [send]

/-- The cleanup thread does not run before its mailbox is full. -/
theorem not_nestedCalls_bounded :
    ¬∃ bound, ∀ s, Reachable s → ∀ (payload : Status) (heap : ℕ) (m : MessageRef),
      s.nestedCalls payload heap m ≤ bound := by
  rintro ⟨bound, hbound⟩
  have heval : ∃ s ∈ runActions step initial flooding,
      (s.putMessage .success 64).map Prod.fst = some .mailboxOverflow ∧
      s.mailboxEnabled threadIdCleanup = true ∧ s.mailboxOverflow threadIdCleanup = true ∧
      s.threadState threadIdCleanup = .ready := by
    decide +kernel
  obtain ⟨s, hs, hover, henabled, hfull, hready⟩ := heval
  have hcleanup : s.CleanupFull := by
    refine ⟨henabled, hfull, ?_⟩
    rintro ⟨hblocked, -⟩
    rw [hready] at hblocked
    cases hblocked
  have hmore := hbound s (run_of_runActions flooding hs) .success (bound + 1) 64
  rw [nestedCalls_of_overflows ((overflows_iff ..).2 hover),
    nestedCalls_of_cleanupFull hcleanup] at hmore
  omega

end Dx.Kernel.State
