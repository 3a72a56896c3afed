import Dx.Kernel.References

/-!
# What a step does to the mailboxes

Most steps leave alone the mailboxes, the threads that are blocked and the
messages (`Quiet`). The others are few (`Mail`): a reply wakes its destination, a
message is queued, a request is queued and blocks its sender, a message is taken, a sender whose
mailbox was emptied gives up its reply, a thread is marked for deletion, and a reference to a
thread is dropped, which may destroy the thread.
-/

namespace Dx.Kernel

open Function List

/-- What a message keeps for as long as it is there: all but the mark of a request. -/
def Message.header (m : Message) : Message := { m with blocking := false }

theorem Message.eq_of_header {m m' : Message} (h : m'.header = m.header) :
    m'.source = m.source ∧ m'.destination = m.destination ∧ m'.type = m.type ∧ m'.id = m.id ∧
      m'.payload = m.payload ∧ m'.small = m.small := by
  simp only [Message.header, Message.mk.injEq, and_true] at h
  exact h

def Event.isMailbox : Event → Bool
  | .queued _ => true
  | .woke _ => true
  | .taken _ => true
  | .discarded _ => true
  | _ => false

/-- The recipient and the id of the request whose reply a frame is to take from the mailbox. -/
def Frame.awaits : Frame → List (ThreadId × ℕ)
  | .getMessage (.reply recipient requestId) => [(recipient, requestId)]
  | _ => []

/-- The replies a thread is still to take from its mailbox, the next one first. -/
def awaited (frames : List Frame) : List (ThreadId × ℕ) := frames.flatMap Frame.awaits

@[simp] theorem awaited_nil : awaited [] = [] := rfl

@[simp] theorem awaited_cons (f : Frame) (frames : List Frame) :
    awaited (f :: frames) = f.awaits ++ awaited frames := rfl

@[simp] theorem awaited_append (frames frames' : List Frame) :
    awaited (frames ++ frames') = awaited frames ++ awaited frames' := flatMap_append

variable {frames : List Frame}

theorem awaited_eq_nil (h : ∀ f ∈ frames, f.isPlain = true) : awaited frames = [] := by
  rw [awaited, flatMap_eq_nil_iff]
  intro f hf
  have hp := h f hf
  cases f <;> first | rfl | cases hp

/-- Only a request that has been put calls a frame that takes a reply. -/
theorem Frame.Expands.awaited_eq_nil {f : Frame} (he : f.Expands frames)
    (hf : f.isRequest = false) : awaited frames = [] := by
  cases he with
  | plain hp => exact Kernel.awaited_eq_nil hp
  | request | refused => cases hf
  | @wait r hr => cases r <;> first | rfl | cases hr
  | fail hp | abort hp => rw [awaited_append, Kernel.awaited_eq_nil hp]; rfl
  | _ => rfl

/-- A frame a system call or an interrupt starts with. -/
def Frame.isEntry : Frame → Bool
  | .putMessage _ => true
  | .sendMessage _ _ => true
  | .getMessage r => !r.isReply
  | .dropReference _ => true
  | .restoreInterrupts _ => true
  | .wakeInterruptHandlers _ _ _ => true
  | _ => false

theorem awaited_eq_nil_of_isEntry (h : ∀ f ∈ frames, f.isEntry = true) : awaited frames = [] := by
  rw [awaited, flatMap_eq_nil_iff]
  intro f hf
  have he := h f hf
  cases f with
  | getMessage r => cases r <;> first | rfl | cases he
  | _ => rfl

namespace State

/-! ### Steps that leave the mailboxes alone -/

/-- Nothing happens to the mailboxes, the threads that are blocked and the messages. -/
structure Quiet (s s' : State) : Prop where
  queue : s'.messageQueue = s.messageQueue
  waits : s'.blockingThread = s.blockingThread
  request : s'.blockingMessageId = s.blockingMessageId
  threads : ∀ {t}, t ∈ s.threads → t ∈ s'.threads
  /-- Their mailboxes are enabled or not. -/
  enabled : ∀ {t}, t ∈ s.threads → s'.mailboxEnabled t = s.mailboxEnabled t
  next : s.nextMessage ≤ s'.nextMessage
  message : ∀ {m}, m < s.nextMessage → s'.message m = s.message m
  /-- No event of a mailbox is recorded. -/
  events : ∃ es, s'.history = s.history ++ es ∧ ∀ e ∈ es, e.isMailbox = false

section

variable {s s' s'' : State} {t u : ThreadId} {m : MessageRef} {f : Frame} {rest : List Frame}
  {o : Outcome} {c : SystemCall} {a : Action} {g : Frame}

theorem Quiet.of_eq
    (h : (s'.messageQueue, s'.blockingThread, s'.blockingMessageId, s'.threads, s'.mailboxEnabled,
        s'.nextMessage, s'.message, s'.history) =
      (s.messageQueue, s.blockingThread, s.blockingMessageId, s.threads, s.mailboxEnabled,
        s.nextMessage, s.message, s.history)) : Quiet s s' := by
  simp only [Prod.mk.injEq] at h
  obtain ⟨hq, hb, hi, ht, he, hn, hm, hh⟩ := h
  exact ⟨hq, hb, hi, fun hmem => ht ▸ hmem, fun _ => by rw [he], hn ▸ Nat.le_refl _,
    fun _ => by rw [hm], [], by simp [hh], by simp⟩

theorem Quiet.trans (h : Quiet s s') (h' : Quiet s' s'') : Quiet s s'' where
  queue := h'.queue.trans h.queue
  waits := h'.waits.trans h.waits
  request := h'.request.trans h.request
  threads := fun ht => h'.threads (h.threads ht)
  enabled := fun ht => (h'.enabled (h.threads ht)).trans (h.enabled ht)
  next := Nat.le_trans h.next h'.next
  message := fun hm => (h'.message (Nat.lt_of_lt_of_le hm h.next)).trans (h.message hm)
  events := by
    obtain ⟨es, he, hes⟩ := h.events
    obtain ⟨es', he', hes'⟩ := h'.events
    refine ⟨es ++ es', by rw [he', he, append_assoc], fun e hmem => ?_⟩
    exact (mem_append.1 hmem).elim (hes e) (hes' e)

theorem quiet_pop (rest : List Frame) (s : State) : Quiet s (s.pop rest) := .of_eq rfl

theorem quiet_record {e : Event} (he : e.isMailbox = false) (s : State) : Quiet s (s.record e) :=
  ⟨rfl, rfl, rfl, id, fun _ => rfl, Nat.le_refl _, fun _ => rfl, [e], rfl, by simpa using he⟩

theorem quiet_allocateMessage (message : Message) (s : State) :
    Quiet s (s.allocateMessage message) where
  queue := rfl
  waits := rfl
  request := rfl
  threads := id
  enabled := fun _ => rfl
  next := Nat.le_succ _
  message := fun hm => update_of_ne (Nat.ne_of_lt hm) _ _
  events := ⟨[], by simp [allocateMessage, addReference], by simp⟩

theorem Quiet.of_grown (h : Grown s s') : Quiet s s' := by
  induction h with
  | refl => exact .of_eq rfl
  | push _ _ ih | addReference _ _ ih => exact ih.trans (.of_eq rfl)
  | allocate _ _ ih => exact ih.trans (quiet_allocateMessage _ _)
  | failed _ _ ih | aborted _ _ _ ih => exact ih.trans (quiet_record rfl _)

theorem quiet_yield {lot : ℕ} (hy : s.yield lot = some s') : Quiet s s' := by
  obtain ⟨_, _, _, _, _, rfl⟩ := yield_eq hy
  exact .of_eq rfl

theorem quiet_keepTicket (s : State) : Quiet s s.keepTicket :=
  keepTicket_cases (.of_eq rfl) fun _ => (quiet_allocateMessage _ _).trans (.of_eq rfl)

theorem Known.quiet_createThread (h : Known s) {mask : ℕ} (ht : t ∉ s.threads) :
    Quiet s (s.createThread t mask) where
  queue := by
    show update s.messageQueue t [] = s.messageQueue
    rw [← (h.idle ht).queue, update_eq_self]
  waits := by
    have hb : s.blockingThread t = none :=
      Option.eq_none_iff_forall_ne_some.2 fun _ hb => ht (h.blocking hb).1
    show update s.blockingThread t none = s.blockingThread
    rw [← hb, update_eq_self]
  request := rfl
  threads := fun hu => mem_append_left _ hu
  enabled := fun {u} hu => by
    have hne : u ≠ t := fun e => ht (e ▸ hu)
    exact update_of_ne hne _ _
  next := Nat.le_refl _
  message := fun _ => rfl
  events := ⟨[], by simp [State.createThread], by simp⟩

/-! ### The other steps -/

/-- A reply that has been put: its destination is no longer blocked, and finds it at the head of
its mailbox. -/
def answered (m : MessageRef) (s : State) : State :=
  { s with
    threadState := update s.threadState (s.message m).destination .ready
    referenceCount := update s.referenceCount (s.message m).source
      (s.referenceCount (s.message m).source - 1)
    blockingThread := update s.blockingThread (s.message m).destination none
    messageQueue := update s.messageQueue (s.message m).destination
      (m :: s.messageQueue (s.message m).destination)
    pendingMessages := s.pendingMessages.add m
    history := s.history ++ [.woke m] }

/-- A message that has been put at the tail of the mailbox of its destination. -/
def enqueued (m : MessageRef) (s : State) : State :=
  { s with
    messageQueue := update s.messageQueue (s.message m).destination
      (s.messageQueue (s.message m).destination ++ [m])
    pendingMessages := s.pendingMessages.add m
    history := s.history ++ [.queued m] }

/-- **What a step does to the mailboxes.** -/
inductive Mail (s : State) : State → Prop
  /-- Nothing. -/
  | quiet {s' : State} : Quiet s s' → (∀ t, awaited (s'.stack t) = awaited (s.stack t)) → Mail s s'
  /-- A message is marked as a request, and is about to be put. -/
  | sent {m : MessageRef} {deletes : Bool} {rest : List Frame} :
      s.stack s.currentThread = .sendMessage m deletes :: rest →
      Mail s ((s.pop rest).sendMessage m deletes)
  /-- There is no reply to take. -/
  | gaveUp {recipient : ThreadId} {requestId : ℕ} {rest : List Frame} :
      s.stack s.currentThread = .getMessage (.reply recipient requestId) :: rest →
      s.messageQueue s.currentThread = [] →
      Mail s ((s.pop rest).push [.abortSendMessage recipient requestId .mailboxEmpty])
  /-- A reply wakes its destination. -/
  | woken {m : MessageRef} {rest : List Frame} : s.stack s.currentThread = .putMessage m :: rest →
      s.mailboxEnabled (s.message m).destination = true →
      s.unblocks (s.message m).destination m = true → Mail s ((s.pop rest).answered m)
  | queued {m : MessageRef} {rest : List Frame} : s.stack s.currentThread = .putMessage m :: rest →
      s.mailboxEnabled (s.message m).destination = true →
      s.unblocks (s.message m).destination m = false → Mail s ((s.pop rest).enqueued m)
  /-- A request is queued, and blocks its sender. -/
  | requested {m : MessageRef} {recipient : ThreadId} {requestId : ℕ} {interrupts deletes : Bool}
      {rest : List Frame} :
      s.stack s.currentThread = .putRequest m recipient requestId interrupts deletes :: rest →
      s.mailboxEnabled (s.message m).destination = true →
      (s.message m).destination ≠ s.currentThread →
      Mail s (((s.pop rest).requested m).push
        [.yield, .restoreInterrupts interrupts, .getMessage (.reply recipient requestId)])
  | taken {r : Reception} {m : MessageRef} {queue : List MessageRef} {rest : List Frame} :
      s.stack s.currentThread = .getMessage r :: rest →
      s.messageQueue s.currentThread = m :: queue →
      Mail s (((s.pop rest).popMessage m queue).push [.removePending m r])
  | marked {victim : ThreadId} {acknowledgement : Option MessageRef} {rest : List Frame} :
      s.stack s.currentThread = .markForDeletion victim acknowledgement :: rest →
      Mail s (((s.pop rest).markForDeletion victim acknowledgement).push
        [.unlinkMessages (s.leftoverMessages victim)])
  | dropped {t : ThreadId} {rest : List Frame} :
      s.stack s.currentThread = .dropReference t :: rest → Mail s ((s.pop rest).removeReference t)

theorem awaited_pop (hs : s.stack s.currentThread = f :: rest)
    (hf : f.awaits = []) (hframes : awaited frames = []) (t : ThreadId) :
    awaited (update s.stack s.currentThread (frames ++ rest) t) = awaited (s.stack t) := by
  by_cases ht : t = s.currentThread
  · rw [ht, update_self, hs, awaited_append, awaited_cons, hframes, hf]
  · rw [update_of_ne ht]

theorem Mail.of_pushed (hs : s.stack s.currentThread = f :: rest) (hf : f.awaits = [])
    (hq : Quiet (s.pop rest) s') (hp : Pushed (s.pop rest) frames s')
    (hframes : awaited frames = []) : Mail s s' := by
  refine .quiet ((quiet_pop rest s).trans hq) fun t => ?_
  rw [hp.stack_of_pop]
  exact awaited_pop hs hf hframes t

theorem Mail.of_push (frames : List Frame) (hq : Quiet s s') (hp : Pushed s frames s')
    (hframes : awaited frames = []) : Mail s s' := by
  refine .quiet hq fun t => ?_
  rw [hp.1]
  by_cases ht : t = s.currentThread
  · rw [ht, update_self, awaited_append, hframes, nil_append]
  · rw [update_of_ne ht]

/-- The reply a thread is blocked for is put: no thread is destroyed by that, because the reply
refers to its source. -/
theorem Regular.answered_eq (hreg : Regular s)
    (hs : s.stack s.currentThread = .putMessage m :: rest)
    (hwait : s.blockingThread (s.message m).destination = some (s.message m).source) :
    ((((s.pop rest).unblock (s.message m).destination m).pushHead (s.message m).destination
      m).blockOn (s.message m).destination m).addPending m = (s.pop rest).answered m := by
  have hk := (hreg.sound.known.pop hs).1
  have ho : HasOwners False (Frame.putMessage m).carries (s.pop rest) :=
    hreg.sound.owners.imp fun _ ho => ho.pop hs
  have hled := hreg.ledger.pop hreg.sound.known.isListed hs
  have hnb : (s.message m).blocking = false := (hreg.sound.addressed.pop hs).2
  have hm : (m, false) ∈ (Frame.putMessage m).carries := mem_singleton.2 rfl
  rw [unblock_eq_of_one_lt (hled.one_lt hk (ho.mem_allocated hm) (ho.lt hm) hwait), blockOn,
    if_neg (by simpa [pushHead, record, State.pop] using hnb)]
  rfl

theorem Put.mail (hput : Put (s.pop rest) m .success s') (hreg : Regular s)
    (hs : s.stack s.currentThread = .putMessage m :: rest) : Mail s s' := by
  have hnb : (s.message m).blocking = false := (hreg.sound.addressed.pop hs).2
  cases hput with
  | refused hne => exact absurd rfl hne
  | woken hen _ hun =>
    have hwait : s.blockingThread (s.message m).destination = some (s.message m).source := by
      simp only [unblocks, Bool.and_eq_true, beq_iff_eq] at hun
      exact hun.1.2
    have hmail : Mail s ((s.pop rest).answered m) := .woken hs hen hun
    rw [← hreg.answered_eq hs hwait] at hmail
    exact hmail
  | queued hen _ hun =>
    rw [blockOn, if_neg (by simpa [pushTail, record, State.pop] using hnb)]
    exact .queued hs hen hun

theorem Executed.mail (hexec : Executed (s.pop rest) o f s') (hreg : Regular s)
    (hs : s.stack s.currentThread = f :: rest) : Mail s s' := by
  have hquiet : f ≠ .yield → f.isRequest = false → f.awaits = [] → Quiet (s.pop rest) s' →
      Mail s s' := fun hy hr hf hq =>
    (hexec.expands hy).elim fun _ h => .of_pushed hs hf hq h.2 (h.1.awaited_eq_nil hr)
  cases hexec with
  | put hput => exact hput.mail hreg hs
  | putRefused => exact hquiet (by simp) rfl rfl (.of_grown (grown_killOnOverflow _ _ _ _))
  | send => exact .sent hs
  | @request m recipient requestId interrupts deletes _ hput =>
    have hset := hreg.waitFor.pop hs (by simp)
    have hfits := (hreg.sound.addressed.pop hs).2
    obtain ⟨hen, hloop, rfl⟩ := hset.put_request hfits.2.2.2 hfits.1 hput
    refine .requested hs hen fun hdest => ?_
    have hblocking : ((s.pop rest).message m).blocking = true := hfits.2.2.2
    have hself : (s.pop rest).currentThread = ((s.pop rest).message m).destination := hdest.symm
    rw [causesSchedulingLoop, if_pos hblocking, if_pos hself] at hloop
    cases hloop
  | @requestRefused m recipient requestId interrupts deletes status hput =>
    obtain ⟨frames, hplain, hp⟩ := pushed_killOnOverflow status
      ((s.pop rest).message m).destination ((s.pop rest).push
        ([.restoreInterrupts interrupts, .dropReference recipient] ++
          if deletes then [.deleteMessage m] else []))
    refine .of_pushed hs rfl (.of_grown (grown_killOnOverflow _ _ _ _)) ((pushed_push _ _).trans hp) ?_
    rw [awaited_append, awaited_eq_nil hplain]
    cases deletes <;> rfl
  | yield hy =>
    refine .quiet ((quiet_pop rest s).trans (quiet_yield hy)) fun t => ?_
    rw [yield_stack_eq hy]
    exact awaited_pop hs rfl awaited_nil t
  | get hq => exact .taken hs hq
  | wait hq hr =>
    refine hquiet (by simp) rfl ?_ (.of_eq rfl)
    rcases hr with rfl | rfl <;> rfl
  | empty => exact hquiet (by simp) rfl rfl (.of_eq rfl)
  | noReply hq => exact .gaveUp hs hq
  | deliver =>
    exact hquiet (by simp) rfl rfl ((quiet_record rfl _).trans (.of_eq rfl))
  | undeliverable => exact hquiet (by simp) rfl rfl (.of_grown (grown_abortRequest _ _ _ _))
  | abortSend | wake => exact hquiet (by simp) rfl rfl (.of_grown (.push _ (.allocate _ .refl)))
  | drop => exact .dropped hs
  | deleteThread => exact hquiet (by simp) rfl rfl (.of_grown (grown_deleteThread _ _))
  | mark => exact .marked hs
  | abort => exact hquiet (by simp) rfl rfl (.of_grown (grown_abortMessages _ _))
  | _ => exact hquiet (by simp) rfl rfl (.of_eq rfl)

theorem Called.pushed (hc : Called s c s') (hk : Known s) :
    ∃ frames, (∀ f ∈ frames, f.isEntry = true) ∧ Pushed s frames s' := by
  cases hc with
  | failed | register => exact ⟨[], by simp, .of_eq rfl rfl⟩
  | send => exact ⟨_, by simp [Frame.isEntry], (pushed_allocatePush _ _ _).of_addReference⟩
  | sendAndReceive =>
    exact ⟨_, by simp [Frame.isEntry], (pushed_allocatePush _ _ _).of_addReference⟩
  | receive => exact ⟨_, forall_mem_singleton.2 rfl, pushed_push _ _⟩
  | delete => exact ⟨_, by simp [Frame.isEntry], pushed_allocatePush _ _ _⟩
  | @create t mask hnew =>
    refine ⟨[.dropReference t], by simp [Frame.isEntry], ?_, rfl⟩
    have hstack : (s.createThread t mask).stack = s.stack := by
      show update s.stack t [] = s.stack
      rw [← (hk.idle hnew).stack, update_eq_self]
    rw [(pushed_push _ _).1, hstack]
    rfl

theorem Called.quiet (hc : Called s c s') (hk : Known s) : Quiet s s' := by
  cases hc with
  | failed | receive | register => exact .of_eq rfl
  | send | sendAndReceive => exact .of_grown (.push _ (.allocate _ (.addReference _ .refl)))
  | delete => exact .of_grown (.push _ (.allocate _ .refl))
  | create hnew => exact (hk.quiet_createThread hnew).trans (.of_grown (.push _ .refl))

/-- **Every step** leaves the mailboxes alone, or is one of the few that do not. -/
theorem Stepped.mail (hs : Stepped s a s') (hreg : Regular s) : Mail s s' := by
  cases hs with
  | run hstack hexec => exact hexec.mail hreg hstack
  | call _ _ _ hc =>
    obtain ⟨frames, hentry, hp⟩ := hc.pushed hreg.sound.known
    exact .of_push _ (hc.quiet hreg.sound.known) hp (awaited_eq_nil_of_isEntry hentry)
  | cleanupLoop | nullLoop => exact .of_push _ (.of_eq rfl) (pushed_push _ _) rfl
  | tick => exact .quiet (.of_eq rfl) fun _ => rfl
  | quantum _ _ hy =>
    have htick : Quiet s s.tick := .of_eq rfl
    refine .quiet (htick.trans ((quiet_keepTicket _).trans (quiet_yield hy))) fun t => ?_
    rw [yield_stack_eq hy, keepTicket_stack_eq]
    rfl
  | @device irq =>
    exact .of_push _ (.of_eq rfl) (pushed_device irq s) rfl

theorem Pushed.mem_stack (hp : Pushed s frames s') (hg : g ∈ s'.stack t) :
    g ∈ s.stack t ∨ t = s.currentThread ∧ g ∈ frames := by
  rw [hp.1] at hg
  rcases Library.update_cases hg with ⟨rfl, hnew⟩ | ⟨-, hold⟩
  · exact (mem_append.1 hnew).elim (fun hnew => .inr ⟨rfl, hnew⟩) .inl
  · exact .inl hold

theorem Executed.mem_stack (hstack : s.stack s.currentThread = f :: rest)
    (hexec : Executed (s.pop rest) o f s') (hg : g ∈ s'.stack t) :
    g ∈ s.stack t ∨ t = s.currentThread ∧ f ≠ .yield ∧
      ∃ frames, f.Expands frames ∧ Pushed (s.pop rest) frames s' ∧ g ∈ frames := by
  by_cases hy : f = .yield
  · subst hy
    cases hexec with
    | yield hy =>
      rw [yield_stack_eq hy] at hg
      exact .inl (mem_stack_of_pop hstack hg)
  · obtain ⟨frames, he, hp⟩ := hexec.expands hy
    rcases hp.mem_stack hg with hg | ⟨ht, hg⟩
    · exact .inl (mem_stack_of_pop hstack hg)
    · exact .inr ⟨ht, hy, frames, he, hp, hg⟩

/-- A frame is there from before, or is one a system call or an interrupt starts with, or was
called by the frame that was executed. -/
theorem Stepped.mem_stack (hs : Stepped s a s') (hk : Known s) (hg : g ∈ s'.stack t) :
    g ∈ s.stack t ∨ t = s.currentThread ∧ (g.isEntry = true ∨
      ∃ o f rest frames, a = .run o ∧ s.stack s.currentThread = f :: rest ∧ f ≠ .yield ∧
        Executed (s.pop rest) o f s' ∧ f.Expands frames ∧ Pushed (s.pop rest) frames s' ∧
        g ∈ frames) := by
  cases hs with
  | @run o f rest _ hstack hexec =>
    refine (hexec.mem_stack hstack hg).imp_right fun ⟨ht, hy, frames, he, hp, hg⟩ => ⟨ht, .inr ?_⟩
    exact ⟨o, f, rest, frames, rfl, hstack, hy, hexec, he, hp, hg⟩
  | call _ _ _ hc =>
    obtain ⟨frames, hf, hp⟩ := hc.pushed hk
    exact (hp.mem_stack hg).imp_right fun h => ⟨h.1, .inl (hf g h.2)⟩
  | cleanupLoop | nullLoop =>
    refine ((pushed_push _ _).mem_stack hg).imp_right fun h => ⟨h.1, .inl ?_⟩
    rw [mem_singleton.1 h.2]
    rfl
  | tick => exact .inl hg
  | quantum _ _ hy =>
    rw [yield_stack_eq hy, keepTicket_stack_eq] at hg
    exact .inl hg
  | device =>
    refine ((pushed_push _ _).mem_stack hg).imp_right fun h => ⟨h.1, .inl ?_⟩
    have hmem := h.2
    simp only [mem_cons, not_mem_nil, or_false] at hmem
    rcases hmem with rfl | rfl <;> rfl

/-- Only a message that is about to be put is marked as a request. -/
theorem Mail.message (h : Mail s s') (hm : m < s.nextMessage)
    (hsend : ∀ deletes, .sendMessage m deletes ∉ s.stack s.currentThread) :
    s'.message m = s.message m := by
  cases h with
  | quiet hq => exact hq.message hm
  | @sent m' deletes rest hs =>
    have hne : m ≠ m' := by
      rintro rfl
      exact hsend deletes (hs ▸ mem_cons_self)
    exact update_of_ne hne _ _
  | @dropped t rest =>
    obtain ⟨_, _, _, _, _, _, hr⟩ := removeReference_eq t (s.pop rest)
    rw [hr]
    rfl
  | _ => rfl

theorem header_sendMessage (m x : MessageRef) (deletes : Bool) (s : State) :
    ((s.sendMessage m deletes).message x).header = (s.message x).header := by
  show (update s.message m { s.message m with blocking := true } x).header = _
  rw [update_apply]
  split
  case isTrue he => rw [he]; rfl
  case isFalse => rfl

theorem Mail.header (h : Mail s s') (hm : m < s.nextMessage) :
    (s'.message m).header = (s.message m).header := by
  cases h with
  | quiet hq => rw [hq.message hm]
  | @sent m' deletes rest hs => exact header_sendMessage m' m deletes (s.pop rest)
  | @dropped t rest =>
    obtain ⟨_, _, _, _, _, _, hr⟩ := removeReference_eq t (s.pop rest)
    rw [hr]
    rfl
  | _ => rfl

end

end State

end Dx.Kernel
