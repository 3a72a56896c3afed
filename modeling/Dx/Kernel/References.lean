import Dx.Library.Ledger
import Dx.Kernel.ThreadTable
import Dx.Kernel.WaitFor

/-!
# Counting references

A thread is destroyed when its reference count drops to zero. The references are taken and
dropped all over the kernel: by the thread table, by every message for its source and its
destination, by a thread that is blocked, by an interrupt handler, and by the code that has
looked a thread up and is going to drop it again, which is to say by frames. `holders` lists
them, one entry for each reference, and the count is how often the thread is in the list
(`Ledger`).

The list has everything that will ever drop a reference and also what never will: a message that
has been lost is still counted, and so are the frames of a thread that has been destroyed. So a
count can be too high for its thread ever to be destroyed, but not too low; and a thread that
has been destroyed is held by no one.
-/

namespace Dx.Kernel

open Library Function List Kernel.Frame

/-- The threads a frame holds a reference to, and is to drop. -/
def Frame.holds : Frame → List ThreadId
  | .putRequest _ recipient _ _ _ => [recipient]
  | .getMessage r => r.names
  | .removePending _ r => r.names
  | .deliverPayload _ r => r.names
  | .abortSendMessage recipient _ _ => [recipient]
  | .dropReference t => [t]
  | _ => []

theorem Frame.holds_subset_names (f : Frame) : f.holds ⊆ f.names := by
  cases f <;> simp [holds, names]

def Message.holds (message : Message) : List ThreadId := [message.source, message.destination]

namespace State

/-- Who holds a reference, one entry for each. -/
def holders (s : State) : List ThreadId :=
  s.threadTable ++ (s.allocated.flatMap fun m => (s.message m).holds) ++
    (s.threads.flatMap fun t => (s.blockingThread t).toList) ++
    (List.range interruptVectorPicCount).flatMap s.interruptHandler ++
    (s.threads.flatMap fun t => (s.stack t).flatMap holds) ++
    [threadIdCleanup, threadIdNull]

/-- The count of every thread is the number of references to it, where `held` are those of the
running frame, which is no longer on the stack. -/
def Ledger (held : List ThreadId) (s : State) : Prop :=
  ∀ t ∈ s.threads, s.referenceCount t = ((held ++ s.holders).count t : ℤ)

section

variable {held held' : List ThreadId} {s s' : State} {t u : ThreadId} {m : MessageRef}
  {frames rest : List Frame} {f : Frame} {message : Message} {v : ThreadId} {status : Status}
  {hands : List (MessageRef × Bool)} {o : Outcome} {mask : ℕ} {c : SystemCall} {a : Action}

theorem count_holders (s : State) (t : ThreadId) : s.holders.count t =
    s.threadTable.count t + (s.allocated.flatMap fun m => (s.message m).holds).count t +
      (s.threads.flatMap fun t => (s.blockingThread t).toList).count t +
      ((List.range interruptVectorPicCount).flatMap s.interruptHandler).count t +
      (s.threads.flatMap fun t => (s.stack t).flatMap holds).count t +
      [threadIdCleanup, threadIdNull].count t := by
  simp only [holders, count_append]

/-- The fields that matter. -/
def references (s : State) :=
  (s.referenceCount, s.threadTable, s.allocated, s.message, s.blockingThread, s.interruptHandler,
    s.stack, s.threads)

theorem Ledger.congr (h : Ledger held s) (hs : s'.references = s.references) : Ledger held s' := by
  simp only [references, Prod.mk.injEq] at hs
  obtain ⟨h1, h2, h3, h4, h5, h6, h7, h8⟩ := hs
  have hh : s'.holders = s.holders := by simp only [holders, h2, h3, h4, h5, h6, h7, h8]
  intro t ht
  rw [h1, hh]
  exact h t (h8 ▸ ht)

/-- A change to the ledger and to the counts that agree. -/
theorem Ledger.change (h : Ledger held s) (hth : s'.threads = s.threads)
    (hc : ∀ t ∈ s.threads, s'.referenceCount t - s.referenceCount t =
      ((held' ++ s'.holders).count t : ℤ) - ((held ++ s.holders).count t : ℤ)) :
    Ledger held' s' := by
  intro t ht
  rw [hth] at ht
  have h₁ := h t ht
  have h₂ := hc t ht
  omega

/-- The threads are there once, and the running one is among them. -/
def Listed (s : State) : Prop := s.threads.Nodup ∧ s.currentThread ∈ s.threads

theorem Known.isListed (h : Known s) : Listed s := ⟨h.nodup, h.current⟩

namespace Ledger

theorem perm (h : Ledger held s) (hp : held'.Perm held) : Ledger held' s := fun t ht => by
  rw [h t ht, count_append, count_append, hp.count_eq]

theorem setStack (h : Ledger held s) (hl : Listed s)
    (hp : (held' ++ frames.flatMap holds).Perm
      (held ++ (s.stack s.currentThread).flatMap holds)) :
    Ledger held' { s with stack := update s.stack s.currentThread frames } := by
  refine h.change rfl fun t _ => ?_
  have hsum := count_flatMap_update hl.1 hl.2 (List.flatMap holds) s.stack frames t
  have hcount := hp.count_eq t
  simp only [count_append] at hcount
  simp only [count_append, count_holders, Int.natCast_add]
  omega

theorem push (h : Ledger (held ++ frames.flatMap holds) s) (hl : Listed s) :
    Ledger held (s.push frames) := by
  refine h.setStack hl ?_
  rw [flatMap_append, append_assoc]

theorem pop (h : Ledger [] s) (hl : Listed s) (hs : s.stack s.currentThread = f :: rest) :
    Ledger f.holds (s.pop rest) := by
  refine h.setStack hl ?_
  rw [hs, flatMap_cons]
  exact .refl _

theorem addReference (h : Ledger held s) : Ledger (t :: held) (s.addReference t) := by
  refine h.change rfl fun u _ => ?_
  show update s.referenceCount t _ u - s.referenceCount u =
    ((t :: (held ++ s.holders)).count u : ℤ) - _
  by_cases hu : u = t
  · rw [hu, update_self, count_cons_self]
    omega
  · rw [update_of_ne hu, count_cons_of_ne (Ne.symm hu)]
    omega

theorem subReference (h : Ledger (t :: held) s) : Ledger held { s with
    referenceCount := update s.referenceCount t (s.referenceCount t - 1) } := by
  refine h.change rfl fun u _ => ?_
  show update s.referenceCount t _ u - s.referenceCount u =
    ((held ++ s.holders).count u : ℤ) - ((t :: (held ++ s.holders)).count u : ℤ)
  by_cases hu : u = t
  · rw [hu, update_self, count_cons_self]
    omega
  · rw [update_of_ne hu, count_cons_of_ne (Ne.symm hu)]
    omega

/-- The thread `u` is no longer blocked: what it held is in the hands of the running frame. -/
theorem release (h : Ledger held s) (hl : Listed s) (hu : u ∈ s.threads) :
    Ledger ((s.blockingThread u).toList ++ held)
      { s with blockingThread := update s.blockingThread u none } := by
  refine h.change rfl fun t _ => ?_
  have hsum := count_flatMap_update hl.1 hu Option.toList s.blockingThread none t
  simp only [count_append, count_holders, Int.natCast_add, Option.toList_none, count_nil] at hsum ⊢
  omega

/-- The thread `u`, which was not blocked, holds what was in the hands of the running frame. -/
theorem block {b : ThreadId} (h : Ledger (b :: held) s) (hl : Listed s) (hu : u ∈ s.threads)
    (hb : s.blockingThread u = none) :
    Ledger held { s with blockingThread := update s.blockingThread u (some b) } := by
  refine h.change rfl fun t _ => ?_
  have hsum := count_flatMap_update hl.1 hu Option.toList s.blockingThread (some b) t
  simp only [hb, Option.toList_none, Option.toList_some, count_nil] at hsum
  simp only [cons_append, count_cons, count_append, count_holders,
    Int.natCast_add, count_nil] at hsum ⊢
  omega

theorem setMessages (held' : List ThreadId) (allocated : List MessageRef)
    (message : MessageRef → Message) (next : MessageRef) (h : Ledger held s)
    (hp : ∀ t, (held' ++ allocated.flatMap fun m => (message m).holds).count t =
      (held ++ s.allocated.flatMap fun m => (s.message m).holds).count t) :
    Ledger held' { s with allocated := allocated, message := message, nextMessage := next } := by
  refine h.change rfl fun t _ => ?_
  have hcount := hp t
  simp only [count_append] at hcount
  simp only [count_append, count_holders, Int.natCast_add]
  omega

theorem allocate (h : Ledger held s) (hm : s.nextMessage ∉ s.allocated) :
    Ledger held (s.allocateMessage message) := by
  have h₁ : Ledger (message.destination :: message.source :: held)
      ((s.addReference message.source).addReference message.destination) :=
    h.addReference.addReference
  refine congr (h₁.setMessages held (s.allocated ++ [s.nextMessage])
    (update s.message s.nextMessage message) (s.nextMessage + 1) fun t => ?_) rfl
  show _ = (message.destination :: message.source :: held ++
    s.allocated.flatMap fun m => (s.message m).holds).count t
  rw [flatMap_append, flatMap_update_of_not_mem hm Message.holds]
  simp only [flatMap_cons, flatMap_nil, update_self, append_nil,
    Message.holds, count_append, count_cons, count_nil, cons_append]
  omega

theorem delete (h : Ledger held s) (hm : m ∈ s.allocated) :
    Ledger ((s.message m).holds ++ held) { s with allocated := s.allocated.erase m } := by
  refine h.setMessages _ (s.allocated.erase m) s.message s.nextMessage fun t => ?_
  have hcount := count_flatMap_erase hm (fun m => (s.message m).holds) t
  simp only [count_append]
  omega

theorem table (h : Ledger held s) (hv : v ∈ s.threadTable) :
    Ledger (v :: held) { s with threadTable := s.threadTable.erase v } := by
  refine h.change rfl fun t _ => ?_
  have hcount := (perm_cons_erase hv).count_eq t
  simp only [cons_append, count_cons, count_append, count_holders, Int.natCast_add] at hcount ⊢
  omega

theorem pos (h : Ledger held s) (ht : t ∈ s.threads) (hmem : t ∈ held ++ s.holders) :
    0 < s.referenceCount t := by
  rw [h t ht]
  have := count_pos_iff.2 hmem
  omega

end Ledger

/-! ### Dropping a reference -/

theorem holds_destroy (l : List ThreadId) (k : List MessageRef) :
    (l.map Frame.dropReference ++ k.map Frame.putMessage).flatMap Frame.holds = l := by
  simp [flatMap_append, flatMap_map, Frame.holds]

/-- Dropping a reference, with what the destruction of the thread drops after that. -/
theorem Ledger.removeReference (h : Ledger (t :: held) s) (hl : Listed s) (ht : t ∈ s.threads) :
    Ledger held (s.removeReference t) := by
  rw [State.removeReference]
  split
  · have h₁ := (h.subReference.release hl ht).perm perm_append_comm
    refine Ledger.push (Ledger.congr (h₁.perm (.of_eq ?_)) rfl) hl
    rw [holds_destroy]
  · exact h.subReference

theorem mem_holders_of_mem_table (ht : t ∈ s.threadTable) : t ∈ s.holders := by simp [holders, ht]

/-- The source of a message that unblocks a thread is held by the thread and by the message. -/
theorem Ledger.one_lt (h : Ledger held s) (hk : Known s) (hm : m ∈ s.allocated)
    (hlt : m < s.nextMessage) (hb : s.blockingThread t = some (s.message m).source) :
    1 < s.referenceCount (s.message m).source := by
  rw [h _ (hk.message hlt).1, count_append, count_holders]
  have h₁ : 0 < (s.allocated.flatMap fun m => (s.message m).holds).count (s.message m).source :=
    count_pos_iff.2 (mem_flatMap.2 ⟨m, hm, by simp [Message.holds]⟩)
  have h₂ : 0 < (s.threads.flatMap fun t => (s.blockingThread t).toList).count
      (s.message m).source :=
    count_pos_iff.2 (mem_flatMap.2 ⟨t, (hk.blocking hb).1, by simp [hb]⟩)
  omega

theorem unblock_eq_of_one_lt (h : 1 < s.referenceCount (s.message m).source) :
    s.unblock t m = { s with
      threadState := update s.threadState t .ready
      referenceCount := update s.referenceCount (s.message m).source
        (s.referenceCount (s.message m).source - 1)
      blockingThread := update s.blockingThread t none } := by
  have hne : s.referenceCount (s.message m).source - 1 ≠ 0 := by omega
  simp only [State.unblock, State.removeReference, if_neg hne]

theorem destroyed_of_grown (h : Grown s s') : s'.destroyed = s.destroyed := by
  induction h with
  | refl => rfl
  | push _ _ ih | failed _ _ ih | aborted _ _ _ ih | addReference _ _ ih | allocate _ _ ih => exact ih

theorem Ledger.put (h : Ledger held s) (hk : Known s) (hm : m ∈ s.allocated)
    (hlt : m < s.nextMessage) (hnb : (s.message m).blocking = false) (hput : Put s m status s') :
    Ledger held s' ∧ s'.destroyed = s.destroyed := by
  cases hput with
  | refused => exact ⟨h, rfl⟩
  | woken _ _ hun =>
    simp only [unblocks, Bool.and_eq_true, beq_iff_eq] at hun
    have hone := h.one_lt hk hm hlt hun.1.2
    rw [unblock_eq_of_one_lt hone, blockOn, if_neg (by simpa [pushHead, record] using hnb)]
    have h₁ := h.release hk.isListed (hk.blocking hun.1.2).1
    rw [hun.1.2] at h₁
    exact ⟨Ledger.congr (h₁.subReference) rfl, rfl⟩
  | queued =>
    rw [blockOn, if_neg (by simpa [pushTail, record] using hnb)]
    exact ⟨h.congr rfl, rfl⟩

/-! ### The frames -/

theorem HasOwners.mem_allocated {b : Bool} (h : HasOwners False hands s) (hm : (m, b) ∈ hands) :
    m ∈ s.allocated := by
  obtain ⟨place, h⟩ := h
  exact h.allocated (by rw [h.place_held hm]; simp)

theorem HasOwners.next_not_mem (h : HasOwners False hands s) : s.nextMessage ∉ s.allocated := by
  obtain ⟨place, h⟩ := h
  exact fun hm => absurd (h.allocated_lt hm) (Nat.lt_irrefl _)

theorem Ledger.allocatePush (h : Ledger held s) (hl : Listed s)
    (hnext : s.nextMessage ∉ s.allocated) (hf : frames.flatMap holds = held) :
    Ledger [] ((s.allocateMessage message).push frames) :=
  Ledger.push ((h.allocate hnext).perm (.of_eq hf)) hl

theorem Ledger.pushAll (frames : List Frame) (h : Ledger held s) (hl : Listed s)
    (hf : frames.flatMap holds = held) : Ledger [] (s.push frames) :=
  Ledger.push (h.perm (.of_eq hf)) hl

section

variable (h : Ledger [] s) (hl : Listed s) (hnext : s.nextMessage ∉ s.allocated)
include h hl hnext

theorem Ledger.killOnOverflow : Ledger [] (s.killOnOverflow status t) := by
  rw [State.killOnOverflow]
  split
  · exact h.allocatePush hl hnext rfl
  · exact h

theorem Ledger.deleteThread : Ledger [] (s.deleteThread m) := by
  have h₁ : Ledger [] (s.push [.deleteMessage m]) := h.pushAll _ hl rfl
  simp only [State.deleteThread]
  split
  · exact h₁.allocatePush hl hnext rfl
  split
  · exact h₁.allocatePush hl hnext rfl
  split
  · exact h₁.addReference.allocatePush hl hnext rfl
  · exact h₁.addReference.pushAll _ hl rfl

theorem Ledger.abortMessages {l : List MessageRef} : Ledger [] (s.abortMessages l) := by
  cases l with
  | nil => exact h
  | cons m rest =>
    have h₁ : Ledger [] (s.push [.deleteMessage m, .abortMessages rest]) := h.pushAll _ hl rfl
    simp only [State.abortMessages]
    split
    · have h₂ : Ledger [] ((s.push [.deleteMessage m, .abortMessages rest]).record
        (.aborted m s.nextMessage)) := h₁.congr rfl
      exact h₂.allocatePush hl hnext rfl
    · exact h₁

end

/-- A request that has been put leaves its sender blocked, with a reference to the recipient. -/
theorem Ledger.requested (h : Ledger held s) (hl : Listed s)
    (hrun : s.blockingThread s.currentThread = none) : Ledger held (s.requested m) := by
  have h₁ : Ledger ((s.message m).destination :: held)
    (s.addReference (s.message m).destination) := h.addReference
  exact Ledger.congr (h₁.block hl hl.2 hrun) rfl

theorem Ledger.sendMessage {deletes : Bool} (h : Ledger [] s) (hl : Listed s) :
    Ledger [] (s.sendMessage m deletes) := by
  have hholds : (s.allocated.flatMap fun x => (update s.message m
      { s.message m with blocking := true } x).holds) =
      s.allocated.flatMap fun x => (s.message x).holds := by
    refine flatMap_congr fun x _ => ?_
    by_cases hx : x = m
    · rw [hx, update_self]
      rfl
    · rw [update_of_ne hx]
  have h₁ := h.setMessages [] s.allocated
    (update s.message m { s.message m with blocking := true }) s.nextMessage
    fun t => by rw [hholds]
  have h₂ := h₁.addReference (t := (s.message m).destination)
  exact Ledger.congr (h₂.pushAll [.putRequest m (s.message m).destination (s.message m).id
    (s.interruptsEnabled s.currentThread) deletes] hl rfl) rfl

theorem holds_continuation (m : MessageRef) (r : Reception) (s : State) :
    (s.continuation m r).flatMap holds = r.names := by
  rcases r with _ | _ | ⟨recipient, requestId⟩
  · rfl
  · rw [continuation]
    split <;> rfl
  · rfl

theorem holds_failure (status : Status) (r : Reception) :
    (failure status r).flatMap holds = r.names := by
  cases r <;> rfl

theorem yield_references_eq {lot : ℕ} (hy : s.yield lot = some s') :
    s'.references = s.references := by
  obtain ⟨_, _, _, _, _, rfl⟩ := yield_eq hy
  rfl

/-- **A frame** passes on, takes and drops references so that the counts are right again. -/
theorem Ledger.executed (h : Ledger f.holds s) (hk : Known s)
    (hnames : ∀ t ∈ f.names, t ∈ s.threads) (ho : HasOwners False f.carries s)
    (hset : f ≠ .yield → Settled s) (hf : f.Fits s.message s.mailboxEnabled s.currentThread)
    (htable : ∀ v, f = .removeFromTable v → v ∈ s.threadTable) (hexec : Executed s o f s') :
    Ledger [] s' := by
  have hl := hk.isListed
  have hnext := ho.next_not_mem
  cases hexec with
  | @put m _ hp =>
    have hm : (m, false) ∈ [(m, false)] := mem_singleton.2 rfl
    exact (h.put hk (ho.mem_allocated hm) (ho.lt hm) hf hp).1
  | putRefused => exact (h.pushAll _ hl rfl).killOnOverflow hl hnext
  | send => exact h.sendMessage hl
  | @request m recipient requestId interrupts _ _ hp =>
    obtain ⟨-, -, rfl⟩ := (hset (by simp)).put_request hf.2.2.2 hf.1 hp
    exact (h.requested hl (hset (by simp)).running).pushAll _ hl rfl
  | @requestRefused m recipient _ _ deletes =>
    refine (h.pushAll _ hl ?_).killOnOverflow hl hnext
    cases deletes <;> rfl
  | yield hy => exact h.congr (yield_references_eq hy)
  | restore => exact h.congr rfl
  | @get r m rest =>
    have h₁ : Ledger r.names (s.popMessage m rest) := h.congr rfl
    exact h₁.pushAll _ hl (by simp [holds])
  | wait hq hr =>
    refine h.pushAll _ hl ?_
    rcases hr with rfl | rfl <;> rfl
  | empty | wakeDone => exact h
  | noReply | reply => exact h.pushAll _ hl rfl
  | @remove m r =>
    have h₁ : Ledger r.names (s.dropPending m) := h.congr rfl
    exact h₁.pushAll _ hl (by simp [holds])
  | @deliver m r =>
    have h₁ : Ledger r.names (s.record (.received m)) := h.congr rfl
    exact h₁.pushAll _ hl (holds_continuation m r s)
  | @undeliverable m r status =>
    have h₁ : Ledger r.names (s.record (.failed m)) := h.congr rfl
    have h₂ := h₁.pushAll (.deleteMessage m :: failure status r) hl
      (holds_failure status r)
    rw [abortRequest]
    split
    · exact h₂.allocatePush hl hnext rfl
    · exact h₂
  | abortSend | wake => exact h.allocatePush hl hnext rfl
  | @delete m =>
    have h₁ := Ledger.delete h (ho.mem_allocated (mem_singleton.2 rfl))
    exact h₁.pushAll _ hl rfl
  | drop => exact Ledger.removeReference h hl (hnames _ (by simp [names]))
  | deleteThread => exact Ledger.deleteThread h hl hnext
  | @mark victim a =>
    have h₁ : Ledger [] (s.markForDeletion victim a) := h.congr rfl
    exact h₁.pushAll _ hl rfl
  | @unlink l =>
    have h₁ : Ledger [] { s with pendingMessages := s.pendingMessages.removeAll l } := h.congr rfl
    exact h₁.pushAll _ hl rfl
  | abort => exact Ledger.abortMessages h hl hnext
  | table => exact (Ledger.table h (htable _ rfl)).pushAll _ hl rfl

/-! ### The step -/

theorem Known.mem_of_mem_holders (h : Known s) (ho : HasOwners False [] s) (ht : t ∈ s.holders) :
    t ∈ s.threads := by
  obtain ⟨place, ho⟩ := ho
  simp only [holders, mem_append, mem_flatMap, mem_cons, not_mem_nil,
    or_false, Option.mem_toList] at ht
  rcases ht with ((((ht | ⟨m, hm, ht⟩) | ⟨u, -, hb⟩) | ⟨irq, -, ht⟩) | ⟨u, -, f, hf, ht⟩) | rfl | rfl
  · exact h.table ht
  · have hmsg := h.message (ho.allocated_lt hm)
    simp only [Message.holds, mem_cons, not_mem_nil, or_false] at ht
    rcases ht with rfl | rfl
    · exact hmsg.1
    · exact hmsg.2
  · exact (h.blocking hb).2
  · exact h.handler ht
  · exact (h.frame hf).2 t (f.holds_subset_names ht)
  · exact h.cleanup
  · exact h.null

/-- The thread table is the only new holder of a new thread. -/
theorem count_holders_createThread (ht : t ∉ s.threads) (u : ThreadId) :
    (s.createThread t mask).holders.count u = s.holders.count u + [t].count u := by
  have hblocking : ((s.createThread t mask).threads.flatMap fun t' =>
      ((s.createThread t mask).blockingThread t').toList) =
      s.threads.flatMap fun t' => (s.blockingThread t').toList := by
    show ((s.threads ++ [t]).flatMap fun t' =>
      (update s.blockingThread t none t').toList) = _
    rw [flatMap_append, flatMap_update_of_not_mem ht Option.toList]
    simp
  have hstack : ((s.createThread t mask).threads.flatMap fun t' =>
      ((s.createThread t mask).stack t').flatMap holds) =
      s.threads.flatMap fun t' => (s.stack t').flatMap holds := by
    show ((s.threads ++ [t]).flatMap fun t' =>
      (update s.stack t [] t').flatMap holds) = _
    rw [flatMap_append, flatMap_update_of_not_mem ht (List.flatMap holds)]
    simp
  have htable : (s.createThread t mask).threadTable.count u =
    s.threadTable.count u + [t].count u := count_append
  rw [count_holders, count_holders s, hblocking, hstack, htable]
  show _ + (s.allocated.flatMap fun m => (s.message m).holds).count u + _ +
    ((List.range interruptVectorPicCount).flatMap s.interruptHandler).count u + _ + _ = _
  omega

theorem Ledger.createThread (h : Ledger [] s) (hk : Known s) (ho : HasOwners False [] s)
    (ht : t ∉ s.threads) : Ledger [t] (s.createThread t mask) := by
  intro u hu
  rw [count_append, count_holders_createThread ht]
  show update s.referenceCount t 2 u = _
  by_cases hut : u = t
  · have hzero : s.holders.count t = 0 :=
      count_eq_zero.2 fun hmem => ht (hk.mem_of_mem_holders ho hmem)
    rw [hut, update_self, hzero, count_singleton_self]
    rfl
  · have hu : u ∈ s.threads := (mem_append.1 hu).resolve_right (by simpa using hut)
    have hzero : [t].count u = 0 := by simp [Ne.symm hut]
    rw [update_of_ne hut, h u hu, hzero, nil_append]
    simp

theorem Ledger.register {irq : ℕ} (h : Ledger (t :: held) s)
    (hirq : irq < interruptVectorPicCount) : Ledger held { s with
      interruptHandler := update s.interruptHandler irq
        (s.interruptHandler irq ++ [t]) } := by
  refine h.change rfl fun u _ => ?_
  have hsum : ((List.range interruptVectorPicCount).flatMap (update s.interruptHandler irq
      (s.interruptHandler irq ++ [t]))).count u + (s.interruptHandler irq).count u =
      ((List.range interruptVectorPicCount).flatMap s.interruptHandler).count u +
        (s.interruptHandler irq ++ [t]).count u :=
    count_flatMap_update nodup_range (mem_range.2 hirq) id s.interruptHandler _ u
  simp only [cons_append, count_cons, count_append, count_nil, count_holders,
    Int.natCast_add] at hsum ⊢
  omega

theorem Ledger.called (h : Ledger [] s) (hk : Known s) (ho : HasOwners False [] s)
    (hc : Called s c s') : Ledger [] s' := by
  have hl := hk.isListed
  have hnext := ho.next_not_mem
  cases hc with
  | failed => exact h
  | send | sendAndReceive => exact h.addReference.allocatePush hl hnext rfl
  | receive => exact h.pushAll _ hl rfl
  | delete => exact h.allocatePush hl hnext rfl
  | @create t mask ht =>
    exact (h.createThread hk ho ht).pushAll _ (Known.createThread hk ht).isListed rfl
  | register hirq =>
    have h₁ : Ledger [s.currentThread] (s.addReference s.currentThread) := h.addReference
    exact (h₁.register hirq).congr rfl

theorem Ledger.keepTicket (h : Ledger [] s) (hnext : s.nextMessage ∉ s.allocated) :
    Ledger [] s.keepTicket :=
  keepTicket_cases h fun _ => (h.allocate hnext).congr rfl

/-- What the ledger relies on. -/
structure Ordered (s : State) : Prop where
  sound : Sound s
  stacked : Stacked s
  tabled : Tabled s
  waitFor : WaitFor s

theorem ordered_initial : Ordered initial where
  sound := sound_initial
  stacked := stacked_initial
  tabled := tabled_initial
  waitFor := waitFor_initial

theorem Ordered.step (h : Ordered s) (hs : Stepped s a s') : Ordered s' where
  sound := h.sound.step hs
  stacked := h.stacked.step hs
  tabled := h.tabled.step h.stacked h.sound hs
  waitFor := h.waitFor.step h.sound hs

theorem Ordered.mem_table (h : Ordered s) (hstack : s.stack s.currentThread = f :: rest)
    (hf : f = .removeFromTable v) : v ∈ s.threadTable := by
  have hmem : removeFromTable v ∈ s.stack s.currentThread := hf ▸ hstack ▸ mem_cons_self
  have hcur := h.stacked.cleanup hmem rfl
  exact (h.tabled.removing (hcur ▸ hmem)).1

theorem Ledger.step (h : Ledger [] s) (hord : Ordered s) (hs : Stepped s a s') : Ledger [] s' := by
  have hk := hord.sound.known
  have ho := hord.sound.owners
  cases hs with
  | run hstack hexec =>
    obtain ⟨hk₁, hnames⟩ := hk.pop hstack
    exact (h.pop hk.isListed hstack).executed hk₁ hnames (ho.imp fun _ ho => ho.pop hstack)
      (hord.waitFor.pop hstack) (hord.sound.addressed.pop hstack).2
      (fun v hv => hord.mem_table hstack hv) hexec
  | call _ _ _ hc => exact h.called hk ho hc
  | cleanupLoop | nullLoop => exact h.pushAll _ hk.isListed rfl
  | tick => exact h.congr rfl
  | quantum _ _ hy =>
    have htick : Ledger [] s.tick := h.congr rfl
    exact (htick.keepTicket ho.next_not_mem).congr (yield_references_eq hy)
  | device =>
    have h₁ : Ledger [] { s with
      interruptsEnabled := update s.interruptsEnabled s.currentThread false } := h.congr rfl
    exact h₁.pushAll _ hk.isListed rfl

theorem ledger_initial : Ledger [] initial := by
  intro t ht
  have ht : t ∈ [threadIdBoot, threadIdCleanup, threadIdNull] := ht
  simp only [mem_cons, not_mem_nil, or_false] at ht
  rcases ht with rfl | rfl | rfl <;> decide

/-! ### Threads that have been destroyed -/

/-- Only dropping a reference destroys a thread. -/
theorem Executed.destroyed_eq (hexec : Executed s o f s') (h : Ledger f.holds s) (hk : Known s)
    (ho : HasOwners False f.carries s) (hset : f ≠ .yield → Settled s)
    (hf : f.Fits s.message s.mailboxEnabled s.currentThread) (hdrop : ∀ t, f ≠ .dropReference t) :
    s'.destroyed = s.destroyed := by
  cases hexec with
  | @put m _ hp =>
    have hm : (m, false) ∈ [(m, false)] := mem_singleton.2 rfl
    exact (h.put hk (ho.mem_allocated hm) (ho.lt hm) hf hp).2
  | putRefused | requestRefused => exact destroyed_of_grown (grown_killOnOverflow _ _ _ _)
  | request hp =>
    obtain ⟨-, -, rfl⟩ := (hset (by simp)).put_request hf.2.2.2 hf.1 hp
    rfl
  | yield hy =>
    obtain ⟨_, _, _, _, _, rfl⟩ := yield_eq hy
    rfl
  | undeliverable => exact destroyed_of_grown (grown_abortRequest _ _ _ _)
  | drop => exact absurd rfl (hdrop _)
  | deleteThread => exact destroyed_of_grown (grown_deleteThread _ _)
  | abort => exact destroyed_of_grown (grown_abortMessages _ _)
  | _ => rfl

/-- What a step does to the life of a thread: it does not destroy it, or destroys it without a
reference, or the thread is new. -/
def Lives (t : ThreadId) (s s' : State) : Prop :=
  ((t ∈ s'.threads → t ∈ s.threads ∧ (s'.mailboxEnabled t = true → s.mailboxEnabled t = true)) ∧
      s'.destroyed t = s.destroyed t) ∨
    (s'.referenceCount t = 0 ∧ s'.destroyed t = true) ∨
    (t ∈ s'.threadTable ∧ s'.destroyed t = false)

theorem lives_of_eq (h : s'.destroyed = s.destroyed) (ht : s'.threads = s.threads)
    (hen : s'.mailboxEnabled t = true → s.mailboxEnabled t = true) : Lives t s s' :=
  .inl ⟨fun hmem => ⟨ht ▸ hmem, hen⟩, congrFun h t⟩

theorem lives_removeReference (t u : ThreadId) (s : State) : Lives t s (s.removeReference u) := by
  rw [State.removeReference]
  split
  case isTrue hzero =>
    by_cases htu : t = u
    · subst htu
      exact .inr (.inl ⟨(update_self ..).trans hzero, update_self ..⟩)
    · exact .inl ⟨fun ht => ⟨ht, id⟩, update_of_ne htu ..⟩
  case isFalse => exact .inl ⟨fun ht => ⟨ht, id⟩, rfl⟩

theorem Stepped.lives (hs : Stepped s a s') (hled : Ledger [] s) (hord : Ordered s) (t : ThreadId) :
    Lives t s s' := by
  cases hs with
  | @run o f rest _ hstack hexec =>
    by_cases hdrop : ∃ u, f = .dropReference u
    · obtain ⟨u, rfl⟩ := hdrop
      cases hexec with
      | drop => exact lives_removeReference t u (s.pop rest)
    · have hk := hord.sound.known
      exact lives_of_eq (hexec.destroyed_eq (hled.pop hk.isListed hstack) (hk.pop hstack).1
        (hord.sound.owners.imp fun _ ho => ho.pop hstack) (hord.waitFor.pop hstack)
        (hord.sound.addressed.pop hstack).2 fun u hu => hdrop ⟨u, hu⟩) hexec.threads_eq
          hexec.enabled_of_enabled
  | call _ _ _ hc =>
    rcases hc.grown with hg | ⟨u, mask, hnew, rfl⟩ | ⟨_, rfl⟩
    · have hkept := Kept.of_grown hg
      exact lives_of_eq (destroyed_of_grown hg) hkept.threads fun hen => hkept.enabled ▸ hen
    · by_cases htu : t = u
      · subst htu
        exact .inr (.inr ⟨mem_append_right _ (mem_singleton.2 rfl), update_self ..⟩)
      · refine .inl ⟨fun ht => ⟨(mem_append.1 ht).resolve_right (by simpa using htu), fun hen => ?_⟩,
          update_of_ne htu ..⟩
        exact (update_of_ne htu ..).symm.trans hen
    · exact lives_of_eq rfl rfl id
  | quantum _ _ hy =>
    have hlives : Lives t s s.tick.keepTicket :=
      keepTicket_cases (lives_of_eq rfl rfl id) fun _ => lives_of_eq rfl rfl id
    obtain ⟨_, _, _, _, _, rfl⟩ := yield_eq hy
    exact hlives
  | _ => exact lives_of_eq rfl rfl id

/-- The mailbox of a thread that has been destroyed is disabled. -/
def Retired (s : State) : Prop :=
  ∀ t ∈ s.threads, s.destroyed t = true → s.mailboxEnabled t = false

/-- A thread is destroyed when nothing holds it, and then it is not in the thread table. -/
theorem Retired.step (h : Retired s) (hled : Ledger [] s) (hord : Ordered s) (hs : Stepped s a s') :
    Retired s' := by
  intro t ht hd
  by_contra hne
  have hen : s'.mailboxEnabled t = true := by simpa using hne
  rcases hs.lives hled hord t with ⟨hold, hsame⟩ | ⟨hzero, -⟩ | ⟨-, hd'⟩
  · obtain ⟨hmem, hbefore⟩ := hold ht
    exact absurd (hbefore hen) (by simp [h t hmem (hsame ▸ hd)])
  · have hmem := mem_holders_of_mem_table ((hord.step hs).tabled.enabled ht hen)
    have hpos := (hled.step hord hs).pos ht hmem
    omega
  · cases hd.symm.trans hd'

/-! ### All of it -/

/-- The invariant the properties of the machine start from. -/
structure Regular (s : State) : Prop extends Ordered s where
  ledger : Ledger [] s
  /-- The mailbox of a thread that has been destroyed is disabled. -/
  retired : Retired s

theorem regular_initial : Regular initial :=
  { ordered_initial with ledger := ledger_initial, retired := fun _ _ hd => by cases hd }

theorem Regular.step (h : Regular s) (hs : Stepped s a s') : Regular s' :=
  { h.toOrdered.step hs with
    ledger := h.ledger.step h.toOrdered hs
    retired := h.retired.step h.ledger h.toOrdered hs }

/-- **Every state the machine gets to is regular**: in particular the count of a thread is the
number of references to it, if what is lost is counted too. -/
theorem Reachable.regular (h : Reachable s) : Regular s :=
  h.invariant regular_initial fun hx _ hs => hx.step (stepped_of_step hs)

end

end State

end Dx.Kernel
