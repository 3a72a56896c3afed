import Dx.Kernel.Machine

/-!
# What a stack looks like

The frames of a thread are not in any order: a frame that is executed is replaced by the frames
it calls (`Frame.Expands`), and an interrupt puts its own on top. So some frames are always at
the bottom of a stack, namely those of `receive_message` and of the loop of the cleanup thread,
which nothing calls; a thread that yields goes on to `get_message`; and the frames that delete a
thread are followed by those that take it from the thread table. `Frame.Over` says this of a
frame and the frames below it.

The frames that delete a thread are on the stack of the cleanup thread only, so there is at most
one thread that is being deleted.
-/

namespace Dx.Kernel

open Library Function List Kernel.Frame

/-- The message is the reply to a request of `send_message`. -/
def Reception.isReply : Reception → Bool
  | .reply _ _ => true
  | _ => false

def Reception.waits : Reception → Bool
  | .receive wait => wait
  | .cleanup => true
  | .reply _ _ => false

/-- A frame any frame may call. -/
def Frame.isPlain : Frame → Bool
  | .putMessage _ => true
  | .deleteMessage _ => true
  | .dropReference _ => true
  | _ => false

/-- The frames a frame may be replaced by. -/
inductive Frame.Expands : Frame → List Frame → Prop
  /-- Nothing but plain frames. -/
  | plain {f : Frame} {frames : List Frame} : (∀ g ∈ frames, g.isPlain = true) → Expands f frames
  /-- A request is to be put. -/
  | send {m : MessageRef} {recipient : ThreadId} {requestId : ℕ} {interrupts deletes : Bool} :
      Expands (.sendMessage m deletes) [.putRequest m recipient requestId interrupts deletes]
  | request {m : MessageRef} {recipient : ThreadId} {requestId : ℕ} {interrupts deletes : Bool}
      {frames : List Frame} : (∀ g ∈ frames, g.isPlain = true) →
      Expands (.putRequest m recipient requestId interrupts deletes)
        (.yield :: .restoreInterrupts interrupts :: .getMessage (.reply recipient requestId) ::
          frames)
  | refused {m : MessageRef} {recipient : ThreadId} {requestId : ℕ} {interrupts deletes : Bool}
      {frames frames' : List Frame} : (∀ g ∈ frames, g.isPlain = true) →
      (∀ g ∈ frames', g.isPlain = true) →
      Expands (.putRequest m recipient requestId interrupts deletes)
        (frames ++ .restoreInterrupts interrupts :: frames')
  /-- A message has been taken from the mailbox. -/
  | get {m : MessageRef} {r : Reception} : Expands (.getMessage r) [.removePending m r]
  | wait {r : Reception} : r.waits = true → Expands (.getMessage r) [.yield, .getMessage r]
  /-- A message has been taken from the pool. -/
  | remove {m : MessageRef} {r : Reception} :
      Expands (.removePending m r) [.deliverPayload m r]
  /-- There is no reply to take. -/
  | giveUp {recipient : ThreadId} {requestId : ℕ} {status : Status} :
      Expands (.getMessage (.reply recipient requestId))
        [.abortSendMessage recipient requestId status]
  /-- A reply is to be returned. -/
  | answer {m : MessageRef} {recipient : ThreadId} {requestId : ℕ} :
      Expands (.deliverPayload m (.reply recipient requestId))
        [.dropReference recipient, .returnReply recipient requestId m]
  /-- A reply could not be delivered. -/
  | fail {m : MessageRef} {recipient : ThreadId} {requestId : ℕ} {status : Status}
      {frames : List Frame} : (∀ g ∈ frames, g.isPlain = true) →
      Expands (.deliverPayload m (.reply recipient requestId))
        (frames ++ [.deleteMessage m, .abortSendMessage recipient requestId status])
  /-- A reply has been made up. -/
  | makeUp {m : MessageRef} {recipient : ThreadId} {requestId : ℕ} {status : Status} :
      Expands (.abortSendMessage recipient requestId status)
        [.dropReference recipient, .returnReply recipient requestId m]
  /-- A request for a deletion is served. -/
  | deliver {m : MessageRef} : Expands (.deliverPayload m .cleanup) [.deleteThread m]
  | deleteThread {m : MessageRef} {victim : ThreadId} {acknowledgement : Option MessageRef} :
      Expands (.deleteThread m)
        [.markForDeletion victim acknowledgement, .removeFromTable victim, .dropReference victim,
          .deleteMessage m]
  | mark {victim : ThreadId} {acknowledgement : Option MessageRef} {leftover : List MessageRef} :
      Expands (.markForDeletion victim acknowledgement) [.unlinkMessages leftover]
  /-- Its messages have been taken from the pool. -/
  | unlink {leftover : List MessageRef} :
      Expands (.unlinkMessages leftover) [.abortMessages leftover]
  /-- One of its messages is deleted. -/
  | abort {m : MessageRef} {leftover : List MessageRef} {frames : List Frame} :
      (∀ g ∈ frames, g.isPlain = true) →
      Expands (.abortMessages (m :: leftover))
        (frames ++ [.deleteMessage m, .abortMessages leftover])
  /-- An interrupt handler is sent a message. -/
  | wake {m : MessageRef} {irq i n : ℕ} :
      Expands (.wakeInterruptHandlers irq i n)
        [.sendMessage m true, .wakeInterruptHandlers irq (i + 1) n]

/-- What is below a frame on a stack. -/
def Frame.Over (rest : List Frame) : Frame → Prop
  | .yield => (∃ r, r.waits = true ∧ rest = [.getMessage r]) ∨
      ∃ interrupts recipient requestId frames, rest =
        .restoreInterrupts interrupts :: .getMessage (.reply recipient requestId) :: frames
  | .getMessage r => r.isReply = false → rest = []
  | .removePending _ r => r.isReply = false → rest = []
  | .deliverPayload _ r => r.isReply = false → rest = []
  | .deleteThread _ => rest = []
  | .markForDeletion victim _ =>
    ∃ m, rest = [.removeFromTable victim, .dropReference victim, .deleteMessage m]
  | .unlinkMessages _ =>
    ∃ victim m, rest = [.removeFromTable victim, .dropReference victim, .deleteMessage m]
  | .abortMessages _ =>
    ∃ victim m, rest = [.removeFromTable victim, .dropReference victim, .deleteMessage m]
  | .removeFromTable victim => ∃ m, rest = [.dropReference victim, .deleteMessage m]
  | _ => True

/-- Every frame of a stack is over what it goes on with. -/
def WellStacked : List Frame → Prop
  | [] => True
  | f :: rest => f.Over rest ∧ WellStacked rest

variable {f : Frame} {rest frames : List Frame}

theorem Frame.Over.of_isPlain (hf : f.isPlain = true) : f.Over rest := by
  cases f <;> trivial

theorem WellStacked.plain (h : WellStacked rest) (hf : ∀ f ∈ frames, f.isPlain = true) :
    WellStacked (frames ++ rest) := by
  induction frames with
  | nil => exact h
  | cons f frames ih =>
    rw [forall_mem_cons] at hf
    exact ⟨.of_isPlain hf.1, ih hf.2⟩

theorem Frame.Expands.wellStacked (he : f.Expands frames) (h : WellStacked (f :: rest)) :
    WellStacked (frames ++ rest) := by
  obtain ⟨hf, hrest⟩ := h
  cases he with
  | plain hp => exact hrest.plain hp
  | send | giveUp => exact ⟨trivial, hrest⟩
  | request hp =>
    exact ⟨.inr ⟨_, _, _, _, rfl⟩, trivial, fun hr => (by cases hr), hrest.plain hp⟩
  | refused hp hp' =>
    rw [append_assoc]
    exact WellStacked.plain ⟨trivial, hrest.plain hp'⟩ hp
  | get | remove | unlink => exact ⟨hf, hrest⟩
  | @wait r hr =>
    have hreply : r.isReply = false := by cases r <;> first | rfl | cases hr
    obtain rfl := hf hreply
    exact ⟨.inl ⟨r, hr, rfl⟩, hf, trivial⟩
  | answer | makeUp | wake => exact ⟨trivial, trivial, hrest⟩
  | fail hp =>
    rw [append_assoc]
    exact WellStacked.plain ⟨trivial, trivial, hrest⟩ hp
  | deliver => exact ⟨hf rfl, hrest⟩
  | deleteThread =>
    have hnil : rest = [] := hf
    subst hnil
    exact ⟨⟨_, rfl⟩, ⟨_, rfl⟩, trivial, trivial, trivial⟩
  | mark =>
    obtain ⟨m, rfl⟩ := hf
    exact ⟨⟨_, _, rfl⟩, hrest⟩
  | abort hp =>
    rw [append_assoc]
    exact WellStacked.plain ⟨trivial, hf, hrest⟩ hp

/-- A frame of the loop of the cleanup thread. -/
def Frame.ofCleanup : Frame → Bool
  | .getMessage .cleanup => true
  | .removePending _ .cleanup => true
  | .deliverPayload _ .cleanup => true
  | .deleteThread _ => true
  | .markForDeletion _ _ => true
  | .unlinkMessages _ => true
  | .abortMessages _ => true
  | .removeFromTable _ => true
  | _ => false

theorem Frame.ofCleanup_of_isPlain (hf : f.isPlain = true) : f.ofCleanup = false := by
  cases f <;> trivial

/-- Other frames do not call the frames of the cleanup thread. -/
theorem Frame.Expands.ofCleanup (he : f.Expands frames) (hf : f.ofCleanup = false) :
    ∀ g ∈ frames, g.ofCleanup = false := by
  cases he with
  | plain hp => exact fun g hg => ofCleanup_of_isPlain (hp g hg)
  | send | giveUp | answer | makeUp | wake => simp [ofCleanup]
  | request hp =>
    simp only [forall_mem_cons]
    exact ⟨rfl, rfl, rfl, fun g hg => ofCleanup_of_isPlain (hp g hg)⟩
  | refused hp hp' =>
    exact forall_mem_append.2 ⟨fun g hg => ofCleanup_of_isPlain (hp g hg),
      forall_mem_cons.2 ⟨rfl, fun g hg => ofCleanup_of_isPlain (hp' g hg)⟩⟩
  | @get _ r | @remove _ r => exact forall_mem_singleton.2 (by cases r <;> trivial)
  | @wait r =>
    exact forall_mem_cons.2 ⟨rfl, forall_mem_singleton.2 (by cases r <;> trivial)⟩
  | fail hp =>
    exact forall_mem_append.2 ⟨fun g hg => ofCleanup_of_isPlain (hp g hg), by simp [ofCleanup]⟩
  | deliver | deleteThread | mark | unlink | abort => cases hf

namespace State

/-! ### What a step pushes -/

/-- The step from `s` to `s'` pushes `frames`, and the thread goes on running. -/
def Pushed (s : State) (frames : List Frame) (s' : State) : Prop :=
  s'.stack = Function.update s.stack s.currentThread (frames ++ s.stack s.currentThread) ∧
    s'.currentThread = s.currentThread

section

variable {s s' s'' : State} {t u : ThreadId} {m : MessageRef} {frames frames' : List Frame}
  {o : Outcome}

theorem Pushed.of_eq (h : s'.stack = s.stack) (hc : s'.currentThread = s.currentThread) :
    Pushed s [] s' :=
  ⟨by rw [h, nil_append, update_eq_self], hc⟩

theorem pushed_push (frames : List Frame) (s : State) : Pushed s frames (s.push frames) :=
  ⟨rfl, rfl⟩

theorem Pushed.trans (h : Pushed s frames s') (h' : Pushed s' frames' s'') :
    Pushed s (frames' ++ frames) s'' := by
  refine ⟨?_, h'.2.trans h.2⟩
  rw [h'.1, h.1, h.2, update_self, update_idem, append_assoc]

theorem pushed_allocatePush (message : Message) (frames : List Frame) (s : State) :
    Pushed s frames ((s.allocateMessage message).push frames) := ⟨rfl, rfl⟩

theorem pushed_referencePush (t : ThreadId) (frames : List Frame) (s : State) :
    Pushed s frames ((s.addReference t).push frames) := ⟨rfl, rfl⟩

theorem Pushed.of_addReference (h : Pushed (s.addReference t) frames s') : Pushed s frames s' := h

theorem Pushed.of_record {e : Event} (h : Pushed (s.record e) frames s') : Pushed s frames s' := h

theorem Pushed.unique (h : Pushed s frames s') (h' : Pushed s frames' s') : frames = frames' := by
  have he := congrFun (h.1.symm.trans h'.1) s.currentThread
  rwa [update_self, update_self, append_cancel_right_eq] at he

theorem Pushed.push (h : Pushed s frames s') : Pushed s (frames' ++ frames) (s'.push frames') :=
  h.trans (pushed_push _ _)

theorem pushed_device (irq : ℕ) (s : State) :
    Pushed s [.wakeInterruptHandlers irq 0 (s.interruptHandler irq).length, .restoreInterrupts true]
      ({ s with
        interruptsEnabled := update s.interruptsEnabled s.currentThread false }.push
          [.wakeInterruptHandlers irq 0 (s.interruptHandler irq).length, .restoreInterrupts true]) :=
  ⟨rfl, rfl⟩

theorem Pushed.stack_of_pop (h : Pushed (s.pop rest) frames s') :
    s'.stack = update s.stack s.currentThread (frames ++ rest) := by
  rw [h.1]
  simp [State.pop]

theorem pushed_removeReference (t : ThreadId) (s : State) :
    ∃ frames, (∀ g ∈ frames, g.isPlain = true) ∧ Pushed s frames (s.removeReference t) := by
  rw [removeReference]
  split
  · refine ⟨_, fun g hg => ?_, ⟨rfl, rfl⟩⟩
    rcases mem_append.1 hg with hg | hg <;> obtain ⟨x, -, rfl⟩ := mem_map.1 hg <;> rfl
  · exact ⟨[], by simp, .of_eq rfl rfl⟩

theorem pushed_unblock (t : ThreadId) (m : MessageRef) (s : State) :
    ∃ frames, (∀ g ∈ frames, g.isPlain = true) ∧ Pushed s frames (s.unblock t m) :=
  pushed_removeReference (s.message m).source
    { s with threadState := update s.threadState t .ready }

theorem Put.pushed {status : Status} (h : Put s m status s') :
    ∃ frames, (∀ g ∈ frames, g.isPlain = true) ∧ Pushed s frames s' := by
  cases h with
  | refused => exact ⟨[], by simp, .of_eq rfl rfl⟩
  | woken =>
    obtain ⟨frames, hf, hp⟩ := pushed_unblock (s.message m).destination m s
    refine ⟨frames, hf, ?_⟩
    rw [blockOn]
    split <;> exact hp
  | queued =>
    refine ⟨[], by simp, .of_eq ?_ ?_⟩ <;> (rw [blockOn]; split <;> rfl)

theorem pushed_killOnOverflow (status : Status) (t : ThreadId) (s : State) :
    ∃ frames, (∀ g ∈ frames, g.isPlain = true) ∧ Pushed s frames (s.killOnOverflow status t) := by
  rw [killOnOverflow]
  split
  · exact ⟨[.putMessage s.nextMessage], by simp [isPlain], ⟨rfl, rfl⟩⟩
  · exact ⟨[], by simp, .of_eq rfl rfl⟩

theorem pushed_abortRequest (m : MessageRef) (status : Status) (s : State) :
    ∃ frames, (∀ g ∈ frames, g.isPlain = true) ∧ Pushed s frames (s.abortRequest m status) := by
  rw [abortRequest]
  split
  · exact ⟨[.putMessage s.nextMessage], by simp [isPlain], ⟨rfl, rfl⟩⟩
  · exact ⟨[], by simp, .of_eq rfl rfl⟩

/-- The cleanup thread refuses a request, or deletes the thread it has found. -/
theorem pushed_deleteThread (m : MessageRef) (s : State) : ∃ frames,
    Pushed s frames (s.deleteThread m) ∧ ((∀ g ∈ frames, g.isPlain = true) ∨
      ∃ v a, s.findThread (s.victimOf m) = some v ∧ frames =
        [.markForDeletion v a, .removeFromTable v, .dropReference v, .deleteMessage m]) := by
  have hpush : Pushed s [.deleteMessage m] (s.push [.deleteMessage m]) := pushed_push _ _
  have hplain : ∀ g ∈ [Frame.putMessage s.nextMessage] ++ [.deleteMessage m],
      g.isPlain = true := by simp [Frame.isPlain]
  simp only [deleteThread]
  split
  · exact ⟨_, hpush.trans (pushed_allocatePush _ _ _), .inl hplain⟩
  split
  · exact ⟨_, hpush.trans (pushed_allocatePush _ _ _), .inl hplain⟩
  case h_2 victim hv =>
    have hv : s.findThread (s.victimOf m) = some victim := hv
    split
    · exact ⟨_, hpush.trans (pushed_allocatePush _ _ _).of_addReference, .inr ⟨_, _, hv, rfl⟩⟩
    · exact ⟨_, hpush.trans (pushed_referencePush _ _ _), .inr ⟨_, _, hv, rfl⟩⟩

theorem pushed_abortMessages_cons (m : MessageRef) (l : List MessageRef) (s : State) :
    ∃ frames, (∀ g ∈ frames, g.isPlain = true) ∧
      Pushed s (frames ++ [.deleteMessage m, .abortMessages l]) (s.abortMessages (m :: l)) := by
  have hpush : Pushed s [.deleteMessage m, .abortMessages l]
    (s.push [.deleteMessage m, .abortMessages l]) := pushed_push _ _
  simp only [abortMessages]
  split
  · exact ⟨_, forall_mem_singleton.2 rfl, hpush.trans (pushed_allocatePush _ _ _).of_record⟩
  · exact ⟨[], forall_mem_nil _, hpush⟩

theorem pushed_abortMessages (l : List MessageRef) (s : State) :
    ∃ frames, Frame.Expands (.abortMessages l) frames ∧ Pushed s frames (s.abortMessages l) := by
  cases l with
  | nil => exact ⟨[], .plain (by simp), .of_eq rfl rfl⟩
  | cons m rest =>
    obtain ⟨frames, hplain, hp⟩ := pushed_abortMessages_cons m rest s
    exact ⟨_, .abort hplain, hp⟩

theorem expands_continuation (m : MessageRef) (r : Reception) (s : State) :
    Frame.Expands (.deliverPayload m r) (s.continuation m r) := by
  rcases r with wait | _ | ⟨recipient, requestId⟩
  · exact .plain (by simp [continuation, isPlain])
  · rw [continuation]
    split
    · exact .deliver
    · exact .plain (by simp [isPlain])
  · exact .answer

theorem expands_failure {frames : List Frame} (m : MessageRef) (r : Reception) (status : Status)
    (hf : ∀ g ∈ frames, g.isPlain = true) :
    Frame.Expands (.deliverPayload m r) (frames ++ .deleteMessage m :: failure status r) := by
  rcases r with wait | _ | ⟨recipient, requestId⟩
  · exact .plain (forall_mem_append.2 ⟨hf, by simp [failure, isPlain]⟩)
  · exact .plain (forall_mem_append.2 ⟨hf, by simp [failure, isPlain]⟩)
  · exact .fail hf

/-- **A frame that is executed is replaced by the frames it calls.** -/
theorem Executed.expands (h : Executed s o f s') (hf : f ≠ .yield) :
    ∃ frames, f.Expands frames ∧ Pushed s frames s' := by
  cases h with
  | put hp =>
    obtain ⟨frames, hplain, hp⟩ := hp.pushed
    exact ⟨frames, .plain hplain, hp⟩
  | @putRefused m status =>
    obtain ⟨frames, hplain, hp⟩ := pushed_killOnOverflow status (s.message m).destination
      (s.push [.deleteMessage m])
    exact ⟨_, .plain (forall_mem_append.2 ⟨hplain, by simp [isPlain]⟩), (pushed_push _ _).trans hp⟩
  | send => exact ⟨_, .send, ⟨rfl, rfl⟩⟩
  | request hp =>
    obtain ⟨frames, hplain, hp⟩ := hp.pushed
    exact ⟨_, .request hplain, hp.push⟩
  | @requestRefused m recipient _ interrupts deletes status =>
    obtain ⟨frames, hplain, hp⟩ := pushed_killOnOverflow status (s.message m).destination
      (s.push ([.restoreInterrupts interrupts, .dropReference recipient] ++
        if deletes then [.deleteMessage m] else []))
    exact ⟨_, .refused hplain (by cases deletes <;> simp [isPlain]), (pushed_push _ _).trans hp⟩
  | yield => exact absurd rfl hf
  | restore | empty | wakeDone => exact ⟨[], .plain (by simp), .of_eq rfl rfl⟩
  | get => exact ⟨_, .get, ⟨rfl, rfl⟩⟩
  | wait _ hr => exact ⟨_, .wait (by rcases hr with rfl | rfl <;> rfl), pushed_push _ _⟩
  | noReply => exact ⟨_, .giveUp, pushed_push _ _⟩
  | remove => exact ⟨_, .remove, ⟨rfl, rfl⟩⟩
  | deliver => exact ⟨_, expands_continuation _ _ _, (pushed_push _ _).of_record⟩
  | @undeliverable m r status =>
    obtain ⟨frames, hplain, hp⟩ := pushed_abortRequest m .ioError
      ((s.record (.failed m)).push (.deleteMessage m :: failure status r))
    have hpush := (pushed_push (.deleteMessage m :: failure status r)
      (s.record (.failed m))).of_record
    exact ⟨_, expands_failure m r status hplain, hpush.trans hp⟩
  | abortSend => exact ⟨_, .makeUp, pushed_allocatePush _ _ _⟩
  | reply => exact ⟨_, .plain (by simp [isPlain]), pushed_push _ _⟩
  | delete | table => exact ⟨_, .plain (by simp [isPlain]), ⟨rfl, rfl⟩⟩
  | drop =>
    obtain ⟨frames, hplain, hp⟩ := pushed_removeReference _ s
    exact ⟨frames, .plain hplain, hp⟩
  | @deleteThread m =>
    obtain ⟨frames, hp, hplain | ⟨v, a, -, rfl⟩⟩ := pushed_deleteThread m s
    · exact ⟨frames, .plain hplain, hp⟩
    · exact ⟨_, .deleteThread, hp⟩
  | mark => exact ⟨_, .mark, ⟨rfl, rfl⟩⟩
  | unlink => exact ⟨_, .unlink, ⟨rfl, rfl⟩⟩
  | abort => exact pushed_abortMessages _ _
  | wake => exact ⟨_, .wake, pushed_allocatePush _ _ _⟩

/-! ### The invariant -/

/-- Every stack is in order, and only the cleanup thread runs the frames that delete a thread. -/
structure Stacked (s : State) : Prop where
  /-- Every frame is over what it goes on with. -/
  well : ∀ t, WellStacked (s.stack t)
  /-- The frames of the cleanup thread. -/
  cleanup : ∀ {t f}, f ∈ s.stack t → f.ofCleanup = true → t = threadIdCleanup

theorem Stacked.setStack (frames : List Frame) (h : Stacked s) (hw : WellStacked frames)
    (hc : ∀ f ∈ frames, f.ofCleanup = true → t = threadIdCleanup)
    (hs : s'.stack = update s.stack t frames) : Stacked s' where
  well := fun u => by
    rw [hs]
    exact update_intro (fun _ => hw) fun _ => h.well u
  cleanup := fun {u f} hf hof => by
    rw [hs] at hf
    rcases update_cases hf with ⟨hu, hf⟩ | ⟨-, hf⟩
    · exact hu.trans (hc f hf hof)
    · exact h.cleanup hf hof

theorem Stacked.congr (h : Stacked s) (hs : s'.stack = s.stack) : Stacked s' where
  well := by rw [hs]; exact h.well
  cleanup := by rw [hs]; exact h.cleanup

theorem Stacked.pushed (h : Stacked s) (hp : Pushed s frames s')
    (hw : WellStacked (frames ++ s.stack s.currentThread))
    (hf : ∀ f ∈ frames, f.ofCleanup = true → s.currentThread = threadIdCleanup) :
    Stacked s' :=
  h.setStack _ hw (fun f hmem hof => (mem_append.1 hmem).elim (fun hm => hf f hm hof)
    fun hm => h.cleanup hm hof) hp.1

theorem yield_stack_eq {lot : ℕ} (hy : s.yield lot = some s') : s'.stack = s.stack := by
  obtain ⟨_, _, _, _, _, rfl⟩ := yield_eq hy
  rfl

theorem Executed.stack_eq (hexec : Executed (s.pop rest) o f s') :
    ∃ frames, s'.stack = update s.stack s.currentThread (frames ++ rest) := by
  by_cases hy : f = .yield
  · subst hy
    cases hexec with
    | yield hy => exact ⟨[], yield_stack_eq hy⟩
  · obtain ⟨frames, -, hp⟩ := hexec.expands hy
    exact ⟨frames, hp.stack_of_pop⟩

theorem keepTicket_stack_eq (s : State) : s.keepTicket.stack = s.stack := by
  obtain ⟨_, _, _, _, _, _, hkeep⟩ := s.keepTicket_eq
  rw [hkeep]

theorem Stacked.executed (h : Stacked s) (hstack : s.stack s.currentThread = f :: rest)
    (hexec : Executed (s.pop rest) o f s') : Stacked s' := by
  have hw : WellStacked (f :: rest) := hstack ▸ h.well s.currentThread
  have hc : ∀ g ∈ f :: rest, g.ofCleanup = true → s.currentThread = threadIdCleanup :=
    fun g hg => h.cleanup (hstack ▸ hg)
  by_cases hy : f = .yield
  · subst hy
    cases hexec with
    | yield hy =>
      exact h.setStack _ hw.2 (fun g hg => hc g (mem_cons_of_mem _ hg)) (yield_stack_eq hy)
  · obtain ⟨frames, he, hp⟩ := hexec.expands hy
    refine h.setStack _ (he.wellStacked hw) (fun g hg hof => ?_) hp.stack_of_pop
    rcases mem_append.1 hg with hg | hg
    · cases hf : f.ofCleanup with
      | true => exact hc f mem_cons_self hf
      | false =>
        rw [he.ofCleanup hf g hg] at hof
        cases hof
    · exact hc g (mem_cons_of_mem _ hg) hof

theorem Stacked.called {c : SystemCall} (h : Stacked s) (hstack : s.stack s.currentThread = [])
    (hc : Called s c s') : Stacked s' := by
  have hpush : ∀ {frames s'}, Pushed s frames s' → WellStacked frames →
      (∀ f ∈ frames, f.ofCleanup = false) → Stacked s' := by
    intro frames s' hp hw hf
    refine h.pushed hp (by rwa [hstack, append_nil]) fun f hmem hof => ?_
    rw [hf f hmem] at hof
    cases hof
  cases hc with
  | failed => exact h
  | send | sendAndReceive =>
    exact hpush (pushed_allocatePush _ _ _).of_addReference ⟨trivial, trivial, trivial⟩
      (by simp [ofCleanup])
  | receive => exact hpush (pushed_push _ _) ⟨fun _ => rfl, trivial⟩ (by simp [ofCleanup])
  | delete =>
    exact hpush (pushed_allocatePush _ _ _) ⟨trivial, trivial⟩ (by simp [ofCleanup])
  | @create t mask =>
    have h₁ : Stacked (s.createThread t mask) := h.setStack [] trivial (by simp) rfl
    exact h₁.pushed (pushed_push _ _) ⟨trivial, h₁.well _⟩ (by simp [ofCleanup])
  | register => exact h.congr rfl

theorem Stacked.step {a : Action} (h : Stacked s) (hs : Stepped s a s') : Stacked s' := by
  cases hs with
  | run hstack hexec => exact h.executed hstack hexec
  | call hstack _ _ hc => exact h.called hstack hc
  | cleanupLoop hstack hc =>
    exact h.pushed ⟨rfl, rfl⟩ (by simp [hstack, WellStacked, Frame.Over]) fun _ _ _ => hc
  | nullLoop hstack =>
    exact h.pushed ⟨rfl, rfl⟩ (by simp [hstack, WellStacked, Frame.Over]) (by simp [ofCleanup])
  | tick => exact h.congr rfl
  | quantum _ _ hy =>
    obtain ⟨_, _, _, _, _, _, _, _, _, rfl⟩ := quantum_eq hy
    exact h.congr rfl
  | device =>
    exact h.pushed ⟨rfl, rfl⟩ ⟨trivial, trivial, h.well _⟩ (by simp [ofCleanup])

theorem stacked_initial : Stacked initial where
  well := fun _ => trivial
  cleanup := by simp [initial]

end

end State

end Dx.Kernel
