import Dx.Kernel.Addressed

/-!
# Waiting for one another

A thread that sends a blocking message is blocked on the recipient, which may itself be blocked
on another thread, and so on: the threads form chains, and the scheduler follows a chain to its
end to find the thread that can run. A cycle would have it follow for ever, with the lock of the
I/O manager held and interrupts off.

`put_message` looks for a cycle before it blocks the running thread. That this is enough is not
a property of one call: it depends on the running thread not being blocked already, that is on
every blocked thread yielding the processor before it does anything else. The requests that
block are put with interrupts off, and the thread yields at once (`WaitFor.parked`); at every
other moment the running thread is not blocked (`Settled`).
-/

namespace Dx.Kernel

open Library Function List Kernel.Frame

/-- The frame is the `put_message` of a request. -/
def Frame.isRequest : Frame → Bool
  | .putRequest _ _ _ _ _ => true
  | _ => false

namespace State

/-- The chains of blocked threads, and the requests that are about to make one longer. -/
structure Chained (s : State) : Prop where
  grounded : Grounded s.blockingThread
  /-- A thread is blocked exactly when it names the thread it is blocked on. -/
  blocked : ∀ t, s.threadState t = .blocked ↔ ∃ b, s.blockingThread t = some b
  /-- A request that is being put is the innermost frame of its thread. -/
  top : ∀ {t f rest}, s.stack t = f :: rest → ∀ g ∈ rest, g.isRequest = false
  /-- It is put with interrupts off. -/
  off : ∀ {t f rest}, s.stack t = f :: rest → f.isRequest = true → s.interruptsEnabled t = false

/-- The running thread is not blocked, and is not putting a request. -/
structure Settled (s : State) : Prop extends Chained s where
  running : s.blockingThread s.currentThread = none
  quiet : ∀ g ∈ s.stack s.currentThread, g.isRequest = false

/-- What holds between any two steps: the running thread is only ever blocked when it is about
to yield, with interrupts off. -/
structure WaitFor (s : State) : Prop extends Chained s where
  /-- A running thread that is blocked is about to yield. -/
  parked : s.blockingThread s.currentThread ≠ none →
    (∃ rest, s.stack s.currentThread = .yield :: rest) ∧
      s.interruptsEnabled s.currentThread = false

section

variable {s s' : State} {t u : ThreadId} {m : MessageRef} {frames rest : List Frame} {f : Frame}
  {status : Status} {b : ThreadId} {r : Reception} {lot : ℕ}

theorem Settled.waitFor (h : Settled s) : WaitFor s :=
  { h.toChained with parked := fun hb => absurd h.running hb }

/-- With interrupts on, the running thread is neither blocked nor putting a request. -/
theorem WaitFor.settled (h : WaitFor s) (hi : s.interruptsEnabled s.currentThread = true) :
    Settled s := by
  refine { h.toChained with running := ?_, quiet := ?_ }
  · by_contra hb
    rw [(h.parked hb).2] at hi
    cases hi
  · intro g hg
    cases hstack : s.stack s.currentThread with
    | nil => simp [hstack] at hg
    | cons f rest =>
      rw [hstack] at hg
      rcases mem_cons.1 hg with rfl | hg
      · by_contra hreq
        rw [h.off hstack (by simpa using hreq)] at hi
        cases hi
      · exact h.top hstack g hg

theorem WaitFor.settled_of_nil (h : WaitFor s) (hstack : s.stack s.currentThread = []) :
    Settled s := by
  refine { h.toChained with running := ?_, quiet := by simp [hstack] }
  by_contra hb
  obtain ⟨⟨rest, hrest⟩, -⟩ := h.parked hb
  rw [hstack] at hrest
  cases hrest

/-! ### Frames -/

theorem Chained.congr (h : Chained s)
    (hs : (s'.blockingThread, s'.threadState, s'.stack, s'.interruptsEnabled) =
      (s.blockingThread, s.threadState, s.stack, s.interruptsEnabled)) : Chained s' := by
  simp only [Prod.mk.injEq] at hs
  obtain ⟨h1, h2, h3, h4⟩ := hs
  exact
    { grounded := by rw [h1]; exact h.grounded
      blocked := by rw [h1, h2]; exact h.blocked
      top := by rw [h3]; exact h.top
      off := by rw [h3, h4]; exact h.off }

theorem Settled.congr (h : Settled s)
    (hs : (s'.blockingThread, s'.threadState, s'.stack, s'.interruptsEnabled) =
      (s.blockingThread, s.threadState, s.stack, s.interruptsEnabled))
    (hc : s'.currentThread = s.currentThread) : Settled s' := by
  have h₁ := h.toChained.congr hs
  simp only [Prod.mk.injEq] at hs
  exact
    { h₁ with
      running := by rw [hs.1, hc]; exact h.running
      quiet := by rw [hs.2.2.1, hc]; exact h.quiet }

theorem Chained.setStack (h : Chained s) (hf : ∀ g ∈ frames, g.isRequest = false) :
    Chained { s with stack := update s.stack s.currentThread frames } := by
  refine { h with top := ?_, off := ?_ }
  · intro t g gs hg
    rcases update_cases (P := (· = g :: gs)) hg with ⟨-, hg⟩ | ⟨-, hg⟩
    · exact fun x hx => hf x (hg ▸ mem_cons_of_mem _ hx)
    · exact h.top hg
  · intro t g gs hg hreq
    rcases update_cases (P := (· = g :: gs)) hg with ⟨-, hg⟩ | ⟨-, hg⟩
    · rw [hf g (hg ▸ mem_cons_self)] at hreq
      cases hreq
    · exact h.off hg hreq

theorem Chained.pop (h : Chained s) (hs : s.stack s.currentThread = f :: rest) :
    Chained (s.pop rest) :=
  h.setStack (h.top hs)

/-- A frame other than a yield is executed by a thread that is not blocked. -/
theorem WaitFor.pop (h : WaitFor s) (hs : s.stack s.currentThread = f :: rest) (hf : f ≠ .yield) :
    Settled (s.pop rest) := by
  refine { h.toChained.pop hs with running := ?_, quiet := ?_ }
  · by_contra hb
    obtain ⟨⟨rest', hrest⟩, -⟩ := h.parked hb
    rw [hs] at hrest
    cases hrest
    exact hf rfl
  · show ∀ g ∈ update s.stack s.currentThread rest s.currentThread, _
    rw [update_self]
    exact h.top hs

theorem Settled.push (h : Settled s) (hf : ∀ f ∈ frames, f.isRequest = false) :
    Settled (s.push frames) := by
  have hall : ∀ g ∈ frames ++ s.stack s.currentThread, g.isRequest = false := fun g hg =>
    (mem_append.1 hg).elim (hf g) (h.quiet g)
  refine { h.toChained.setStack hall with running := h.running, quiet := ?_ }
  show ∀ g ∈ update s.stack s.currentThread _ s.currentThread, _
  rw [update_self]
  exact hall

/-! ### Blocking and unblocking -/

theorem Settled.release (h : Settled s) : Settled { s with
    blockingThread := update s.blockingThread t none
    threadState := update s.threadState t .ready } := by
  refine { h with grounded := h.grounded.clear t, blocked := ?_, running := ?_ }
  · intro u
    show update s.threadState t .ready u = .blocked ↔
      ∃ b, update s.blockingThread t none u = some b
    by_cases hu : u = t
    · simp [hu]
    · rw [update_of_ne hu, update_of_ne hu]
      exact h.blocked u
  · show update s.blockingThread t none s.currentThread = none
    rw [update_apply, h.running, ite_self]

theorem isRequest_destroy {l : List ThreadId} {k : List MessageRef} :
    ∀ f ∈ l.map Frame.dropReference ++ k.map Frame.putMessage, f.isRequest = false := by
  intro f hf
  rcases mem_append.1 hf with hf | hf <;> obtain ⟨x, -, rfl⟩ := mem_map.1 hf <;> rfl

theorem Settled.removeReference (h : Settled s) : Settled (s.removeReference t) := by
  rw [State.removeReference]
  split
  · exact Settled.push ((h.release).congr rfl rfl) isRequest_destroy
  · exact h.congr rfl rfl

theorem Settled.unblock (h : Settled s) : Settled (s.unblock t m) := by
  simp only [State.unblock, State.removeReference]
  split
  · -- the state of `t` is set before its source is destroyed, its field after
    have hcomm : update (update s.threadState t .ready) (s.message m).source
        .ready = update (update s.threadState (s.message m).source .ready) t
          .ready := by
      by_cases hne : t = (s.message m).source
      · rw [hne]
      · exact update_comm hne _ _ _
    have h₁ := ((h.release (t := (s.message m).source)).release (t := t)).push
      (isRequest_destroy (l := (s.blockingThread (s.message m).source).toList)
        (k := (s.deletionAcknowledgement (s.message m).source).toList))
    exact h₁.congr (by simp only [destroyThread, State.push, hcomm]) rfl
  · exact (h.release).congr rfl rfl

theorem Settled.put (h : Settled s) (hm : (s.message m).blocking = false)
    (hput : Put s m status s') : Settled s' := by
  cases hput with
  | refused => exact h
  | woken =>
    have h₁ := h.unblock (t := (s.message m).destination) (m := m)
    obtain ⟨_, _, _, _, _, _, hu⟩ := unblock_eq (s.message m).destination m s
    rw [hu] at h₁ ⊢
    rw [blockOn, if_neg (by simpa [pushHead, record] using hm)]
    exact h₁.congr rfl rfl
  | queued =>
    rw [blockOn, if_neg (by simpa [pushTail, record] using hm)]
    exact h.congr rfl rfl

/-- `find_blocking_thread` finds the end of the chain, if it finds anything. -/
theorem endsAt_of_findBlockingThread (h : s.findBlockingThread t = some (some b)) :
    EndsAt s.blockingThread t b := by
  rw [findBlockingThread] at h
  split at h
  · cases h
  case h_2 c hc =>
    simp only [Option.map_eq_some_iff, Option.some.injEq] at h
    obtain ⟨e, he, rfl⟩ := h
    exact .link hc (endsAt_of_chase he)

theorem eq_none_of_findBlockingThread (h : s.findBlockingThread t = some none) :
    s.blockingThread t = none := by
  rw [findBlockingThread] at h
  split at h
  case h_1 hb => exact hb
  case h_2 => simp at h

/-- When `causes_scheduling_loop` sees no loop, the chain from the recipient of a blocking
message does not end in the running thread. -/
theorem endsAt_of_causesSchedulingLoop (hm : (s.message m).blocking = true)
    (hloop : s.causesSchedulingLoop t m = some false) :
    ∃ e, EndsAt s.blockingThread t e ∧ e ≠ s.currentThread := by
  rw [causesSchedulingLoop, if_pos hm] at hloop
  split at hloop
  · cases hloop
  case isFalse hne =>
    obtain ⟨b, hb, hbne⟩ := Option.map_eq_some_iff.1 hloop
    cases b with
    | none => exact ⟨t, .here (eq_none_of_findBlockingThread hb), fun e => hne e.symm⟩
    | some b => exact ⟨b, endsAt_of_findBlockingThread hb, by simpa using hbne⟩

/-- **A new link.** The running thread, which is not blocked, blocks on a thread whose chain
does not end in it. -/
theorem Settled.link {e : ThreadId} (h : Settled s) (hb : EndsAt s.blockingThread b e)
    (he : e ≠ s.currentThread) : Chained { s with
      threadState := update s.threadState s.currentThread .blocked
      blockingThread := update s.blockingThread s.currentThread (some b) } := by
  refine { h.toChained with grounded := h.grounded.link h.running hb he, blocked := ?_ }
  intro u
  show update s.threadState s.currentThread .blocked u = .blocked ↔
    ∃ x, update s.blockingThread s.currentThread (some b) u = some x
  by_cases hu : u = s.currentThread
  · simp [hu]
  · rw [update_of_ne hu, update_of_ne hu]
    exact h.blocked u

/-- A request that has been put: it is queued, and the running thread is blocked. -/
def requested (m : MessageRef) (s : State) : State :=
  { s with
    messageQueue := update s.messageQueue (s.message m).destination
      (s.messageQueue (s.message m).destination ++ [m])
    threadState := update s.threadState s.currentThread .blocked
    blockingMessageId := update s.blockingMessageId s.currentThread (s.message m).id
    blockingThread := update s.blockingThread s.currentThread (some (s.message m).destination)
    referenceCount := update s.referenceCount (s.message m).destination
      (s.referenceCount (s.message m).destination + 1)
    pendingMessages := s.pendingMessages.add m
    history := s.history ++ [.queued m] }

/-- A thread that waits for the running thread makes a loop with a request to it, so a request
never wakes its recipient: it is queued. -/
theorem Settled.put_request (h : Settled s) (hm : (s.message m).blocking = true)
    (hsrc : (s.message m).source = s.currentThread) (hput : Put s m .success s') :
    s.mailboxEnabled (s.message m).destination = true ∧
      s.causesSchedulingLoop (s.message m).destination m = some false ∧ s' = s.requested m := by
  cases hput with
  | refused hne => exact absurd rfl hne
  | queued hen hloop =>
    refine ⟨hen, hloop, ?_⟩
    rw [blockOn, if_pos (by simpa [pushTail, record] using hm)]
    rfl
  | woken _ hloop hun =>
    obtain ⟨e, he, hne⟩ := endsAt_of_causesSchedulingLoop hm hloop
    simp only [unblocks, Bool.and_eq_true, beq_iff_eq] at hun
    have hlink := hun.1.2
    rw [hsrc] at hlink
    exact absurd ((he.of_linked hlink).eq_of_next_eq_none h.running) hne

section

variable (h : Settled s)
include h

/-- **The request blocks the running thread**, which yields next. -/
theorem Settled.request (hm : (s.message m).blocking = true)
    (hsrc : (s.message m).source = s.currentThread) (hput : Put s m .success s')
    (hi : s.interruptsEnabled s.currentThread = false) (hrest : ∀ g ∈ rest, g.isRequest = false) :
    WaitFor (s'.push (.yield :: rest)) := by
  obtain ⟨-, hloop, rfl⟩ := h.put_request hm hsrc hput
  obtain ⟨e, he, hne⟩ := endsAt_of_causesSchedulingLoop hm hloop
  have h₁ : Chained (s.requested m) := (h.link he hne).congr rfl
  refine { h₁.setStack (forall_mem_cons.2 ⟨rfl, fun g hg => ?_⟩) with
    parked := fun _ => ⟨⟨rest ++ s.stack s.currentThread, ?_⟩, hi⟩ }
  · exact (mem_append.1 hg).elim (hrest g) (h.quiet g)
  · show update s.stack s.currentThread _ s.currentThread = _
    rw [update_self]
    rfl

/-! ### The other frames -/

theorem Settled.killOnOverflow : Settled (s.killOnOverflow status t) := by
  rw [State.killOnOverflow]
  split
  · exact Settled.push (h.congr rfl rfl) (by simp [isRequest])
  · exact h

theorem Settled.refuse : Settled (s.refuse m status) :=
  Settled.push (h.congr rfl rfl) (by simp [isRequest])

theorem Settled.abortRequest : Settled (s.abortRequest m status) := by
  rw [State.abortRequest]
  split
  · exact h.refuse
  · exact h

theorem Settled.deleteThread : Settled (s.deleteThread m) := by
  have h₁ : Settled (s.push [.deleteMessage m]) := h.push (by simp [isRequest])
  simp only [State.deleteThread]
  split
  · exact h₁.refuse
  split
  · exact h₁.refuse
  split <;> exact Settled.push (h₁.congr rfl rfl) (by simp [deletionFrames, isRequest])

theorem Settled.abortMessages {l : List MessageRef} : Settled (s.abortMessages l) := by
  cases l with
  | nil => exact h
  | cons m rest =>
    have h₁ : Settled (s.push [.deleteMessage m, .abortMessages rest]) :=
      h.push (by simp [isRequest])
    simp only [State.abortMessages]
    split
    · exact Settled.push (h₁.congr rfl rfl) (by simp [isRequest])
    · exact h₁

end

theorem isRequest_continuation : ∀ f ∈ s.continuation m r, f.isRequest = false := by
  intro f hf
  rcases mem_continuation hf with rfl | ⟨rfl, -⟩ | ⟨_, _, -, rfl | rfl⟩ <;> rfl

theorem isRequest_failure : ∀ f ∈ failure status r, f.isRequest = false := by
  intro f hf
  obtain ⟨_, _, -, rfl⟩ := mem_failure hf
  rfl

theorem Settled.setInterrupts {b : Bool} (h : Settled s) : Settled { s with
    interruptsEnabled := update s.interruptsEnabled s.currentThread b } := by
  refine { h with off := ?_ }
  intro t f rest hf hreq
  have ht : t ≠ s.currentThread := by
    rintro rfl
    rw [h.quiet f (hf ▸ mem_cons_self)] at hreq
    cases hreq
  show update s.interruptsEnabled s.currentThread b t = false
  rw [update_of_ne ht]
  exact h.off hf hreq

theorem Settled.sendMessage {deletes : Bool} (h : Settled s) :
    WaitFor (s.sendMessage m deletes) := by
  have h₁ := h.setInterrupts (b := false)
  refine { grounded := h.grounded, blocked := h.blocked, top := ?_, off := ?_,
           parked := fun hb => absurd h.running hb }
  · intro t f rest hf
    rcases update_cases (P := (· = f :: rest)) hf with ⟨-, hf⟩ | ⟨-, hf⟩
    · cases hf
      exact h.quiet
    · exact h.top hf
  · intro t f rest hf hreq
    rcases update_cases (P := (· = f :: rest)) hf with ⟨rfl, -⟩ | ⟨-, hf⟩
    · exact update_self ..
    · exact h₁.off hf hreq

/-! ### The scheduler -/

theorem Chained.drawn (h : Chained s) (hd : Drawn lot s t s') : Chained s' := by
  cases hd with
  | idle | ticket => exact h
  | bonus => exact h.congr rfl

/-- The thread that is selected is not blocked. -/
theorem Selected.chained (hsel : Selected lot s t s') (h : Chained s) :
    Chained s' ∧ s'.blockingThread t = none := by
  cases hsel with
  | handoff hb => exact ⟨h, (endsAt_of_findBlockingThread hb).next_eq_none⟩
  | winner _ hd hw => exact ⟨h.drawn hd, eq_none_of_findBlockingThread hw⟩
  | passed _ hd hw => exact ⟨h.drawn hd, (endsAt_of_findBlockingThread hw).next_eq_none⟩

theorem Chained.yield (h : Chained s) (hy : s.yield lot = some s') : WaitFor s' := by
  obtain ⟨t, s₁, hsel, rfl⟩ := yield_eq_some hy
  obtain ⟨h₁, ht⟩ := hsel.chained h
  exact { h₁ with parked := fun hb => absurd ht hb }

theorem Chained.ready (h : Chained s) (ht : s.blockingThread t = none) :
    s.threadState t = .ready := by
  cases hst : s.threadState t with
  | ready => rfl
  | blocked =>
    obtain ⟨b, hb⟩ := (h.blocked t).1 hst
    rw [ht] at hb
    cases hb

/-- `find_blocking_thread` ends: a chain is not longer than there are threads. -/
theorem Chained.findBlockingThread_isSome (h : Chained s)
    (hk : ∀ {t b}, s.blockingThread t = some b → t ∈ s.threads) (t : ThreadId) :
    ∃ r, s.findBlockingThread t = some r ∧ ∀ b, r = some b → s.threadState b = .ready := by
  rw [State.findBlockingThread]
  split
  case h_1 => exact ⟨none, rfl, by simp⟩
  case h_2 c hc =>
    obtain ⟨e, he⟩ := h.grounded c
    have hnodes : ∀ x, s.blockingThread x ≠ none → x ∈ s.threads := fun x hx => by
      obtain ⟨b, hb⟩ := Option.ne_none_iff_exists'.1 hx
      exact hk hb
    refine ⟨some e, by rw [chase_of_endsAt he hnodes]; rfl, ?_⟩
    rintro _ ⟨⟩
    exact h.ready he.next_eq_none

/-- Whichever ticket is drawn, the scheduler hands the processor to a thread that is ready. -/
def HandsOver (s : State) : Prop :=
  ∀ lot, s.pendingMessages.items = [] ∨ lot < s.pendingMessages.items.length →
    ∃ t s', s.selectNextThread lot = some (t, s') ∧ s'.threadState t = .ready

theorem exists_drawThread
    (hlot : s.pendingMessages.items = [] ∨ lot < s.pendingMessages.items.length) :
    ∃ t s', s.drawThread lot = some (t, s') := by
  rw [drawThread]
  split
  · exact ⟨_, _, rfl⟩
  case isFalse hne =>
    rw [List.getElem?_eq_getElem (hlot.resolve_left hne)]
    dsimp only
    split <;> exact ⟨_, _, rfl⟩

theorem Chained.handsOver (h : Chained s)
    (hk : ∀ {t b}, s.blockingThread t = some b → t ∈ s.threads) : HandsOver s := by
  intro lot hlot
  have hsome : ∃ t s', s.selectNextThread lot = some (t, s') := by
    obtain ⟨r, hr, -⟩ := h.findBlockingThread_isSome hk s.currentThread
    rw [selectNextThread, hr]
    cases r with
    | some t => exact ⟨_, _, rfl⟩
    | none =>
      obtain ⟨w, s₁, hd⟩ := exists_drawThread hlot
      have hd' := drawn_of_drawThread hd
      have hk₁ : ∀ {t b}, s₁.blockingThread t = some b → t ∈ s₁.threads := by
        cases hd' <;> exact hk
      obtain ⟨r, hr, -⟩ := (h.drawn hd').findBlockingThread_isSome hk₁ w
      simp only [hd, hr]
      cases r <;> exact ⟨_, _, rfl⟩
  obtain ⟨t, s', hsel⟩ := hsome
  obtain ⟨h₁, ht⟩ := (selected_of_selectNextThread hsel).chained h
  exact ⟨t, s', hsel, h₁.ready ht⟩

theorem Settled.keepTicket (h : Settled s) : Settled s.keepTicket :=
  keepTicket_cases h fun _ => h.congr rfl rfl

/-! ### The step -/

/-- A frame other than a yield; a request is put with interrupts off. -/
theorem Settled.executed {o : Outcome} (h : Settled s) (hy : f ≠ .yield)
    (hf : f.Fits s.message s.mailboxEnabled s.currentThread)
    (hi : f.isRequest = true → s.interruptsEnabled s.currentThread = false)
    (hexec : Executed s o f s') : WaitFor s' := by
  cases hexec with
  | put hp => exact Settled.waitFor (h.put hf hp)
  | putRefused => exact Settled.waitFor ((h.push (by simp [isRequest])).killOnOverflow)
  | send => exact h.sendMessage
  | request hp => exact h.request hf.2.2.2 hf.1 hp (hi rfl) (by simp [isRequest])
  | @requestRefused _ _ _ _ deletes =>
    exact Settled.waitFor ((h.push (by cases deletes <;> simp [isRequest])).killOnOverflow)
  | yield => exact absurd rfl hy
  | restore => exact h.setInterrupts.waitFor
  | get | remove | abortSend | delete | mark | unlink | table | wake =>
    exact Settled.waitFor (Settled.push (h.congr rfl rfl) (by simp [isRequest]))
  | wait | noReply | reply => exact Settled.waitFor (h.push (by simp [isRequest]))
  | empty | wakeDone => exact h.waitFor
  | deliver => exact Settled.waitFor (Settled.push (h.congr rfl rfl) isRequest_continuation)
  | undeliverable =>
    exact Settled.waitFor (Settled.abortRequest (Settled.push (h.congr rfl rfl)
      (forall_mem_cons.2 ⟨rfl, isRequest_failure⟩)))
  | drop => exact h.removeReference.waitFor
  | deleteThread => exact h.deleteThread.waitFor
  | abort => exact h.abortMessages.waitFor

theorem Settled.createThread {mask : ℕ} (h : Settled s) : Settled (s.createThread t mask) := by
  have h₁ := h.release (t := t)
  refine { grounded := h₁.grounded, blocked := h₁.blocked, running := h₁.running, top := ?_,
           off := ?_, quiet := ?_ }
  · intro u f rest hf
    rcases update_cases (P := (· = f :: rest)) hf with ⟨-, hf⟩ | ⟨-, hf⟩
    · cases hf
    · exact h.top hf
  · intro u f rest hf hreq
    rcases update_cases (P := (· = f :: rest)) hf with ⟨-, hf⟩ | ⟨hu, hf⟩
    · cases hf
    · exact (update_of_ne hu _ _).trans (h.off hf hreq)
  · intro g hg
    rcases update_cases (P := (g ∈ ·)) hg with ⟨-, hg⟩ | ⟨-, hg⟩
    · cases hg
    · exact h.quiet g hg

theorem Settled.called {c : SystemCall} (h : Settled s) (hc : Called s c s') : Settled s' := by
  cases hc with
  | failed => exact h
  | send | sendAndReceive | delete =>
    exact Settled.push (h.congr rfl rfl) (by simp [isRequest])
  | receive => exact h.push (by simp [isRequest])
  | create => exact h.createThread.push (by simp [isRequest])
  | register => exact h.congr rfl rfl

theorem WaitFor.step {a : Action} (h : WaitFor s) (hsound : Sound s) (hs : Stepped s a s') :
    WaitFor s' := by
  cases hs with
  | @run o f rest _ hstack hexec =>
    by_cases hy : f = .yield
    · subst hy
      cases hexec with
      | yield hy => exact (h.toChained.pop hstack).yield hy
    · exact (h.pop hstack hy).executed hy (hsound.addressed.pop hstack).2 (h.off hstack) hexec
  | call hstack _ _ hc => exact Settled.waitFor ((h.settled_of_nil hstack).called hc)
  | cleanupLoop hstack _ | nullLoop hstack _ =>
    exact Settled.waitFor ((h.settled_of_nil hstack).push (by simp [isRequest]))
  | tick hi => exact Settled.waitFor ((h.settled hi).congr rfl rfl)
  | quantum hi _ hy =>
    have htick : Settled s.tick := (h.settled hi).congr rfl rfl
    exact htick.keepTicket.toChained.yield hy
  | device hi =>
    exact Settled.waitFor (Settled.push ((h.settled hi).setInterrupts) (by simp [isRequest]))

theorem waitFor_initial : WaitFor initial where
  grounded := fun t => ⟨t, .here rfl⟩
  blocked := by simp [initial]
  top := by simp [initial]
  off := by simp [initial]
  parked := by simp [initial]

theorem Reachable.waitFor (h : Reachable s) : WaitFor s :=
  (h.invariant (I := fun s => Sound s ∧ WaitFor s) ⟨sound_initial, waitFor_initial⟩
    fun hx _ hs => ⟨hx.1.step (stepped_of_step hs), hx.2.step hx.1 (stepped_of_step hs)⟩).2

/-- **No thread waits for itself.** In every state the machine gets to the wait-for relation has
no cycle, a thread is blocked exactly when it names the thread it is blocked on, following the
chain of a thread ends, at a thread that is ready, and the scheduler hands the processor to a
ready thread: both when the running thread yields and when its quantum is over. -/
theorem blockingThread_acyclic (h : Reachable s) :
    (∀ t, ¬ Relation.TransGen (Linked s.blockingThread) t t) ∧
      (∀ t, s.threadState t = .blocked ↔ ∃ b, s.blockingThread t = some b) ∧
      (∀ t, ∃ r, s.findBlockingThread t = some r ∧ ∀ b, r = some b → s.threadState b = .ready) ∧
      (∀ rest, s.stack s.currentThread = .yield :: rest → HandsOver (s.pop rest)) ∧
      (s.interruptsEnabled s.currentThread = true → HandsOver s.tick.keepTicket) := by
  have hw := h.waitFor
  have hk : ∀ {t b}, s.blockingThread t = some b → t ∈ s.threads := fun hb =>
    (h.sound.known.blocking hb).1
  refine ⟨hw.grounded.acyclic, hw.blocked, hw.toChained.findBlockingThread_isSome hk,
    fun rest hstack => (hw.toChained.pop hstack).handsOver hk, fun hi => ?_⟩
  have htick : Settled s.tick := (hw.settled hi).congr rfl rfl
  have hknown : Known s.tick := { h.sound.known with }
  exact htick.keepTicket.toChained.handsOver fun hb => (hknown.keepTicket.blocking hb).1

/-- The boot thread creates thread 1 and sends it a request; thread 1 sends one to the cleanup
thread, and is about to yield. -/
def twoWait : List Action :=
  [.call (.createThread 1 capabilityAll), .run ⟨.success, 0, 0⟩,
    .call (.sendAndReceiveMessage 1 5 7 0 true), .run ⟨.success, 0, 0⟩, .run ⟨.success, 0, 0⟩,
    .run ⟨.success, 0, 0⟩, .call (.sendAndReceiveMessage threadIdCleanup 5 8 0 true),
    .run ⟨.success, 0, 0⟩, .run ⟨.success, 0, 0⟩]

/-- A chain of two threads that wait. -/
theorem blockingThread_acyclic_twoWait :
    ∃ s, runActions step initial twoWait = some s ∧
      s.blockingThread threadIdBoot = some 1 ∧ s.blockingThread 1 = some threadIdCleanup ∧
      (∀ t, ¬ Relation.TransGen (Linked s.blockingThread) t t) ∧
      HandsOver (s.pop (s.stack s.currentThread).tail) := by
  obtain ⟨h₁, -, -, h₂, -⟩ := blockingThread_acyclic (run_of_runActions twoWait rfl)
  exact ⟨_, rfl, rfl, rfl, h₁, h₂ _ rfl⟩

end

end State

end Dx.Kernel
