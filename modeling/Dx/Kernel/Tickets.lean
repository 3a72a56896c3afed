import Dx.Kernel.References

/-!
# Every thread that can run has a ticket

A thread gets the processor when one of its messages is drawn from the pool. The messages are
taken from the pool as the thread receives them, so a thread that is interrupted with an empty
mailbox would never run again if it were not given a bonus message; and the bonus message is
taken away as soon as the thread wins, or when it wins and is blocked. The invariant is that a
thread that is ready and is not running has a message in the pool, or has yielded because it
waits for one (`NotStranded`).

A thread yields in two places only: in `receive_message`, with nothing below the call on its
stack, and in `send_message` when it is blocked (`Yielding`).
-/

namespace Dx.Kernel

open Library Function

/-- Every yield is the one of `receive_message`. -/
def Calm : List Frame → Prop
  | [] => True
  | f :: rest => (f = .yield → ∃ r, r.waits = true ∧ rest = [.getMessage r]) ∧ Calm rest

theorem Calm.plain {frames rest : List Frame} (h : Calm rest)
    (hf : ∀ f ∈ frames, f.isPlain = true) : Calm (frames ++ rest) := by
  induction frames with
  | nil => exact h
  | cons f frames ih =>
    rw [List.forall_mem_cons] at hf
    refine ⟨?_, ih hf.2⟩
    rintro rfl
    cases hf.1

/-- A frame other than a request calls no other yield. -/
theorem Frame.Expands.calm {f : Frame} {frames rest : List Frame} (he : f.Expands frames)
    (hf : f.isRequest = false) (hw : f.Over rest) (h : Calm rest) : Calm (frames ++ rest) := by
  cases he with
  | plain hp => exact h.plain hp
  | request | refused => cases hf
  | @wait r hr =>
    have hreply : r.isReply = false := by cases r <;> first | rfl | cases hr
    obtain rfl := hw hreply
    exact ⟨fun _ => ⟨r, hr, rfl⟩, by simp, trivial⟩
  | fail hp | abort hp =>
    rw [List.append_assoc]
    exact Calm.plain ⟨by simp, by simp, h⟩ hp
  | answer | makeUp | wake => exact ⟨by simp, by simp, h⟩
  | deleteThread => exact ⟨by simp, by simp, by simp, by simp, h⟩
  | _ => exact ⟨by simp, h⟩

namespace State

/-- A thread yields when it waits for a message, or when it is blocked and is about to give up
the processor. -/
structure Yielding (s : State) : Prop where
  /-- The threads that are not running. -/
  other : ∀ {t}, t ≠ s.currentThread → Calm (s.stack t)
  /-- The running thread. -/
  running : Calm (s.stack s.currentThread) ∨ s.blockingThread s.currentThread ≠ none ∧
    ∃ rest, s.stack s.currentThread = .yield :: rest ∧ Calm rest

section

variable {s s' : State} {t u : ThreadId} {m : MessageRef} {f : Frame} {rest : List Frame}
  {o : Outcome} {a : Action} {status : Status} {lot : ℕ} {c : SystemCall}

theorem Yielding.calm (h : Yielding s) (hb : s.blockingThread s.currentThread = none)
    (t : ThreadId) : Calm (s.stack t) := by
  by_cases ht : t = s.currentThread
  · rw [ht]
    exact h.running.resolve_right fun hr => hr.1 hb
  · exact h.other ht

theorem Yielding.calm_tail (h : Yielding s) (hs : s.stack s.currentThread = f :: rest) :
    Calm rest := by
  rcases h.running with hc | ⟨-, rest', hs', hc⟩
  · rw [hs] at hc
    exact hc.2
  · rw [hs] at hs'
    cases hs'
    exact hc

theorem yielding_of_calm (h : ∀ t, Calm (s.stack t)) : Yielding s := ⟨fun {t} _ => h t, .inl (h _)⟩

theorem Yielding.pushed (frames : List Frame) (h : ∀ t, Calm (s.stack t)) (hp : Pushed s frames s')
    (hf : Calm (frames ++ s.stack s.currentThread)) : Yielding s' := by
  refine yielding_of_calm fun t => ?_
  rw [hp.1]
  exact update_intro (fun _ => hf) fun _ => h t

theorem Yielding.yield (h : Yielding s) (hs : s.stack s.currentThread = .yield :: rest) :
    ∀ t, Calm ((s.pop rest).stack t) := fun _ =>
  update_intro (fun _ => h.calm_tail hs) fun ht => h.other ht

theorem Yielding.executed (h : Yielding s) (hreg : Regular s)
    (hs : s.stack s.currentThread = f :: rest) (hexec : Executed (s.pop rest) o f s') :
    Yielding s' := by
  have hcalm := h.calm_tail hs
  have hover : f.Over rest := (hs ▸ hreg.stacked.well s.currentThread : WellStacked (f :: rest)).1
  by_cases hy : f = .yield
  · subst hy
    cases hexec with
    | yield hyield =>
      refine yielding_of_calm fun t => ?_
      rw [yield_stack_eq hyield]
      exact h.yield hs t
  have hset := hreg.waitFor.pop hs hy
  have hother : ∀ {frames}, Pushed (s.pop rest) frames s' → ∀ {t}, t ≠ s'.currentThread →
      Calm (s'.stack t) := by
    intro frames hp t ht
    have ht : t ≠ s.currentThread := fun e => ht (e.trans hp.2.symm)
    rw [hp.stack_of_pop, update_of_ne ht]
    exact h.other ht
  have htop : ∀ {frames}, Pushed (s.pop rest) frames s' →
      s'.stack s'.currentThread = frames ++ rest := by
    intro frames hp
    have hcur : s'.currentThread = s.currentThread := hp.2
    rw [hp.stack_of_pop, hcur, update_self]
  cases hreq : f.isRequest with
  | false =>
    obtain ⟨frames, he, hp⟩ := hexec.expands hy
    refine ⟨hother hp, .inl ?_⟩
    rw [htop hp]
    exact he.calm hreq hover hcalm
  | true =>
    cases hexec with
    | @request m recipient requestId interrupts deletes s₁ hput =>
      have hfits := (hreg.sound.addressed.pop hs).2
      obtain ⟨-, -, rfl⟩ := hset.put_request hfits.2.2.2 hfits.1 hput
      have hp : Pushed (s.pop rest) [.yield, .restoreInterrupts interrupts,
          .getMessage (.reply recipient requestId)] (((s.pop rest).requested m).push
            [.yield, .restoreInterrupts interrupts, .getMessage (.reply recipient requestId)]) :=
        ⟨rfl, rfl⟩
      refine ⟨hother hp, .inr ⟨?_, _, htop hp, ⟨by simp, by simp, hcalm⟩⟩⟩
      show update s.blockingThread s.currentThread _ s.currentThread ≠ none
      simp
    | @requestRefused m recipient _ interrupts deletes status hput =>
      obtain ⟨frames, hplain, hp⟩ := pushed_killOnOverflow status
        ((s.pop rest).message m).destination ((s.pop rest).push
          ([.restoreInterrupts interrupts, .dropReference recipient] ++
            if deletes then [.deleteMessage m] else []))
      have hp := (pushed_push _ _).trans hp
      refine ⟨hother hp, .inl ?_⟩
      rw [htop hp, List.append_assoc]
      have hdrop : Calm ((.dropReference recipient :: if deletes then [.deleteMessage m] else []) ++
          rest) := hcalm.plain (by cases deletes <;> simp [Frame.isPlain])
      exact Calm.plain ⟨by simp, hdrop⟩ hplain
    | _ => cases hreq

theorem Yielding.step (h : Yielding s) (hreg : Regular s) (hs : Stepped s a s') : Yielding s' := by
  cases hs with
  | run hstack hexec => exact h.executed hreg hstack hexec
  | call hstack _ _ hc =>
    have hcalm := h.calm (hreg.waitFor.settled_of_nil hstack).running
    have hnil := hcalm s.currentThread
    cases hc with
    | failed => exact h
    | send | sendAndReceive =>
      exact .pushed _ hcalm (pushed_allocatePush _ _ _).of_addReference ⟨by simp, by simp, hnil⟩
    | receive => exact .pushed _ hcalm (pushed_push _ _) ⟨by simp, hnil⟩
    | delete => exact .pushed _ hcalm (pushed_allocatePush _ _ _) ⟨by simp, hnil⟩
    | @create t mask =>
      have hcreate : ∀ u, Calm ((s.createThread t mask).stack u) := fun u =>
        update_intro (fun _ => trivial) fun _ => hcalm u
      exact .pushed _ hcreate (pushed_push _ _) ⟨by simp, hcreate _⟩
    | register => exact yielding_of_calm hcalm
  | cleanupLoop hstack | nullLoop hstack =>
    have hcalm := h.calm (hreg.waitFor.settled_of_nil hstack).running
    exact .pushed _ hcalm (pushed_push _ _) ⟨by simp, hcalm _⟩
  | tick hi => exact yielding_of_calm (h.calm (hreg.waitFor.settled hi).running)
  | quantum hi _ hy =>
    have hcalm := h.calm (hreg.waitFor.settled hi).running
    refine yielding_of_calm fun t => ?_
    rw [yield_stack_eq hy, keepTicket_stack_eq]
    exact hcalm t
  | device hi =>
    have hcalm := h.calm (hreg.waitFor.settled hi).running
    exact .pushed [.wakeInterruptHandlers _ 0 _, .restoreInterrupts true] hcalm ⟨rfl, rfl⟩
      ⟨by simp, by simp, hcalm _⟩

/-- The thread has yielded in `receive_message`, with an empty mailbox. -/
def Waiting (s : State) (t : ThreadId) : Prop :=
  s.messageQueue t = [] ∧ ∃ r, r.waits = true ∧ s.stack t = [.getMessage r]

/-- Where the ticket of a thread is. -/
def Ticketed (s : State) (t : ThreadId) : Prop :=
  s.messageQueue t ≠ [] ∨ s.bonusMessage t ≠ none ∨ ∃ m r, .removePending m r ∈ s.stack t

/-- The thread will run again, or waits for a message. -/
def Supplied (s : State) (t : ThreadId) : Prop := Ticketed s t ∨ Waiting s t

theorem Supplied.of_queue (h : s.messageQueue t ≠ []) : Supplied s t := .inl (.inl h)

theorem Ticketed.mono (h : Ticketed s t) (hs : s'.stack t = s.stack t)
    (hq : s.messageQueue t ≠ [] → s'.messageQueue t ≠ [])
    (hb : s'.bonusMessage t = s.bonusMessage t) : Ticketed s' t := by
  rcases h with hn | hn | ⟨m, r, hf⟩
  · exact .inl (hq hn)
  · exact .inr (.inl (hb ▸ hn))
  · exact .inr (.inr ⟨m, r, hs ▸ hf⟩)

/-- A thread that is not running keeps its ticket, or is given one. -/
theorem Supplied.mono (h : Supplied s t) (hs : s'.stack t = s.stack t)
    (hq : s.messageQueue t ≠ [] → s'.messageQueue t ≠ [])
    (hb : s'.bonusMessage t = s.bonusMessage t) : Supplied s' t := by
  rcases h with ht | ⟨-, r, hr, hw⟩
  · exact .inl (ht.mono hs hq hb)
  · by_cases hempty : s'.messageQueue t = []
    · exact .inr ⟨hempty, r, hr, hs.trans hw⟩
    · exact .of_queue hempty

/-- The thread is to be able to run: it has been started, is not marked for deletion and is not
blocked; the null thread needs no ticket. -/
structure Runnable (s : State) (t : ThreadId) : Prop where
  started : s.started t = true
  enabled : s.mailboxEnabled t = true
  ready : s.threadState t = .ready
  ne_null : t ≠ threadIdNull

/-- No thread that can run is left without a ticket. -/
def NotStranded (s : State) : Prop := ∀ t, Runnable s t → t ≠ s.currentThread → Supplied s t

/-! ### What a frame does to the threads that are not running -/

/-- The mailbox and the bonus message of `t` are not taken away. -/
structure Spared (s s' : State) (t : ThreadId) : Prop where
  /-- The mailbox is not emptied. -/
  queue : s.messageQueue t ≠ [] → s'.messageQueue t ≠ []
  bonus : s'.bonusMessage t = s.bonusMessage t
  started : s'.started t = s.started t

theorem Spared.of_eq (h : (s'.messageQueue, s'.bonusMessage, s'.started) =
    (s.messageQueue, s.bonusMessage, s.started)) : Spared s s' t := by
  simp only [Prod.mk.injEq] at h
  exact ⟨fun hq => by rwa [h.1], by rw [h.2.1], by rw [h.2.2]⟩

theorem Spared.trans {s'' : State} (h : Spared s s' t) (h' : Spared s' s'' t) : Spared s s'' t :=
  ⟨fun hq => h'.queue (h.queue hq), h'.bonus.trans h.bonus, h'.started.trans h.started⟩

theorem spared_blockOn (u : ThreadId) (m : MessageRef) (s : State) :
    Spared s (s.blockOn u m) t := by
  obtain ⟨_, _, _, _, hb⟩ := blockOn_eq u m s
  rw [hb]
  exact .of_eq rfl

theorem spared_enqueue (u : ThreadId) (q : List MessageRef) (hq : q ≠ []) (s : State) :
    Spared s { s with messageQueue := update s.messageQueue u q } t := by
  refine ⟨fun hne => ?_, rfl, rfl⟩
  show update s.messageQueue u q t ≠ []
  rw [update_apply]
  split
  · exact hq
  · exact hne

theorem spared_pushHead (u : ThreadId) (m : MessageRef) (s : State) : Spared s (s.pushHead u m) t :=
  (spared_enqueue u (m :: s.messageQueue u) (by simp) s).trans (.of_eq rfl)

theorem spared_pushTail (u : ThreadId) (m : MessageRef) (s : State) : Spared s (s.pushTail u m) t :=
  (spared_enqueue u (s.messageQueue u ++ [m]) (by simp) s).trans (.of_eq rfl)

theorem Put.spared (h : Put s m status s') : Spared s s' t := by
  have hpool : ∀ x : State, Spared x (x.addPending m) t := fun _ => .of_eq rfl
  cases h with
  | refused => exact .of_eq rfl
  | woken =>
    have hu : Spared s (s.unblock (s.message m).destination m) t := by
      obtain ⟨_, _, _, _, _, _, hu⟩ := unblock_eq (s.message m).destination m s
      rw [hu]
      exact .of_eq rfl
    exact ((hu.trans (spared_pushHead _ _ _)).trans (spared_blockOn _ _ _)).trans (hpool _)
  | queued => exact ((spared_pushTail _ _ _).trans (spared_blockOn _ _ _)).trans (hpool _)

theorem Spared.of_grown (h : Grown s s') : Spared s s' t := by
  obtain ⟨_, _, _, _, _, _, rfl⟩ := h.eq
  exact .of_eq rfl

theorem spared_removeReference (u : ThreadId) (s : State) : Spared s (s.removeReference u) t := by
  obtain ⟨_, _, _, _, _, _, hr⟩ := removeReference_eq u s
  rw [hr]
  exact .of_eq rfl

/-- The running thread takes from its own mailbox, and marking a thread for deletion empties the
mailbox it disables; the others are spared. -/
theorem Executed.spared (hexec : Executed s o f s') (hy : f ≠ .yield) (ht : t ≠ s.currentThread)
    (hen : s'.mailboxEnabled t = true) : Spared s s' t := by
  cases hexec with
  | put hp => exact hp.spared
  | putRefused | requestRefused => exact .of_grown (grown_killOnOverflow _ _ _ _)
  | request hp => exact hp.spared.trans (.of_eq rfl)
  | yield => exact absurd rfl hy
  | get hq =>
    refine ⟨fun hne => ?_, rfl, rfl⟩
    show update s.messageQueue s.currentThread _ t ≠ []
    rwa [update_of_ne ht]
  | undeliverable => exact .of_grown (grown_abortRequest _ _ _ _)
  | drop => exact spared_removeReference _ _
  | deleteThread => exact .of_grown (grown_deleteThread _ _)
  | @mark v =>
    have hen : update s.mailboxEnabled v false t = true := hen
    have hne : t ≠ v := by rintro rfl; simp at hen
    refine ⟨fun hq => ?_, ?_, rfl⟩
    · show update s.messageQueue v [] t ≠ []
      rwa [update_of_ne hne]
    · exact update_of_ne hne _ _
  | abort => exact .of_grown (grown_abortMessages _ _)
  | _ => exact .of_eq rfl

/-! ### Threads that are unblocked -/

theorem destroyed_of_readied (hb : s.threadState t = .blocked)
    (hr : (s.removeReference u).threadState t = .ready) :
    (s.removeReference u).destroyed t = true := by
  rw [removeReference] at hr ⊢
  split at hr
  case isFalse =>
    rw [hb] at hr
    cases hr
  case isTrue hzero =>
    rw [if_pos hzero]
    have hr : update s.threadState u .ready t = .ready := hr
    show update s.destroyed u true t = true
    by_cases htu : t = u
    · rw [htu, update_self]
    · rw [update_of_ne htu, hb] at hr
      cases hr

theorem Put.readied (h : Put s m status s') (hb : s.threadState t = .blocked)
    (hr : s'.threadState t = .ready) : s'.messageQueue t ≠ [] ∨ s'.destroyed t = true := by
  have hblock : ∀ x : State, (x.blockOn (s.message m).destination m).threadState t = .ready →
      x.threadState t = .ready := by
    intro x hx
    rw [blockOn] at hx
    split at hx
    · have hx : update x.threadState x.currentThread .blocked t = .ready := hx
      rw [update_apply] at hx
      split at hx
      · cases hx
      · exact hx
    · exact hx
  cases h with
  | refused =>
    rw [hb] at hr
    cases hr
  | woken =>
    obtain ⟨_, _, _, _, hbl⟩ := blockOn_eq (s.message m).destination m
      ((s.unblock (s.message m).destination m).pushHead (s.message m).destination m)
    have hr := hblock _ hr
    rw [hbl]
    by_cases ht : t = (s.message m).destination
    · refine .inl ?_
      show update (s.unblock (s.message m).destination m).messageQueue _ _ t ≠ []
      rw [ht, update_self]
      simp
    · refine .inr (destroyed_of_readied (s := { s with
        threadState := update s.threadState (s.message m).destination .ready }) ?_ hr)
      show update s.threadState (s.message m).destination .ready t = .blocked
      rw [update_of_ne ht]
      exact hb
  | queued =>
    have hr : (s.pushTail (s.message m).destination m).threadState t = .ready := hblock _ hr
    have hr : s.threadState t = .ready := hr
    rw [hb] at hr
    cases hr

/-- A thread is unblocked by a message it gets, or by its destruction. -/
theorem Executed.readied (hexec : Executed s o f s') (hy : f ≠ .yield)
    (hb : s.threadState t = .blocked) (hr : s'.threadState t = .ready) :
    s'.messageQueue t ≠ [] ∨ s'.destroyed t = true := by
  have hsame : s'.threadState = s.threadState →
      s'.messageQueue t ≠ [] ∨ s'.destroyed t = true := fun he => by
    rw [he, hb] at hr
    cases hr
  have hgrown (hg : Grown s s') : s'.messageQueue t ≠ [] ∨ s'.destroyed t = true := by
    obtain ⟨_, _, _, _, _, _, rfl⟩ := hg.eq
    exact hsame rfl
  cases hexec with
  | put hp | request hp => exact hp.readied hb hr
  | putRefused | requestRefused => exact hgrown (grown_killOnOverflow _ _ _ _)
  | yield => exact absurd rfl hy
  | undeliverable => exact hgrown (grown_abortRequest _ _ _ _)
  | drop => exact .inr (destroyed_of_readied hb hr)
  | deleteThread => exact hgrown (grown_deleteThread _ _)
  | abort => exact hgrown (grown_abortMessages _ _)
  | _ => exact hsame rfl

/-! ### The step -/

theorem NotStranded.executed (h : NotStranded s) (hreg : Regular s) (hreg' : Regular s')
    (hy : f ≠ .yield) (hexec : Executed (s.pop rest) o f s') : NotStranded s' := by
  intro t ht hcur
  obtain ⟨frames, -, hp⟩ := hexec.expands hy
  have hcur : t ≠ s.currentThread := fun e => hcur (e.trans hp.2.symm)
  have hsp := hexec.spared hy hcur ht.enabled
  have hstack : s'.stack t = s.stack t := by rw [hp.stack_of_pop, update_of_ne hcur]
  cases hst : s.threadState t with
  | ready =>
    have hen : s.mailboxEnabled t = true := hexec.enabled_of_enabled ht.enabled
    exact (h _ ⟨hsp.started ▸ ht.started, hen, hst, ht.ne_null⟩ hcur).mono hstack hsp.queue hsp.bonus
  | blocked =>
    rcases hexec.readied hy hst ht.ready with hq | hd
    · exact .of_queue hq
    · obtain ⟨b, hb⟩ := (hreg.waitFor.blocked t).1 hst
      have hmem : t ∈ s'.threads := by
        rw [hexec.threads_eq]
        exact (hreg.sound.known.blocking hb).1
      have hdis := hreg'.retired t hmem hd
      rw [ht.enabled] at hdis
      cases hdis

/-- The scheduler takes the bonus message of the winner only, which gets the processor or is
blocked. -/
theorem spared_yield (hc : Chained s) (hr : s.threadState t = .ready) (hy : s.yield lot = some s')
    (hcur : t ≠ s'.currentThread) : Spared s s' t := by
  obtain ⟨n, s₁, hsel, rfl⟩ := yield_eq_some hy
  have hcur : t ≠ n := hcur
  have hstarted : ∀ x : State, (x.switchTo n).started t = x.started t := fun x =>
    update_of_ne hcur _ _
  have hdrawn : ∀ {w s₁}, Drawn lot s w s₁ → t ≠ w → Spared s (s₁.switchTo n) t := by
    intro w s₁ hd htw
    cases hd with
    | bonus => exact ⟨id, update_of_ne htw _ _, hstarted _⟩
    | _ => exact ⟨id, rfl, hstarted _⟩
  cases hsel with
  | handoff => exact ⟨id, rfl, hstarted _⟩
  | winner _ hd => exact hdrawn hd hcur
  | @passed w _ _ _ hd hw =>
    refine hdrawn hd ?_
    rintro rfl
    -- a winner that is ready hands the processor to no other thread
    have hrd : s₁.threadState t = .ready := by
      cases hd <;> exact hr
    cases hb : s₁.blockingThread t with
    | none => exact hcur ((endsAt_of_findBlockingThread hw).eq_of_next_eq_none hb).symm
    | some b =>
      rw [((hc.drawn hd).blocked t).2 ⟨b, hb⟩] at hrd
      cases hrd

theorem threadState_yield (hy : s.yield lot = some s') : s'.threadState = s.threadState := by
  obtain ⟨_, _, _, _, _, rfl⟩ := yield_eq hy
  rfl

/-- When every thread that can run has a ticket or waits, then so it is for those that do not get
the processor. -/
theorem NotStranded.yield (h : ∀ t, Runnable s t → Supplied s t) (hc : Chained s)
    (hy : s.yield lot = some s') : NotStranded s' := by
  intro t ht hcur
  have hr : s.threadState t = .ready := threadState_yield hy ▸ ht.ready
  have hsp := spared_yield hc hr hy hcur
  have hen : s.mailboxEnabled t = true := (kept_yield hy).enabled ▸ ht.enabled
  exact (h _ ⟨hsp.started ▸ ht.started, hen, hr, ht.ne_null⟩).mono (by rw [yield_stack_eq hy])
    hsp.queue hsp.bonus

/-- A thread that gives up the processor and is not blocked waits for a message. -/
theorem Yielding.supplied (h : Yielding s) (hw : WaitFor s)
    (hs : s.stack s.currentThread = .yield :: rest) (hr : s.threadState s.currentThread = .ready) :
    Supplied (s.pop rest) s.currentThread := by
  have hb : s.blockingThread s.currentThread = none := by
    by_contra hb
    rw [(hw.blocked _).2 (Option.ne_none_iff_exists'.1 hb)] at hr
    cases hr
  have hcalm := h.calm hb s.currentThread
  rw [hs] at hcalm
  obtain ⟨r, hwaits, rfl⟩ := hcalm.1 rfl
  by_cases hq : s.messageQueue s.currentThread = []
  · exact .inr ⟨hq, r, hwaits, update_self _ _ _⟩
  · exact .of_queue hq

theorem ticketed_keepTicket (hen : s.mailboxEnabled s.currentThread = true)
    (hne : s.currentThread ≠ threadIdNull) : Ticketed s.keepTicket s.currentThread := by
  rw [keepTicket, if_neg hne, maybePutBonusMessage]
  split
  case isTrue =>
    refine .inr (.inl ?_)
    show update s.bonusMessage s.currentThread (some s.nextMessage) s.currentThread ≠ none
    simp
  case isFalse hneeds =>
    simp only [needsBonusMessage, hen, Bool.true_and, Bool.and_eq_true, List.isEmpty_iff,
      Option.isNone_iff_eq_none, not_and] at hneeds
    by_cases hq : s.messageQueue s.currentThread = []
    · exact .inr (.inl (hneeds hq))
    · exact .inl hq

theorem spared_keepTicket (ht : t ≠ s.currentThread) : Spared s s.keepTicket t :=
  keepTicket_cases (P := (Spared s · t)) (.of_eq rfl) fun _ => ⟨id, update_of_ne ht _ _, rfl⟩

theorem threadState_keepTicket (s : State) : s.keepTicket.threadState = s.threadState := by
  obtain ⟨_, _, _, _, _, _, hkeep⟩ := s.keepTicket_eq
  rw [hkeep]

theorem mailboxEnabled_keepTicket (s : State) : s.keepTicket.mailboxEnabled = s.mailboxEnabled := by
  obtain ⟨_, _, _, _, _, _, hkeep⟩ := s.keepTicket_eq
  rw [hkeep]

theorem NotStranded.keepTicket (h : NotStranded s) (ht : Runnable s.keepTicket t) :
    Supplied s.keepTicket t := by
  have hen : s.mailboxEnabled t = true := mailboxEnabled_keepTicket s ▸ ht.enabled
  by_cases hcur : t = s.currentThread
  · subst hcur
    exact .inl (ticketed_keepTicket hen ht.ne_null)
  · have hsp := spared_keepTicket hcur
    have hr : s.threadState t = .ready := threadState_keepTicket s ▸ ht.ready
    exact (h _ ⟨hsp.started ▸ ht.started, hen, hr, ht.ne_null⟩ hcur).mono
      (by rw [keepTicket_stack_eq]) hsp.queue hsp.bonus

/-- What decides whether a thread can run, and its messages. -/
def readiness (s : State) :=
  (s.messageQueue, s.bonusMessage, s.started, s.mailboxEnabled, s.threadState)

@[simp] theorem readiness_push (frames : List Frame) (s : State) :
    (s.push frames).readiness = s.readiness := rfl

@[simp] theorem readiness_addReference (t : ThreadId) (s : State) :
    (s.addReference t).readiness = s.readiness := rfl

@[simp] theorem readiness_allocateMessage (message : Message) (s : State) :
    (s.allocateMessage message).readiness = s.readiness := rfl

namespace NotStranded

theorem pushed (frames : List Frame) (h : NotStranded s) (hp : Pushed s frames s')
    (heq : s'.readiness = s.readiness) : NotStranded s' := by
  simp only [readiness, Prod.mk.injEq] at heq
  obtain ⟨hq, hb, hst, hen, hrd⟩ := heq
  intro t ht hcur
  have hcur : t ≠ s.currentThread := fun e => hcur (e.trans hp.2.symm)
  refine (h _ ⟨hst ▸ ht.started, hen ▸ ht.enabled, hrd ▸ ht.ready, ht.ne_null⟩ hcur).mono ?_
    (fun hne => hq ▸ hne) (by rw [hb])
  rw [hp.1, update_of_ne hcur]

theorem createThread {mask : ℕ} (h : NotStranded s) : NotStranded (s.createThread t mask) := by
  intro u hu hcur
  have hne : u ≠ t := by
    rintro rfl
    have hst : update s.started u false u = true := hu.started
    simp at hst
  have hrun : Runnable s u := by
    refine ⟨?_, ?_, ?_, hu.ne_null⟩
    · have hst : update s.started t false u = true := hu.started
      rwa [update_of_ne hne] at hst
    · have hen : update s.mailboxEnabled t true u = true := hu.enabled
      rwa [update_of_ne hne] at hen
    · have hr : update s.threadState t .ready u = .ready := hu.ready
      rwa [update_of_ne hne] at hr
  refine (h u hrun hcur).mono (update_of_ne hne _ _) (fun hq => ?_)
    (update_of_ne hne _ _)
  show update s.messageQueue t [] u ≠ []
  rwa [update_of_ne hne]

theorem called (h : NotStranded s) (hc : Called s c s') : NotStranded s' := by
  cases hc with
  | failed => exact h
  | send | sendAndReceive => exact h.pushed _ (pushed_allocatePush _ _ _).of_addReference (by simp)
  | receive => exact h.pushed _ (pushed_push _ _) (by simp)
  | delete => exact h.pushed _ (pushed_allocatePush _ _ _) (by simp)
  | create => exact pushed _ h.createThread (pushed_push _ _) (by simp)
  | register => exact fun _ ht hcur => h _ ⟨ht.started, ht.enabled, ht.ready, ht.ne_null⟩ hcur

theorem step (h : NotStranded s) (hreg : Regular s) (hyd : Yielding s)
    (hs : Stepped s a s') : NotStranded s' := by
  have hreg' := hreg.step hs
  cases hs with
  | @run o f rest _ hstack hexec =>
    by_cases hy : f = .yield
    · subst hy
      cases hexec with
      | yield hy =>
        refine yield (fun t ht => ?_) (hreg.waitFor.toChained.pop hstack) hy
        by_cases hcur : t = s.currentThread
        · subst hcur
          exact hyd.supplied hreg.waitFor hstack ht.ready
        · have hsup := h _ ⟨ht.started, ht.enabled, ht.ready, ht.ne_null⟩ hcur
          exact hsup.mono (update_of_ne hcur _ _) id rfl
    · exact h.executed hreg hreg' hy hexec
  | call _ _ _ hc => exact h.called hc
  | cleanupLoop | nullLoop => exact h.pushed _ (pushed_push _ _) (by simp)
  | tick => exact fun _ ht hcur => h _ ⟨ht.started, ht.enabled, ht.ready, ht.ne_null⟩ hcur
  | quantum hi _ hy =>
    have htick : NotStranded s.tick := fun _ ht hcur =>
      h _ ⟨ht.started, ht.enabled, ht.ready, ht.ne_null⟩ hcur
    have hset : Settled s.tick := (hreg.waitFor.settled hi).congr rfl rfl
    exact yield (fun _ ht => htick.keepTicket ht) hset.keepTicket.toChained hy
  | @device irq =>
    have hoff : NotStranded { s with
        interruptsEnabled := update s.interruptsEnabled s.currentThread false } :=
      fun _ ht hcur => h _ ⟨ht.started, ht.enabled, ht.ready, ht.ne_null⟩ hcur
    exact hoff.pushed _ (pushed_push _ _) (by simp)

end NotStranded

theorem Ticketed.mem_threads (h : Ticketed s t) (hk : Known s) : t ∈ s.threads := by
  by_contra ht
  have hidle := hk.idle ht
  rcases h with hq | hb | ⟨m, r, hf⟩
  · exact hq hidle.queue
  · exact hb hidle.bonus
  · rw [hidle.stack] at hf
    cases hf

theorem Ticketed.called (h : Ticketed s t) (hk : Known s) (hcur : t ≠ s.currentThread)
    (hc : Called s c s') : Ticketed s' t := by
  have hpush : ∀ {frames} {x y : State}, Ticketed x t → Pushed x frames y →
      x.currentThread = s.currentThread → y.readiness = x.readiness → Ticketed y t := by
    intro frames x y hx hp hxc heq
    simp only [readiness, Prod.mk.injEq] at heq
    refine hx.mono ?_ (fun hne => heq.1 ▸ hne) (by rw [heq.2.1])
    rw [hp.1, update_of_ne (hxc ▸ hcur)]
  cases hc with
  | failed => exact h
  | send | sendAndReceive => exact hpush h (pushed_allocatePush _ _ _).of_addReference rfl (by simp)
  | receive => exact hpush h (pushed_push _ _) rfl (by simp)
  | delete => exact hpush h (pushed_allocatePush _ _ _) rfl (by simp)
  | @create u mask hnew =>
    have hne : t ≠ u := fun e => hnew (e ▸ h.mem_threads hk)
    have hcreate : Ticketed (s.createThread u mask) t := by
      refine h.mono (update_of_ne hne _ _) (fun hq => ?_) (update_of_ne hne _ _)
      show update s.messageQueue u [] t ≠ []
      rwa [update_of_ne hne]
    exact hpush hcreate (pushed_push _ _) rfl (by simp)
  | register => exact h.mono rfl id rfl

/-- A thread that has a ticket keeps one until it gets the processor or is deleted. -/
theorem Ticketed.step (h : Ticketed s t) (hreg : Regular s) (hs : Stepped s a s')
    (hr : s.threadState t = .ready) (hcur : t ≠ s.currentThread) (hcur' : t ≠ s'.currentThread)
    (hen : s'.mailboxEnabled t = true) : Ticketed s' t := by
  cases hs with
  | @run o f rest _ hstack hexec =>
    have hpop : Ticketed (s.pop rest) t := h.mono (update_of_ne hcur _ _) id rfl
    by_cases hy : f = .yield
    · subst hy
      cases hexec with
      | yield hy =>
        have hsp := spared_yield (hreg.waitFor.toChained.pop hstack) hr hy hcur'
        exact hpop.mono (by rw [yield_stack_eq hy]) hsp.queue hsp.bonus
    · obtain ⟨frames, -, hp⟩ := hexec.expands hy
      have hsp := hexec.spared hy hcur hen
      exact h.mono (by rw [hp.stack_of_pop, update_of_ne hcur]) hsp.queue hsp.bonus
  | call _ _ _ hc => exact h.called hreg.sound.known hcur hc
  | cleanupLoop | nullLoop | device => exact h.mono (update_of_ne hcur _ _) id rfl
  | tick => exact h.mono rfl id rfl
  | quantum hi _ hy =>
    have hset : Settled s.tick := (hreg.waitFor.settled hi).congr rfl rfl
    have htick : Ticketed s.tick t := h.mono rfl id rfl
    have hkeep := spared_keepTicket (s := s.tick) hcur
    have hsp := spared_yield hset.keepTicket.toChained (by rw [threadState_keepTicket]; exact hr) hy
      hcur'
    exact (htick.mono (by rw [keepTicket_stack_eq]) hkeep.queue hkeep.bonus).mono
      (by rw [yield_stack_eq hy]) hsp.queue hsp.bonus

end

end State

end Dx.Kernel
