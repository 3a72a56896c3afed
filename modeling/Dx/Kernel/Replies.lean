import Dx.Kernel.Mailbox

/-!
# A reply answers its request

`send_message` blocks its thread on the recipient of the request, yields, and then takes a message
from its own mailbox: that this is the reply is nowhere checked. It is, because the reply was put
at the head of the mailbox and every message after it goes to the tail, or is the reply of a
request that an interrupt made in between and that is taken before. So the head of a mailbox
mirrors the stack of its thread: the replies a thread is still to take are at the head of its
mailbox, innermost first (`Awaiting`); the one it is blocked for is still missing.
-/

namespace Dx.Kernel

open Library Function List

/-- The message is the reply of `a.1` to the request `a.2`. -/
def Message.Answers (m : Message) (a : ThreadId × ℕ) : Prop := m.source = a.1 ∧ m.id = a.2

theorem Message.Answers.congr {m m' : Message} {a : ThreadId × ℕ} (h : m.Answers a)
    (hm : m'.header = m.header) : m'.Answers a := by
  obtain ⟨hsource, -, -, hid, -⟩ := Message.eq_of_header hm
  exact ⟨hsource.trans h.1, hid.trans h.2⟩

/-- The first messages of the mailbox are the replies that are awaited. -/
def Matches (message : MessageRef → Message) : List (ThreadId × ℕ) → List MessageRef → Prop
  | [], _ => True
  | _ :: _, [] => False
  | a :: as, m :: queue => (message m).Answers a ∧ Matches message as queue

variable {message : MessageRef → Message} {f : Frame}

theorem Matches.append {message' : MessageRef → Message} {as : List (ThreadId × ℕ)}
    {queue : List MessageRef} (l : List MessageRef) (h : Matches message as queue)
    (hm : ∀ m ∈ queue, (message' m).header = (message m).header) :
    Matches message' as (queue ++ l) := by
  induction as generalizing queue with
  | nil => trivial
  | cons a as ih =>
    cases queue with
    | nil => exact h.elim
    | cons m queue =>
      rw [forall_mem_cons] at hm
      exact ⟨h.1.congr hm.1, ih h.2 hm.2⟩

/-- What a frame relies on that carries a reply. -/
def Frame.Returns (message : MessageRef → Message) : Frame → Prop
  | .removePending m (.reply recipient requestId) => (message m).Answers (recipient, requestId)
  | .deliverPayload m (.reply recipient requestId) => (message m).Answers (recipient, requestId)
  | .returnReply recipient requestId m => (message m).Answers (recipient, requestId)
  | _ => True

theorem Frame.Returns.congr {message' : MessageRef → Message} (h : f.Returns message)
    (hm : ∀ m b, (m, b) ∈ f.carries →
      (message' m).header = (message m).header) : f.Returns message' := by
  cases f with
  | removePending m r =>
    cases r with
    | reply => exact Message.Answers.congr h (hm m true (mem_singleton.2 rfl))
    | _ => trivial
  | deliverPayload m r =>
    cases r with
    | reply => exact Message.Answers.congr h (hm m false (mem_singleton.2 rfl))
    | _ => trivial
  | returnReply recipient requestId m =>
    exact Message.Answers.congr h (hm m false (mem_singleton.2 rfl))
  | _ => trivial

theorem Frame.Returns.of_isPlain (hf : f.isPlain = true) : f.Returns message := by
  cases f <;> trivial

theorem Frame.Returns.of_isEntry (hf : f.isEntry = true) : f.Returns message := by
  cases f <;> trivial

/-- A reply is passed on: only taking it from the mailbox and making it up start it off. -/
theorem Frame.Expands.returns {frames : List Frame} (he : f.Expands frames) (hf : f.Returns message)
    (hget : ∀ r, f ≠ .getMessage r)
    (habort : ∀ recipient requestId status, f ≠ .abortSendMessage recipient requestId status) :
    ∀ g ∈ frames, g.Returns message := by
  cases he with
  | plain hp => exact fun g hg => .of_isPlain (hp g hg)
  | request hp =>
    simp only [forall_mem_cons]
    exact ⟨trivial, trivial, trivial, fun g hg => .of_isPlain (hp g hg)⟩
  | refused hp hp' =>
    exact forall_mem_append.2 ⟨fun g hg => .of_isPlain (hp g hg),
      forall_mem_cons.2 ⟨trivial, fun g hg => .of_isPlain (hp' g hg)⟩⟩
  | get | wait | giveUp => exact absurd rfl (hget _)
  | makeUp => exact absurd rfl (habort _ _ _)
  | @remove m r =>
    refine forall_mem_singleton.2 ?_
    cases r <;> exact hf
  | answer => exact forall_mem_cons.2 ⟨trivial, forall_mem_singleton.2 hf⟩
  | fail hp | abort hp =>
    refine forall_mem_append.2 ⟨fun g hg => .of_isPlain (hp g hg), ?_⟩
    exact forall_mem_cons.2 ⟨trivial, forall_mem_singleton.2 trivial⟩
  | _ => simp [Frame.Returns]

namespace State

/-- The mailbox of `t` begins with the replies `t` is still to take; if `t` is blocked, the first
of them has not arrived. -/
def Awaiting (s : State) (t : ThreadId) : Prop :=
  match s.blockingThread t with
  | none => Matches s.message (awaited (s.stack t)) (s.messageQueue t)
  | some recipient => ∃ as, awaited (s.stack t) = (recipient, s.blockingMessageId t) :: as ∧
      Matches s.message as (s.messageQueue t)

/-- Mailboxes and stacks mirror each other. -/
structure Replying (s : State) : Prop where
  /-- The mailboxes, unless they are disabled. -/
  mailbox : ∀ {t}, s.mailboxEnabled t = true → Awaiting s t
  /-- The replies that have been taken. -/
  frame : ∀ {t f}, f ∈ s.stack t → f.Returns s.message

section

variable {s s' : State} {t u : ThreadId} {m : MessageRef} {rest : List Frame} {a : Action}

theorem awaiting_of_none (hb : s.blockingThread t = none) :
    Awaiting s t ↔ Matches s.message (awaited (s.stack t)) (s.messageQueue t) := by
  rw [Awaiting, hb]

theorem awaiting_of_some {b : ThreadId} (hb : s.blockingThread t = some b) :
    Awaiting s t ↔ ∃ as, awaited (s.stack t) = (b, s.blockingMessageId t) :: as ∧
      Matches s.message as (s.messageQueue t) := by
  rw [Awaiting, hb]

theorem Awaiting.congr (h : Awaiting s t) (l : List MessageRef)
    (hb : s'.blockingThread t = s.blockingThread t)
    (hid : s'.blockingMessageId t = s.blockingMessageId t)
    (ha : awaited (s'.stack t) = awaited (s.stack t))
    (hq : s'.messageQueue t = s.messageQueue t ++ l)
    (hm : ∀ m ∈ s.messageQueue t, (s'.message m).header = (s.message m).header) :
    Awaiting s' t := by
  cases hs : s.blockingThread t with
  | none =>
    rw [awaiting_of_none hs] at h
    rw [awaiting_of_none (hb.trans hs), ha, hq]
    exact h.append l hm
  | some b =>
    obtain ⟨as, has, h⟩ := (awaiting_of_some hs).1 h
    refine (awaiting_of_some (hb.trans hs)).2 ⟨as, ?_, ?_⟩
    · rw [ha, has, hid]
    · rw [hq]
      exact h.append l hm

theorem awaiting_of_not_mem (hk : Known s) (ht : t ∉ s.threads) : Awaiting s t := by
  have hb : s.blockingThread t = none :=
    Option.eq_none_iff_forall_ne_some.2 fun _ hb => ht (hk.blocking hb).1
  rw [awaiting_of_none hb, (hk.idle ht).stack]
  trivial

theorem Replying.quiet (h : Replying s) (hreg : Regular s) (hq : Quiet s s')
    (ha : ∀ t, awaited (s'.stack t) = awaited (s.stack t)) (ht : s'.mailboxEnabled t = true) :
    Awaiting s' t := by
  have hat : Awaiting s t := by
    by_cases hmem : t ∈ s.threads
    · exact h.mailbox (by rw [← hq.enabled hmem]; exact ht)
    · exact awaiting_of_not_mem hreg.sound.known hmem
  refine hat.congr [] (by rw [hq.waits]) (by rw [hq.request]) (ha t) (by simp [hq.queue]) ?_
  exact fun m hm => by rw [hq.message (hreg.sound.owners.lt_queue hm)]

/-- The reply a thread is blocked for arrives: it goes before those the thread is to take later. -/
theorem Awaiting.woken (h : Awaiting s t) (hs : s.stack s.currentThread = .putMessage m :: rest)
    (hun : s.unblocks (s.message m).destination m = true) :
    Awaiting ((s.pop rest).answered m) t := by
  simp only [unblocks, Bool.and_eq_true, beq_iff_eq] at hun
  obtain ⟨⟨-, hb⟩, hid⟩ := hun
  have ha := awaited_pop hs rfl (awaited_nil) t
  rw [nil_append] at ha
  by_cases ht : t = (s.message m).destination
  · obtain ⟨as, has, hmatch⟩ := (awaiting_of_some (ht ▸ hb)).1 h
    have hnone : ((s.pop rest).answered m).blockingThread t = none := by
      show update s.blockingThread (s.message m).destination none t = none
      rw [ht, update_self]
    have hqueue : ((s.pop rest).answered m).messageQueue t = m :: s.messageQueue t := by
      show update s.messageQueue (s.message m).destination _ t = _
      rw [ht, update_self]
      rfl
    have hstack : awaited (((s.pop rest).answered m).stack t) =
        ((s.message m).source, s.blockingMessageId t) :: as := ha.trans has
    rw [awaiting_of_none hnone, hqueue, hstack]
    exact ⟨⟨rfl, by rw [ht]; exact hid.symm⟩, hmatch⟩
  · exact h.congr [] (update_of_ne ht _ _) rfl ha
      ((update_of_ne ht _ _).trans (append_nil _).symm) fun _ _ => rfl

theorem Awaiting.queued (h : Awaiting s t) (hs : s.stack s.currentThread = .putMessage m :: rest) :
    Awaiting ((s.pop rest).enqueued m) t := by
  have ha := awaited_pop hs rfl (awaited_nil) t
  rw [nil_append] at ha
  by_cases ht : t = (s.message m).destination
  · refine h.congr [m] rfl rfl ha ?_ fun _ _ => rfl
    show update s.messageQueue (s.message m).destination _ t = _
    rw [ht, update_self]
    rfl
  · exact h.congr [] rfl rfl ha ((update_of_ne ht _ _).trans (append_nil _).symm)
      fun _ _ => rfl

theorem Awaiting.requested {recipient : ThreadId} {requestId : ℕ} {interrupts deletes : Bool}
    (h : Awaiting s t)
    (hs : s.stack s.currentThread = .putRequest m recipient requestId interrupts deletes :: rest)
    (hrun : s.blockingThread s.currentThread = none)
    (hfits : (s.message m).destination = recipient ∧ (s.message m).id = requestId)
    (hne : (s.message m).destination ≠ s.currentThread) :
    Awaiting (((s.pop rest).requested m).push
      [.yield, .restoreInterrupts interrupts, .getMessage (.reply recipient requestId)]) t := by
  have hstack : ∀ frames, (((s.pop rest).requested m).push frames).stack =
      update s.stack s.currentThread (frames ++ rest) := fun frames =>
    Pushed.stack_of_pop ⟨rfl, rfl⟩
  by_cases ht : t = s.currentThread
  · rw [ht, awaiting_of_none hrun, hs, awaited_cons] at h
    have hb : (((s.pop rest).requested m).push [.yield, .restoreInterrupts interrupts,
        .getMessage (.reply recipient requestId)]).blockingThread t = some recipient := by
      show update s.blockingThread s.currentThread (some (s.message m).destination) t = _
      rw [ht, update_self, hfits.1]
    refine (awaiting_of_some hb).2 ⟨awaited rest, ?_, ?_⟩
    · rw [hstack, ht, update_self]
      show (recipient, requestId) :: awaited rest =
        (recipient, update s.blockingMessageId s.currentThread (s.message m).id
          s.currentThread) :: awaited rest
      rw [update_self, hfits.2]
    · show Matches s.message (awaited rest)
        (update s.messageQueue (s.message m).destination _ t)
      rw [ht, update_of_ne hne.symm]
      exact h
  · have ha : ∀ frames, awaited ((((s.pop rest).requested m).push frames).stack t) =
        awaited (s.stack t) := fun frames => by rw [hstack, update_of_ne ht]
    by_cases hdest : t = (s.message m).destination
    · refine h.congr [m] (update_of_ne ht _ _) (update_of_ne ht _ _) (ha _) ?_
        fun _ _ => rfl
      show update s.messageQueue (s.message m).destination _ t = _
      rw [hdest, update_self]
      rfl
    · exact h.congr [] (update_of_ne ht _ _) (update_of_ne ht _ _) (ha _)
        ((update_of_ne hdest _ _).trans (append_nil _).symm) fun _ _ => rfl

theorem Awaiting.taken {r : Reception} {queue : List MessageRef} (h : Awaiting s s.currentThread)
    (hs : s.stack s.currentThread = .getMessage r :: rest)
    (hw : WellStacked (.getMessage r :: rest)) (hrun : s.blockingThread s.currentThread = none)
    (hq : s.messageQueue s.currentThread = m :: queue) :
    Matches s.message (awaited rest) queue ∧
      ∀ recipient requestId, r = .reply recipient requestId →
        (s.message m).Answers (recipient, requestId) := by
  rw [awaiting_of_none hrun, hs, hq] at h
  cases r with
  | reply recipient requestId =>
    refine ⟨h.2, ?_⟩
    rintro _ _ ⟨⟩
    exact h.1
  | receive wait | cleanup =>
    obtain rfl := hw.1 rfl
    exact ⟨trivial, fun _ _ he => by cases he⟩

/-- A reference is dropped; a thread that is destroyed by that has a disabled mailbox. -/
theorem Awaiting.dropped (h : Awaiting s t)
    (hs : s.stack s.currentThread = .dropReference u :: rest)
    (ht : ((s.pop rest).removeReference u).destroyed t = true → t ∉ s.threads) (hk : Known s) :
    Awaiting ((s.pop rest).removeReference u) t := by
  obtain ⟨frames, hplain, hp⟩ := pushed_removeReference u (s.pop rest)
  have ha : awaited (((s.pop rest).removeReference u).stack t) = awaited (s.stack t) := by
    rw [hp.stack_of_pop]
    exact awaited_pop hs rfl (awaited_eq_nil hplain) t
  have hb : ((s.pop rest).removeReference u).blockingThread t = s.blockingThread t := by
    rw [removeReference] at ht ⊢
    split
    case isFalse => rfl
    case isTrue hzero =>
      rw [if_pos hzero] at ht
      show update s.blockingThread u none t = _
      by_cases htu : t = u
      · have hmem := ht (by rw [htu]; exact update_self u true s.destroyed)
        rw [htu, update_self]
        exact (Option.eq_none_iff_forall_ne_some.2 fun _ hb => hmem (htu ▸ (hk.blocking hb).1)).symm
      · exact update_of_ne htu _ _
  obtain ⟨_, _, _, _, _, _, hr⟩ := removeReference_eq u (s.pop rest)
  refine h.congr [] hb (by rw [hr]; rfl) ha (by rw [hr]; exact (append_nil _).symm) fun m _ => ?_
  rw [hr]
  rfl

/-- The mailboxes mirror the stacks after every step. -/
theorem Replying.awaiting_step (h : Replying s) (hreg : Regular s) (hreg' : Regular s')
    (hmail : Mail s s') (ht : s'.mailboxEnabled t = true) : Awaiting s' t := by
  have hrun : ∀ {f rest}, s.stack s.currentThread = f :: rest → f ≠ .yield →
      s.blockingThread s.currentThread = none := fun hs hf => (hreg.waitFor.pop hs hf).running
  cases hmail with
  | quiet hq ha => exact h.quiet hreg hq ha ht
  | @sent m deletes rest hs =>
    have hat : Awaiting s t := h.mailbox ht
    refine hat.congr [] rfl rfl ?_ (append_nil _).symm fun x _ =>
      header_sendMessage m x deletes (s.pop rest)
    have hp : Pushed (s.pop rest) [.putRequest m _ _ _ deletes] ((s.pop rest).sendMessage m deletes) :=
      ⟨rfl, rfl⟩
    rw [hp.stack_of_pop]
    exact awaited_pop hs rfl rfl t
  | @gaveUp recipient requestId rest hs hq =>
    have hat : Awaiting s t := h.mailbox ht
    by_cases hcur : t = s.currentThread
    · -- the mailbox of a thread that is not blocked has the reply
      rw [hcur, awaiting_of_none (hrun hs (by simp)), hs, hq] at hat
      exact hat.elim
    · refine hat.congr [] rfl rfl ?_ (append_nil _).symm fun _ _ => rfl
      have hp : Pushed (s.pop rest) [.abortSendMessage recipient requestId .mailboxEmpty]
        ((s.pop rest).push [.abortSendMessage recipient requestId .mailboxEmpty]) := ⟨rfl, rfl⟩
      rw [hp.stack_of_pop, update_of_ne hcur]
  | woken hs _ hun =>
    have hat : Awaiting s t := h.mailbox ht
    exact hat.woken hs hun
  | queued hs =>
    have hat : Awaiting s t := h.mailbox ht
    exact hat.queued hs
  | requested hs _ hne =>
    have hat : Awaiting s t := h.mailbox ht
    have hfits := hreg.sound.addressed.frame (hs ▸ mem_cons_self)
    exact hat.requested hs (hrun hs (by simp)) ⟨hfits.2.1, hfits.2.2.1⟩ hne
  | @taken r m queue rest hs hq =>
    have hat : Awaiting s t := h.mailbox ht
    have hp : Pushed (s.pop rest) [.removePending m r]
      (((s.pop rest).popMessage m queue).push [.removePending m r]) := ⟨rfl, rfl⟩
    by_cases hcur : t = s.currentThread
    · subst hcur
      have hw : WellStacked (.getMessage r :: rest) := hs ▸ hreg.stacked.well s.currentThread
      have hnone := hrun hs (by simp)
      have hnone' : (((s.pop rest).popMessage m queue).push
        [.removePending m r]).blockingThread s.currentThread = none := hnone
      rw [awaiting_of_none hnone', hp.stack_of_pop, update_self]
      show Matches s.message (awaited rest) (update s.messageQueue s.currentThread queue _)
      rw [update_self]
      exact (hat.taken hs hw hnone hq).1
    · refine hat.congr [] rfl rfl ?_ ((update_of_ne hcur _ _).trans
        (append_nil _).symm) fun _ _ => rfl
      rw [hp.stack_of_pop, update_of_ne hcur]
  | @marked v a rest hs =>
    have hne : t ≠ v := by
      rintro rfl
      have ht : update s.mailboxEnabled t false t = true := ht
      simp at ht
    have hen : update s.mailboxEnabled v false t = true := ht
    rw [update_of_ne hne] at hen
    refine (h.mailbox hen).congr [] rfl rfl ?_ ((update_of_ne hne _ _).trans
      (append_nil _).symm) fun _ _ => rfl
    have hp : Pushed (s.pop rest) [.unlinkMessages (s.leftoverMessages v)]
      (((s.pop rest).markForDeletion v a).push [.unlinkMessages (s.leftoverMessages v)]) := ⟨rfl, rfl⟩
    rw [hp.stack_of_pop]
    exact awaited_pop hs rfl rfl t
  | @dropped u rest hs =>
    have hkept := kept_removeReference u (s.pop rest)
    have hen : s.mailboxEnabled t = true := by
      rw [hkept.enabled] at ht
      exact ht
    refine (h.mailbox hen).dropped hs (fun hd hmem => ?_) hreg.sound.known
    have hdis := hreg'.retired t (by rw [hkept.threads]; exact hmem) hd
    rw [ht] at hdis
    cases hdis

/-- A reply that is taken from the mailbox answers the request, and so does one that is made up. -/
theorem Replying.frame_step {g : Frame} (h : Replying s) (hreg : Regular s) (hs : Stepped s a s')
    (hg : g ∈ s'.stack t) : g.Returns s'.message := by
  have hmail := hs.mail hreg
  have hold : ∀ {t g}, g ∈ s.stack t → ∀ m b, (m, b) ∈ g.carries →
      (s'.message m).header = (s.message m).header := fun hmem m b hm =>
    hmail.header (hreg.sound.owners.lt_stack hmem hm)
  rcases hs.mem_stack hreg.sound.known hg with hmem | ⟨-, hentry | hexec⟩
  · exact (h.frame hmem).congr (hold hmem)
  · exact .of_isEntry hentry
  obtain ⟨o, f, rest, frames, -, hstack, hy, hexec, he, hp, hg⟩ := hexec
  have hf : f ∈ s.stack s.currentThread := hstack ▸ mem_cons_self
  cases f with
  | getMessage r =>
    cases hexec with
    | @get _ m queue hq =>
      have hget : Pushed (s.pop rest) [.removePending m r]
        (((s.pop rest).popMessage m queue).push [.removePending m r]) := ⟨rfl, rfl⟩
      obtain rfl := hp.unique hget
      obtain rfl := mem_singleton.1 hg
      have hen : s.mailboxEnabled s.currentThread = true := by
        by_contra hdis
        have hempty := (hreg.sound.addressed.closed (by simpa using hdis)).1
        cases hempty.symm.trans hq
      have hw : WellStacked (.getMessage r :: rest) := hstack ▸ hreg.stacked.well s.currentThread
      have hans := ((h.mailbox hen).taken hstack hw (hreg.waitFor.pop hstack hy).running hq).2
      cases r with
      | reply recipient requestId => exact hans recipient requestId rfl
      | _ => trivial
    | wait =>
      obtain rfl := hp.unique (pushed_push _ _)
      simp only [mem_cons, not_mem_nil, or_false] at hg
      rcases hg with rfl | rfl <;> trivial
    | empty =>
      obtain rfl := hp.unique (.of_eq rfl rfl)
      cases hg
    | noReply =>
      obtain rfl := hp.unique (pushed_push _ _)
      obtain rfl := mem_singleton.1 hg
      trivial
  | abortSendMessage recipient requestId status =>
    cases hexec with
    | abortSend =>
      obtain rfl := hp.unique (pushed_allocatePush _ _ _)
      simp only [mem_cons, not_mem_nil, or_false] at hg
      rcases hg with rfl | rfl
      · trivial
      · show Message.Answers (((s.pop rest).allocateMessage _).message (s.pop rest).nextMessage) _
        rw [message_allocateMessage]
        exact ⟨rfl, rfl⟩
  | _ => exact he.returns ((h.frame hf).congr (hold hf)) (by simp) (by simp) g hg

theorem Replying.step (h : Replying s) (hreg : Regular s) (hs : Stepped s a s') : Replying s' where
  mailbox := fun ht => h.awaiting_step hreg (hreg.step hs) (hs.mail hreg) ht
  frame := fun hg => h.frame_step hreg hs hg

theorem replying_initial : Replying initial where
  mailbox := fun _ => trivial
  frame := by simp [initial]

/-- **A reply answers its request.** In every state the machine gets to, a request that is being
put is one of the thread that puts it, to the recipient and with the id `send_message` keeps for
it; and the message `send_message` returns for a request comes from that recipient and has that
id. -/
theorem send_message_returns_reply (h : Reachable s) :
    (∀ t m recipient requestId interrupts deletes,
      .putRequest m recipient requestId interrupts deletes ∈ s.stack t →
        (s.message m).source = t ∧ (s.message m).destination = recipient ∧
          (s.message m).id = requestId) ∧
      ∀ t m recipient requestId, .returnReply recipient requestId m ∈ s.stack t →
        (s.message m).source = recipient ∧ (s.message m).id = requestId := by
  obtain ⟨hreg, hr⟩ := h.invariant (I := fun s => Regular s ∧ Replying s)
    ⟨regular_initial, replying_initial⟩ fun hx _ hs =>
      ⟨hx.1.step (stepped_of_step hs), hx.2.step hx.1 (stepped_of_step hs)⟩
  refine ⟨fun t m recipient requestId interrupts deletes hf => ?_, fun t m recipient requestId hf => ?_⟩
  · obtain ⟨hsource, hdest, hid, -⟩ := hreg.sound.addressed.frame hf
    exact ⟨hsource, hdest, hid⟩
  · exact hr.frame hf

/-- Thread 2 handles interrupt 1. The boot thread sends a request to thread 1, which replies; then
the boot thread is interrupted before it takes the reply, and sends a request to thread 2. -/
def nestedSend : List Action :=
  let runs (n : ℕ) : List Action := List.replicate n (.run ⟨.success, 0, 0⟩)
  List.flatten
    [[.call (.createThread 1 capabilityAll)], runs 1, [.call (.createThread 2 capabilityAll)],
      runs 1, [.call (.sendAndReceiveMessage 2 5 3 0 true)], runs 3,
      [.call (.registerInterruptHandler 1), .call (.receiveMessage true)], runs 6,
      [.call (.sendMessage threadIdBoot 5 3 0 true)], runs 2, [.call (.receiveMessage true)],
      runs 12, [.call (.sendAndReceiveMessage 1 5 7 0 true)], runs 3,
      [.call (.receiveMessage true)], runs 6, [.call (.sendMessage threadIdBoot 5 7 0 true)], runs 2,
      [.call (.receiveMessage true)], runs 3, [.device 1], runs 10,
      [.call (.sendMessage threadIdBoot 5 0 0 true)], runs 2, [.call (.receiveMessage true)],
      runs 17]

/-- The reply of thread 1 is taken after that of thread 2. -/
theorem send_message_returns_reply_nestedSend :
    ∃ s m, runActions step initial nestedSend = some s ∧
      .returnReply 1 7 m ∈ s.stack threadIdBoot ∧ .taken 5 ∈ s.history ∧
      (s.message 5).source = 2 ∧ (s.message m).source = 1 ∧ (s.message m).id = 7 := by
  have heval : ∃ s ∈ runActions step initial nestedSend,
      .returnReply 1 7 3 ∈ s.stack threadIdBoot ∧ .taken 5 ∈ s.history ∧
      (s.message 5).source = 2 := by
    decide +kernel
  obtain ⟨s, hs, hreply, htaken, hsource⟩ := heval
  exact ⟨s, 3, hs, hreply, htaken, hsource,
    (send_message_returns_reply (run_of_runActions nestedSend hs)).2 _ _ _ _ hreply⟩

end

end State

end Dx.Kernel
