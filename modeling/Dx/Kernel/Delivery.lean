import Dx.Kernel.Unsent
import Dx.Library.Fifo

/-!
# Messages are delivered in order and once

The messages put at the tail of a mailbox leave it in the order they were put: they are taken by
the thread, or discarded when the thread is marked for deletion (`Delivered`). A message that has
been taken is received, or its payload cannot be delivered and the thread is told so; a discarded
message whose sender waits for a reply is answered once.
-/

namespace Dx.Kernel

open Library Function List

/-! ### The history -/

def Event.queued? : Event → Option MessageRef
  | .queued m => some m
  | _ => none

def Event.taken? : Event → Option MessageRef
  | .taken m => some m
  | _ => none

def Event.discarded? : Event → Option MessageRef
  | .discarded m => some m
  | _ => none

/-- The messages put at the tail of a mailbox, first one first. -/
def puts (history : List Event) : List MessageRef := history.filterMap Event.queued?

def takes (history : List Event) : List MessageRef := history.filterMap Event.taken?

def drops (history : List Event) : List MessageRef := history.filterMap Event.discarded?

@[simp] theorem puts_append (h h' : List Event) : puts (h ++ h') = puts h ++ puts h' :=
  filterMap_append

@[simp] theorem takes_append (h h' : List Event) : takes (h ++ h') = takes h ++ takes h' :=
  filterMap_append

@[simp] theorem drops_append (h h' : List Event) : drops (h ++ h') = drops h ++ drops h' :=
  filterMap_append

variable {h : List Event} {m : MessageRef}

section

variable (hh : ∀ e ∈ h, e.isMailbox = false)
include hh

theorem puts_eq_nil : puts h = [] := by
  refine filterMap_eq_nil_iff.2 fun e he => ?_
  have hm := hh e he
  cases e <;> first | rfl | cases hm

theorem takes_eq_nil : takes h = [] := by
  refine filterMap_eq_nil_iff.2 fun e he => ?_
  have hm := hh e he
  cases e <;> first | rfl | cases hm

theorem drops_eq_nil : drops h = [] := by
  refine filterMap_eq_nil_iff.2 fun e he => ?_
  have hm := hh e he
  cases e <;> first | rfl | cases hm

end

theorem puts_discarded (l : List MessageRef) : puts (l.map Event.discarded) = [] :=
  filterMap_eq_nil_iff.2 fun e he => by
    obtain ⟨m, -, rfl⟩ := mem_map.1 he
    rfl

theorem takes_discarded (l : List MessageRef) : takes (l.map Event.discarded) = [] :=
  filterMap_eq_nil_iff.2 fun e he => by
    obtain ⟨m, -, rfl⟩ := mem_map.1 he
    rfl

theorem drops_discarded (l : List MessageRef) : drops (l.map Event.discarded) = l := by
  rw [drops, filterMap_map]
  exact filterMap_some

theorem mem_logged {e : Event} (he : e ∈ h) (hm : e.isMailbox = true) : e.message ∈ logged h :=
  mem_map.2 ⟨e, mem_filter.2 ⟨he, hm⟩, rfl⟩

theorem mem_logged_of_mem_puts (hm : m ∈ puts h) : m ∈ logged h := by
  obtain ⟨e, he, hq⟩ := mem_filterMap.1 hm
  cases e <;> cases hq
  exact mem_logged he rfl

theorem mem_logged_of_mem_takes (hm : m ∈ takes h) : m ∈ logged h := by
  obtain ⟨e, he, hq⟩ := mem_filterMap.1 hm
  cases e <;> cases hq
  exact mem_logged he rfl

theorem mem_logged_of_mem_drops (hm : m ∈ drops h) : m ∈ logged h := by
  obtain ⟨e, he, hq⟩ := mem_filterMap.1 hm
  cases e <;> cases hq
  exact mem_logged he rfl

namespace State

/-- Those of the messages that are for thread `t`. -/
def toward (s : State) (t : ThreadId) (l : List MessageRef) : List MessageRef :=
  l.filter fun m => (s.message m).destination = t

/-- Every mailbox has kept the order of the messages put at its tail, and messages are only
discarded with the mailbox. -/
structure Delivered (s : State) : Prop where
  fifo : ∀ t, Fifo (s.toward t (puts s.history)) (s.toward t (takes s.history))
    (s.toward t (drops s.history)) (s.messageQueue t)
  closed : ∀ m ∈ drops s.history, s.mailboxEnabled (s.message m).destination = false

section

variable {s s' : State} {t u : ThreadId} {m : MessageRef} {l l' : List MessageRef}
  {rest : List Frame}

@[simp] theorem toward_append : s.toward t (l ++ l') = s.toward t l ++ s.toward t l' :=
  filter_append ..

theorem mem_toward : m ∈ s.toward t l ↔ m ∈ l ∧ (s.message m).destination = t := by
  simp [toward]

theorem toward_of_forall (h : ∀ m ∈ l, (s.message m).destination = t) : s.toward t l = l :=
  filter_eq_self.2 (by simpa using h)

theorem toward_eq_nil (h : ∀ m ∈ l, (s.message m).destination ≠ t) : s.toward t l = [] :=
  filter_eq_nil_iff.2 (by simpa using h)

theorem toward_congr (h : ∀ m ∈ l, (s'.message m).header = (s.message m).header) :
    s'.toward t l = s.toward t l :=
  filter_congr fun m hm => by rw [(Message.eq_of_header (h m hm)).2.1]

theorem Delivered.still (h : Delivered s)
    (hh : ∃ es, s'.history = s.history ++ es ∧ ∀ e ∈ es, e.isMailbox = false)
    (hq : s'.messageQueue = s.messageQueue)
    (hm : ∀ m ∈ logged s.history, (s'.message m).header = (s.message m).header)
    (he : ∀ m ∈ logged s.history, s'.mailboxEnabled (s.message m).destination =
      s.mailboxEnabled (s.message m).destination) : Delivered s' := by
  obtain ⟨es, hes, hnone⟩ := hh
  have hputs : puts s'.history = puts s.history := by
    rw [hes, puts_append, puts_eq_nil hnone, append_nil]
  have htakes : takes s'.history = takes s.history := by
    rw [hes, takes_append, takes_eq_nil hnone, append_nil]
  have hdrops : drops s'.history = drops s.history := by
    rw [hes, drops_append, drops_eq_nil hnone, append_nil]
  have hsame : ∀ {l}, (∀ m ∈ l, m ∈ logged s.history) → ∀ t, s'.toward t l = s.toward t l :=
    fun hl t => toward_congr fun m hx => hm m (hl m hx)
  refine ⟨fun t => ?_, fun m hx => ?_⟩
  · rw [hputs, htakes, hdrops, hsame (fun _ => mem_logged_of_mem_puts),
      hsame (fun _ => mem_logged_of_mem_takes), hsame (fun _ => mem_logged_of_mem_drops), hq]
    exact h.fifo t
  · rw [hdrops] at hx
    have hl := mem_logged_of_mem_drops hx
    rw [(Message.eq_of_header (hm m hl)).2.1, he m hl]
    exact h.closed m hx

theorem Delivered.put (h : Delivered s) (hm : m ∉ logged s.history)
    (hq : m ∉ s.messageQueue (s.message m).destination)
    (hs : (s'.history, s'.messageQueue, s'.message, s'.mailboxEnabled) =
      (s.history ++ [.queued m], update s.messageQueue (s.message m).destination
        (s.messageQueue (s.message m).destination ++ [m]), s.message, s.mailboxEnabled)) :
    Delivered s' := by
  simp only [Prod.mk.injEq] at hs
  obtain ⟨hh, hqueue, hmsg, he⟩ := hs
  have hputs : puts s'.history = puts s.history ++ [m] := by rw [hh, puts_append]; rfl
  have htakes : takes s'.history = takes s.history := by
    rw [hh, takes_append]; exact append_nil _
  have hdrops : drops s'.history = drops s.history := by
    rw [hh, drops_append]; exact append_nil _
  have hto : ∀ t l, s'.toward t l = s.toward t l := fun t l => by rw [toward, toward, hmsg]
  refine ⟨fun t => ?_, ?_⟩
  · rw [hputs, htakes, hdrops, hto, hto, hto, toward_append, hqueue]
    by_cases ht : t = (s.message m).destination
    · subst ht
      rw [update_self, toward_of_forall (l := [m]) (by simp)]
      exact (h.fifo _).put (fun hx => hm (mem_logged_of_mem_puts (mem_toward.1 hx).1))
        (fun hx => hm (mem_logged_of_mem_takes (mem_toward.1 hx).1))
        (fun hx => hm (mem_logged_of_mem_drops (mem_toward.1 hx).1)) hq
    · rw [update_of_ne ht, toward_eq_nil (l := [m]) (by simpa using Ne.symm ht), append_nil]
      exact h.fifo t
  · rw [hdrops, hmsg, he]
    exact h.closed

/-- A reply wakes its destination, and jumps the queue. -/
theorem Delivered.wake (h : Delivered s) (hm : m ∉ logged s.history) :
    Delivered ((s.pop rest).answered m) := by
  have hputs : puts (s.history ++ [.woke m]) = puts s.history := by
    rw [puts_append]; exact append_nil _
  have htakes : takes (s.history ++ [.woke m]) = takes s.history := by
    rw [takes_append]; exact append_nil _
  have hdrops : drops (s.history ++ [.woke m]) = drops s.history := by
    rw [drops_append]; exact append_nil _
  refine ⟨fun t => ?_, ?_⟩
  · show Fifo (s.toward t (puts (s.history ++ [.woke m])))
      (s.toward t (takes (s.history ++ [.woke m]))) (s.toward t (drops (s.history ++ [.woke m])))
      (update s.messageQueue (s.message m).destination _ t)
    rw [hputs, htakes, hdrops]
    by_cases ht : t = (s.message m).destination
    · subst ht
      rw [update_self]
      exact (h.fifo _).jump fun hx => hm (mem_logged_of_mem_puts (mem_toward.1 hx).1)
    · rw [update_of_ne ht]
      exact h.fifo t
  · show ∀ x ∈ drops (s.history ++ [.woke m]), s.mailboxEnabled (s.message x).destination = false
    rw [hdrops]
    exact h.closed

theorem Delivered.take {r : Reception} {queue : List MessageRef} (h : Delivered s)
    (haddr : Addressed s) (hq : s.messageQueue s.currentThread = m :: queue) :
    Delivered (((s.pop rest).popMessage m queue).push [.removePending m r]) := by
  have hdest : (s.message m).destination = s.currentThread := haddr.queue (hq ▸ mem_cons_self)
  have hputs : puts (s.history ++ [.taken m]) = puts s.history := by
    rw [puts_append]; exact append_nil _
  have htakes : takes (s.history ++ [.taken m]) = takes s.history ++ [m] := by
    rw [takes_append]; rfl
  have hdrops : drops (s.history ++ [.taken m]) = drops s.history := by
    rw [drops_append]; exact append_nil _
  -- a mailbox with a message in it is enabled, so nothing has been discarded from it
  have hnone : s.toward s.currentThread (drops s.history) = [] := by
    refine toward_eq_nil fun x hx he => ?_
    have hempty := (haddr.closed (he ▸ h.closed x hx)).1
    rw [hq] at hempty
    cases hempty
  refine ⟨fun t => ?_, ?_⟩
  · show Fifo (s.toward t (puts (s.history ++ [.taken m])))
      (s.toward t (takes (s.history ++ [.taken m]))) (s.toward t (drops (s.history ++ [.taken m])))
      (update s.messageQueue s.currentThread queue t)
    rw [hputs, htakes, hdrops, toward_append]
    by_cases ht : t = s.currentThread
    · subst ht
      have hfifo := h.fifo s.currentThread
      rw [update_self, toward_of_forall (l := [m]) (by simpa using hdest)]
      rw [hnone, hq] at hfifo
      rw [hnone]
      exact hfifo.take
    · have hnil : s.toward t [m] = [] := toward_eq_nil (by simpa [hdest] using Ne.symm ht)
      rw [update_of_ne ht, hnil, append_nil]
      exact h.fifo t
  · show ∀ x ∈ drops (s.history ++ [.taken m]), s.mailboxEnabled (s.message x).destination = false
    rw [hdrops]
    exact h.closed

/-- A thread is marked for deletion, and what is in its mailbox is discarded. -/
theorem Delivered.mark {v : ThreadId} {a : Option MessageRef} {frames : List Frame}
    (h : Delivered s) (haddr : Addressed s)
    (hbonus : ∀ b, s.bonusMessage v = some b → b ∉ logged s.history) :
    Delivered (((s.pop rest).markForDeletion v a).push frames) := by
  have hl : ∀ m ∈ s.leftoverMessages v, (s.message m).destination = v := by
    intro m hm
    rcases mem_append.1 hm with hm | hm
    · exact haddr.queue hm
    · exact haddr.bonus (Option.mem_toList.1 hm)
  have hputs : puts (s.history ++ (s.leftoverMessages v).map Event.discarded) = puts s.history := by
    rw [puts_append, puts_discarded, append_nil]
  have htakes : takes (s.history ++ (s.leftoverMessages v).map Event.discarded) =
      takes s.history := by
    rw [takes_append, takes_discarded, append_nil]
  have hdrops : drops (s.history ++ (s.leftoverMessages v).map Event.discarded) =
      drops s.history ++ s.leftoverMessages v := by
    rw [drops_append, drops_discarded]
  refine ⟨fun t => ?_, ?_⟩
  · show Fifo (s.toward t (puts (s.history ++ (s.leftoverMessages v).map Event.discarded)))
      (s.toward t (takes (s.history ++ (s.leftoverMessages v).map Event.discarded)))
      (s.toward t (drops (s.history ++ (s.leftoverMessages v).map Event.discarded)))
      (update s.messageQueue v [] t)
    rw [hputs, htakes, hdrops, toward_append]
    by_cases ht : t = v
    · subst ht
      rw [update_self, toward_of_forall hl]
      refine (h.fifo t).drain fun b hb hx => ?_
      exact hbonus b (Option.mem_toList.1 hb) (mem_logged_of_mem_puts (mem_toward.1 hx).1)
    · rw [update_of_ne ht, toward_eq_nil fun m hm he => ht (he.symm.trans (hl m hm)), append_nil]
      exact h.fifo t
  · show ∀ x ∈ drops (s.history ++ (s.leftoverMessages v).map Event.discarded),
      update s.mailboxEnabled v false (s.message x).destination = false
    rw [hdrops]
    intro x hx
    rw [update_apply]
    split
    · rfl
    case isFalse hne =>
      exact h.closed x ((mem_append.1 hx).resolve_right fun hm => hne (hl x hm))

theorem Delivered.step {a : Action} (h : Delivered s) (hfresh : Fresh s) (hreg : Regular s)
    (hs : Stepped s a s') : Delivered s' := by
  have hun : ∀ {f rest m}, s.stack s.currentThread = f :: rest → m ∈ f.unsent →
      m ∉ logged s.history ∧ ∀ t, m ∉ s.messageQueue t := by
    intro f rest m hstack hm
    have hunsent : Unsent [] s m := .inr (.inl ⟨s.currentThread, f, hstack ▸ mem_cons_self, hm⟩)
    exact ⟨fun hl => hfresh.sent m hl hunsent,
      fun t hq => hreg.sound.owners.not_unsent_of_queue hq hunsent⟩
  cases hs.mail hreg with
  | quiet hq =>
    refine h.still hq.events hq.queue (fun m hm => ?_) fun m hm => ?_
    · rw [hq.message (hfresh.lt m hm)]
    · exact hq.enabled (hreg.sound.known.message (hfresh.lt m hm)).2
  | @sent m deletes rest =>
    exact h.still ⟨[], (append_nil _).symm, by simp⟩ rfl
      (fun x _ => header_sendMessage m x deletes (s.pop rest)) fun _ _ => rfl
  | gaveUp =>
    exact h.still ⟨[], (append_nil _).symm, by simp⟩ rfl (fun _ _ => rfl) fun _ _ => rfl
  | @woken m rest hstack => exact h.wake (hun hstack (mem_singleton.2 rfl)).1
  | @queued m rest hstack | @requested m _ _ _ _ rest hstack =>
    obtain ⟨hl, hq⟩ := hun hstack (mem_singleton.2 rfl)
    exact h.put hl (hq _) rfl
  | taken _ hq => exact h.take hreg.sound.addressed hq
  | @marked v a rest =>
    refine h.mark hreg.sound.addressed fun b hb hl => ?_
    exact hfresh.sent b hl (.inr (.inr (.inr ⟨v, hb⟩)))
  | @dropped t rest =>
    obtain ⟨_, _, _, _, _, _, hr⟩ := removeReference_eq t (s.pop rest)
    rw [hr]
    exact h.still ⟨[], (append_nil _).symm, by simp⟩ rfl (fun _ _ => rfl) fun _ _ => rfl

/-- The events a frame may record. -/
def Logs (s : State) (es : List Event) : Frame → Prop
  | .putMessage m => es = [] ∨ es = [.queued m] ∨ es = [.woke m]
  | .putRequest m _ _ _ _ => es = [] ∨ es = [.queued m] ∨ es = [.woke m]
  | .getMessage _ => es = [] ∨ ∃ m queue, s.messageQueue s.currentThread = m :: queue ∧ es = [.taken m]
  | .deliverPayload m _ => es = [.received m] ∨ es = [.failed m]
  | .markForDeletion victim _ => es = (s.leftoverMessages victim).map Event.discarded
  | .abortMessages (m :: _) =>
    es = if (s.message m).blocking then [.aborted m s.nextMessage] else []
  | _ => es = []

@[simp] theorem history_push (frames : List Frame) (s : State) :
    (s.push frames).history = s.history := rfl

@[simp] theorem history_addReference (t : ThreadId) (s : State) :
    (s.addReference t).history = s.history := rfl

@[simp] theorem history_allocateMessage (message : Message) (s : State) :
    (s.allocateMessage message).history = s.history := rfl

@[simp] theorem history_killOnOverflow (status : Status) (t : ThreadId) (s : State) :
    (s.killOnOverflow status t).history = s.history := by
  rw [killOnOverflow]
  split <;> rfl

@[simp] theorem history_removeReference (t : ThreadId) (s : State) :
    (s.removeReference t).history = s.history := by
  obtain ⟨_, _, _, _, _, _, hr⟩ := removeReference_eq t s
  rw [hr]

theorem Put.logs {status : Status} (h : Put s m status s') : ∃ es, s'.history = s.history ++ es ∧
    (es = [] ∨ es = [.queued m] ∨ es = [.woke m]) := by
  have hblock : ∀ (t : ThreadId) (x : State), (x.blockOn t m).history = x.history := by
    intro t x
    obtain ⟨_, _, _, _, hb⟩ := blockOn_eq t m x
    rw [hb]
  cases h with
  | refused => exact ⟨[], (append_nil _).symm, .inl rfl⟩
  | woken =>
    refine ⟨[.woke m], (hblock _ _).trans ?_, .inr (.inr rfl)⟩
    obtain ⟨_, _, _, _, _, _, hu⟩ := unblock_eq (s.message m).destination m s
    rw [hu]
    rfl
  | queued => exact ⟨[.queued m], hblock _ _, .inr (.inl rfl)⟩

theorem history_deleteThread (m : MessageRef) (s : State) :
    (s.deleteThread m).history = s.history := by
  simp only [deleteThread, refuse]
  split
  · simp
  split
  · simp
  split <;> simp

theorem logs_abortMessages (l : List MessageRef) (s : State) :
    ∃ es, (s.abortMessages l).history = s.history ++ es ∧ s.Logs es (.abortMessages l) := by
  cases l with
  | nil => exact ⟨[], (append_nil _).symm, rfl⟩
  | cons m rest =>
    simp only [abortMessages]
    split
    case isTrue hb =>
      have hb : (s.message m).blocking = true := hb
      refine ⟨[.aborted m s.nextMessage], rfl, ?_⟩
      rw [Logs, if_pos hb]
    case isFalse hb =>
      have hb : ¬ (s.message m).blocking = true := hb
      refine ⟨[], (append_nil _).symm, ?_⟩
      rw [Logs, if_neg hb]

/-- **What a frame records** when it is executed. -/
theorem Executed.logs {o : Outcome} {f : Frame} (hexec : Executed s o f s') (hy : f ≠ .yield) :
    ∃ es, s'.history = s.history ++ es ∧ s.Logs es f := by
  have hnone : s'.history = s.history → s.Logs [] f →
      ∃ es, s'.history = s.history ++ es ∧ s.Logs es f := fun he hl =>
    ⟨[], by rw [he, append_nil], hl⟩
  cases hexec with
  | put hp | request hp => exact hp.logs
  | putRefused | requestRefused => exact hnone (by simp) (.inl rfl)
  | yield => exact absurd rfl hy
  | @get r m rest hq => exact ⟨[.taken m], rfl, .inr ⟨m, rest, hq, rfl⟩⟩
  | wait | empty | noReply => exact hnone rfl (.inl rfl)
  | @deliver m => exact ⟨[.received m], rfl, .inl rfl⟩
  | @undeliverable m r status =>
    refine ⟨[.failed m], ?_, .inr rfl⟩
    rw [abortRequest]
    split <;> rfl
  | drop => exact hnone (by simp) rfl
  | deleteThread => exact hnone (history_deleteThread _ _) rfl
  | @mark v a => exact ⟨_, rfl, rfl⟩
  | abort => exact logs_abortMessages _ _
  | _ => exact hnone rfl rfl

end

end State

end Dx.Kernel
