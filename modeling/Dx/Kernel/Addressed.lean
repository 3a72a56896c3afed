import Dx.Kernel.Known

/-!
# What the frames know of their messages

A frame that carries a message relies on what the message is: a message in a mailbox is for the
thread whose mailbox it is, the message `put_message` puts on behalf of a caller that does not
wait is not a blocking one, a request comes from the thread that sends it. And a mailbox that
has been disabled stays empty.

The messages change in two ways only: a new one is allocated, and `send_message` marks the
request it carries as blocking. Since a message is in one place (`HasOwners`), neither is seen
by any other frame.

With the places of the messages and the threads that are named this is the invariant the other
properties of the machine start from (`Sound`).
-/

namespace Dx.Kernel

open Library Function List

/-- What a frame on the stack of `t` relies on, of the messages and of the mailboxes that are
enabled. -/
def Frame.Fits (message : MessageRef → Message) (enabled : ThreadId → Bool) (t : ThreadId) :
    Frame → Prop
  | .putMessage m => (message m).blocking = false
  | .sendMessage m _ => (message m).source = t
  | .putRequest m recipient requestId _ _ =>
    (message m).source = t ∧ (message m).destination = recipient ∧
      (message m).id = requestId ∧ (message m).blocking = true
  | .removePending m _ => (message m).destination = t
  | .deliverPayload m _ => (message m).destination = t
  | .deleteThread m => (message m).type = messageTypeDeleteThread
  | .markForDeletion _ acknowledgement =>
    ∀ m, acknowledgement = some m → (message m).blocking = false
  | .unlinkMessages leftover => ∀ m ∈ leftover, enabled (message m).destination = false
  | .abortMessages leftover => ∀ m ∈ leftover, enabled (message m).destination = false
  | _ => True

/-- A frame relies on the messages it carries, and on a disabled mailbox staying disabled. -/
theorem Frame.Fits.mono {message message' : MessageRef → Message} {enabled enabled' : ThreadId → Bool}
    {t : ThreadId} {f : Frame} (h : f.Fits message enabled t)
    (hm : ∀ m b, (m, b) ∈ f.carries → message' m = message m)
    (he : ∀ m b, (m, b) ∈ f.carries → enabled (message m).destination = false →
      enabled' (message m).destination = false) : f.Fits message' enabled' t := by
  cases f with
  | putMessage m | sendMessage m _ | putRequest m _ _ _ _ | deliverPayload m _ | deleteThread m =>
    simpa [Frame.Fits, hm m false (by simp [Frame.carries])] using h
  | removePending m _ => simpa [Frame.Fits, hm m true (by simp [Frame.carries])] using h
  | markForDeletion v a =>
    intro m ha
    rw [hm m false (by simp [Frame.carries, ha])]
    exact h m ha
  | unlinkMessages l =>
    intro m hml
    have hc : (m, true) ∈ (Frame.unlinkMessages l).carries := mem_map.2 ⟨m, hml, rfl⟩
    rw [hm m true hc]
    exact he m true hc (h m hml)
  | abortMessages l =>
    intro m hml
    have hc : (m, false) ∈ (Frame.abortMessages l).carries := mem_map.2 ⟨m, hml, rfl⟩
    rw [hm m false hc]
    exact he m false hc (h m hml)
  | _ => trivial

namespace State

/-- The messages are what the mailboxes and the frames take them for. -/
structure Addressed (s : State) : Prop where
  /-- A message in a mailbox is for the thread whose mailbox it is. -/
  queue : ∀ {t m}, m ∈ s.messageQueue t → (s.message m).destination = t
  /-- So is a bonus message. -/
  bonus : ∀ {t m}, s.bonusMessage t = some m → (s.message m).destination = t
  /-- An acknowledgement expects no reply. -/
  acknowledgement : ∀ {t m}, s.deletionAcknowledgement t = some m →
    (s.message m).blocking = false
  /-- A disabled mailbox is empty, and its thread has no bonus message. -/
  closed : ∀ {t}, s.mailboxEnabled t = false → s.messageQueue t = [] ∧ s.bonusMessage t = none
  /-- What the frames rely on. -/
  frame : ∀ {t f}, f ∈ s.stack t → f.Fits s.message s.mailboxEnabled t

section

variable {held : List (MessageRef × Bool)} {s s' : State} {t u : ThreadId} {m : MessageRef}
  {f : Frame} {b : Bool} {message : MessageRef → Message} {status : Status} {lot : ℕ} {v : ThreadId}
  {a : Action} {enabled : ThreadId → Bool} {r : Reception}

/-! ### Where a message is -/

section

variable (ho : HasOwners False held s)
include ho

theorem HasOwners.lt_stack (hf : f ∈ s.stack t) (hm : (m, b) ∈ f.carries) : m < s.nextMessage := by
  obtain ⟨place, ho⟩ := ho
  have hat : s.At held m (.stack t b) := mem_carriedBy.2 (.inr (mem_flatMap.2 ⟨f, hf, hm⟩))
  exact ho.lt_nextMessage (by rw [(ho.at_iff (by simp)).1 hat]; simp)

theorem HasOwners.lt_queue (hm : m ∈ s.messageQueue t) : m < s.nextMessage := by
  obtain ⟨place, ho⟩ := ho
  have hat : s.At held m (.mailbox t) := hm
  exact ho.lt_nextMessage (by rw [(ho.at_iff (by simp)).1 hat]; simp)

theorem HasOwners.lt_bonus (hm : s.bonusMessage t = some m) : m < s.nextMessage := by
  obtain ⟨place, ho⟩ := ho
  have hat : s.At held m (.bonus t) := hm
  exact ho.lt_nextMessage (by rw [(ho.at_iff (by simp)).1 hat]; simp)

theorem HasOwners.lt_acknowledgement (hm : s.deletionAcknowledgement t = some m) :
    m < s.nextMessage := by
  obtain ⟨place, ho⟩ := ho
  have hat : s.At held m (.acknowledgement t) := hm
  exact ho.lt_nextMessage (by rw [(ho.at_iff (by simp)).1 hat]; simp)

end

/-- A message in the hands of the running frame is in no other frame, and in no mailbox. -/
theorem HasOwners.elsewhere (ho : HasOwners False [(m, b)] s) :
    (∀ t f b', f ∈ s.stack t → (m, b') ∉ f.carries) ∧ (∀ t, m ∉ s.messageQueue t) ∧
      (∀ t, s.bonusMessage t ≠ some m) ∧ ∀ t, s.deletionAcknowledgement t ≠ some m := by
  obtain ⟨place, ho⟩ := ho
  have hne : ∀ p, p ≠ .free → ¬ s.At [] m p := fun p hp hat => ((ho.at_tail hp).1 hat).1 rfl
  refine ⟨fun t f b' hf hm => ?_, fun t => hne (.mailbox t) (by simp),
    fun t => hne (.bonus t) (by simp), fun t => hne (.acknowledgement t) (by simp)⟩
  exact hne (.stack t b') (by simp) (mem_carriedBy.2 (.inr (mem_flatMap.2 ⟨f, hf, hm⟩)))

/-! ### What the primitives do -/

namespace Addressed

theorem push {frames : List Frame} (h : Addressed s)
    (hf : ∀ f ∈ frames, f.Fits s.message s.mailboxEnabled s.currentThread) :
    Addressed (s.push frames) := by
  refine { h with frame := ?_ }
  intro t f hmem
  rcases update_cases hmem with ⟨rfl, hnew⟩ | ⟨-, hmem⟩
  · exact (mem_append.1 hnew).elim (hf f) h.frame
  · exact h.frame hmem

theorem pop {rest : List Frame} (h : Addressed s)
    (hs : s.stack s.currentThread = f :: rest) :
    Addressed (s.pop rest) ∧ f.Fits s.message s.mailboxEnabled s.currentThread := by
  exact ⟨{ h with frame := fun hmem => h.frame (mem_stack_of_pop hs hmem) },
    h.frame (hs ▸ mem_cons_self)⟩

theorem setMessage (h : Addressed s)
    (hq : ∀ t m, m ∈ s.messageQueue t → message m = s.message m)
    (hb : ∀ t m, s.bonusMessage t = some m → message m = s.message m)
    (ha : ∀ t m, s.deletionAcknowledgement t = some m → message m = s.message m)
    (hf : ∀ t f m b, f ∈ s.stack t → (m, b) ∈ f.carries → message m = s.message m) :
    Addressed { s with message := message } where
  queue := fun {t m} hm => by
    show (message m).destination = t
    rw [hq t m hm]
    exact h.queue hm
  bonus := fun {t m} hm => by
    show (message m).destination = t
    rw [hb t m hm]
    exact h.bonus hm
  acknowledgement := fun {t m} hm => by
    show (message m).blocking = false
    rw [ha t m hm]
    exact h.acknowledgement hm
  closed := h.closed
  frame := fun {t f} hmem => (h.frame hmem).mono (fun m b hm => hf t f m b hmem hm)
    fun _ _ _ he => he

theorem allocate {message : Message} (h : Addressed s) (ho : HasOwners False held s) :
    Addressed (s.allocateMessage message) := by
  have hne : ∀ m, m < s.nextMessage →
      update s.message s.nextMessage message m = s.message m := fun m hm =>
    update_of_ne (Nat.ne_of_lt hm) _ _
  exact { h.setMessage (fun t m hm => hne m (ho.lt_queue hm))
    (fun t m hm => hne m (ho.lt_bonus hm)) (fun t m hm => hne m (ho.lt_acknowledgement hm))
    (fun t f m b hf hm => hne m (ho.lt_stack hf hm)) with }

theorem destroyThread (h : Addressed s) : Addressed (s.destroyThread t) := by
  refine push
    { h with acknowledgement := fun hm => h.acknowledgement (of_update_none hm) } ?_
  intro f hf
  rcases mem_append.1 hf with hf | hf
  · obtain ⟨b, -, rfl⟩ := mem_map.1 hf
    trivial
  · obtain ⟨m, hm, rfl⟩ := mem_map.1 hf
    exact h.acknowledgement (Option.mem_toList.1 hm)

theorem removeReference (h : Addressed s) : Addressed (s.removeReference t) := by
  rw [State.removeReference]
  split
  · exact destroyThread { h with }
  · exact { h with }

theorem unblock (h : Addressed s) : Addressed (s.unblock t m) := by
  have h₁ : Addressed { s with threadState := update s.threadState t .ready } := { h with }
  exact { h₁.removeReference with }

/-- A message for `t` is put in its mailbox, which is enabled. -/
theorem setQueue {q : List MessageRef} (h : Addressed s)
    (ht : s.mailboxEnabled t = true) (hq : ∀ m ∈ q, (s.message m).destination = t) :
    Addressed { s with messageQueue := update s.messageQueue t q } := by
  refine { h with queue := ?_, closed := ?_ }
  · intro u m hm
    rcases update_cases hm with ⟨rfl, hnew⟩ | ⟨-, hm⟩
    · exact hq m hnew
    · exact h.queue hm
  · intro u hu
    have hut : u ≠ t := by rintro rfl; rw [ht] at hu; cases hu
    exact ⟨(update_of_ne hut _ _).trans (h.closed hu).1, (h.closed hu).2⟩

theorem blockOn (h : Addressed s) : Addressed (s.blockOn t m) := by
  obtain ⟨_, _, _, _, hb⟩ := blockOn_eq t m s
  rw [hb]
  exact { h with }

theorem put (h : Addressed s) (hput : Put s m status s') : Addressed s' := by
  cases hput with
  | refused => exact h
  | woken hen =>
    have h₁ := h.unblock (t := (s.message m).destination) (m := m)
    obtain ⟨_, _, _, _, _, _, hu⟩ := unblock_eq (s.message m).destination m s
    rw [hu] at h₁ ⊢
    have h₂ := h₁.setQueue hen
      (forall_mem_cons.2 ⟨rfl, fun x hx => h.queue hx⟩)
    have h₃ : Addressed (State.pushHead (s.message m).destination m _) := { h₂ with }
    exact { h₃.blockOn with }
  | queued hen =>
    have h₂ := h.setQueue hen
      (forall_mem_append.2 ⟨fun x hx => h.queue hx, forall_mem_singleton.2 rfl⟩)
    have h₃ : Addressed (s.pushTail (s.message m).destination m) := { h₂ with }
    exact { h₃.blockOn with }

theorem killOnOverflow (h : Addressed s) (ho : HasOwners False held s) :
    Addressed (s.killOnOverflow status t) := by
  rw [State.killOnOverflow]
  split
  · exact (h.allocate ho).push (forall_mem_singleton.2 (by simp [Frame.Fits, deletionRequest]))
  · exact h

theorem drawn (h : Addressed s) (hd : Drawn lot s t s') : Addressed s' := by
  cases hd with
  | idle | ticket => exact h
  | bonus =>
    refine { h with bonus := fun hb => h.bonus (of_update_none hb), closed := ?_ }
    intro u hu
    refine ⟨(h.closed hu).1, ?_⟩
    show update s.bonusMessage _ none u = none
    rw [update_apply, (h.closed hu).2, ite_self]

theorem yield (h : Addressed s) (hy : s.yield lot = some s') : Addressed s' := by
  obtain ⟨t, s₁, hsel, rfl⟩ := yield_eq_some hy
  cases hsel with
  | handoff => exact { h with }
  | winner _ hd _ | passed _ hd _ => exact { h.drawn hd with }

theorem refuse (h : Addressed s) (ho : HasOwners False held s) : Addressed (s.refuse m status) :=
  (h.allocate ho).push (forall_mem_singleton.2 (by simp [Frame.Fits, response]))

theorem abortRequest (h : Addressed s) (ho : HasOwners False held s) :
    Addressed (s.abortRequest m status) := by
  rw [State.abortRequest]
  split
  · exact h.refuse ho
  · exact h

theorem deleteThread (h : Addressed s) (ho : HasOwners False [(m, false)] s) :
    Addressed (s.deleteThread m) := by
  have h₁ : Addressed (s.push [.deleteMessage m]) := h.push (forall_mem_singleton.2 trivial)
  have ho₁ : HasOwners False [] (s.push [.deleteMessage m]) := HasOwners.push ho
  simp only [State.deleteThread]
  split
  · exact h₁.refuse ho₁
  split
  · exact h₁.refuse ho₁
  case h_2 victim _ =>
    have h₂ : Addressed ((s.push [.deleteMessage m]).addReference victim) := { h₁ with }
    have ho₂ : HasOwners False [] ((s.push [.deleteMessage m]).addReference victim) := ho₁.congr rfl
    split
    · refine (h₂.allocate ho₂).push (forall_mem_cons.2 ⟨fun x hx => ?_, by simp [Frame.Fits]⟩)
      cases hx
      show (update s.message s.nextMessage _ s.nextMessage).blocking = false
      rw [update_self]
    · refine h₂.push ?_
      simp [deletionFrames, Frame.Fits]

theorem abortMessages {l : List MessageRef} (h : Addressed s)
    (ho : HasOwners False (l.map fun m => (m, false)) s)
    (hl : ∀ m ∈ l, s.mailboxEnabled (s.message m).destination = false) :
    Addressed (s.abortMessages l) := by
  cases l with
  | nil => exact h
  | cons m rest =>
    have h₁ : Addressed (s.push [.deleteMessage m, .abortMessages rest]) :=
      h.push (forall_mem_cons.2 ⟨trivial, forall_mem_singleton.2
        fun x hx => hl x (mem_cons_of_mem _ hx)⟩)
    have ho₁ : HasOwners False [] (s.push [.deleteMessage m, .abortMessages rest]) :=
      HasOwners.push (by simpa [Frame.carries] using ho)
    simp only [State.abortMessages]
    split
    · have h₂ : Addressed ((s.push [.deleteMessage m, .abortMessages rest]).record
          (.aborted m s.nextMessage)) := { h₁ with }
      have ho₂ : HasOwners False [] ((s.push [.deleteMessage m, .abortMessages rest]).record
          (.aborted m s.nextMessage)) := ho₁.congr rfl
      refine (h₂.allocate ho₂).push (forall_mem_singleton.2 ?_)
      show (update s.message s.nextMessage _ s.nextMessage).blocking = false
      rw [update_self]
    · exact h₁

theorem markForDeletion {a : Option MessageRef} (h : Addressed s)
    (ha : ∀ m, a = some m → (s.message m).blocking = false) :
    Addressed (s.markForDeletion v a) where
  queue := fun {t m} hm => by
    rcases update_cases hm with ⟨-, hm⟩ | ⟨-, hm⟩
    · cases hm
    · exact h.queue hm
  bonus := fun hb => h.bonus (of_update_none hb)
  acknowledgement := fun {t m} hm => by
    cases a with
    | none => exact h.acknowledgement hm
    | some a =>
      rcases update_cases (P := (· = some m)) hm with ⟨-, hm⟩ | ⟨-, hm⟩
      · exact ha m hm
      · exact h.acknowledgement hm
  closed := fun {t} ht => by
    show update s.messageQueue v [] t = [] ∧ update s.bonusMessage v none t = none
    by_cases htv : t = v
    · simp [htv]
    · have ht : update s.mailboxEnabled v false t = false := ht
      rw [update_of_ne htv] at ht
      rw [update_of_ne htv, update_of_ne htv]
      exact h.closed ht
  frame := fun {t f} hf => (h.frame hf).mono (fun _ _ _ => rfl) fun m _ _ hm => by
    show update s.mailboxEnabled v false _ = false
    rw [update_apply, hm, ite_self]

theorem leftover (h : Addressed s) (hm : m ∈ s.leftoverMessages v) :
    (s.message m).destination = v := by
  rcases mem_append.1 hm with hm | hm
  · exact h.queue hm
  · exact h.bonus (Option.mem_toList.1 hm)

end Addressed

theorem fits_continuation : ∀ f ∈ s.continuation m r, f.Fits s.message enabled t := by
  intro f hf
  rcases mem_continuation hf with rfl | ⟨rfl, htype⟩ | ⟨_, _, -, rfl | rfl⟩ <;> trivial

theorem fits_failure : ∀ f ∈ failure status r, f.Fits message enabled t := by
  intro f hf
  obtain ⟨_, _, -, rfl⟩ := mem_failure hf
  trivial

section

variable (h : Addressed s)
include h

namespace Addressed

theorem sendMessage {deletes : Bool} (ho : HasOwners False [(m, false)] s)
    (hsrc : (s.message m).source = s.currentThread) : Addressed (s.sendMessage m deletes) := by
  obtain ⟨hnf, hnq, hnb, hna⟩ := ho.elsewhere
  have hne : ∀ x, x ≠ m → update s.message m { s.message m with blocking := true } x =
    s.message x := fun x hx => update_of_ne hx _ _
  have h₁ := h.setMessage (fun t x hx => hne x fun e => hnq t (e ▸ hx))
    (fun t x hx => hne x fun e => hnb t (e ▸ hx)) (fun t x hx => hne x fun e => hna t (e ▸ hx))
    (fun t f x b hfs hx => hne x fun e => hnf t f b hfs (e ▸ hx))
  refine push { h₁ with } (forall_mem_singleton.2 ?_)
  simp [Frame.Fits, addReference, hsrc]

theorem popMessage {rest : List MessageRef}
    (hq : s.messageQueue s.currentThread = m :: rest) : Addressed (s.popMessage m rest) := by
  have hen : s.mailboxEnabled s.currentThread = true := by
    by_contra hdis
    rw [(h.closed (by simpa using hdis)).1] at hq
    cases hq
  exact { h.setQueue hen fun x hx => h.queue (hq ▸ mem_cons_of_mem _ hx) with }

theorem executed {o : Outcome} (ho : HasOwners False f.carries s)
    (hf : f.Fits s.message s.mailboxEnabled s.currentThread) (hexec : Executed s o f s') :
    Addressed s' := by
  cases hexec with
  | put hp => exact h.put hp
  | putRefused =>
    exact (h.push (by simp [Frame.Fits])).killOnOverflow (HasOwners.pushAll ho)
  | send => exact h.sendMessage ho hf
  | request hp => exact (h.put hp).push (by simp [Frame.Fits])
  | @requestRefused _ _ _ _ deletes =>
    exact (h.push (by cases deletes <;> simp [Frame.Fits])).killOnOverflow
      (ho.requestRefused False.elim)
  | yield hy => exact h.yield hy
  | restore => exact { h with }
  | get hq =>
    exact (h.popMessage hq).push
      (forall_mem_singleton.2 (h.queue (hq ▸ mem_cons_self)))
  | wait | noReply | reply => exact h.push (by simp [Frame.Fits])
  | empty | wakeDone => exact h
  | remove | unlink => exact push { h with } (forall_mem_singleton.2 hf)
  | deliver => exact push { h with } fits_continuation
  | @undeliverable m =>
    have h₁ : Addressed (s.record (.failed m)) := { h with }
    refine abortRequest (h₁.push (forall_mem_cons.2 ⟨trivial, fits_failure⟩))
      (HasOwners.pushAll ?_)
    rw [carried_cons, carried_failure]
    exact HasOwners.congr ho rfl
  | abortSend => exact (h.allocate ho).push (by simp [Frame.Fits])
  | delete | table => exact push { h with } (by simp [Frame.Fits])
  | drop => exact h.removeReference
  | deleteThread => exact h.deleteThread ho
  | @mark victim =>
    refine (h.markForDeletion hf).push (forall_mem_singleton.2 fun m hm => ?_)
    show update s.mailboxEnabled victim false (s.message m).destination = false
    rw [h.leftover hm, update_self]
  | abort => exact h.abortMessages ho hf
  | wake => exact (h.allocate ho).push (by simp [Frame.Fits, allocateMessage, addReference])

theorem keepTicket (ho : HasOwners False [] s) : Addressed s.keepTicket := by
  refine keepTicket_cases h fun hneeds => ?_
  have hen : s.mailboxEnabled s.currentThread = true := by
    simp only [needsBonusMessage, Bool.and_eq_true] at hneeds
    exact hneeds.1.1
  have h₁ : Addressed (s.allocateMessage (bonusFor s.currentThread)) := h.allocate ho
  refine { h₁ with bonus := ?_, closed := ?_ }
  · intro u b hb
    rcases update_cases (P := (· = some b)) hb with ⟨rfl, hnew⟩ | ⟨-, hb⟩
    · cases hnew
      exact congrArg Message.destination (message_allocateMessage _ _)
    · exact h₁.bonus hb
  · intro u hu
    have hne : u ≠ s.currentThread := by
      rintro rfl
      have hu : s.mailboxEnabled s.currentThread = false := hu
      rw [hen] at hu
      cases hu
    exact ⟨(h.closed hu).1, (update_of_ne hne _ _).trans (h.closed hu).2⟩

theorem createThread {mask : ℕ} (ho : HasOwners False [] s) (hk : Known s)
    (ht : t ∉ s.threads) : Addressed (s.createThread t mask) where
  queue := fun {u m} hm => by
    rcases update_cases hm with ⟨-, hm⟩ | ⟨-, hm⟩
    · cases hm
    · exact h.queue hm
  bonus := fun hb => h.bonus (of_update_none hb)
  acknowledgement := fun hm => h.acknowledgement (of_update_none hm)
  closed := fun {u} hu => by
    have hut : u ≠ t := by
      rintro rfl
      simp [State.createThread] at hu
    have hu : update s.mailboxEnabled t true u = false := hu
    rw [update_of_ne hut] at hu
    show update s.messageQueue t [] u = [] ∧ update s.bonusMessage t none u = none
    rw [update_of_ne hut, update_of_ne hut]
    exact h.closed hu
  frame := fun {u f} hf => by
    rcases update_cases hf with ⟨-, hf⟩ | ⟨-, hf⟩
    · cases hf
    · -- a message a frame carries is not for the new thread
      refine (h.frame hf).mono (fun _ _ _ => rfl) fun m b hm he => ?_
      have hdst := (hk.message (ho.lt_stack hf hm)).2
      have hne : (s.message m).destination ≠ t := fun e => ht (e ▸ hdst)
      show update s.mailboxEnabled t true (s.message m).destination = false
      rw [update_of_ne hne]
      exact he

theorem called {c : SystemCall} (ho : HasOwners False [] s) (hk : Known s)
    (hc : Called s c s') : Addressed s' := by
  cases hc with
  | failed => exact h
  | @send _ t | @sendAndReceive _ t =>
    have h₁ : Addressed (s.addReference t) := { h with }
    have ho₁ : HasOwners False [] (s.addReference t) := ho.congr rfl
    exact (h₁.allocate ho₁).push
      (by simp [Frame.Fits, allocateMessage, addReference, userMessage])
  | receive => exact h.push (by simp [Frame.Fits])
  | delete =>
    exact (h.allocate ho).push (by simp [Frame.Fits, allocateMessage, addReference, userMessage])
  | create ht => exact (h.createThread ho hk ht).push (by simp [Frame.Fits])
  | register => exact { h with }

theorem step (ho : HasOwners False [] s) (hk : Known s) (hs : Stepped s a s') : Addressed s' := by
  cases hs with
  | run hstack hexec =>
    obtain ⟨h₁, hf⟩ := h.pop hstack
    exact h₁.executed (ho.imp fun _ ho => ho.pop hstack) hf hexec
  | call _ _ _ hc => exact h.called ho hk hc
  | cleanupLoop | nullLoop => exact h.push (by simp [Frame.Fits])
  | tick => exact { h with }
  | quantum _ _ hy =>
    have htick : Addressed s.tick := { h with }
    have hotick : HasOwners False [] s.tick := ho.congr rfl
    exact (htick.keepTicket hotick).yield hy
  | device => exact push { h with } (by simp [Frame.Fits])

end Addressed

end

/-! ### The basic invariant -/

/-- Every message is in one place, every thread that is named has been created, and the
messages are what they are taken for. -/
structure Sound (s : State) : Prop where
  owners : HasOwners False [] s
  known : Known s
  addressed : Addressed s

theorem sound_initial : Sound initial where
  owners := hasOwners_initial
  known :=
    { nodup := by decide
      cleanup := by decide
      null := by decide
      current := by decide
      table := fun ht => ht
      handler := by simp [initial]
      blocking := by simp [initial]
      message := by simp [initial]
      frame := by simp [initial]
      queue := by simp [initial]
      bonus := by simp [initial]
      acknowledgement := by simp [initial] }
  addressed :=
    { queue := by simp [initial]
      bonus := by simp [initial]
      acknowledgement := by simp [initial]
      closed := by simp [initial]
      frame := by simp [initial] }

theorem Sound.step (h : Sound s) (hs : Stepped s a s') : Sound s' where
  owners := h.owners.step (fun _ ht => h.known.idle ht) False.elim hs
  known := h.known.step h.owners hs
  addressed := h.addressed.step h.owners h.known hs

/-- **Every state the machine gets to is sound.** -/
theorem Reachable.sound (h : Reachable s) : Sound s :=
  h.invariant sound_initial fun hx _ hs => hx.step (stepped_of_step hs)

end

end State

end Dx.Kernel
