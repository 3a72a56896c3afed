import Dx.Kernel.Ownership

/-!
# The threads that are named

Every thread that a message, a stack, the thread table or another thread names has been
created, and a thread that has not been created has nothing.
-/

namespace Dx.Kernel

open Library Function List Kernel.Frame

def Reception.names : Reception → List ThreadId
  | .receive _ => []
  | .cleanup => []
  | .reply recipient _ => [recipient]

def Frame.names : Frame → List ThreadId
  | .putMessage _ => []
  | .sendMessage _ _ => []
  | .putRequest _ recipient _ _ _ => [recipient]
  | .yield => []
  | .restoreInterrupts _ => []
  | .getMessage r => r.names
  | .removePending _ r => r.names
  | .deliverPayload _ r => r.names
  | .abortSendMessage recipient _ _ => [recipient]
  | .returnReply recipient _ _ => [recipient]
  | .deleteMessage _ => []
  | .dropReference t => [t]
  | .deleteThread _ => []
  | .markForDeletion victim _ => [victim]
  | .unlinkMessages _ => []
  | .abortMessages _ => []
  | .removeFromTable victim => [victim]
  | .wakeInterruptHandlers _ _ _ => []

namespace State

/-- The threads that are named anywhere have been created. -/
structure Known (s : State) : Prop where
  nodup : s.threads.Nodup
  cleanup : threadIdCleanup ∈ s.threads
  null : threadIdNull ∈ s.threads
  current : s.currentThread ∈ s.threads
  table : ∀ {t}, t ∈ s.threadTable → t ∈ s.threads
  handler : ∀ {irq t}, t ∈ s.interruptHandler irq → t ∈ s.threads
  /-- A blocked thread, and the thread it is blocked on. -/
  blocking : ∀ {t b}, s.blockingThread t = some b → t ∈ s.threads ∧ b ∈ s.threads
  /-- The source and the destination of a message. -/
  message : ∀ {m}, m < s.nextMessage →
    (s.message m).source ∈ s.threads ∧ (s.message m).destination ∈ s.threads
  /-- A thread with a stack, and the threads its frames name. -/
  frame : ∀ {t f}, f ∈ s.stack t → t ∈ s.threads ∧ ∀ u ∈ f.names, u ∈ s.threads
  queue : ∀ {t m}, m ∈ s.messageQueue t → t ∈ s.threads
  bonus : ∀ {t m}, s.bonusMessage t = some m → t ∈ s.threads
  acknowledgement : ∀ {t m}, s.deletionAcknowledgement t = some m → t ∈ s.threads

section

variable {held : List (MessageRef × Bool)} {s s' : State} {t u : ThreadId} {m : MessageRef}
  {f g : Frame} {status : Status} {lot : ℕ} {v : ThreadId} {a : Option MessageRef} {r : Reception}

theorem Known.idle (h : Known s) (ht : t ∉ s.threads) : s.Idle t where
  stack := eq_nil_iff_forall_not_mem.2 fun _ hf => ht (h.frame hf).1
  queue := eq_nil_iff_forall_not_mem.2 fun _ hm => ht (h.queue hm)
  bonus := Option.eq_none_iff_forall_ne_some.2 fun _ hm => ht (h.bonus hm)
  acknowledgement := Option.eq_none_iff_forall_ne_some.2 fun _ hm => ht (h.acknowledgement hm)

theorem HasOwners.lt {b : Bool} (h : HasOwners False held s) (hm : (m, b) ∈ held) :
    m < s.nextMessage :=
  h.elim fun _ h => h.lt_nextMessage (by rw [h.place_held hm]; simp)

theorem HasOwners.lt_of_pending (h : HasOwners False held s) (hm : m ∈ s.pendingMessages.items) :
    m < s.nextMessage := by
  obtain ⟨place, h⟩ := h
  refine h.lt_nextMessage fun hfree => ?_
  rw [h.pool, hfree] at hm
  cases hm

/-! ### What the primitives name -/

theorem of_update_none {α : Type*} {f : ThreadId → Option α} {x : α}
    (h : update f t none u = some x) : f u = some x := by
  by_cases hu : u = t
  · simp [hu] at h
  · rwa [update_of_ne hu] at h

namespace Known

theorem push {frames : List Frame} (h : Known s)
    (hf : ∀ f ∈ frames, ∀ u ∈ f.names, u ∈ s.threads) : Known (s.push frames) := by
  refine { h with frame := ?_ }
  intro t f hmem
  rcases update_cases hmem with ⟨rfl, hnew⟩ | ⟨-, hmem⟩
  · exact (mem_append.1 hnew).elim (fun hmem => ⟨h.current, hf f hmem⟩) h.frame
  · exact h.frame hmem

theorem pop {rest : List Frame} (h : Known s) (hs : s.stack s.currentThread = f :: rest) :
    Known (s.pop rest) ∧ ∀ u ∈ f.names, u ∈ s.threads := by
  exact ⟨{ h with frame := fun hmem => h.frame (mem_stack_of_pop hs hmem) },
    (h.frame (hs ▸ mem_cons_self)).2⟩

theorem allocate {message : Message} (h : Known s) (hsrc : message.source ∈ s.threads)
    (hdst : message.destination ∈ s.threads) : Known (s.allocateMessage message) :=
  { h with
    message := by
      intro m hm
      exact update_intro (P := fun x : Message => x.source ∈ s.threads ∧ x.destination ∈ s.threads)
        (fun _ => ⟨hsrc, hdst⟩)
        fun hmn => h.message (Nat.lt_of_le_of_ne (Nat.le_of_lt_succ hm) hmn) }

theorem addReference (h : Known s) : Known (s.addReference t) := { h with }

theorem destroyThread (h : Known s) : Known (s.destroyThread t) := by
  refine push { h with blocking := ?_, acknowledgement := ?_ } ?_
  · exact fun hb => h.blocking (of_update_none hb)
  · exact fun hm => h.acknowledgement (of_update_none hm)
  · intro f hf u hu
    rcases mem_append.1 hf with hf | hf
    · obtain ⟨b, hb, rfl⟩ := mem_map.1 hf
      obtain rfl := mem_singleton.1 hu
      exact (h.blocking (Option.mem_toList.1 hb)).2
    · obtain ⟨m, -, rfl⟩ := mem_map.1 hf
      cases hu

theorem removeReference (h : Known s) : Known (s.removeReference t) := by
  rw [State.removeReference]
  split
  · exact destroyThread { h with }
  · exact { h with }

theorem unblock (h : Known s) : Known (s.unblock t m) := by
  have h₁ : Known { s with threadState := update s.threadState t .ready } := { h with }
  have h₂ := h₁.removeReference (t := (s.message m).source)
  exact { h₂ with blocking := fun hb => h₂.blocking (of_update_none hb) }

theorem setQueue {q : List MessageRef} (h : Known s) (ht : t ∈ s.threads) :
    Known { s with messageQueue := update s.messageQueue t q } := by
  refine { h with queue := ?_ }
  intro u m hm
  rcases update_cases hm with ⟨rfl, -⟩ | ⟨-, hm⟩
  · exact ht
  · exact h.queue hm

theorem pushHead (h : Known s) (ht : t ∈ s.threads) : Known (s.pushHead t m) :=
  { h.setQueue ht with }

theorem pushTail (h : Known s) (ht : t ∈ s.threads) : Known (s.pushTail t m) :=
  { h.setQueue ht with }

theorem blockOn (h : Known s) (ht : t ∈ s.threads) : Known (s.blockOn t m) := by
  rw [State.blockOn]
  split
  · refine { h with blocking := ?_ }
    intro u b hb
    rcases update_cases (P := (· = some b)) hb with ⟨rfl, hnew⟩ | ⟨-, hb⟩
    · exact ⟨h.current, Option.some.inj hnew ▸ ht⟩
    · exact h.blocking hb
  · exact h

theorem put (h : Known s) (hm : m < s.nextMessage) (hput : Put s m status s') : Known s' := by
  have hd := (h.message hm).2
  cases hput with
  | refused => exact h
  | woken =>
    have h₁ := h.unblock (t := (s.message m).destination) (m := m)
    have ht : (s.message m).destination ∈ (s.unblock (s.message m).destination m).threads := by
      obtain ⟨_, _, _, _, _, _, hu⟩ := unblock_eq (s.message m).destination m s
      rw [hu]
      exact hd
    exact { (h₁.pushHead ht).blockOn ht with }
  | queued => exact { (h.pushTail hd).blockOn hd with }

end Known

theorem Put.keeps (hput : Put s m status s') :
    s'.threads = s.threads ∧ s'.nextMessage = s.nextMessage := by
  cases hput with
  | refused => exact ⟨rfl, rfl⟩
  | woken =>
    obtain ⟨_, _, _, _, _, _, hu⟩ := unblock_eq (s.message m).destination m s
    obtain ⟨_, _, _, _, hb⟩ := blockOn_eq (s.message m).destination m
      ((s.unblock (s.message m).destination m).pushHead (s.message m).destination m)
    rw [addPending, hb, hu]
    exact ⟨rfl, rfl⟩
  | queued =>
    obtain ⟨_, _, _, _, hb⟩ := blockOn_eq (s.message m).destination m
      (s.pushTail (s.message m).destination m)
    rw [addPending, hb]
    exact ⟨rfl, rfl⟩

section

variable (h : Known s)
include h

theorem Known.killOnOverflow : Known (s.killOnOverflow status t) := by
  rw [State.killOnOverflow]
  split
  · exact (h.allocate h.null h.cleanup).push (by simp [names])
  · exact h

theorem Known.findBlockingThread (hb : s.findBlockingThread t = some (some u)) : u ∈ s.threads := by
  rw [State.findBlockingThread] at hb
  split at hb
  case h_1 => cases hb
  case h_2 b hblock =>
    obtain ⟨e, he, rfl⟩ : ∃ e, chase s.blockingThread (s.threads.length + 1) b = some e ∧ e = u := by
      simpa using hb
    have hbk := (h.blocking hblock).2
    have hend := endsAt_of_chase he
    clear he hb hblock
    induction hend with
    | here => exact hbk
    | link hl _ ih => exact ih (h.blocking hl).2

theorem Known.drawn (ho : HasOwners False held s) (hd : Drawn lot s t s') :
    Known s' ∧ t ∈ s'.threads := by
  cases hd with
  | idle => exact ⟨h, h.null⟩
  | ticket hm _ => exact ⟨h, (h.message (ho.lt_of_pending (mem_of_getElem? hm))).2⟩
  | bonus hm _ =>
    exact ⟨{ h with bonus := fun hb => h.bonus (of_update_none hb) },
      (h.message (ho.lt_of_pending (mem_of_getElem? hm))).2⟩

theorem Known.switchTo (ht : t ∈ s.threads) : Known (s.switchTo t) := { h with current := ht }

theorem Known.yield (ho : HasOwners False held s) (hy : s.yield lot = some s') : Known s' := by
  obtain ⟨t, s₁, hsel, rfl⟩ := yield_eq_some hy
  cases hsel with
  | handoff hb => exact h.switchTo (h.findBlockingThread hb)
  | winner _ hd _ => exact (h.drawn ho hd).1.switchTo (h.drawn ho hd).2
  | passed _ hd hw => exact (h.drawn ho hd).1.switchTo ((h.drawn ho hd).1.findBlockingThread hw)

theorem Known.refuse (hm : m < s.nextMessage) : Known (s.refuse m status) :=
  (h.allocate (h.message hm).2 (h.message hm).1).push (by simp [names])

theorem Known.abortRequest (hm : m < s.nextMessage) : Known (s.abortRequest m status) := by
  rw [State.abortRequest]
  split
  · exact h.refuse hm
  · exact h

theorem Known.findThread (ht : s.findThread u = some t) : t ∈ s.threads := by
  rw [State.findThread] at ht
  split_ifs at ht with h1 h2
  · cases ht
    exact h.current
  · cases ht
    exact h.table h2

end

theorem eq_of_mem_deletionFrames (hf : f ∈ deletionFrames v a) (hu : u ∈ f.names) : u = v := by
  simp only [deletionFrames, mem_cons, not_mem_nil, or_false] at hf
  rcases hf with rfl | rfl | rfl <;> simpa [names] using hu

theorem Known.deleteThread (h : Known s) (hm : m < s.nextMessage) : Known (s.deleteThread m) := by
  have h₁ : Known (s.push [.deleteMessage m]) := h.push (by simp [names])
  simp only [State.deleteThread]
  split
  · exact h₁.refuse hm
  split
  · exact h₁.refuse hm
  case h_2 victim hv =>
    have hvk := h₁.findThread hv
    split
    · refine (h₁.addReference.allocate (h.message hm).2 (h.message hm).1).push fun f hf u hu => ?_
      exact eq_of_mem_deletionFrames hf hu ▸ hvk
    · refine h₁.addReference.push fun f hf u hu => ?_
      exact eq_of_mem_deletionFrames hf hu ▸ hvk

theorem Known.abortMessages {l : List MessageRef} (h : Known s)
    (hl : ∀ m ∈ l, m < s.nextMessage) : Known (s.abortMessages l) := by
  cases l with
  | nil => exact h
  | cons m rest =>
    have h₁ : Known (s.push [.deleteMessage m, .abortMessages rest]) := h.push (by simp [names])
    have hm := hl m (by simp)
    simp only [State.abortMessages]
    split
    · have h₂ : Known ((s.push [.deleteMessage m, .abortMessages rest]).record
          (.aborted m s.nextMessage)) := { h₁ with }
      exact (h₂.allocate (h.message hm).2 (h.message hm).1).push (by simp [names])
    · exact h₁

theorem Known.markForDeletion (h : Known s) (hv : v ∈ s.threads) :
    Known (s.markForDeletion v a) := by
  have h₁ := h.setQueue (q := []) hv
  refine { h₁ with
    bonus := fun hb => h.bonus (of_update_none hb), acknowledgement := ?_ }
  intro u m hm
  cases a with
  | none => exact h.acknowledgement hm
  | some a =>
    rcases update_cases (P := (· = some m)) hm with ⟨rfl, -⟩ | ⟨-, hm⟩
    · exact hv
    · exact h.acknowledgement hm

theorem names_continuation (hg : g ∈ s.continuation m r) (hu : u ∈ g.names) : u ∈ r.names := by
  rcases mem_continuation hg with rfl | ⟨rfl, -⟩ | ⟨_, _, rfl, rfl | rfl⟩
  · cases hu
  · cases hu
  · exact hu
  · exact hu

theorem names_failure (hg : g ∈ failure status r) (hu : u ∈ g.names) : u ∈ r.names := by
  obtain ⟨_, _, rfl, rfl⟩ := mem_failure hg
  exact hu

section

variable (h : Known s)
include h

namespace Known

theorem sendMessage {deletes : Bool} (hm : m < s.nextMessage) :
    Known (s.sendMessage m deletes) := by
  refine push { h with message := ?_ }
    (forall_mem_singleton.2 (forall_mem_singleton.2 (h.message hm).2))
  intro x hx
  exact update_intro (P := fun x : Message => x.source ∈ s.threads ∧ x.destination ∈ s.threads)
    (fun _ => h.message hm) fun _ => h.message hx

theorem executed {o : Outcome} (ho : HasOwners False f.carries s)
    (hf : ∀ u ∈ f.names, u ∈ s.threads) (hexec : Executed s o f s') : Known s' := by
  cases hexec with
  | put hp => exact h.put (ho.lt (mem_singleton.2 rfl)) hp
  | putRefused => exact (h.push (by simp [names])).killOnOverflow
  | send => exact h.sendMessage (ho.lt (mem_singleton.2 rfl))
  | @request _ recipient _ _ _ s₁ hp =>
    have hr : recipient ∈ s₁.threads := hp.keeps.1 ▸ hf recipient (by simp [names])
    exact (h.put (ho.lt (mem_singleton.2 rfl)) hp).push
      (by simpa [names, Reception.names] using hr)
  | @requestRefused _ recipient _ _ deletes =>
    have hr := hf recipient (by simp [names])
    exact (h.push (by cases deletes <;> simpa [names] using hr)).killOnOverflow
  | yield hy => exact h.yield ho hy
  | restore => exact { h with }
  | @get _ _ rest =>
    exact push { h.setQueue h.current with } (forall_mem_singleton.2 hf)
  | wait => exact h.push (forall_mem_cons.2 ⟨by simp [names], forall_mem_singleton.2 hf⟩)
  | empty | wakeDone => exact h
  | noReply => exact h.push (forall_mem_singleton.2 hf)
  | remove => exact push { h with } (forall_mem_singleton.2 hf)
  | deliver =>
    exact push { h with } fun g hg u hu => hf u (names_continuation hg hu)
  | undeliverable =>
    refine abortRequest (push { h with } fun g hg u hu => hf u ?_)
      (ho.lt (mem_singleton.2 rfl))
    rcases mem_cons.1 hg with rfl | hg
    · cases hu
    · exact names_failure hg hu
  | @abortSend recipient =>
    exact (h.allocate (hf recipient (by simp [names])) h.current).push
      (forall_mem_cons.2 ⟨hf, forall_mem_singleton.2 hf⟩)
  | reply => exact h.push (by simp [names])
  | delete =>
    refine push { h with } ?_
    simpa [names] using h.message (ho.lt (mem_singleton.2 rfl))
  | drop => exact h.removeReference
  | deleteThread => exact h.deleteThread (ho.lt (mem_singleton.2 rfl))
  | @mark victim =>
    exact (h.markForDeletion (hf victim (by simp [names]))).push (by simp [names])
  | unlink => exact push { h with } (by simp [names])
  | abort => exact h.abortMessages fun m hm => ho.lt (mem_map.2 ⟨m, hm, rfl⟩)
  | table =>
    exact push { h with table := fun ht => h.table (mem_of_mem_erase ht) }
      (forall_mem_singleton.2 hf)
  | wake hh =>
    exact push (h.allocate h.current (h.handler (mem_of_getElem? hh)))
      (by simp [names])

theorem keepTicket : Known s.keepTicket := by
  refine keepTicket_cases h fun _ => ?_
  have h₁ : Known (s.allocateMessage (bonusFor s.currentThread)) := h.allocate h.null h.current
  refine { h₁ with bonus := ?_ }
  intro u b hb
  rcases update_cases (P := (· = some b)) hb with ⟨rfl, -⟩ | ⟨-, hb⟩
  · exact h.current
  · exact h.bonus hb

theorem createThread {mask : ℕ} (ht : t ∉ s.threads) : Known (s.createThread t mask) := by
  have hsub : ∀ {u}, u ∈ s.threads → u ∈ s.threads ++ [t] := fun hu => mem_append_left _ hu
  refine
    { nodup := ?_, cleanup := hsub h.cleanup, null := hsub h.null, current := hsub h.current,
      table := ?_, handler := fun hu => hsub (h.handler hu),
      blocking := fun hb =>
        ⟨hsub (h.blocking (of_update_none hb)).1, hsub (h.blocking (of_update_none hb)).2⟩,
      message := fun hm => ⟨hsub (h.message hm).1, hsub (h.message hm).2⟩,
      frame := ?_, queue := ?_, bonus := fun hb => hsub (h.bonus (of_update_none hb)),
      acknowledgement := fun hm => hsub (h.acknowledgement (of_update_none hm)) }
  · show (s.threads ++ [t]).Nodup
    rw [nodup_append']
    exact ⟨h.nodup, nodup_singleton _, by simpa using ht⟩
  · intro u hu
    have hu : u ∈ s.threadTable ++ [t] := hu
    rcases mem_append.1 hu with hu | hu
    · exact hsub (h.table hu)
    · exact mem_append_right _ hu
  · intro u f hf
    rcases update_cases hf with ⟨-, hf⟩ | ⟨-, hf⟩
    · cases hf
    · exact ⟨hsub (h.frame hf).1, fun x hx => hsub ((h.frame hf).2 x hx)⟩
  · intro u m hm
    rcases update_cases hm with ⟨-, hm⟩ | ⟨-, hm⟩
    · cases hm
    · exact hsub (h.queue hm)

theorem called {c : SystemCall} (hc : Called s c s') : Known s' := by
  cases hc with
  | failed => exact h
  | send ht | sendAndReceive ht =>
    have hk := h.findThread ht
    exact (h.addReference.allocate h.current hk).push
      (forall_mem_cons.2 ⟨by simp [names], forall_mem_singleton.2
        (forall_mem_singleton.2 hk)⟩)
  | receive => exact h.push (by simp [names, Reception.names])
  | delete => exact (h.allocate h.current h.cleanup).push (by simp [names])
  | create ht =>
    refine (h.createThread ht).push ?_
    exact forall_mem_singleton.2
      (forall_mem_singleton.2 (mem_append_right _ (mem_singleton.2 rfl)))
  | @register irq _ =>
    refine { h with handler := ?_ }
    intro i t ht
    rcases update_cases ht with ⟨-, ht⟩ | ⟨-, ht⟩
    · exact (mem_append.1 ht).elim h.handler fun ht => mem_singleton.1 ht ▸ h.current
    · exact h.handler ht

theorem step {a : Action} (ho : HasOwners False [] s) (hs : Stepped s a s') : Known s' := by
  cases hs with
  | run hstack hexec =>
    obtain ⟨h₁, hf⟩ := h.pop hstack
    exact h₁.executed (ho.imp fun _ ho => ho.pop hstack) hf hexec
  | call _ _ _ hc => exact h.called hc
  | cleanupLoop | nullLoop => exact h.push (by simp [names, Reception.names])
  | tick => exact { h with }
  | quantum _ _ hy =>
    have htick : Known s.tick := { h with }
    have hotick : HasOwners False [] s.tick := ho.congr rfl
    exact htick.keepTicket.yield hotick.keepTicket hy
  | device => exact push { h with } (by simp [names])

end Known

end

end

end State

end Dx.Kernel
