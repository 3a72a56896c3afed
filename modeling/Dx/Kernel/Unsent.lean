import Dx.Kernel.Mailbox

/-!
# Messages that are still to be put

A message is put at most once. Before that it is in the hands of the frame that is to put it, or
kept as the acknowledgement of a deletion; a bonus message is never put at all (`Unsent`). No step
makes a message unsent again (`Spends`), and a message that has been in a mailbox is not unsent:
so nothing is recorded about a message that is unsent (`Fresh`).
-/

namespace Dx.Kernel

open Function List Kernel.Frame

/-- The messages a frame is to put, or to keep until they are put. -/
def Frame.unsent : Frame → List MessageRef
  | .putMessage m => [m]
  | .sendMessage m _ => [m]
  | .putRequest m _ _ _ _ => [m]
  | .markForDeletion _ acknowledgement => acknowledgement.toList
  | _ => []

theorem Frame.mem_carries_of_mem_unsent {f : Frame} {m : MessageRef} (h : m ∈ f.unsent) :
    (m, false) ∈ f.carries := by
  cases f <;> simp_all [unsent, carries]

def Event.message : Event → MessageRef
  | .queued m => m
  | .woke m => m
  | .taken m => m
  | .received m => m
  | .failed m => m
  | .discarded m => m
  | .aborted m _ => m

/-- The messages that have been in a mailbox, or were discarded. -/
def logged (history : List Event) : List MessageRef :=
  (history.filter Event.isMailbox).map Event.message

@[simp] theorem logged_nil : logged [] = [] := rfl

@[simp] theorem logged_append (h h' : List Event) : logged (h ++ h') = logged h ++ logged h' := by
  simp [logged]

theorem logged_eq_nil {h : List Event} (hh : ∀ e ∈ h, e.isMailbox = false) : logged h = [] := by
  rw [logged, filter_eq_nil_iff.2 (by simpa using hh), map_nil]

namespace State

/-- The message is held by the running frame, is in the hands of a frame that is to put it, or is
an acknowledgement or a bonus message. -/
def Unsent (held : List MessageRef) (s : State) (m : MessageRef) : Prop :=
  m ∈ held ∨ (∃ t, ∃ f ∈ s.stack t, m ∈ f.unsent) ∨
    (∃ t, s.deletionAcknowledgement t = some m) ∨ ∃ t, s.bonusMessage t = some m

/-- No message is unsent again: it was before, or is a new one. -/
structure Spends (held : List MessageRef) (s s' : State) : Prop where
  next : s.nextMessage ≤ s'.nextMessage
  /-- What is unsent was so before, or is new. -/
  unsent : ∀ {m}, Unsent [] s' m → Unsent held s m ∨ s.nextMessage ≤ m

section

variable {held : List MessageRef} {s s' s'' : State} {t u : ThreadId} {m : MessageRef} {f : Frame}
  {a : Action}

theorem Unsent.of_nil (h : Unsent [] s m) : Unsent held s m := by
  rcases h with h | h
  · cases h
  · exact .inr h

theorem Spends.trans (h : Spends held s s') (h' : Spends [] s' s'') : Spends held s s'' where
  next := Nat.le_trans h.next h'.next
  unsent := fun hm => by
    rcases h'.unsent hm with hm | hm
    · exact h.unsent hm
    · exact .inr (Nat.le_trans h.next hm)

theorem Spends.of_eq (h : (s'.stack, s'.deletionAcknowledgement, s'.bonusMessage, s'.nextMessage) =
    (s.stack, s.deletionAcknowledgement, s.bonusMessage, s.nextMessage)) : Spends held s s' := by
  simp only [Prod.mk.injEq] at h
  obtain ⟨hs, ha, hb, hn⟩ := h
  refine ⟨hn ▸ Nat.le_refl _, fun hm => .inl ?_⟩
  have hm : Unsent held s' _ := hm.of_nil
  rwa [Unsent, hs, ha, hb] at hm

/-- The frames that are pushed put what the running frame held, or new messages. -/
theorem Spends.of_pushed {frames : List Frame} (hp : Pushed s frames s')
    (h : (s'.deletionAcknowledgement, s'.bonusMessage) =
      (s.deletionAcknowledgement, s.bonusMessage)) (hn : s.nextMessage ≤ s'.nextMessage)
    (hf : ∀ f ∈ frames, ∀ m ∈ f.unsent, m ∈ held ∨ m = s.nextMessage) : Spends held s s' where
  next := hn
  unsent := fun {m} hm => by
    simp only [Prod.mk.injEq] at h
    rw [Unsent, h.1, h.2] at hm
    rcases hm with hm | ⟨t, f, hmem, hm⟩ | hm
    · cases hm
    · rcases hp.mem_stack hmem with hmem | ⟨-, hmem⟩
      · exact .inl (.inr (.inl ⟨t, f, hmem, hm⟩))
      · rcases hf f hmem m hm with hm | rfl
        · exact .inl (.inl hm)
        · exact .inr (Nat.le_refl _)
    · exact .inl (.inr (.inr hm))

theorem spends_push (frames : List Frame) (s : State)
    (hf : ∀ f ∈ frames, ∀ m ∈ f.unsent, m ∈ held) : Spends held s (s.push frames) :=
  .of_pushed (pushed_push _ _) rfl (Nat.le_refl _) fun f hmem m hm => .inl (hf f hmem m hm)

theorem spends_allocatePush (message : Message) (frames : List Frame) (s : State)
    (hf : ∀ f ∈ frames, ∀ m ∈ f.unsent, m ∈ held ∨ m = s.nextMessage) :
    Spends held s ((s.allocateMessage message).push frames) :=
  .of_pushed (pushed_allocatePush _ _ _) rfl (Nat.le_succ _) hf

theorem spends_killOnOverflow (status : Status) (t : ThreadId) (s : State) :
    Spends held s (s.killOnOverflow status t) := by
  rw [killOnOverflow]
  split
  · exact spends_allocatePush _ _ _ (by simp [unsent])
  · exact .of_eq rfl

/-- A thread that is destroyed puts the acknowledgement it kept. -/
theorem spends_removeReference (t : ThreadId) (s : State) :
    Spends held s (s.removeReference t) := by
  rw [removeReference]
  split
  case isFalse => exact .of_eq rfl
  refine ⟨Nat.le_refl _, fun {m} hm => .inl ?_⟩
  rcases hm with hm | ⟨u, f, hmem, hm⟩ | ⟨u, hm⟩ | hm
  · cases hm
  · rcases (pushed_push _ _).mem_stack hmem with hmem | ⟨-, hmem⟩
    · exact .inr (.inl ⟨u, f, hmem, hm⟩)
    · rcases mem_append.1 hmem with hmem | hmem
      · obtain ⟨b, -, rfl⟩ := mem_map.1 hmem
        cases hm
      · obtain ⟨a, ha, rfl⟩ := mem_map.1 hmem
        obtain rfl := mem_singleton.1 hm
        exact .inr (.inr (.inl ⟨t, Option.mem_toList.1 ha⟩))
  · exact .inr (.inr (.inl ⟨u, of_update_none hm⟩))
  · exact .inr (.inr (.inr hm))

theorem Put.spends {status : Status} (h : Put s m status s') : Spends held s s' := by
  have hblock : ∀ (t : ThreadId) (x : State), Spends [] x (x.blockOn t m) := by
    intro t x
    obtain ⟨_, _, _, _, hb⟩ := blockOn_eq t m x
    rw [hb]
    exact .of_eq rfl
  have hpool : ∀ x : State, Spends [] x (x.addPending m) := fun _ => .of_eq rfl
  cases h with
  | refused => exact .of_eq rfl
  | woken =>
    have hready : Spends held s { s with
      threadState := update s.threadState (s.message m).destination .ready } := .of_eq rfl
    have hunblock : Spends held s (s.unblock (s.message m).destination m) :=
      hready.trans ((spends_removeReference _ _).trans (.of_eq rfl))
    have hhead : Spends [] (s.unblock (s.message m).destination m)
      ((s.unblock (s.message m).destination m).pushHead (s.message m).destination m) := .of_eq rfl
    exact ((hunblock.trans hhead).trans (hblock _ _)).trans (hpool _)
  | queued =>
    have htail : Spends held s (s.pushTail (s.message m).destination m) := .of_eq rfl
    exact (htail.trans (hblock _ _)).trans (hpool _)

theorem spends_deleteThread (m : MessageRef) (s : State) : Spends held s (s.deleteThread m) := by
  have hpush : Spends held s (s.push [.deleteMessage m]) := spends_push _ _ (by simp [unsent])
  simp only [deleteThread]
  split
  · exact hpush.trans (spends_allocatePush _ _ _ (by simp [unsent]))
  split
  · exact hpush.trans (spends_allocatePush _ _ _ (by simp [unsent]))
  have hadd (t : ThreadId) (x : State) : Spends [] x (x.addReference t) := .of_eq rfl
  split
  · exact (hpush.trans (hadd _ _)).trans
      (spends_allocatePush _ _ _ (by simp [unsent, deletionFrames, push, addReference]))
  · exact (hpush.trans (hadd _ _)).trans
      (spends_push _ _ (by simp [unsent, deletionFrames]))

theorem spends_abortMessages (l : List MessageRef) (s : State) :
    Spends held s (s.abortMessages l) := by
  cases l with
  | nil => exact .of_eq rfl
  | cons m rest =>
    have hpush : Spends held s (s.push [.deleteMessage m, .abortMessages rest]) :=
      spends_push _ _ (by simp [unsent])
    have hrecord : ∀ (e : Event) (x : State), Spends [] x (x.record e) := fun _ _ => .of_eq rfl
    simp only [abortMessages]
    split
    · exact (hpush.trans (hrecord _ _)).trans
        (spends_allocatePush _ _ _ (by simp [unsent, record]))
    · exact hpush

/-- Marking a thread for deletion keeps the acknowledgement, and takes the bonus message. -/
theorem spends_markForDeletion (v : ThreadId) (a : Option MessageRef) (s : State) :
    Spends a.toList s (s.markForDeletion v a) where
  next := Nat.le_refl _
  unsent := fun {m} hm => by
    refine .inl ?_
    rcases hm with hm | hm | ⟨u, hm⟩ | ⟨u, hm⟩
    · cases hm
    · exact .inr (.inl hm)
    · cases a with
      | none => exact .inr (.inr (.inl ⟨u, hm⟩))
      | some a =>
        have hm : update s.deletionAcknowledgement v (some a) u = some m := hm
        rw [update_apply] at hm
        split at hm
        · cases hm
          exact .inl (mem_singleton.2 rfl)
        · exact .inr (.inr (.inl ⟨u, hm⟩))
    · exact .inr (.inr (.inr ⟨u, of_update_none hm⟩))

theorem spends_continuation (m : MessageRef) (r : Reception) (s : State) :
    ∀ f ∈ s.continuation m r, ∀ x ∈ f.unsent, x ∈ held := by
  intro f hf x hx
  rcases mem_continuation hf with rfl | ⟨rfl, -⟩ | ⟨_, _, -, rfl | rfl⟩ <;> cases hx

/-- The scheduler puts nothing; it takes the bonus message of the winner. -/
theorem spends_yield {lot : ℕ} (hy : s.yield lot = some s') : Spends held s s' := by
  obtain ⟨t, s₁, hsel, rfl⟩ := yield_eq_some hy
  have hdrawn : ∀ {w s₁}, Drawn lot s w s₁ → Spends held s (s₁.switchTo t) := by
    rintro w s₁ (_ | _ | ⟨m, b⟩)
    · exact .of_eq rfl
    · exact .of_eq rfl
    · refine ⟨Nat.le_refl _, fun {x} hm => .inl ?_⟩
      rcases hm with hm | hm | hm | ⟨u, hm⟩
      · cases hm
      · exact .inr (.inl hm)
      · exact .inr (.inr (.inl hm))
      · exact .inr (.inr (.inr ⟨u, of_update_none hm⟩))
  cases hsel with
  | handoff => exact .of_eq rfl
  | winner _ hd | passed _ hd => exact hdrawn hd

theorem spends_keepTicket (s : State) : Spends [] s s.keepTicket := by
  refine keepTicket_cases (.of_eq rfl) fun _ => ⟨Nat.le_succ _, fun {m} hm => ?_⟩
  rcases hm with hm | hm | hm | ⟨u, hm⟩
  · cases hm
  · exact .inl (.inr (.inl hm))
  · exact .inl (.inr (.inr (.inl hm)))
  · have hm : update s.bonusMessage s.currentThread (some s.nextMessage) u = some m := hm
    rw [update_apply] at hm
    split at hm
    · cases hm
      exact .inr (Nat.le_refl _)
    · exact .inl (.inr (.inr (.inr ⟨u, hm⟩)))

theorem Executed.spends {o : Outcome} (hexec : Executed s o f s') : Spends f.unsent s s' := by
  have hnone : ∀ {frames : List Frame}, (∀ g ∈ frames, g.unsent = []) →
      ∀ g ∈ frames, ∀ m ∈ g.unsent, m ∈ f.unsent := fun h g hg m hm => by
    rw [h g hg] at hm
    cases hm
  have hpush {frames : List Frame} (hp : Pushed s frames s')
      (h : (s'.deletionAcknowledgement, s'.bonusMessage) =
        (s.deletionAcknowledgement, s.bonusMessage)) (hn : s'.nextMessage = s.nextMessage)
      (hf : ∀ g ∈ frames, ∀ m ∈ g.unsent, m ∈ f.unsent) : Spends f.unsent s s' :=
    .of_pushed hp h (Nat.le_of_eq hn.symm) fun g hg m hm => .inl (hf g hg m hm)
  cases hexec with
  | put hp => exact hp.spends
  | putRefused =>
    exact (spends_push _ _ (by simp [unsent])).trans (spends_killOnOverflow _ _ _)
  | send | get | remove | delete | unlink | table =>
    exact hpush ⟨rfl, rfl⟩ rfl rfl (by simp [unsent])
  | request hp => exact hp.spends.trans (spends_push _ _ (by simp [unsent]))
  | @requestRefused m recipient requestId interrupts deletes =>
    refine (spends_push _ _ (hnone ?_)).trans (spends_killOnOverflow _ _ _)
    cases deletes <;> simp [unsent]
  | yield hy => exact spends_yield hy
  | wait | noReply | reply => exact spends_push _ _ (by simp [unsent])
  | @deliver m r => exact hpush ⟨rfl, rfl⟩ rfl rfl (spends_continuation m r s)
  | @undeliverable m r status =>
    have hrecord : Spends [] s (s.record (.failed m)) := .of_eq rfl
    have hpush : Spends [] (s.record (.failed m))
        ((s.record (.failed m)).push (.deleteMessage m :: failure status r)) := by
      refine spends_push _ _ ?_
      cases r <;> simp [failure, unsent]
    rw [abortRequest]
    split
    · exact (hrecord.trans hpush).trans (spends_allocatePush _ _ _ (by simp [unsent]))
    · exact hrecord.trans hpush
  | abortSend | wake => exact spends_allocatePush _ _ _ (by simp [unsent])
  | drop => exact spends_removeReference _ _
  | deleteThread => exact spends_deleteThread _ _
  | mark => exact (spends_markForDeletion _ _ s).trans (spends_push _ _ (by simp [unsent]))
  | abort => exact spends_abortMessages _ _
  | _ => exact .of_eq rfl

theorem Unsent.of_pop {rest : List Frame} (hs : s.stack s.currentThread = f :: rest)
    (h : Unsent f.unsent (s.pop rest) m) : Unsent [] s m := by
  rcases h with hm | ⟨t, g, hmem, hm⟩ | hm
  · exact .inr (.inl ⟨s.currentThread, f, hs ▸ mem_cons_self, hm⟩)
  · exact .inr (.inl ⟨t, g, mem_stack_of_pop hs hmem, hm⟩)
  · exact .inr (.inr hm)

theorem spends_createThread (hk : Known s) {mask : ℕ} (ht : t ∉ s.threads) :
    Spends [] s (s.createThread t mask) := by
  have hidle := hk.idle ht
  refine .of_eq ?_
  show (update s.stack t [], update s.deletionAcknowledgement t none,
    update s.bonusMessage t none, s.nextMessage) = _
  have hack : update s.deletionAcknowledgement t none = s.deletionAcknowledgement := by
    rw [← hidle.acknowledgement, update_eq_self]
  have hbonus : update s.bonusMessage t none = s.bonusMessage := by
    rw [← hidle.bonus, update_eq_self]
  rw [hack, hbonus, ← hidle.stack, update_eq_self]

theorem Called.spends {c : SystemCall} (hc : Called s c s') (hk : Known s) : Spends [] s s' := by
  cases hc with
  | failed | register => exact .of_eq rfl
  | @send _ t | @sendAndReceive _ t =>
    have hadd : Spends [] s (s.addReference t) := .of_eq rfl
    exact hadd.trans (spends_allocatePush _ _ _ (by simp [unsent, addReference]))
  | receive => exact spends_push _ _ (by simp [unsent])
  | delete => exact spends_allocatePush _ _ _ (by simp [unsent])
  | create hnew =>
    exact (spends_createThread hk hnew).trans (spends_push _ _ (by simp [unsent]))

/-- **No step makes a message unsent again.** -/
theorem Stepped.spends (hs : Stepped s a s') (hk : Known s) : Spends [] s s' := by
  cases hs with
  | run hstack hexec =>
    have h := hexec.spends
    exact ⟨h.next, fun hm => (h.unsent hm).imp_left (.of_pop hstack)⟩
  | call _ _ _ hc => exact hc.spends hk
  | cleanupLoop | nullLoop => exact spends_push _ _ (by simp [unsent])
  | tick => exact .of_eq rfl
  | quantum _ _ hy =>
    have htick : Spends [] s s.tick := .of_eq rfl
    exact htick.trans ((spends_keepTicket _).trans (spends_yield hy))
  | device => exact .of_pushed (pushed_device _ s) rfl (Nat.le_refl _) (by simp [unsent])

/-! ### Messages about which nothing is recorded -/

theorem mem_stack_push (frames : List Frame) (s : State) (hf : f ∈ frames) :
    f ∈ (s.push frames).stack s.currentThread := by
  rw [(pushed_push frames s).1, update_self]
  exact mem_append_left _ hf

/-- A message in a mailbox is not unsent, nor is one that has been taken from a mailbox, and not yet
from the pool. -/
theorem HasOwners.not_unsent {p : Place} (ho : HasOwners False [] s) (hat : s.At [] m p)
    (hpool : p.pooled = true) (hbonus : ∀ t, p ≠ .bonus t) : ¬ Unsent [] s m := by
  obtain ⟨place, ho⟩ := ho
  have hp : p ≠ .free := by rintro rfl; cases hpool
  have hsame {q : Place} (hq : q ≠ .free) (hat' : s.At [] m q) : p = q :=
    ho.at_unique hp hq hat hat'
  rintro (h | ⟨u, f, hf, h⟩ | ⟨u, h⟩ | ⟨u, h⟩)
  · cases h
  · have hat' : s.At [] m (.stack u false) := mem_carriedBy.2 (.inr (mem_flatMap.2
      ⟨f, hf, mem_carries_of_mem_unsent h⟩))
    rw [hsame (by simp) hat'] at hpool
    cases hpool
  · have hat' : s.At [] m (.acknowledgement u) := h
    rw [hsame (by simp) hat'] at hpool
    cases hpool
  · have hat' : s.At [] m (.bonus u) := h
    exact hbonus u (hsame (by simp) hat')

theorem HasOwners.not_unsent_of_queue (ho : HasOwners False [] s) (hm : m ∈ s.messageQueue t) :
    ¬ Unsent [] s m := by
  have hat : s.At [] m (.mailbox t) := hm
  exact HasOwners.not_unsent ho hat rfl (by simp)

theorem HasOwners.not_unsent_of_frame (ho : HasOwners False [] s) (hf : f ∈ s.stack t)
    (hm : (m, true) ∈ f.carries) : ¬ Unsent [] s m := by
  have hat : s.At [] m (.stack t true) := mem_carriedBy.2 (.inr (mem_flatMap.2 ⟨f, hf, hm⟩))
  exact HasOwners.not_unsent ho hat rfl (by simp)

/-- What is recorded of the mailboxes is about messages that are there and are not unsent. -/
structure Fresh (s : State) : Prop where
  lt : ∀ m ∈ logged s.history, m < s.nextMessage
  sent : ∀ m ∈ logged s.history, ¬ Unsent [] s m

/-- What a step records of the mailboxes is about messages that are now in a mailbox, or have just
been taken from one. -/
theorem Mail.logged (hmail : Mail s s') (hreg : Regular s) (hreg' : Regular s') :
    ∃ l, Kernel.logged s'.history = Kernel.logged s.history ++ l ∧
      ∀ m ∈ l, m < s.nextMessage ∧ ¬ Unsent [] s' m := by
  have hlt : ∀ {t f m b}, f ∈ s.stack t → (m, b) ∈ f.carries → m < s.nextMessage :=
    fun hf hm => hreg.sound.owners.lt_stack hf hm
  have hput {f : Frame} {rest : List Frame} {m : MessageRef} {t : ThreadId}
      (hs : s.stack s.currentThread = f :: rest) (hf : f.carries = [(m, false)])
      (hm : m ∈ s'.messageQueue t)
      (hlog : Kernel.logged s'.history = Kernel.logged s.history ++ [m]) :
      ∃ l, Kernel.logged s'.history = Kernel.logged s.history ++ l ∧
        ∀ m ∈ l, m < s.nextMessage ∧ ¬ Unsent [] s' m := by
    refine ⟨[m], hlog, forall_mem_singleton.2 ⟨?_, hreg'.sound.owners.not_unsent_of_queue hm⟩⟩
    exact hlt (hs ▸ mem_cons_self) (hf ▸ mem_singleton.2 rfl)
  cases hmail with
  | quiet hq =>
    obtain ⟨es, he, hes⟩ := hq.events
    exact ⟨[], by rw [he, logged_append, logged_eq_nil hes], by simp⟩
  | sent | gaveUp => exact ⟨[], (append_nil _).symm, by simp⟩
  | @woken m rest hs =>
    refine hput (t := (s.message m).destination) hs rfl ?_ (logged_append _ _)
    simp [answered, State.pop]
  | @queued m rest hs =>
    refine hput (t := (s.message m).destination) hs rfl ?_ (logged_append _ _)
    simp [enqueued, State.pop]
  | @requested m _ _ _ _ rest hs =>
    refine hput (t := (s.message m).destination) hs rfl ?_ (logged_append _ _)
    simp [State.requested, State.push, State.pop]
  | @taken r m queue rest hs hq =>
    refine ⟨[m], logged_append _ _, forall_mem_singleton.2 ⟨?_, ?_⟩⟩
    · exact hreg.sound.owners.lt_queue (hq ▸ mem_cons_self)
    · refine hreg'.sound.owners.not_unsent_of_frame (t := s.currentThread)
        (f := .removePending m r) ?_ (mem_singleton.2 rfl)
      exact mem_stack_push _ _ mem_cons_self
  | @marked v a rest hs =>
    refine ⟨s.leftoverMessages v, ?_, fun m hm => ⟨?_, ?_⟩⟩
    · show Kernel.logged (s.history ++ (s.leftoverMessages v).map Event.discarded) = _
      rw [logged_append]
      congr 1
      simp [Kernel.logged, filter_map, comp_def, Event.isMailbox, Event.message]
    · rcases mem_append.1 hm with hm | hm
      · exact hreg.sound.owners.lt_queue hm
      · exact hreg.sound.owners.lt_bonus (Option.mem_toList.1 hm)
    · refine hreg'.sound.owners.not_unsent_of_frame (t := s.currentThread)
        (f := .unlinkMessages (s.leftoverMessages v)) ?_ (mem_map.2 ⟨m, hm, rfl⟩)
      exact mem_stack_push _ _ mem_cons_self
  | @dropped t rest hs =>
    obtain ⟨_, _, _, _, _, _, hr⟩ := removeReference_eq t (s.pop rest)
    exact ⟨[], by rw [hr]; exact (append_nil _).symm, by simp⟩

theorem Fresh.step (h : Fresh s) (hreg : Regular s) (hs : Stepped s a s') : Fresh s' := by
  obtain ⟨l, hl, hnew⟩ := (hs.mail hreg).logged hreg (hreg.step hs)
  have hspends := hs.spends hreg.sound.known
  refine ⟨fun m hm => ?_, fun m hm hun => ?_⟩
  · rw [hl] at hm
    refine Nat.lt_of_lt_of_le ?_ hspends.next
    exact (mem_append.1 hm).elim (h.lt m) fun hm => (hnew m hm).1
  · rw [hl] at hm
    rcases mem_append.1 hm with hm | hm
    · rcases hspends.unsent hun with hold | hold
      · exact h.sent m hm hold
      · exact Nat.not_le_of_lt (h.lt m hm) hold
    · exact (hnew m hm).2 hun

end

end State

end Dx.Kernel
