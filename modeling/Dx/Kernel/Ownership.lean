import Dx.Kernel.Machine

/-!
# Who owns a message

A message is at each moment in one place: in a mailbox, the bonus message of a thread, the
acknowledgement a thread is to be destroyed with, or in the hands of the code a thread is
running, that is on its stack. Nothing in the kernel records the place; that there is one is
what keeps a message from being put twice or deleted twice.

`Owned tight place held s` says that `place` gives the place of every message, where `held` are the
messages in the hands of the frame that is being executed and is no longer on the stack. Each
primitive of the machine moves a message from one place to another, and each frame is a
composition of primitives.

A place also says whether the message is a ticket of the lottery, so the pool of pending
messages is read off it.

Some code loses a message: it takes the last pointer to it and does not delete it. The
parameter `tight` asks that nothing has been lost so far; the steps that may lose a message keep
it only under the condition `Keeps`.
-/

namespace Dx.Kernel

open Library Function List

inductive Place
  /-- It does not exist, or has been lost. -/
  | free
  /-- In the mailbox of `t`. -/
  | mailbox (t : ThreadId)
  /-- It is the bonus message of `t`. -/
  | bonus (t : ThreadId)
  /-- It is the acknowledgement of the deletion of `t`. -/
  | acknowledgement (t : ThreadId)
  /-- On the stack of `t`; the flag says whether it is still in the pool. -/
  | stack (t : ThreadId) (pooled : Bool)
deriving DecidableEq

def Place.pooled : Place → Bool
  | .free => false
  | .mailbox _ => true
  | .bonus _ => true
  | .acknowledgement _ => false
  | .stack _ pooled => pooled

/-- The messages a frame is to put, deliver or delete; the flag says whether the message is
still in the pool. -/
def Frame.carries : Frame → List (MessageRef × Bool)
  | .putMessage m => [(m, false)]
  | .sendMessage m _ => [(m, false)]
  | .putRequest m _ _ _ _ => [(m, false)]
  | .yield => []
  | .restoreInterrupts _ => []
  | .getMessage _ => []
  | .removePending m _ => [(m, true)]
  | .deliverPayload m _ => [(m, false)]
  | .abortSendMessage _ _ _ => []
  | .returnReply _ _ m => [(m, false)]
  | .deleteMessage m => [(m, false)]
  | .dropReference _ => []
  | .deleteThread m => [(m, false)]
  | .markForDeletion _ acknowledgement => acknowledgement.toList.map fun m => (m, false)
  | .unlinkMessages leftover => leftover.map fun m => (m, true)
  | .abortMessages leftover => leftover.map fun m => (m, false)
  | .removeFromTable _ => []
  | .wakeInterruptHandlers _ _ _ => []

def carried (frames : List Frame) : List (MessageRef × Bool) := frames.flatMap Frame.carries

@[simp] theorem carried_nil : carried [] = [] := rfl

@[simp] theorem carried_cons (f : Frame) (fs : List Frame) :
    carried (f :: fs) = f.carries ++ carried fs := rfl

@[simp] theorem carried_append (fs gs : List Frame) :
    carried (fs ++ gs) = carried fs ++ carried gs := by
  simp [carried]

namespace State

/-- The messages in the hands of thread `t`, when the running thread holds `held` besides what
is on its stack. -/
def carriedBy (held : List (MessageRef × Bool)) (s : State) (t : ThreadId) :
    List (MessageRef × Bool) :=
  (if t = s.currentThread then held else []) ++ carried (s.stack t)

/-- The message `m` is in the place `p`. -/
def At (held : List (MessageRef × Bool)) (s : State) (m : MessageRef) : Place → Prop
  | .free => True
  | .mailbox t => m ∈ s.messageQueue t
  | .bonus t => s.bonusMessage t = some m
  | .acknowledgement t => s.deletionAcknowledgement t = some m
  | .stack t b => (m, b) ∈ s.carriedBy held t

/-- `place` gives the place of every message. -/
structure Owned (tight : Prop) (place : MessageRef → Place) (held : List (MessageRef × Bool))
    (s : State) : Prop where
  /-- A message is in its place, and in no other. -/
  at_iff : ∀ {m p}, p ≠ .free → (s.At held m p ↔ place m = p)
  mailbox_nodup : ∀ t, (s.messageQueue t).Nodup
  /-- A message is in the hands of a thread once. -/
  stack_nodup : ∀ t, ((s.carriedBy held t).map Prod.fst).Nodup
  /-- A message that has not been allocated is nowhere. -/
  fresh : ∀ {m}, s.nextMessage ≤ m → place m = .free
  /-- What is in the pool. -/
  pool : ∀ {m}, m ∈ s.pendingMessages.items ↔ (place m).pooled = true
  packed : s.pendingMessages.Packed
  /-- A message that has a place is allocated. -/
  allocated : ∀ {m}, place m ≠ .free → m ∈ s.allocated
  /-- Unless messages may be lost, a message that is allocated has a place. -/
  kept : tight → ∀ {m}, m ∈ s.allocated → place m ≠ .free
  allocated_nodup : s.allocated.Nodup
  /-- The next message is a new one. -/
  allocated_lt : ∀ {m}, m ∈ s.allocated → m < s.nextMessage

/-- The fields that say where the messages are. -/
def messages (s : State) :=
  (s.messageQueue, s.bonusMessage, s.deletionAcknowledgement, s.stack, s.currentThread,
    s.pendingMessages, s.nextMessage, s.allocated)

section

variable {tight : Prop} {place : MessageRef → Place} {held held' : List (MessageRef × Bool)}
  {s s' : State} {t : ThreadId} {m : MessageRef} {frames : List Frame} {f : Frame} {b : Bool}
  {l : List MessageRef} {q p : Place} {x : MessageRef × Bool} {status : Status}

/-- What the running frame holds and what is on the stack may change as long as together they
are the same. -/
theorem Owned.reheld (h : Owned tight place held s)
    (hc : ∀ t, (s'.carriedBy held' t).Perm (s.carriedBy held t))
    (hs : (s'.messageQueue, s'.bonusMessage, s'.deletionAcknowledgement, s'.pendingMessages,
      s'.nextMessage, s'.allocated) = (s.messageQueue, s.bonusMessage, s.deletionAcknowledgement,
      s.pendingMessages, s.nextMessage, s.allocated)) : Owned tight place held' s' := by
  simp only [Prod.mk.injEq] at hs
  obtain ⟨h1, h2, h3, h6, h7, h8⟩ := hs
  have hat : ∀ m p, s'.At held' m p ↔ s.At held m p := by
    intro m p
    cases p <;> simp [At, h1, h2, h3, (hc _).mem_iff]
  exact
    { at_iff := fun hp => (hat _ _).trans (h.at_iff hp)
      mailbox_nodup := by rw [h1]; exact h.mailbox_nodup
      stack_nodup := fun t => (((hc t).map _).nodup_iff).2 (h.stack_nodup t)
      fresh := by rw [h7]; exact h.fresh
      pool := by rw [h6]; exact h.pool
      packed := by rw [h6]; exact h.packed
      allocated := by rw [h8]; exact h.allocated
      kept := by rw [h8]; exact h.kept
      allocated_nodup := by rw [h8]; exact h.allocated_nodup
      allocated_lt := by rw [h7, h8]; exact h.allocated_lt }

/-- Only the fields that say where the messages are matter. -/
theorem Owned.congr (h : Owned tight place held s) (hs : s'.messages = s.messages) :
    Owned tight place held s' := by
  simp only [messages, Prod.mk.injEq] at hs
  obtain ⟨h1, h2, h3, h4, h5, h6, h7, h8⟩ := hs
  refine h.reheld (fun t => List.Perm.of_eq ?_) (by rw [h1, h2, h3, h6, h7, h8])
  rw [carriedBy, carriedBy, h4, h5]

theorem Owned.perm (h : Owned tight place held s) (hp : held'.Perm held) : Owned tight place held' s := by
  refine h.reheld (fun t => ?_) rfl
  simp only [carriedBy]
  split
  · exact hp.append_right _
  · exact List.Perm.refl _

theorem Owned.push (h : Owned tight place (held ++ carried frames) s) :
    Owned tight place held (s.push frames) := by
  refine h.reheld (fun t => List.Perm.of_eq ?_) rfl
  by_cases ht : t = s.currentThread
  · subst ht
    simp [carriedBy, State.push]
  · simp [carriedBy, State.push, ht]

/-- The frame that is taken from the stack to be executed holds what it carries. -/
theorem Owned.pop {rest : List Frame} (h : Owned tight place [] s)
    (hs : s.stack s.currentThread = f :: rest) : Owned tight place f.carries (s.pop rest) := by
  refine h.reheld (fun t => List.Perm.of_eq ?_) rfl
  by_cases ht : t = s.currentThread
  · subst ht
    simp [carriedBy, State.pop, hs]
  · simp [carriedBy, State.pop, ht]

theorem Owned.place_held (h : Owned tight place held s) (hm : (m, b) ∈ held) :
    place m = .stack s.currentThread b :=
  (h.at_iff (by simp)).1 (show (m, b) ∈ s.carriedBy held s.currentThread by simp [carriedBy, hm])

theorem Owned.lt_nextMessage (h : Owned tight place held s) (hm : place m ≠ .free) :
    m < s.nextMessage := by
  by_contra hle
  exact hm (h.fresh (Nat.le_of_not_lt hle))

/-! ### Moving messages -/

/-- The messages `l` are now in the place `p`. -/
def relocate (place : MessageRef → Place) (l : List MessageRef) (p : Place) (m : MessageRef) :
    Place :=
  if m ∈ l then p else place m

/-- **Moving messages.** When the messages `l` are in the place `q` after a change, and every
other message is where it was, then the places are known after the change. -/
theorem Owned.move (h : Owned tight place held s)
    (hat : ∀ x p, p ≠ .free → (s'.At held' x p ↔ if x ∈ l then q = p else s.At held x p))
    (hmailbox : ∀ t, (s'.messageQueue t).Nodup)
    (hstack : ∀ t, ((s'.carriedBy held' t).map Prod.fst).Nodup)
    (hnext : s.nextMessage ≤ s'.nextMessage) (hl : ∀ x ∈ l, x < s'.nextMessage)
    (hpool : ∀ x, x ∈ s'.pendingMessages.items ↔
      if x ∈ l then q.pooled = true else x ∈ s.pendingMessages.items)
    (hpacked : s'.pendingMessages.Packed)
    (halloc : (s'.allocated = s.allocated ∧ ∀ x ∈ l, place x ≠ .free) ∨
      s'.allocated = s.allocated ++ l ∧ l.Nodup ∧ ∀ x ∈ l, s.nextMessage ≤ x)
    (htight : tight → q ≠ .free) : Owned tight (relocate place l q) held' s' where
  at_iff := by
    intro x p hp
    rw [hat x p hp, relocate]
    split
    · rfl
    · exact h.at_iff hp
  mailbox_nodup := hmailbox
  stack_nodup := hstack
  fresh := by
    intro x hx
    rw [relocate, if_neg]
    · exact h.fresh (Nat.le_trans hnext hx)
    · exact fun hmem => absurd (hl x hmem) (Nat.not_lt.2 hx)
  pool := by
    intro x
    rw [hpool, relocate]
    split
    · rfl
    · exact h.pool
  packed := hpacked
  allocated := by
    intro x hx
    rw [relocate] at hx
    rcases halloc with ⟨ha, hl⟩ | ⟨ha, -, -⟩
    · rw [ha]
      split at hx
      case isTrue hmem => exact h.allocated (hl x hmem)
      case isFalse => exact h.allocated hx
    · rw [ha, mem_append]
      split at hx
      case isTrue hmem => exact .inr hmem
      case isFalse => exact .inl (h.allocated hx)
  kept := by
    intro ht x hx
    rw [relocate]
    split
    case isTrue => exact htight ht
    case isFalse hmem =>
      refine h.kept ht ?_
      rcases halloc with ⟨ha, -⟩ | ⟨ha, -, -⟩
      · exact ha ▸ hx
      · rw [ha, mem_append] at hx
        exact hx.resolve_right hmem
  allocated_nodup := by
    rcases halloc with ⟨ha, -⟩ | ⟨ha, hnd, hnew⟩
    · exact ha ▸ h.allocated_nodup
    · rw [ha, nodup_append']
      exact ⟨h.allocated_nodup, hnd, fun x hx hx' =>
        Nat.not_lt.2 (hnew x hx') (h.allocated_lt hx)⟩
  allocated_lt := by
    intro x hx
    rcases halloc with ⟨ha, -⟩ | ⟨ha, -, -⟩
    · exact Nat.lt_of_lt_of_le (h.allocated_lt (ha ▸ hx)) hnext
    · rw [ha, mem_append] at hx
      rcases hx with hx | hx
      · exact Nat.lt_of_lt_of_le (h.allocated_lt hx) hnext
      · exact hl x hx

theorem carriedBy_nil (s : State) (t : ThreadId) : s.carriedBy [] t = carried (s.stack t) := by
  rw [carriedBy]
  split <;> rfl

theorem mem_carriedBy :
    x ∈ s.carriedBy held t ↔ t = s.currentThread ∧ x ∈ held ∨ x ∈ carried (s.stack t) := by
  simp only [carriedBy, mem_append]
  split <;> simp [*]

theorem mem_carriedBy_cons {y : MessageRef × Bool} : x ∈ s.carriedBy (y :: held) t ↔
    t = s.currentThread ∧ x = y ∨ x ∈ s.carriedBy held t := by
  simp only [mem_carriedBy, mem_cons]
  tauto

theorem Owned.not_mem_carriedBy {b' : Bool} (h : Owned tight place ((m, b) :: held) s) :
    (m, b') ∉ s.carriedBy held t := by
  intro hm
  have hpl := h.place_held (m := m) (b := b) (by simp)
  by_cases ht : t = s.currentThread
  · have hnd := h.stack_nodup t
    simp only [carriedBy, if_pos ht, cons_append, map_cons, nodup_cons] at hnd hm
    exact hnd.1 (mem_map.2 ⟨_, hm, rfl⟩)
  · have hat : s.At ((m, b) :: held) m (.stack t b') := mem_carriedBy_cons.2 (.inr hm)
    rw [h.at_iff (by simp), hpl] at hat
    cases hat
    exact ht rfl

/-- What is left in the hands of the threads when the running frame lets go of a message. -/
theorem Owned.nodup_tail (h : Owned tight place ((m, b) :: held) s) (t : ThreadId) :
    ((s.carriedBy held t).map Prod.fst).Nodup := by
  refine (h.stack_nodup t).sublist (List.Sublist.map _ ?_)
  simp only [carriedBy]
  split
  · exact (sublist_cons_self _ _).append_right _
  · exact List.Sublist.refl _

theorem Owned.at_unique (h : Owned tight place held s) (hp : p ≠ .free) (hq : q ≠ .free)
    (hmp : s.At held m p) (hmq : s.At held m q) : p = q :=
  ((h.at_iff hp).1 hmp).symm.trans ((h.at_iff hq).1 hmq)

theorem Owned.not_at_of_ne (h : Owned tight place held s) (hp : p ≠ .free) (hq : q ≠ .free)
    (hm : s.At held m q) (hne : p ≠ q) : ¬ s.At held m p :=
  fun hm' => hne (h.at_unique hp hq hm' hm)

theorem Owned.at_elsewhere {x : MessageRef} (h : Owned tight place held s) (hp : p ≠ .free)
    (hq : q ≠ .free) (hl : x ∈ l → s.At held x q) (hne : p ≠ q) :
    s.At held x p ↔ x ∉ l ∧ s.At held x p :=
  (and_iff_right_of_imp fun hx hmem => h.not_at_of_ne hp hq (hl hmem) hne hx).symm

/-- Where the messages are that the running frame has not let go of. -/
theorem Owned.at_tail {x : MessageRef} (h : Owned tight place ((m, b) :: held) s) (hp : p ≠ .free) :
    s.At held x p ↔ x ≠ m ∧ s.At ((m, b) :: held) x p := by
  have hm : s.At ((m, b) :: held) m (.stack s.currentThread b) :=
    mem_carriedBy_cons.2 (.inl ⟨rfl, rfl⟩)
  cases p with
  | free => exact absurd rfl hp
  | stack t b' =>
    show _ ∈ _ ↔ x ≠ m ∧ _ ∈ _
    rw [mem_carriedBy_cons]
    constructor
    · intro hx
      exact ⟨fun e => h.not_mem_carriedBy (e ▸ hx), .inr hx⟩
    · rintro ⟨hne, ⟨-, he⟩ | hx⟩
      · exact absurd (congrArg Prod.fst he) hne
      · exact hx
  | _ =>
    refine ⟨fun hx => ⟨?_, hx⟩, fun hx => hx.2⟩
    rintro rfl
    exact h.not_at_of_ne hp (by simp) hm (by simp) hx

/-- **Putting a message somewhere.** The running frame lets go of a message that is not in the
pool, which is then in the place `q`. -/
theorem Owned.letGo (h : Owned tight place ((m, false) :: held) s)
    (hat : ∀ x p, p ≠ .free → (s'.At held x p ↔ x = m ∧ q = p ∨ s.At held x p))
    (hmailbox : ∀ t, (s'.messageQueue t).Nodup)
    (hs : (s'.stack, s'.currentThread, s'.nextMessage, s'.allocated) =
      (s.stack, s.currentThread, s.nextMessage, s.allocated))
    (hpool : s'.pendingMessages =
      if q.pooled then s.pendingMessages.add m else s.pendingMessages)
    (htight : tight → q ≠ .free) : Owned tight (relocate place [m] q) held s' := by
  simp only [Prod.mk.injEq] at hs
  obtain ⟨h1, h2, h3, h4⟩ := hs
  have hpl := h.place_held (m := m) (b := false) (by simp)
  have hm : m ∉ s.pendingMessages.items := by simp [h.pool, hpl, Place.pooled]
  refine h.move ?_ hmailbox ?_ (Nat.le_of_eq h3.symm) ?_ ?_ ?_ (.inl ⟨h4, ?_⟩) htight
  · intro x p hp
    rw [hat x p hp, h.at_tail hp]
    by_cases hx : x = m <;> simp [hx]
  · intro t
    simpa [carriedBy, h1, h2] using h.nodup_tail t
  · intro x hx
    rw [mem_singleton.1 hx, h3]
    exact h.lt_nextMessage (by simp [hpl])
  · intro x
    rw [hpool]
    by_cases hx : x = m
    · subst hx
      split <;> simp [*]
    · split <;> simp [hx]
  · rw [hpool]
    split
    · exact h.packed.add hm
    · exact h.packed
  · intro x hx
    rw [mem_singleton.1 hx, hpl]
    simp

theorem Owned.forget (h : Owned tight place ((m, false) :: held) s) (htight : ¬ tight) :
    Owned tight (relocate place [m] .free) held s := by
  refine h.letGo (fun x p hp => ?_) h.mailbox_nodup rfl rfl fun ht => absurd ht htight
  simp [hp.symm]

theorem Owned.loosen (h : Owned tight place held s) : Owned False place held s :=
  { h with kept := False.elim }

section

variable (h : Owned tight place ((m, false) :: held) s)
include h

theorem Owned.delete :
    Owned tight (relocate place [m] .free) held
      { s with allocated := s.allocated.erase m } := by
  refine { h.loosen.forget id with allocated := ?_, kept := ?_, allocated_nodup := ?_,
                                   allocated_lt := ?_ }
  · intro x hx
    rw [relocate] at hx
    split at hx
    · exact absurd rfl hx
    case isFalse hmem =>
      exact (mem_erase_of_ne (by simpa using hmem)).2 (h.allocated hx)
  · intro ht x hx
    rw [h.allocated_nodup.mem_erase_iff] at hx
    rw [relocate, if_neg (by simpa using hx.1)]
    exact h.kept ht hx.2
  · exact h.allocated_nodup.erase m
  · exact fun hx => h.allocated_lt (mem_of_mem_erase hx)

theorem Owned.enqueue {q : List MessageRef} (hq : q.Perm (m :: s.messageQueue t)) :
    Owned tight (relocate place [m] (.mailbox t)) held
      ({ s with messageQueue := update s.messageQueue t q }.addPending m) := by
  have hm : ∀ t, m ∉ s.messageQueue t := fun t hmem =>
    ((h.at_tail (p := .mailbox t) (by simp)).1 hmem).1 rfl
  refine h.letGo ?_ ?_ rfl rfl fun _ => by simp
  · intro x p hp
    cases p with
    | free => exact absurd rfl hp
    | mailbox u =>
      show x ∈ update s.messageQueue t q u ↔ _
      by_cases hu : u = t
      · subst hu
        simp [hq.mem_iff, At]
      · simp [update_of_ne hu, Ne.symm hu, At]
    | _ => simp [At, mem_carriedBy, addPending]
  · intro u
    refine update_intro (fun hu => hq.nodup_iff.2 ?_) fun _ => h.mailbox_nodup u
    exact nodup_cons.2 ⟨hm t, h.mailbox_nodup t⟩

theorem Owned.setBonus (hb : s.bonusMessage t = none) :
    Owned tight (relocate place [m] (.bonus t)) held
      ({ s with bonusMessage := update s.bonusMessage t (some m) }.addPending m) := by
  refine h.letGo ?_ h.mailbox_nodup rfl rfl fun _ => by simp
  intro x p hp
  cases p with
  | free => exact absurd rfl hp
  | bonus u =>
    show update s.bonusMessage t (some m) u = some x ↔ _
    by_cases hu : u = t
    · subst hu
      simp [At, hb, eq_comm]
    · simp [update_of_ne hu, Ne.symm hu, At]
  | _ => simp [At, mem_carriedBy, addPending]

theorem Owned.setAcknowledgement (ha : s.deletionAcknowledgement t = none) :
    Owned tight (relocate place [m] (.acknowledgement t)) held
      { s with
        deletionAcknowledgement := update s.deletionAcknowledgement t (some m) } := by
  refine h.letGo ?_ h.mailbox_nodup rfl rfl fun _ => by simp
  intro x p hp
  cases p with
  | free => exact absurd rfl hp
  | acknowledgement u =>
    by_cases hu : u = t
    · subst hu
      simp [At, ha, eq_comm]
    · simp [update_of_ne hu, Ne.symm hu, At]
  | _ => simp [At, mem_carriedBy]

end

/-- **Taking a message.** The running frame gets hold of the messages `l`, which were elsewhere;
whether they are in the pool does not change. -/
theorem Owned.gain (h : Owned tight place held s) (hl : l.Nodup)
    (hat : ∀ x p, p ≠ .free → (s'.At held x p ↔ x ∉ l ∧ s.At held x p))
    (hmailbox : ∀ t, (s'.messageQueue t).Nodup)
    (hs : (s'.stack, s'.currentThread, s'.pendingMessages) =
      (s.stack, s.currentThread, s.pendingMessages)) (hnext : s.nextMessage ≤ s'.nextMessage)
    (hlt : ∀ x ∈ l, x < s'.nextMessage) (hpool : ∀ x ∈ l, (place x).pooled = b)
    (halloc : (s'.allocated = s.allocated ∧ ∀ x ∈ l, place x ≠ .free) ∨
      s'.allocated = s.allocated ++ l ∧ l.Nodup ∧ ∀ x ∈ l, s.nextMessage ≤ x) :
    Owned tight (relocate place l (.stack s.currentThread b)) (l.map (fun m => (m, b)) ++ held) s' := by
  simp only [Prod.mk.injEq] at hs
  obtain ⟨h1, h2, h3⟩ := hs
  have hcar : ∀ x b' t, x ∈ l → (x, b') ∉ s'.carriedBy held t := fun x b' t hx hat' =>
    ((hat x (.stack t b') (by simp)).1 hat').1 hx
  refine h.move ?_ hmailbox ?_ hnext hlt ?_ (h3 ▸ h.packed) halloc fun _ => by simp
  · intro x p hp
    have hxp := hat x p hp
    cases p with
    | free => exact absurd rfl hp
    | stack t b' =>
      simp only [At, mem_carriedBy, h2, mem_append, mem_map, Prod.mk.injEq,
        Place.stack.injEq] at hxp ⊢
      grind
    | _ =>
      refine hxp.trans ?_
      by_cases hx : x ∈ l <;> simp [hx]
  · intro t
    by_cases ht : t = s.currentThread
    · have hc : s'.carriedBy (l.map (fun m => (m, b)) ++ held) t =
          l.map (fun m => (m, b)) ++ s.carriedBy held t := by
        simp [carriedBy, h1, h2, ht]
      have hc' : s'.carriedBy held t = s.carriedBy held t := by simp [carriedBy, h1, h2]
      rw [hc, map_append, nodup_append']
      refine ⟨by simpa [comp_def] using hl, h.stack_nodup t, ?_⟩
      intro x hx hx'
      obtain ⟨⟨z, b'⟩, hz, rfl⟩ := mem_map.1 hx'
      exact hcar z b' t (by simpa using hx) (hc' ▸ hz)
    · simpa [carriedBy, h1, h2, ht] using h.stack_nodup t
  · intro x
    rw [h3, h.pool]
    by_cases hx : x ∈ l
    · rw [if_pos hx, hpool x hx]
      rfl
    · rw [if_neg hx]

theorem Owned.allocate (message : Message) (h : Owned tight place held s) :
    Owned tight (relocate place [s.nextMessage] (.stack s.currentThread false))
      ((s.nextMessage, false) :: held) (s.allocateMessage message) := by
  have hfree := h.fresh (Nat.le_refl s.nextMessage)
  have hs : ∀ x p, (s.allocateMessage message).At held x p ↔ s.At held x p := by
    intro x p
    cases p <;> exact Iff.rfl
  refine h.gain (nodup_singleton _) ?_
    h.mailbox_nodup rfl (Nat.le_succ _) ?_ ?_
    (.inr ⟨rfl, nodup_singleton _, fun x hx => Nat.le_of_eq (mem_singleton.1 hx).symm⟩)
  · intro x p hp
    rw [hs, iff_and_self, h.at_iff hp, mem_singleton]
    rintro hx rfl
    exact hp (hx.symm.trans hfree)
  · intro x hx
    rw [mem_singleton.1 hx]
    exact Nat.lt_succ_self _
  · intro x hx
    rw [mem_singleton.1 hx, hfree]
    rfl

theorem Owned.take (h : Owned tight place held s) (hl : l.Nodup)
    (hplace : ∀ x ∈ l, ∃ q, q ≠ .free ∧ q.pooled = b ∧ s.At held x q)
    (hat : ∀ x p, p ≠ .free → (s'.At held x p ↔ x ∉ l ∧ s.At held x p))
    (hmailbox : ∀ t, (s'.messageQueue t).Nodup)
    (hs : (s'.stack, s'.currentThread, s'.pendingMessages, s'.nextMessage, s'.allocated) =
      (s.stack, s.currentThread, s.pendingMessages, s.nextMessage, s.allocated)) :
    Owned tight (relocate place l (.stack s.currentThread b)) (l.map (fun m => (m, b)) ++ held) s' := by
  simp only [Prod.mk.injEq] at hs
  obtain ⟨h1, h2, h3, h4, h5⟩ := hs
  have hpl : ∀ x ∈ l, place x ≠ .free ∧ (place x).pooled = b := by
    intro x hx
    obtain ⟨q, hq, hpool, hxq⟩ := hplace x hx
    rw [(h.at_iff hq).1 hxq]
    exact ⟨hq, hpool⟩
  exact h.gain hl hat hmailbox (by rw [h1, h2, h3]) (Nat.le_of_eq h4.symm)
    (fun x hx => h4 ▸ h.lt_nextMessage (hpl x hx).1) (fun x hx => (hpl x hx).2)
    (.inl ⟨h5, fun x hx => (hpl x hx).1⟩)

theorem Owned.popMessage {rest : List MessageRef} (h : Owned tight place held s)
    (hq : s.messageQueue s.currentThread = m :: rest) :
    Owned tight (relocate place [m] (.stack s.currentThread true)) ((m, true) :: held)
      (s.popMessage m rest) := by
  have hat : s.At held m (.mailbox s.currentThread) := by simp [At, hq]
  have hl : ∀ {x}, x ∈ [m] → s.At held x (.mailbox s.currentThread) := fun hx =>
    mem_singleton.1 hx ▸ hat
  have hnd := nodup_cons.1 (hq ▸ h.mailbox_nodup s.currentThread)
  refine h.take (nodup_singleton _) (fun x hx => ⟨_, by simp, rfl, hl hx⟩)
    (fun x p hp => ?_) (fun t => update_intro (fun _ => hnd.2) fun _ => h.mailbox_nodup t) rfl
  cases p with
  | free => exact absurd rfl hp
  | mailbox t =>
    by_cases ht : t = s.currentThread
    · subst ht
      show x ∈ update s.messageQueue _ rest _ ↔ _ ∧ x ∈ s.messageQueue _
      rw [update_self, hq]
      grind
    · show x ∈ update s.messageQueue _ rest t ↔ _
      rw [update_of_ne ht]
      exact h.at_elsewhere hp (by simp) hl (by simpa using ht)
  | _ => exact h.at_elsewhere hp (by simp) hl (by simp)

/-- What is left in the mailbox of `v`, and its bonus message, is taken by the running frame. -/
theorem Owned.drain (v : ThreadId) (h : Owned tight place held s) :
    Owned tight (relocate place (s.leftoverMessages v) (.stack s.currentThread true))
      ((s.leftoverMessages v).map (fun m => (m, true)) ++ held)
      { s with
        messageQueue := update s.messageQueue v []
        bonusMessage := update s.bonusMessage v none } := by
  have hmem : ∀ {x}, x ∈ s.leftoverMessages v ↔
      s.At held x (.mailbox v) ∨ s.At held x (.bonus v) := by
    intro x
    simp [leftoverMessages, At]
  have helse : ∀ {x p}, p ≠ .free → p ≠ .mailbox v → p ≠ .bonus v →
      (s.At held x p ↔ x ∉ s.leftoverMessages v ∧ s.At held x p) := by
    intro x p hp hp1 hp2
    refine (and_iff_right_of_imp fun hx hx' => ?_).symm
    exact (hmem.1 hx').elim (fun hx' => h.not_at_of_ne hp (by simp) hx' hp1 hx)
      fun hx' => h.not_at_of_ne hp (by simp) hx' hp2 hx
  refine h.take ?_ ?_ (fun x p hp => ?_)
    (fun t => update_intro (fun _ => nodup_nil) fun _ => h.mailbox_nodup t) rfl
  · rw [leftoverMessages, nodup_append']
    refine ⟨h.mailbox_nodup v, by cases s.bonusMessage v <;> simp, fun x hx hx' => ?_⟩
    exact h.not_at_of_ne (p := .bonus v) (q := .mailbox v) (by simp) (by simp) hx (by simp)
      (by simpa [At] using hx')
  · exact fun x hx => (hmem.1 hx).elim (fun hx => ⟨_, by simp, rfl, hx⟩)
      fun hx => ⟨_, by simp, rfl, hx⟩
  · cases p with
    | free => exact absurd rfl hp
    | mailbox t =>
      show x ∈ update s.messageQueue v [] t ↔ _
      by_cases ht : t = v
      · subst ht
        rw [update_self]
        exact iff_of_false (by simp) fun hx => hx.1 (hmem.2 (.inl hx.2))
      · rw [update_of_ne ht]
        exact helse hp (by simpa using ht) (by simp)
    | bonus t =>
      show update s.bonusMessage v none t = some x ↔ _
      by_cases ht : t = v
      · subst ht
        rw [update_self]
        exact iff_of_false (by simp) fun hx => hx.1 (hmem.2 (.inr hx.2))
      · rw [update_of_ne ht]
        exact helse hp (by simp) (by simpa using ht)
    | _ => exact helse hp (by simp) (by simp)

/-- The acknowledgement of the deletion of `t`, if there is one, is taken by the running frame. -/
theorem Owned.takeAcknowledgement (t : ThreadId) (h : Owned tight place held s) :
    Owned tight (relocate place (s.deletionAcknowledgement t).toList (.stack s.currentThread false))
      ((s.deletionAcknowledgement t).toList.map (fun m => (m, false)) ++ held)
      { s with
        deletionAcknowledgement := update s.deletionAcknowledgement t none } := by
  have hl : ∀ {x}, x ∈ (s.deletionAcknowledgement t).toList ↔
      s.At held x (.acknowledgement t) := by
    intro x
    simp [At]
  refine h.take ?_ (fun x hx => ⟨_, by simp, rfl, hl.1 hx⟩) (fun x p hp => ?_) h.mailbox_nodup rfl
  · cases s.deletionAcknowledgement t <;> simp
  cases p with
  | free => exact absurd rfl hp
  | acknowledgement u =>
    show update s.deletionAcknowledgement t none u = some x ↔ _
    by_cases hu : u = t
    · subst hu
      rw [update_self]
      exact iff_of_false (by simp) fun hx => hx.1 (hl.2 hx.2)
    · rw [update_of_ne hu]
      exact h.at_elsewhere hp (by simp) hl.1 (by simpa using hu)
  | _ => exact h.at_elsewhere hp (by simp) hl.1 (by simp)

/-- The running frame takes messages it holds from the pool. -/
theorem Owned.unlink (l : List MessageRef) (held : List (MessageRef × Bool))
    (h : Owned tight place (l.map (fun m => (m, true)) ++ held) s) :
    Owned tight (relocate place l (.stack s.currentThread false))
      (l.map (fun m => (m, false)) ++ held)
      { s with pendingMessages := s.pendingMessages.removeAll l } := by
  have hpl : ∀ x ∈ l, place x = .stack s.currentThread true := fun x hx =>
    h.place_held (mem_append_left _ (mem_map.2 ⟨x, hx, rfl⟩))
  have hfst : ∀ b t, (s.carriedBy (l.map (fun m => (m, b)) ++ held) t).map Prod.fst =
      (if t = s.currentThread then l else []) ++ (s.carriedBy held t).map Prod.fst := by
    intro b t
    simp only [carriedBy]
    split <;> simp [comp_def]
  have hnd : l.Nodup ∧ ∀ x ∈ l, ∀ b, (x, b) ∉ s.carriedBy held s.currentThread := by
    have := h.stack_nodup s.currentThread
    rw [hfst, if_pos rfl, nodup_append'] at this
    exact ⟨this.1, fun x hx b hb => this.2.2 hx (mem_map.2 ⟨_, hb, rfl⟩)⟩
  obtain ⟨hpacked, hitems⟩ := h.packed.removeAll hnd.1 fun x hx =>
    h.pool.2 (by rw [hpl x hx]; rfl)
  refine h.move ?_ h.mailbox_nodup ?_ (Nat.le_refl _) ?_ ?_ hpacked
    (.inl ⟨rfl, fun x hx => by rw [hpl x hx]; simp⟩) fun _ => by simp
  · intro x p hp
    by_cases hx : x ∈ l
    · rw [if_pos hx]
      cases p with
      | free => exact absurd rfl hp
      | stack t b =>
        have hother : t ≠ s.currentThread → (x, b) ∉ carried (s.stack t) := fun ht hc => by
          have hat : s.At (l.map (fun m => (m, true)) ++ held) x (.stack t b) :=
            mem_carriedBy.2 (.inr hc)
          rw [h.at_iff (by simp), hpl x hx] at hat
          cases hat
          exact ht rfl
        have hown := hnd.2 x hx b
        simp only [mem_carriedBy, not_or, not_and] at hown
        simp only [At, mem_carriedBy, mem_append, mem_map, Prod.mk.injEq, Place.stack.injEq]
        grind
      | _ =>
        have hat := (h.at_iff (by simp)).2 (hpl x hx)
        exact iff_of_false (h.not_at_of_ne hp (by simp) hat (by simp)) (by simp)
    · rw [if_neg hx]
      cases p with
      | stack t b =>
        simp only [At, mem_carriedBy, mem_append, mem_map, Prod.mk.injEq]
        grind
      | _ => exact Iff.rfl
  · intro t
    have := h.stack_nodup t
    rw [hfst] at this
    show ((s.carriedBy _ t).map Prod.fst).Nodup
    rwa [hfst]
  · intro x hx
    exact h.lt_nextMessage (by rw [hpl x hx]; simp)
  · intro x
    rw [hitems]
    by_cases hx : x ∈ l <;> simp [hx, Place.pooled]

/-- The bonus message of `t` is taken from the pool, and lost. -/
theorem Owned.loseBonus (h : Owned tight place held s) (hb : s.bonusMessage t = some m)
    (htight : ¬ tight) :
    Owned tight (relocate place [m] .free) held ((s.clearBonusMessage t).dropPending m) := by
  have hat : s.At held m (.bonus t) := hb
  have hpl := (h.at_iff (by simp)).1 hat
  have hm : m ∈ s.pendingMessages.items := h.pool.2 (by rw [hpl]; rfl)
  refine h.move ?_ h.mailbox_nodup h.stack_nodup (Nat.le_refl _) ?_ ?_ (h.packed.remove hm)
    (.inl ⟨rfl, fun x hx => by rw [mem_singleton.1 hx, hpl]; simp⟩) fun ht => absurd ht htight
  · intro x p hp
    have hl : x ∈ [m] → s.At held x (.bonus t) := fun hx => mem_singleton.1 hx ▸ hat
    have htaken : (if x ∈ [m] then Place.free = p else s.At held x p) ↔
        x ∉ [m] ∧ s.At held x p := by
      split <;> simp [*, hp.symm]
    rw [htaken]
    cases p with
    | bonus u =>
      show update s.bonusMessage t none u = some x ↔ _
      by_cases hu : u = t
      · subst hu
        simp [At, hb, eq_comm]
      · rw [update_of_ne hu]
        exact h.at_elsewhere hp (by simp) hl (by simpa using hu)
    | free => exact absurd rfl hp
    | _ => exact h.at_elsewhere hp (by simp) hl (by simp)
  · intro x hx
    rw [mem_singleton.1 hx]
    exact h.lt_nextMessage (by simp [hpl])
  · intro x
    show x ∈ (s.pendingMessages.remove m).items ↔ _
    rw [h.packed.mem_remove hm]
    by_cases hx : x = m <;> simp [hx, Place.pooled]

/-! ### The frames -/

@[simp] theorem carried_map_dropReference (l : List ThreadId) :
    carried (l.map Frame.dropReference) = [] := by
  induction l with
  | nil => rfl
  | cons t l ih => simp [ih, Frame.carries]

@[simp] theorem carried_map_putMessage (l : List MessageRef) :
    carried (l.map Frame.putMessage) = l.map fun m => (m, false) := by
  induction l with
  | nil => rfl
  | cons m l ih => simp [ih, Frame.carries]

/-- The places of the messages are known, for some `place`. -/
def HasOwners (tight : Prop) (held : List (MessageRef × Bool)) (s : State) : Prop :=
  ∃ place, Owned tight place held s

namespace HasOwners

theorem congr (h : HasOwners tight held s) (hs : s'.messages = s.messages) :
    HasOwners tight held s' :=
  h.imp fun _ h => h.congr hs

theorem perm (h : HasOwners tight held s) (hp : held'.Perm held) : HasOwners tight held' s :=
  h.imp fun _ h => h.perm hp

theorem push (h : HasOwners tight (held ++ carried frames) s) :
    HasOwners tight held (s.push frames) :=
  h.imp fun _ h => h.push

theorem pushAll (h : HasOwners tight (carried frames) s) : HasOwners tight [] (s.push frames) :=
  push h

theorem allocatePush {message : Message} (h : HasOwners tight held s)
    (hf : carried frames = [(s.nextMessage, false)]) :
    HasOwners tight held ((s.allocateMessage message).push frames) := by
  obtain ⟨place, h⟩ := h
  exact ⟨_, ((h.allocate message).perm (by rw [hf]; exact perm_append_singleton _ _)).push⟩

theorem destroyThread (t : ThreadId) (h : HasOwners tight held s) :
    HasOwners tight held (s.destroyThread t) := by
  obtain ⟨place, h⟩ := h
  refine push ⟨_, (Owned.perm (h.takeAcknowledgement t) ?_).congr rfl⟩
  simpa using perm_append_comm

theorem removeReference (t : ThreadId) (h : HasOwners tight held s) :
    HasOwners tight held (s.removeReference t) := by
  rw [State.removeReference]
  split
  · exact destroyThread t (h.congr rfl)
  · exact h.congr rfl

theorem unblock (t : ThreadId) (m : MessageRef) (h : HasOwners tight held s) :
    HasOwners tight held (s.unblock t m) := by
  have h₁ : HasOwners tight held { s with threadState := update s.threadState t .ready } :=
    h.congr rfl
  exact (h₁.removeReference (s.message m).source).congr rfl

theorem put (h : HasOwners tight ((m, false) :: held) s) (hput : Put s m .success s') :
    HasOwners tight held s' := by
  cases hput with
  | refused hst => exact absurd rfl hst
  | woken =>
    obtain ⟨place, h⟩ := h.unblock (s.message m).destination m
    refine ⟨_, (h.enqueue (t := (s.message m).destination) (.refl _)).congr ?_⟩
    rw [blockOn]
    split <;> rfl
  | queued =>
    obtain ⟨place, h⟩ := h
    refine ⟨_, (h.enqueue (t := (s.message m).destination)
      (perm_append_singleton _ _)).congr ?_⟩
    rw [blockOn]
    split <;> rfl

theorem killOnOverflow (h : HasOwners tight held s) :
    HasOwners tight held (s.killOnOverflow status t) := by
  rw [State.killOnOverflow]
  split
  · exact h.allocatePush rfl
  · exact h

end HasOwners

/-! ### Losing a message -/

/-- The thread whose ticket is drawn has no bonus message: the lottery takes it from the pool and
does not delete it. -/
def KeepsBonus (lot : ℕ) (s : State) : Prop :=
  s.findBlockingThread s.currentThread = some none →
    ∀ m, s.pendingMessages.items[lot]? = some m → s.bonusMessage (s.message m).destination = none

/-- The frame loses no message. -/
def Keeps (o : Outcome) (s : State) : Frame → Prop
  -- `send_deletion_message` does not delete a request that could not be put
  | .putRequest m _ _ _ deletes => deletes = true ∨ ∃ s', s.putMessage o.payload m = some (.success, s')
  | .yield => s.KeepsBonus o.lot
  -- a second acknowledgement would overwrite the first
  | .markForDeletion victim acknowledgement =>
    acknowledgement = none ∨ s.deletionAcknowledgement victim = none
  | _ => True

/-- The action loses no message. -/
def KeepsMessages (s : State) : Action → Prop
  | .run o => ∀ f rest, s.stack s.currentThread = f :: rest → (s.pop rest).Keeps o f
  | .clock lot => ¬ 0 < s.tick.tickCount s.currentThread → s.tick.keepTicket.KeepsBonus lot
  | _ => True

theorem HasOwners.markForDeletion {v : ThreadId} {a : Option MessageRef}
    (h : HasOwners tight (a.toList.map fun m => (m, false)) s)
    (hkeep : tight → a = none ∨ s.deletionAcknowledgement v = none) :
    HasOwners tight ((s.leftoverMessages v).map fun m => (m, true)) (s.markForDeletion v a) := by
  obtain ⟨place, h⟩ := h
  cases a with
  | none => exact ⟨_, ((h.drain v).perm (.of_eq (by simp))).congr rfl⟩
  | some a =>
    -- an acknowledgement the thread had before is lost
    have h₁ : HasOwners tight [(a, false)] { s with
        deletionAcknowledgement := update s.deletionAcknowledgement v none } := by
      have h₁ := h.takeAcknowledgement v
      cases hv : s.deletionAcknowledgement v with
      | none => exact ⟨_, by simpa [hv] using h₁⟩
      | some a' =>
        simp only [hv, Option.toList_some, map_cons, map_nil, cons_append, nil_append] at h₁
        exact ⟨_, h₁.forget fun ht => by simpa [hv] using hkeep ht⟩
    obtain ⟨place₁, h₁⟩ := h₁
    have h₂ := (h₁.setAcknowledgement (t := v) (by simp)).drain v
    refine ⟨_, (h₂.perm (.of_eq (append_nil _).symm)).congr ?_⟩
    simp [messages, State.markForDeletion]

theorem HasOwners.yield {lot : ℕ} (h : HasOwners tight [] s) (hkeep : tight → s.KeepsBonus lot)
    (hy : s.yield lot = some s') : HasOwners tight [] s' := by
  obtain ⟨t, s₁, hsel, rfl⟩ := yield_eq_some hy
  have hdrawn : ∀ {w s₁}, s.findBlockingThread s.currentThread = some none →
      Drawn lot s w s₁ → HasOwners tight [] s₁ := by
    intro w s₁ hcur hd
    cases hd with
    | idle | ticket => exact h
    | bonus hm hb =>
      refine h.elim fun _ h => ⟨_, h.loseBonus hb fun ht => ?_⟩
      rw [hkeep ht hcur _ hm] at hb
      cases hb
  have h₁ : HasOwners tight [] s₁ := by
    cases hsel with
    | handoff => exact h
    | winner hcur hd | passed hcur hd => exact hdrawn hcur hd
  -- the running frame holds nothing, so it does not matter which thread runs next
  obtain ⟨place, h₁⟩ := h₁
  refine ⟨place, h₁.reheld (fun u => List.Perm.of_eq ?_) rfl⟩
  rw [carriedBy_nil, carriedBy_nil]
  rfl

theorem carried_continuation (m : MessageRef) (r : Reception) (s : State) :
    carried (s.continuation m r) = [(m, false)] := by
  rcases r with _ | _ | _
  · rfl
  · rw [continuation]
    split <;> rfl
  · rfl

theorem carried_failure (status : Status) (r : Reception) : carried (failure status r) = [] := by
  cases r <;> rfl

namespace HasOwners

theorem refuse (h : HasOwners tight held s) : HasOwners tight held (s.refuse m status) :=
  h.allocatePush rfl

theorem abortRequest (h : HasOwners tight held s) :
    HasOwners tight held (s.abortRequest m status) := by
  rw [State.abortRequest]
  split
  · exact h.refuse
  · exact h

theorem deleteThread (h : HasOwners tight [(m, false)] s) :
    HasOwners tight [] (s.deleteThread m) := by
  have h₁ : HasOwners tight [] (s.push [.deleteMessage m]) := push h
  simp only [State.deleteThread]
  split
  · exact h₁.refuse
  split
  · exact h₁.refuse
  case h_2 victim _ =>
    split
    · exact allocatePush (h₁.congr rfl) rfl
    · exact push (h₁.congr rfl)

theorem abortMessages (h : HasOwners tight (l.map fun m => (m, false)) s) :
    HasOwners tight [] (s.abortMessages l) := by
  cases l with
  | nil => exact h
  | cons m rest =>
    have h₁ : HasOwners tight [] (s.push [.deleteMessage m, .abortMessages rest]) :=
      push (by simpa [Frame.carries] using h)
    simp only [State.abortMessages]
    split
    · exact allocatePush (h₁.congr rfl) rfl
    · exact h₁

/-- What a refused request leaves in the hands of the frame is deleted, or lost. -/
theorem requestRefused {interrupts deletes : Bool} (h : HasOwners tight [(m, false)] s)
    (hkeep : tight → deletes = true) :
    HasOwners tight [] (s.push ([.restoreInterrupts interrupts, .dropReference t] ++
      if deletes then [.deleteMessage m] else [])) := by
  cases deletes with
  | true => exact pushAll h
  | false => exact pushAll (h.elim fun _ h => ⟨_, h.forget fun ht => by cases hkeep ht⟩)

/-- **A frame.** Executing a frame that holds what it carries leaves every message in one place. -/
theorem executed {o : Outcome} (h : HasOwners tight f.carries s)
    (hkeep : tight → s.Keeps o f) (hexec : Executed s o f s') : HasOwners tight [] s' := by
  cases hexec with
  | put hp => exact h.put hp
  | putRefused => exact killOnOverflow (pushAll h)
  | send => exact push (congr h rfl)
  | request hp => exact push (h.put hp)
  | requestRefused hput hst =>
    refine killOnOverflow (h.requestRefused fun ht => (hkeep ht).resolve_right ?_)
    rintro ⟨s', hs'⟩
    rw [hput] at hs'
    cases hs'
    exact hst rfl
  | yield hy => exact h.yield hkeep hy
  | restore => exact h.congr rfl
  | get hq => exact push (h.elim fun _ h => ⟨_, h.popMessage hq⟩)
  | wait | noReply | reply => exact push h
  | empty | wakeDone => exact h
  | @remove m r => exact push (h.elim fun _ h => ⟨_, h.unlink [m] []⟩)
  | deliver =>
    refine push ?_
    rw [carried_continuation]
    exact congr h rfl
  | undeliverable =>
    refine abortRequest (push ?_)
    rw [carried_cons, carried_failure]
    exact congr h rfl
  | abortSend | wake => exact h.allocatePush rfl
  | delete => exact push (h.elim fun _ h => ⟨_, h.delete⟩)
  | drop => exact h.removeReference _
  | deleteThread => exact h.deleteThread
  | mark =>
    exact push (perm (h.markForDeletion hkeep) (.of_eq (by simp [Frame.carries])))
  | @unlink leftover =>
    obtain ⟨place, h⟩ := h
    have h₁ := Owned.unlink leftover [] (h.perm (.of_eq (append_nil _)))
    exact push ⟨_, h₁.perm (.of_eq (by simp [Frame.carries]))⟩
  | abort => exact h.abortMessages
  | table => exact push (h.congr rfl)

theorem keepTicket (h : HasOwners tight [] s) : HasOwners tight [] s.keepTicket := by
  refine keepTicket_cases h fun hneeds => ?_
  obtain ⟨place, h⟩ := h
  refine ⟨_, (h.allocate (bonusFor s.currentThread)).setBonus ?_⟩
  simp only [needsBonusMessage, Bool.and_eq_true, Option.isNone_iff_eq_none] at hneeds
  exact hneeds.2

end HasOwners

/-- The thread `t` has no message and is not in the kernel. -/
structure Idle (s : State) (t : ThreadId) : Prop where
  stack : s.stack t = []
  queue : s.messageQueue t = []
  bonus : s.bonusMessage t = none
  acknowledgement : s.deletionAcknowledgement t = none

theorem HasOwners.createThread {mask : ℕ} (h : HasOwners tight [] s) (ht : s.Idle t) :
    HasOwners tight [] (s.createThread t mask) := by
  refine h.congr ?_
  simp only [messages, State.createThread, Prod.mk.injEq]
  refine ⟨?_, ?_, ?_, ?_, trivial⟩
  · rw [update_eq_self_iff, ht.queue]
  · rw [update_eq_self_iff, ht.bonus]
  · rw [update_eq_self_iff, ht.acknowledgement]
  · rw [update_eq_self_iff, ht.stack]

theorem HasOwners.called {c : SystemCall} (h : HasOwners tight [] s)
    (hidle : ∀ t, t ∉ s.threads → s.Idle t) (hc : Called s c s') : HasOwners tight [] s' := by
  cases hc with
  | failed => exact h
  | send | sendAndReceive => exact allocatePush (h.congr rfl) rfl
  | receive => exact push h
  | delete => exact h.allocatePush rfl
  | create ht => exact push (h.createThread (hidle _ ht))
  | register => exact h.congr rfl

/-- **A step** leaves every message in one place. -/
theorem HasOwners.step {a : Action} (h : HasOwners tight [] s)
    (hidle : ∀ t, t ∉ s.threads → s.Idle t) (hkeep : tight → s.KeepsMessages a)
    (hs : Stepped s a s') : HasOwners tight [] s' := by
  cases hs with
  | run hstack hexec =>
    exact executed (h.imp fun _ h => h.pop hstack) (fun ht => hkeep ht _ _ hstack) hexec
  | call _ _ _ hc => exact h.called hidle hc
  | cleanupLoop | nullLoop => exact push h
  | tick => exact h.congr rfl
  | quantum _ hover hy =>
    have htick : HasOwners tight [] s.tick := h.congr rfl
    exact htick.keepTicket.yield (fun ht => hkeep ht hover) hy
  | device => exact push (h.congr rfl)

theorem hasOwners_initial : HasOwners tight [] initial :=
  ⟨fun _ => .free,
    { at_iff := by
        intro m p hp
        refine iff_of_false ?_ hp.symm
        cases p with
        | free => exact absurd rfl hp
        | stack t b => simp [At, carriedBy_nil, initial]
        | _ => simp [At, initial]
      mailbox_nodup := fun _ => nodup_nil
      stack_nodup := fun t => by simp [carriedBy_nil, initial]
      fresh := fun _ => rfl
      pool := by simp [initial, Pool.empty, Place.pooled]
      packed := Pool.packed_empty _
      allocated := fun hm => absurd rfl hm
      kept := by simp [initial]
      allocated_nodup := nodup_nil
      allocated_lt := by simp [initial] }⟩

end

end State

end Dx.Kernel
