import Dx.Kernel.References

/-!
# The spinlocks

`spinlock_c` (`hal/spinlock.cpp`) turns interrupts off while it is held. Each lock keeps the
interrupt flag it found and puts it back on its own, so two locks that are released in the order
in which they were taken, as `unlock_both` does, give the right flag back only under a third.

The operations on locks of a step of the machine are a list, `lockOps`, that is read off the code
of the step; `Guarded` runs the machine and its locks together. What the functions that are called
on the way do with locks of their own (the heap, the page frames, the payload pools, the consoles)
is left open: any number of such calls may be made, inside the locked regions as well.

## Main result

* `lockOps_safely`: in every run, no lock is taken that is held, interrupts are off while any lock
  is held, and a step leaves no lock behind and the interrupt flag as it was.
-/

namespace Dx.Kernel

open Library Function

inductive Lock
  | ioManager
  | threadManager
  | thread (t : ThreadId)
  | deviceProxy
  | addressSpace
  | payloadPool
  | pageFrames
  | heap
  | interruptController
  | serialConsole
  | display
deriving DecidableEq

inductive LockOp
  | acquire (l : Lock)
  | release (l : Lock)
deriving DecidableEq

/-- The members `acquired` and `interrupt_state` of every lock, and the interrupt flag. -/
structure Locks where
  acquired : Lock → Bool
  interruptState : Lock → Bool
  interruptsEnabled : Bool

namespace Locks

variable {k k' k'' : Locks} {held : List Lock} {l l' : Lock} {a b ops : List LockOp}
  {post post' : Locks → Prop}

/-- `spinlock_c::acquire` and `spinlock_c::release`; `none` is a kernel panic. -/
def step (k : Locks) : LockOp → Option Locks
  | .acquire l =>
    if k.acquired l then none
    else some
      { acquired := update k.acquired l true
        interruptState := update k.interruptState l k.interruptsEnabled
        interruptsEnabled := false }
  | .release l => some
      { k with
        acquired := update k.acquired l false
        interruptsEnabled := k.interruptState l }

/-- While a lock is held, interrupts are off. -/
def Masked (k : Locks) : Prop := ∀ l, k.acquired l = true → k.interruptsEnabled = false

/-- The operations end in a state with `post`; none of them panics, and interrupts are off whenever
a lock is held on the way. -/
def Safely (post : Locks → Prop) : List LockOp → Locks → Prop
  | [], k => k.Masked ∧ post k
  | op :: ops, k => k.Masked ∧ ∃ k', k.step op = some k' ∧ Safely post ops k'

theorem Safely.mono (h : Safely post ops k) (himp : ∀ k, post k → post' k) :
    Safely post' ops k := by
  induction ops generalizing k with
  | nil => exact ⟨h.1, himp k h.2⟩
  | cons op ops ih =>
    obtain ⟨hmask, k', hstep, hrest⟩ := h
    exact ⟨hmask, k', hstep, ih hrest⟩

theorem Safely.append (h : Safely (Safely post b) a k) : Safely post (a ++ b) k := by
  induction a generalizing k with
  | nil => exact h.2
  | cons op a ih =>
    obtain ⟨hmask, k', hstep, hrest⟩ := h
    exact ⟨hmask, k', hstep, ih hrest⟩

/-! ### Locked regions -/

/-- The locks that are held. -/
structure Holds (held : List Lock) (k : Locks) : Prop where
  acquired : ∀ l, k.acquired l = true ↔ l ∈ held
  masked : held ≠ [] → k.interruptsEnabled = false

/-- The locks that are held, what they keep, and the interrupt flag are the same. -/
structure Keeps (held : List Lock) (k k' : Locks) : Prop where
  acquired : k'.acquired = k.acquired
  interruptState : ∀ l ∈ held, k'.interruptState l = k.interruptState l
  interruptsEnabled : k'.interruptsEnabled = k.interruptsEnabled

theorem Holds.isMasked (h : Holds held k) : k.Masked :=
  fun l hl => h.masked (List.ne_nil_of_mem ((h.acquired l).1 hl))

theorem Holds.keeps (h : Holds held k) (hk : Keeps held k k') : Holds held k' where
  acquired := fun l => by rw [hk.acquired]; exact h.acquired l
  masked := fun hne => by rw [hk.interruptsEnabled]; exact h.masked hne

theorem Holds.not_acquired (h : Holds held k) (hl : l ∉ held) : k.acquired l = false :=
  Bool.eq_false_iff.2 (mt (h.acquired l).1 hl)

theorem Keeps.trans (h : Keeps held k k') (h' : Keeps held k' k'') : Keeps held k k'' where
  acquired := h'.acquired.trans h.acquired
  interruptState := fun l hl => (h'.interruptState l hl).trans (h.interruptState l hl)
  interruptsEnabled := h'.interruptsEnabled.trans h.interruptsEnabled

/-- Operations that are safe while the locks `held` are held, and that keep them and the flag. -/
def Neutral (held : List Lock) (ops : List LockOp) : Prop :=
  ∀ k, Holds held k → Safely (Keeps held k) ops k

theorem Neutral.nil : Neutral held [] := fun _ hk => ⟨hk.isMasked, rfl, fun _ _ => rfl, rfl⟩

theorem Neutral.append (ha : Neutral held a) (hb : Neutral held b) : Neutral held (a ++ b) := by
  intro k hk
  refine Safely.append ((ha k hk).mono fun k' hkeep => ?_)
  exact (hb k' (hk.keeps hkeep)).mono fun k'' hkeep' => hkeep.trans hkeep'

theorem Neutral.flatMap {α : Type} {f : α → List LockOp} (h : ∀ x, Neutral held (f x))
    (calls : List α) : Neutral held (calls.flatMap f) := by
  induction calls with
  | nil => exact .nil
  | cons x calls ih => exact (h x).append ih

/-- What `acquire` makes of the locks. -/
def taken (l : Lock) (k : Locks) : Locks where
  acquired := update k.acquired l true
  interruptState := update k.interruptState l k.interruptsEnabled
  interruptsEnabled := false

theorem Holds.step_acquire (h : Holds held k) (hl : l ∉ held) :
    k.step (.acquire l) = some (k.taken l) := by
  rw [step, h.not_acquired hl]
  rfl

theorem Holds.taken (h : Holds held k) (l : Lock) : Holds (l :: held) (k.taken l) where
  acquired := fun l' => by
    by_cases hl : l' = l
    · simp [Locks.taken, hl]
    · simp [Locks.taken, hl, h.acquired l']
  masked := fun _ => rfl

/-- The operations, with the lock `l` held. -/
def locked (l : Lock) (ops : List LockOp) : List LockOp := .acquire l :: (ops ++ [.release l])

theorem Holds.release (h : Holds held k) (hl : l ∉ held) (hkeep : Keeps (l :: held) (k.taken l) k') :
    Keeps held k
      { k' with
        acquired := update k'.acquired l false, interruptsEnabled := k'.interruptState l } where
  acquired := by
    rw [hkeep.acquired, Locks.taken, update_idem, ← h.not_acquired hl, update_eq_self]
  interruptState := fun l' hl' => by
    have hne : l' ≠ l := fun heq => hl (heq ▸ hl')
    rw [hkeep.interruptState l' (List.mem_cons_of_mem _ hl')]
    exact update_of_ne hne _ _
  interruptsEnabled := by
    rw [hkeep.interruptState l List.mem_cons_self]
    exact update_self _ _ _

/-- **A region** under a lock that is not held. -/
theorem Neutral.locked (hl : l ∉ held) (h : Neutral (l :: held) ops) :
    Neutral held (locked l ops) := by
  intro k hk
  refine ⟨hk.isMasked, _, hk.step_acquire hl, Safely.append ?_⟩
  refine (h _ (hk.taken l)).mono fun k' hkeep => ?_
  have hend := hk.release hl hkeep
  exact ⟨((hk.taken l).keeps hkeep).isMasked, _, rfl, (hk.keeps hend).isMasked, hend⟩

/-- **A region under two locks** that are released in the order in which they were taken: the first
to be released turns interrupts on again, unless another lock is held outside. -/
theorem Neutral.crossed (hne : held ≠ []) (hl : l ∉ held) (hl' : l' ∉ held) (hll : l' ≠ l)
    (h : Neutral (l' :: l :: held) ops) :
    Neutral held ([.acquire l, .acquire l'] ++ ops ++ [.release l, .release l']) := by
  intro k hk
  have hoff := hk.masked hne
  have hk₁ := hk.taken l
  have hk₂ := hk₁.taken l'
  have hl'' : l' ∉ l :: held := by simp [hll, hl']
  rw [List.append_assoc]
  refine ⟨hk.isMasked, _, hk.step_acquire hl, hk₁.isMasked, _, hk₁.step_acquire hl'', ?_⟩
  show Safely _ (ops ++ _) _
  refine Safely.append ((h _ hk₂).mono fun k' hkeep => ?_)
  have hstate : k'.interruptState l = false := by
    rw [hkeep.interruptState l (by simp)]
    simp [Locks.taken, update_of_ne hll.symm, hoff]
  have hstate' : k'.interruptState l' = false := by
    rw [hkeep.interruptState l' (by simp)]
    simp [Locks.taken]
  refine ⟨(hk₂.keeps hkeep).isMasked, _, rfl, fun _ _ => hstate, _, rfl, fun _ _ => hstate', ?_, ?_, ?_⟩
  · funext x
    rw [hkeep.acquired]
    by_cases hx' : x = l'
    · simp [hx', hk.not_acquired hl']
    · by_cases hx : x = l
      · simp [hx, hll.symm, hk.not_acquired hl]
      · simp [Locks.taken, hx, hx']
  · intro x hx
    have hxl : x ≠ l := fun heq => hl (heq ▸ hx)
    have hxl' : x ≠ l' := fun heq => hl' (heq ▸ hx)
    rw [hkeep.interruptState x (by simp [hx])]
    simp [Locks.taken, hxl, hxl']
  · exact hstate'.trans hoff.symm

end Locks

open Locks

/-! ### The calls that are left open -/

/-- A function of another part of the kernel that has a lock of its own. -/
inductive LeafCall
  /-- `operator new` and `operator delete`. -/
  | heap
  /-- `allocate_block` and `free_block` of a payload pool. -/
  | payloadPool
  /-- `allocate_frames` and `free_frames`, which may print. -/
  | pageFrames (prints : Bool)
  /-- `mask_interrupt` and `unmask_interrupt`. -/
  | interruptController
  | trace
  /-- `printf`, which goes to both consoles. -/
  | print

/-- The locks of `printf`. -/
def printOps : List LockOp := locked .serialConsole [] ++ locked .display []

def LeafCall.ops : LeafCall → List LockOp
  | .heap => locked .heap []
  | .payloadPool => locked .payloadPool []
  | .pageFrames prints => locked .pageFrames (if prints then printOps else [])
  | .interruptController => locked .interruptController []
  | .trace => locked .serialConsole []
  | .print => printOps

/-- A call that is made with no lock held. -/
inductive OpenCall
  | leaf (c : LeafCall)
  /-- A function of the address space, under its lock. -/
  | addressSpace (calls : List LeafCall)

def OpenCall.ops : OpenCall → List LockOp
  | .leaf c => c.ops
  | .addressSpace calls => locked .addressSpace (calls.flatMap LeafCall.ops)

/-- The calls of a step that the machine leaves open. -/
structure Calls where
  /-- With no lock held: the payload, the memory of messages and threads. -/
  outside : List OpenCall
  /-- In a locked region. -/
  inside : List LeafCall

def Calls.insideOps (c : Calls) : List LockOp := c.inside.flatMap LeafCall.ops

/-- The locks that are held around calls of other parts of the kernel. -/
def Lock.outer : Lock → Bool
  | .ioManager | .threadManager | .thread _ | .deviceProxy | .addressSpace => true
  | _ => false

theorem LeafCall.neutral {held : List Lock} (h : ∀ l ∈ held, l.outer = true) (c : LeafCall) :
    Neutral held c.ops := by
  have hfree (l : Lock) (hl : l.outer = false) : l ∉ held := by
    intro hmem
    rw [h l hmem] at hl
    cases hl
  have hprint : Neutral held printOps :=
    (Neutral.nil.locked (hfree _ rfl)).append (Neutral.nil.locked (hfree _ rfl))
  cases c with
  | pageFrames prints =>
    have hframes : Neutral (.pageFrames :: held) printOps := by
      refine Neutral.append (Neutral.nil.locked ?_) (Neutral.nil.locked ?_)
      · simp [hfree .serialConsole rfl]
      · simp [hfree .display rfl]
    refine Neutral.locked (hfree _ rfl) ?_
    cases prints with
    | false => exact .nil
    | true => exact hframes
  | print => exact hprint
  | _ => exact Neutral.nil.locked (hfree _ rfl)

theorem Calls.neutral_inside {held : List Lock} (h : ∀ l ∈ held, l.outer = true) (c : Calls) :
    Neutral held c.insideOps :=
  .flatMap (fun call => call.neutral h) _

theorem OpenCall.neutral (c : OpenCall) : Neutral [] c.ops := by
  cases c with
  | leaf c => exact c.neutral (by simp)
  | addressSpace calls =>
    refine Neutral.locked (by simp) (.flatMap (fun call => call.neutral ?_) calls)
    simp [Lock.outer]

/-! ### The locks of a step -/

/-- `thread_c::lock_both`. -/
def lockBoth (t u : ThreadId) : List LockOp :=
  if t = u then [.acquire (.thread t)]
  else if t < u then [.acquire (.thread t), .acquire (.thread u)]
  else [.acquire (.thread u), .acquire (.thread t)]

/-- `thread_c::unlock_both`. -/
def unlockBoth (t u : ThreadId) : List LockOp :=
  if t = u then [.release (.thread t)] else [.release (.thread t), .release (.thread u)]

/-- The two locks of threads come off in the right order or in the wrong one; under the lock of the
I/O manager both will do. -/
theorem neutral_lockBoth {ops : List LockOp} (t u : ThreadId)
    (h : ∀ held : List Lock, (∀ l ∈ held, l.outer = true) → Neutral held ops) :
    Neutral [.ioManager] (lockBoth t u ++ ops ++ unlockBoth t u) := by
  have hnot (v : ThreadId) : Lock.thread v ∉ [Lock.ioManager] := by simp
  rw [lockBoth, unlockBoth]
  split_ifs with heq hlt
  · exact Neutral.locked (hnot t) (h _ (by simp [Lock.outer]))
  · exact Neutral.crossed (by simp) (hnot t) (hnot u) (by simpa using Ne.symm heq)
      (h _ (by simp [Lock.outer]))
  · have hinner : Neutral [.thread u, .ioManager] (locked (.thread t) ops) :=
      Neutral.locked (by simp [heq]) (h _ (by simp [Lock.outer]))
    have hboth := hinner.locked (hnot u)
    simpa [locked] using hboth

namespace State

variable {s s' : State} {c : Calls} {m : MessageRef} {f : Frame} {rest : List Frame}

/-- The message gets as far as `unblock_on`, and wakes its destination. -/
def wakes (s : State) (m : MessageRef) : Bool :=
  s.mailboxEnabled (s.message m).destination &&
    s.causesSchedulingLoop (s.message m).destination m == some false &&
    s.unblocks (s.message m).destination m

/-- The `remove_reference` of `unblock_on`: with the last reference it is the end of the thread,
which may put an acknowledgement, and so take the lock of the I/O manager. -/
def removeReferenceOps (s : State) (t : ThreadId) : List LockOp :=
  if s.referenceCount t - 1 = 0 then [.acquire .ioManager] else []

/-- `thread_c::put_message`. -/
def threadPutMessageOps (c : Calls) (m : MessageRef) (s : State) : List LockOp :=
  lockBoth (s.message m).destination s.currentThread ++
    (c.insideOps ++ if s.wakes m then s.removeReferenceOps (s.message m).source else []) ++
    unlockBoth (s.message m).destination s.currentThread

/-- `io_manager_c::put_message`. -/
def putMessageOps (c : Calls) (payload : Status) (m : MessageRef) (s : State) : List LockOp :=
  if s.payloadStatus payload m = .success then
    locked .ioManager (s.threadPutMessageOps c m ++ c.insideOps)
  else []

/-- `thread_c::get_bonus_message`, of the winner of the lottery if there is one. -/
def lotteryOps (c : Calls) (lot : ℕ) (s : State) : List LockOp :=
  match s.findBlockingThread s.currentThread, s.pendingMessages.items[lot]? with
  | some none, some m => locked (.thread (s.message m).destination) c.insideOps
  | _, _ => []

/-- `io_manager_c::select_next_thread`. -/
def selectNextThreadOps (c : Calls) (lot : ℕ) (s : State) : List LockOp :=
  locked .ioManager (s.lotteryOps c lot ++ c.insideOps)

/-- The clock interrupt, when the quantum of the running thread is over:
`thread_c::maybe_put_bonus_message` under the lock of the I/O manager. -/
def keepTicketOps (c : Calls) (s : State) : List LockOp :=
  if s.currentThread = threadIdNull then []
  else locked .ioManager (locked (.thread s.currentThread) c.insideOps ++ c.insideOps)

/-- `thread_manager_c::find_thread`. -/
def findThreadOps (s : State) (id : ThreadId) : List LockOp :=
  if id = s.currentThread ∨ id = threadIdLoopback then [] else locked .threadManager []

/-- The locks of a frame; `s` is the state without it on the stack. -/
def frameOps (c : Calls) (o : Outcome) (s : State) : Frame → List LockOp
  | .putMessage m => s.putMessageOps c o.payload m
  | .putRequest m _ _ _ _ => s.putMessageOps c o.payload m
  | .yield => s.selectNextThreadOps c o.lot
  | .getMessage _ => locked (.thread s.currentThread) c.insideOps
  | .removePending _ _ => locked .ioManager c.insideOps
  | .deleteThread m => if s.mayDelete m then s.findThreadOps (s.victimOf m) else []
  | .markForDeletion victim _ => locked (.thread victim) c.insideOps
  | .unlinkMessages _ => locked .ioManager c.insideOps
  | .removeFromTable _ => locked .threadManager c.insideOps
  | _ => []

/-- The locks of a system call, up to its first frame. -/
def systemCallOps (c : Calls) (s : State) : SystemCall → List LockOp
  | .sendMessage id _ _ _ _ => s.findThreadOps id
  | .sendAndReceiveMessage id _ _ _ _ => s.findThreadOps id
  | .createThread _ _ => locked .threadManager c.insideOps
  | .registerInterruptHandler _ => locked .deviceProxy c.insideOps
  | .receiveMessage _ => []
  | .deleteThread _ _ => []

/-- **The locks of a step.** -/
def lockOps (c : Calls) (s : State) (a : Action) : List LockOp :=
  c.outside.flatMap OpenCall.ops ++
    match a with
    | .run o =>
      match s.stack s.currentThread with
      | [] => []
      | f :: rest => (s.pop rest).frameOps c o f
    | .call call => s.systemCallOps c call
    | .loop => []
    | .clock lot =>
      if 0 < s.tick.tickCount s.currentThread then []
      else s.tick.keepTicketOps c ++ s.tick.keepTicket.selectNextThreadOps c lot
    | .device _ => []

/-! ### The discipline -/

theorem neutral_locked_inside (c : Calls) {l : Lock} (hl : l.outer = true) :
    Neutral [] (locked l c.insideOps) :=
  Neutral.locked (by simp) (c.neutral_inside (by simpa using hl))

theorem neutral_findThreadOps (s : State) (id : ThreadId) : Neutral [] (s.findThreadOps id) := by
  rw [findThreadOps]
  split
  · exact .nil
  · exact Neutral.nil.locked (by simp)

theorem neutral_selectNextThreadOps (c : Calls) (lot : ℕ) (s : State) :
    Neutral [] (s.selectNextThreadOps c lot) := by
  have hio : Neutral [.ioManager] c.insideOps := c.neutral_inside (by simp [Lock.outer])
  refine Neutral.locked (by simp) (Neutral.append ?_ hio)
  rw [lotteryOps]
  split
  · exact Neutral.locked (by simp) (c.neutral_inside (by simp [Lock.outer]))
  · exact .nil

theorem neutral_keepTicketOps (c : Calls) (s : State) : Neutral [] (s.keepTicketOps c) := by
  rw [keepTicketOps]
  split
  · exact .nil
  · refine Neutral.locked (by simp) (Neutral.append (Neutral.locked (by simp) ?_) ?_)
    · exact c.neutral_inside (by simp [Lock.outer])
    · exact c.neutral_inside (by simp [Lock.outer])

/-- The message that wakes a thread holds its source, so the region has no end of a thread in it. -/
theorem neutral_putMessageOps {payload : Status}
    (hlast : s.wakes m = true → 1 < s.referenceCount (s.message m).source) :
    Neutral [] (s.putMessageOps c payload m) := by
  have hnone : (if s.wakes m then s.removeReferenceOps (s.message m).source else []) = [] := by
    split
    case isTrue hw =>
      have hcount := hlast hw
      rw [removeReferenceOps, if_neg (by omega)]
    case isFalse => rfl
  rw [putMessageOps]
  split
  · refine Neutral.locked (by simp) (Neutral.append ?_ (c.neutral_inside (by simp [Lock.outer])))
    rw [threadPutMessageOps, hnone, List.append_nil]
    exact neutral_lockBoth _ _ fun held hheld => c.neutral_inside hheld
  · exact .nil

/-- A message a frame puts is held by its source's count and by the thread it wakes. -/
theorem Regular.one_lt (h : Regular s) (hstack : s.stack s.currentThread = f :: rest)
    (hm : (m, false) ∈ f.carries) (hw : (s.pop rest).wakes m = true) :
    1 < (s.pop rest).referenceCount ((s.pop rest).message m).source := by
  have hk := h.sound.known
  have ho := h.sound.owners.imp fun _ ho => ho.pop hstack
  simp only [wakes, unblocks, Bool.and_eq_true, beq_iff_eq] at hw
  exact (h.ledger.pop hk.isListed hstack).one_lt (hk.pop hstack).1 (HasOwners.mem_allocated ho hm)
    (HasOwners.lt ho hm) hw.2.1.2

theorem neutral_frameOps (h : Regular s) (hstack : s.stack s.currentThread = f :: rest) (c : Calls)
    (o : Outcome) : Neutral [] ((s.pop rest).frameOps c o f) := by
  cases f with
  | putMessage m =>
    exact neutral_putMessageOps fun hw => h.one_lt hstack (by simp [Frame.carries]) hw
  | putRequest m =>
    exact neutral_putMessageOps fun hw => h.one_lt hstack (by simp [Frame.carries]) hw
  | yield => exact neutral_selectNextThreadOps _ _ _
  | deleteThread m =>
    simp only [frameOps]
    split
    · exact neutral_findThreadOps _ _
    · exact .nil
  | getMessage | removePending | markForDeletion | unlinkMessages | removeFromTable =>
    exact neutral_locked_inside c rfl
  | _ => exact .nil

theorem neutral_systemCallOps (c : Calls) (s : State) (call : SystemCall) :
    Neutral [] (s.systemCallOps c call) := by
  cases call with
  | sendMessage | sendAndReceiveMessage => exact neutral_findThreadOps _ _
  | createThread | registerInterruptHandler => exact neutral_locked_inside c rfl
  | receiveMessage | deleteThread => exact .nil

theorem Regular.neutral (h : Regular s) (c : Calls) (a : Action) : Neutral [] (s.lockOps c a) := by
  refine Neutral.append (.flatMap OpenCall.neutral _) ?_
  cases a with
  | run o =>
    simp only
    split
    · exact .nil
    case h_2 hstack => exact neutral_frameOps h hstack c o
  | call call => exact neutral_systemCallOps _ _ _
  | loop | device => exact .nil
  | clock lot =>
    simp only
    split
    · exact .nil
    · exact (neutral_keepTicketOps _ _).append (neutral_selectNextThreadOps _ _ _)

end State

/-! ### Runs with locks -/

structure Guarded where
  state : State
  locks : Locks

namespace Guarded

/-- The locks when a step begins, with the interrupt flag as it is then. -/
def entered (interrupts : Bool) (g : Guarded) : Locks :=
  { g.locks with interruptsEnabled := interrupts }

/-- A step of the machine with its locks; none when the kernel panics. -/
def step (g : Guarded) (x : Action × Calls × Bool) : Option Guarded :=
  match g.state.step x.1, runActions Locks.step (g.entered x.2.2) (g.state.lockOps x.2.1 x.1) with
  | some s', some k => some ⟨s', k⟩
  | _, _ => none

def boot : Guarded := ⟨State.initial, ⟨fun _ => false, fun _ => false, true⟩⟩

end Guarded

theorem Locks.Safely.post_of_run {post : Locks → Prop} {ops : List LockOp} {k k' : Locks}
    (h : Safely post ops k) (hrun : runActions Locks.step k ops = some k') : post k' := by
  induction ops generalizing k with
  | nil =>
    cases hrun
    exact h.2
  | cons op ops ih =>
    obtain ⟨-, k₁, hstep, hrest⟩ := h
    rw [runActions, hstep] at hrun
    exact ih hrest hrun

/-- What holds at the end of every step: the machine has got there, and no lock is held. -/
structure Guarded.Idle (g : Guarded) : Prop where
  reachable : State.Reachable g.state
  free : ∀ l, g.locks.acquired l = false

variable {g : Guarded}

theorem Guarded.Idle.holds (h : g.Idle) (interrupts : Bool) : Holds [] (g.entered interrupts) where
  acquired := fun l => by simp [Guarded.entered, h.free l]
  masked := fun hne => absurd rfl hne

theorem Guarded.Idle.safely (h : g.Idle) (a : Action) (c : Calls) (interrupts : Bool) :
    Safely (fun k => (∀ l, k.acquired l = false) ∧ k.interruptsEnabled = interrupts)
      (g.state.lockOps c a) (g.entered interrupts) := by
  refine (h.reachable.regular.neutral c a _ (h.holds interrupts)).mono fun k hkeep => ⟨?_, ?_⟩
  · intro l
    rw [hkeep.acquired]
    exact h.free l
  · exact hkeep.interruptsEnabled

theorem Guarded.Idle.step {g' : Guarded} {x : Action × Calls × Bool} (h : g.Idle)
    (hs : g.step x = some g') : g'.Idle := by
  rw [Guarded.step] at hs
  split at hs
  case h_1 s' k hstate hlocks =>
    cases hs
    exact ⟨h.reachable.tail trivial hstate, ((h.safely x.1 x.2.1 x.2.2).post_of_run hlocks).1⟩
  case h_2 => cases hs

end Dx.Kernel
