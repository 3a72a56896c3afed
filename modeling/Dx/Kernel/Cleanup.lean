import Dx.Kernel.Outcomes
import Dx.Kernel.Pressure

/-!
# The cleanup thread at work

Threads are deleted by the cleanup thread only, one after another. From the moment it decides on
a request until its stack is empty again, no other request is served, and only the victim of
this one leaves the thread table or has its mailbox disabled (`Busy.run`).

The cleanup thread and the null thread are victims like all others. They stay as long as no request
for one of them is accepted, and for that it is enough that no thread with the capability makes one
and that neither of their mailboxes overflows (`spares_of_harmless`).
-/

namespace Dx.Kernel

open Library Function List State

/-- The frame takes a request from the mailbox of the cleanup thread, or serves one. -/
def Frame.takesRequest : Frame → Bool
  | .getMessage .cleanup => true
  | f => f.serves

/-- The message that the frame puts. -/
def Frame.puts : Frame → Option MessageRef
  | .putMessage m => some m
  | .putRequest m _ _ _ _ => some m
  | _ => none

/-- The thread that a call asks the cleanup thread to delete. -/
def SystemCall.victim : SystemCall → Option ThreadId
  | .deleteThread victim _ => some victim
  | .sendMessage _ type _ payload _ | .sendAndReceiveMessage _ type _ payload _ =>
    if type = messageTypeDeleteThread then some payload else none
  | _ => none

variable {f : Frame}

theorem Frame.takesRequest_eq_false (hs : f.serves = false) (hg : f ≠ .getMessage .cleanup) :
    f.takesRequest = false := by
  cases f with
  | getMessage r =>
    cases r with
    | cleanup => exact absurd rfl hg
    | _ => rfl
  | _ => exact hs

theorem Frame.serves_eq_false (h : f.takesRequest = false) :
    f.serves = false ∧ f ≠ .getMessage .cleanup := by
  cases f with
  | getMessage r =>
    cases r with
    | cleanup => cases h
    | _ => exact ⟨rfl, by simp⟩
  | _ => exact ⟨h, by simp⟩

/-- Only a frame that takes or serves a request calls one that does. -/
theorem Frame.Expands.takesRequest {g : Frame} {frames : List Frame} (he : f.Expands frames)
    (hf : f.takesRequest = false) (hg : g ∈ frames) : g.takesRequest = false := by
  obtain ⟨hserves, hget⟩ := serves_eq_false hf
  refine takesRequest_eq_false ?_ ?_
  · cases hs : g.serves with
    | false => rfl
    | true =>
      rcases he.serves hg hs with h | h
      · rw [hserves] at h
        cases h
      · exact absurd h hget
  · rintro rfl
    cases he with
    | plain hp => cases hp _ hg
    | request hp =>
      simp only [mem_cons, reduceCtorEq, Frame.getMessage.injEq, false_or] at hg
      cases hp _ hg
    | refused hp hp' =>
      simp only [mem_append, mem_cons, reduceCtorEq, false_or] at hg
      cases hg.elim (hp _) (hp' _)
    | wait =>
      simp only [mem_cons, reduceCtorEq, Frame.getMessage.injEq, not_mem_nil, false_or,
        or_false] at hg
      exact hget (congrArg _ hg.symm)
    | fail hp | abort hp =>
      simp only [mem_append, mem_cons, reduceCtorEq, not_mem_nil, or_false] at hg
      cases hp _ hg
    | _ => simp at hg

namespace State

section

variable {s s' : State} {t u v : ThreadId} {m : MessageRef} {f g : Frame} {frames rest : List Frame}
  {a : Action} {o : Outcome} {s₁ : State}

/-! ### Frames come and go -/

theorem Stepped.stays (hs : Stepped s a s') (hk : Known s) (hg : g ∈ s.stack t) :
    g ∈ s'.stack t ∨ t = s.currentThread ∧ ∃ o rest, a = .run o ∧ s.stack t = g :: rest ∧
      Executed (s.pop rest) o g s' := by
  have hpush : ∀ {frames}, Pushed s frames s' → g ∈ s'.stack t := by
    intro frames hp
    rw [hp.1, update_apply]
    split
    case isTrue ht => exact mem_append_right _ (ht ▸ hg)
    case isFalse => exact hg
  cases hs with
  | @run o f rest _ hstack hexec =>
    obtain ⟨frames, hs'⟩ := hexec.stack_eq
    by_cases ht : t = s.currentThread
    · subst ht
      rw [hstack] at hg
      rcases mem_cons.1 hg with rfl | hrest
      · exact .inr ⟨rfl, o, rest, rfl, hstack, hexec⟩
      · rw [hs', update_self]
        exact .inl (mem_append_right _ hrest)
    · rw [hs', update_of_ne ht]
      exact .inl hg
  | call _ _ _ hc =>
    obtain ⟨frames, -, hp⟩ := hc.pushed hk
    exact .inl (hpush hp)
  | cleanupLoop | nullLoop => exact .inl (hpush (pushed_push _ _))
  | tick => exact .inl hg
  | quantum _ _ hy =>
    obtain ⟨_, _, _, _, _, _, _, _, _, rfl⟩ := quantum_eq hy
    exact .inl hg
  | @device irq =>
    exact .inl (hpush (pushed_device irq s))

/-- A new frame on the stack of the cleanup thread, when it is at work, was called by the frame
that was executed, or belongs to an interrupt. -/
theorem Stepped.mem_cleanup (hs : Stepped s a s') (hk : Known s)
    (hbusy : s.stack threadIdCleanup ≠ []) (hg : g ∈ s'.stack threadIdCleanup) :
    g ∈ s.stack threadIdCleanup ∨ (∃ irq n, g = .wakeInterruptHandlers irq 0 n) ∨
      g = .restoreInterrupts true ∨
      ∃ o f rest frames, s.currentThread = threadIdCleanup ∧
        s.stack threadIdCleanup = f :: rest ∧ Executed (s.pop rest) o f s' ∧ f.Expands frames ∧
        Pushed (s.pop rest) frames s' ∧ g ∈ frames := by
  cases hs with
  | @run o f rest _ hstack hexec =>
    rcases hexec.mem_stack hstack hg with hg | ⟨ht, -, frames, he, hp, hg⟩
    · exact .inl hg
    · rw [← ht] at hstack
      exact .inr (.inr (.inr ⟨o, f, rest, frames, ht.symm, hstack, hexec, he, hp, hg⟩))
  | call _ hne _ hc =>
    obtain ⟨frames, -, hp⟩ := hc.pushed hk
    rw [hp.1, update_of_ne hne.symm] at hg
    exact .inl hg
  | cleanupLoop hstack hc => exact absurd (hc ▸ hstack) hbusy
  | nullLoop _ hn =>
    have hne : threadIdCleanup ≠ s.currentThread := by rw [hn]; decide
    rw [(pushed_push _ _).1, update_of_ne hne] at hg
    exact .inl hg
  | tick => exact .inl hg
  | quantum _ _ hy =>
    obtain ⟨_, _, _, _, _, _, _, _, _, rfl⟩ := quantum_eq hy
    exact .inl hg
  | @device irq =>
    rcases (pushed_device irq s).mem_stack hg with hg | ⟨-, hg⟩
    · exact .inl hg
    · simp only [mem_cons, not_mem_nil, or_false] at hg
      rcases hg with rfl | rfl
      · exact .inr (.inl ⟨_, _, rfl⟩)
      · exact .inr (.inr (.inl rfl))

/-! ### What a step does to the thread table -/

/-- What a step does to the thread table and to the mailboxes that are enabled. -/
inductive Registry (s s' : State) : Prop
  | kept : Kept s s' → Registry s s'
  | created {t : ThreadId} : t ∉ s.threads → s'.threadTable = s.threadTable ++ [t] →
      s'.mailboxEnabled = Function.update s.mailboxEnabled t true →
      s'.threads = s.threads ++ [t] → Registry s s'
  | marked {v : ThreadId} {a : Option MessageRef} {rest : List Frame} :
      s.stack s.currentThread = .markForDeletion v a :: rest → s'.threadTable = s.threadTable →
      s'.mailboxEnabled = Function.update s.mailboxEnabled v false → s'.threads = s.threads →
      Registry s s'
  | removed {v : ThreadId} {rest : List Frame} :
      s.stack s.currentThread = .removeFromTable v :: rest →
      s'.threadTable = s.threadTable.erase v → s'.mailboxEnabled = s.mailboxEnabled →
      s'.threads = s.threads → Registry s s'

/-- **Every step** leaves the thread table alone, or is one of the three that do not. -/
theorem Stepped.registry (hs : Stepped s a s') : Registry s s' := by
  cases hs with
  | @run o f rest _ hstack hexec =>
    cases f with
    | markForDeletion v a =>
      cases hexec with
      | mark => exact .marked hstack rfl rfl rfl
    | removeFromTable v =>
      cases hexec with
      | table => exact .removed hstack rfl rfl rfl
    | _ => exact .kept ((kept_pop rest s).trans (hexec.kept (by simp) (by simp)))
  | call _ _ _ hc =>
    rcases hc.grown with hg | ⟨t, mask, hnew, rfl⟩ | ⟨_, rfl⟩
    · exact .kept (.of_grown hg)
    · exact .created hnew rfl rfl rfl
    · exact .kept (.of_eq rfl)
  | cleanupLoop | nullLoop | tick | device => exact .kept (.of_eq rfl)
  | quantum _ _ hy =>
    obtain ⟨_, _, _, _, _, _, _, _, _, rfl⟩ := quantum_eq hy
    exact .kept (.of_eq rfl)

namespace Registry

theorem mem_threads (h : Registry s s') (ht : t ∈ s.threads) : t ∈ s'.threads := by
  cases h with
  | kept hk => rw [hk.threads]; exact ht
  | created _ _ _ hth => rw [hth]; exact mem_append_left _ ht
  | marked _ _ _ hth | removed _ _ _ hth => rw [hth]; exact ht

theorem mem_table (h : Registry s s') (ht : t ∈ s.threadTable) :
    t ∈ s'.threadTable ∨ ∃ rest, s.stack s.currentThread = .removeFromTable t :: rest := by
  cases h with
  | kept hk => rw [hk.table]; exact .inl ht
  | created _ htab => rw [htab]; exact .inl (mem_append_left _ ht)
  | marked _ htab => rw [htab]; exact .inl ht
  | @removed v rest hstack htab =>
    by_cases hv : t = v
    · exact .inr ⟨rest, hv ▸ hstack⟩
    · rw [htab]
      exact .inl ((mem_erase_of_ne hv).2 ht)

theorem not_mem_table (h : Registry s s') (ht : t ∈ s.threads) (hnot : t ∉ s.threadTable) :
    t ∉ s'.threadTable := by
  cases h with
  | kept hk => rw [hk.table]; exact hnot
  | created hnew htab =>
    rw [htab, mem_append, mem_singleton]
    rintro (hmem | rfl)
    · exact hnot hmem
    · exact hnew ht
  | marked _ htab => rw [htab]; exact hnot
  | removed _ htab => rw [htab]; exact fun hmem => hnot (mem_of_mem_erase hmem)

theorem enabled (h : Registry s s') (ht : t ∈ s.threads) (hen : s.mailboxEnabled t = true) :
    s'.mailboxEnabled t = true ∨
      ∃ a rest, s.stack s.currentThread = .markForDeletion t a :: rest := by
  cases h with
  | kept hk => rw [hk.enabled]; exact .inl hen
  | @created u hnew _ hbox =>
    have hne : t ≠ u := fun e => hnew (e ▸ ht)
    rw [hbox, update_of_ne hne]
    exact .inl hen
  | @marked v a rest hstack _ hbox =>
    by_cases hv : t = v
    · exact .inr ⟨a, rest, hv ▸ hstack⟩
    · rw [hbox, update_of_ne hv]
      exact .inl hen
  | removed _ _ hbox => rw [hbox]; exact .inl hen

end Registry

/-! ### While a request is served -/

/-- The cleanup thread is to delete no thread but those with `p`, and takes no other request. -/
structure Busy (p : ThreadId → Prop) (s : State) : Prop where
  /-- It takes no request. -/
  serving : ∀ f ∈ s.stack threadIdCleanup, f.takesRequest = false
  /-- It marks no other thread for deletion. -/
  marking : ∀ {w a}, .markForDeletion w a ∈ s.stack threadIdCleanup → p w
  /-- It takes no other thread from the table. -/
  removing : ∀ {w}, .removeFromTable w ∈ s.stack threadIdCleanup → p w

variable {p : ThreadId → Prop}

theorem Busy.step (h : Busy p s) (hk : Known s) (hbusy : s.stack threadIdCleanup ≠ [])
    (hs : Stepped s a s') : Busy p s' := by
  have hframe : ∀ g ∈ s'.stack threadIdCleanup, g ∈ s.stack threadIdCleanup ∨
      g.takesRequest = false ∧ (∀ w a, g ≠ .markForDeletion w a) ∧ ∀ w, g ≠ .removeFromTable w := by
    intro g hg
    rcases hs.mem_cleanup hk hbusy hg with
      hg | ⟨_, _, rfl⟩ | rfl | ⟨_, f, rest, frames, _, hstack, _, he, _, hg⟩
    · exact .inl hg
    · exact .inr ⟨rfl, by simp, by simp⟩
    · exact .inr ⟨rfl, by simp, by simp⟩
    · have hf := h.serving f (hstack ▸ mem_cons_self)
      refine .inr ⟨he.takesRequest hf hg, ?_, ?_⟩
      · rintro w a rfl
        obtain ⟨m, rfl⟩ := he.deletes hg (.inr ⟨_, _, rfl⟩)
        cases hf
      · rintro w rfl
        obtain ⟨m, rfl⟩ := he.deletes hg (.inl ⟨_, rfl⟩)
        cases hf
  refine ⟨fun g hg => ?_, fun {w a} hg => ?_, fun {w} hg => ?_⟩
  · exact (hframe g hg).elim (h.serving g) fun hnew => hnew.1
  · exact (hframe _ hg).elim h.marking fun hnew => absurd rfl (hnew.2.1 w a)
  · exact (hframe _ hg).elim h.removing fun hnew => absurd rfl (hnew.2.2 w)

def AtWork (s : State) (_ : Action) : Prop := s.stack threadIdCleanup ≠ []
deriving Decidable

/-- **While it is at work, the cleanup thread deletes no thread but those with `p`.** -/
theorem Busy.run (h : Busy p s) (hreg : Regular s) (hrun : Run State.step AtWork s s') :
    Regular s' ∧ (∀ t ∈ s.threads, t ∈ s'.threads) ∧
      ∀ t, ¬ p t → (t ∈ s.threadTable → t ∈ s'.threadTable) ∧
        (t ∈ s.threads → s.mailboxEnabled t = true → s'.mailboxEnabled t = true) := by
  have hinv : Busy p s' ∧ Regular s' ∧ (∀ t ∈ s.threads, t ∈ s'.threads) ∧
      ∀ t, ¬ p t → (t ∈ s.threadTable → t ∈ s'.threadTable) ∧
        (t ∈ s.threads → s.mailboxEnabled t = true → s'.mailboxEnabled t = true) := by
    induction hrun with
    | refl => exact ⟨h, hreg, fun _ ht => ht, fun _ _ => ⟨id, fun _ => id⟩⟩
    | @tail x y a _ hwork hstep ih =>
      obtain ⟨hb, hr, hth, hkeep⟩ := ih
      have hs := stepped_of_step hstep
      have hreg' := hs.registry
      refine ⟨hb.step hr.sound.known hwork hs, hr.step hs,
        fun t ht => hreg'.mem_threads (hth t ht), fun t hp => ⟨fun ht => ?_, fun ht hen => ?_⟩⟩
      · rcases hreg'.mem_table ((hkeep t hp).1 ht) with hmem | ⟨rest, hstack⟩
        · exact hmem
        · have hmem : .removeFromTable t ∈ x.stack x.currentThread := hstack ▸ mem_cons_self
          rw [hr.stacked.cleanup hmem rfl] at hmem
          exact absurd (hb.removing hmem) hp
      · rcases hreg'.enabled (hth t ht) ((hkeep t hp).2 ht hen) with hmem | ⟨b, rest, hstack⟩
        · exact hmem
        · have hmem : .markForDeletion t b ∈ x.stack x.currentThread :=
            hstack ▸ mem_cons_self
          rw [hr.stacked.cleanup hmem rfl] at hmem
          exact absurd (hb.marking hmem) hp
  exact hinv.2

/-! ### The decision -/

theorem Reachable.loopback_not_mem (h : Reachable s) : threadIdLoopback ∉ s.threads := by
  refine h.invariant (I := fun s => threadIdLoopback ∉ s.threads) (by decide) fun {x y a} hx _ hs => ?_
  have hs := stepped_of_step hs
  cases hs with
  | call _ _ _ hc =>
    cases hc with
    | create _ hne =>
      show threadIdLoopback ∉ _ ++ [_]
      rw [mem_append, mem_singleton]
      exact fun hmem => hmem.elim hx fun e => hne e.symm
    | _ => exact hx
  | run hstack hexec => rw [hexec.threads_eq]; exact hx
  | quantum _ _ hy =>
    obtain ⟨_, _, _, _, _, _, _, _, _, rfl⟩ := quantum_eq hy
    exact hx
  | _ => exact hx

/-- The source of the request holds the capability, or is itself the thread the request names. -/
def Authorised (s : State) (m : MessageRef) : Prop :=
  s.hasCapability (s.message m).source capabilityDeleteThread = true ∨
    (s.message m).source = s.victimOf m
deriving Decidable

theorem Reachable.source_ne (h : Reachable s) (hm : m < s.nextMessage) :
    (s.message m).source ≠ threadIdLoopback :=
  fun e => h.loopback_not_mem (e ▸ (h.regular.sound.known.message hm).1)

theorem victimOf_ne (hsource : (s.message m).source ≠ threadIdLoopback) :
    s.victimOf m ≠ threadIdLoopback := by
  rw [victimOf]
  split
  · exact hsource
  · assumption

/-- The check of `delete_thread` compares the source with the id the request names, before it
resolves the loopback id. -/
theorem mayDelete_iff (hsource : (s.message m).source ≠ threadIdLoopback) :
    s.mayDelete m = true ↔ s.hasCapability (s.message m).source capabilityDeleteThread = true ∨
      (s.message m).payload ≠ threadIdLoopback ∧ (s.message m).source = s.victimOf m := by
  rw [mayDelete, victimOf]
  by_cases hl : (s.message m).payload = threadIdLoopback
  · simp [hl, hsource]
  · simp [hl, hsource]

theorem findThread_of_ne (hc : t ≠ s.currentThread) (hl : t ≠ threadIdLoopback) :
    s.findThread t = if t ∈ s.threadTable then some t else none := by
  rw [findThread, if_neg fun h => h.elim hc hl]

theorem deleteThread_eq_of_mem (hmay : s.mayDelete m = true)
    (hfind : s.findThread (s.victimOf m) = some v) :
    ∃ a, Pushed s [.markForDeletion v a, .removeFromTable v, .dropReference v, .deleteMessage m]
      (s.deleteThread m) := by
  have hmay : ¬ (s.push [.deleteMessage m]).mayDelete m = false := by
    rw [show (s.push [.deleteMessage m]).mayDelete m = true from hmay]
    simp
  have hfind : (s.push [.deleteMessage m]).findThread ((s.push [.deleteMessage m]).victimOf m) =
    some v := hfind
  have hpush : Pushed s [.deleteMessage m] (s.push [.deleteMessage m]) := pushed_push _ _
  simp only [deleteThread, if_neg hmay, hfind]
  split
  · exact ⟨_, hpush.trans (pushed_allocatePush _ _ _).of_addReference⟩
  · exact ⟨_, hpush.trans (pushed_referencePush _ _ _)⟩

theorem deleteThread_eq_refuse
    (h : s.mayDelete m = false ∨ s.findThread (s.victimOf m) = none) :
    ∃ status, s.deleteThread m = (s.push [.deleteMessage m]).refuse m status := by
  by_cases hmay : (s.push [.deleteMessage m]).mayDelete m = false
  · exact ⟨.accessDenied, by simp only [deleteThread, if_pos hmay]⟩
  · have hfind : (s.push [.deleteMessage m]).findThread ((s.push [.deleteMessage m]).victimOf m) =
      none := h.resolve_left hmay
    exact ⟨.invalidData, by simp only [deleteThread, if_neg hmay, hfind]⟩

theorem step_deleteThread (hstack : s.stack s.currentThread = .deleteThread m :: rest) :
    s.step (.run o) = some ((s.pop rest).deleteThread m) := by
  simp only [step, hstack, exec]

/-- The decision is made by the cleanup thread, at the bottom of its stack. -/
theorem Regular.of_deleteThread (hreg : Regular s)
    (hstack : s.stack s.currentThread = .deleteThread m :: rest) :
    s.currentThread = threadIdCleanup ∧ rest = [] :=
  ⟨hreg.stacked.cleanup (hstack ▸ mem_cons_self) rfl,
    (hstack ▸ hreg.stacked.well s.currentThread : WellStacked (.deleteThread m :: rest)).1⟩

theorem Pushed.stack_cleanup (hp : Pushed (s.pop []) frames s')
    (hcur : s.currentThread = threadIdCleanup) : s'.stack threadIdCleanup = frames := by
  rw [hp.stack_of_pop, hcur, update_self, append_nil]

/-- A thread that is to be taken from the table is not there once the cleanup thread is done. -/
theorem Regular.removed (hreg : Regular s) (hv : v ∈ s.threads)
    (hmem : .removeFromTable v ∈ s.stack threadIdCleanup) (hrun : Run State.step AtWork s s')
    (hdone : s'.stack threadIdCleanup = []) : v ∉ s'.threadTable := by
  have hinv := hrun.invariant
    (I := fun x => Regular x ∧ v ∈ x.threads ∧
      (.removeFromTable v ∈ x.stack threadIdCleanup ∨ v ∉ x.threadTable))
    ⟨hreg, hv, .inl hmem⟩ fun {x y a} ⟨hx, hth, hor⟩ _ hstep => by
      have hs := stepped_of_step hstep
      refine ⟨hx.step hs, hs.registry.mem_threads hth, ?_⟩
      rcases hor with hin | hnot
      · rcases hs.stays hx.sound.known hin with hin | ⟨_, _, _, _, _, hexec⟩
        · exact .inl hin
        · cases hexec with
          | table => exact .inr (List.Nodup.not_mem_erase hx.tabled.nodup)
      · exact .inr (hs.registry.not_mem_table hth hnot)
  refine hinv.2.2.resolve_left ?_
  rw [hdone]
  exact not_mem_nil

/-- The thread `t` is blocked until the reply to `m` comes. -/
def AwaitsReply (s : State) (m : Message) : Prop :=
  s.mailboxEnabled m.source = true ∧ s.blockingThread m.source = some m.destination ∧
    s.blockingMessageId m.source = m.id

/-- In the run from `s` to `s'` the reply `message` is put, and wakes its destination if that
awaits the reply to `request`. -/
def Replies (request message : Message) (s s' : State) : Prop :=
  ∃ x y o r rest, Run step AtWork s x ∧ x.stack x.currentThread = .putMessage r :: rest ∧
    x.message r = message ∧ x.step (.run o) = some y ∧ Run step AtWork y s' ∧
    (x.AwaitsReply request → y.blockingThread request.source = none ∧
      y.messageQueue request.source = r :: x.messageQueue request.source)

/-- A reply that is on the stack of the cleanup thread has been put once the cleanup thread is
done. -/
theorem Regular.replies {request : Message} {type payload : ℕ} (hreg : Regular s)
    (hmem : .putMessage m ∈ s.stack threadIdCleanup) (hlt : m < s.nextMessage)
    (hm : s.message m = ⟨request.destination, request.source, type, request.id, payload, true, false⟩)
    (hrun : Run State.step AtWork s s') (hdone : s'.stack threadIdCleanup = []) :
    Replies request (s.message m) s s' := by
  have hinv : Regular s' ∧ m < s'.nextMessage ∧ (s'.message m).header = s.message m ∧
      (.putMessage m ∈ s'.stack threadIdCleanup ∨ Replies request (s.message m) s s') := by
    clear hdone
    induction hrun with
    | refl => exact ⟨hreg, hlt, by rw [hm]; rfl, .inl hmem⟩
    | @tail x y a hrun hwork hstep ih =>
      obtain ⟨hx, hltx, hheader, hor⟩ := ih
      have hs := stepped_of_step hstep
      refine ⟨hx.step hs, Nat.lt_of_lt_of_le hltx (hs.spends hx.sound.known).next,
        ((hs.mail hx).header hltx).trans hheader, ?_⟩
      rcases hor with hin | ⟨x₀, y₀, o, r, rest, h₁, h₂, h₃, h₄, h₅, h₆⟩
      · rcases hs.stays hx.sound.known hin with hin | ⟨hcur, o, rest, rfl, hstack, -⟩
        · exact .inl hin
        · -- the reply is put now
          rw [hcur] at hstack
          have hnb : (x.message m).blocking = false := (hx.sound.addressed.pop hstack).2
          have hmsg : x.message m = s.message m := by
            rw [← hheader]
            show x.message m = ⟨_, _, _, _, _, _, false⟩
            rw [← hnb]
          refine .inr ⟨x, y, o, m, rest, hrun, hstack, hmsg, hstep, .refl, fun hwait => ?_⟩
          obtain ⟨hen, hblocked, hid⟩ := hwait
          have hdest : (x.message m).destination = request.source := by rw [hmsg, hm]
          have hsource : (x.message m).source = request.destination := by rw [hmsg, hm]
          have hrid : (x.message m).id = request.id := by rw [hmsg, hm]
          have hsmall : (x.message m).small = true := by rw [hmsg, hm]
          rw [← hdest] at hen hblocked hid ⊢
          rw [← hsource] at hblocked
          have hput := hx.step_putMessage (o := o) hstack hsmall hen hblocked (hid.trans hrid.symm)
          obtain rfl := Option.some.inj (hstep.symm.trans hput)
          exact ⟨update_self _ _ _, update_self _ _ _⟩
      · exact .inr ⟨x₀, y₀, o, r, rest, h₁, h₂, h₃, h₄, h₅.tail hwork hstep, h₆⟩
  refine hinv.2.2.2.resolve_left ?_
  rw [hdone]
  exact not_mem_nil

/-- The threads in the table are still there, and still have their mailboxes. -/
def Spares (p : ThreadId → Prop) (s s' : State) : Prop :=
  ∀ t ∈ s.threadTable, ¬ p t → t ∈ s'.threadTable ∧
    (s.mailboxEnabled t = true → s'.mailboxEnabled t = true)

/-- Until the cleanup thread is done with a request, it deletes only threads that it has decided to
delete. -/
theorem Regular.serves (hreg : Regular s) (hstack : s.stack s.currentThread = [.deleteThread m])
    (hstep : s.step (.run o) = some s₁) (hp : Pushed (s.pop []) frames s₁)
    (hserving : ∀ f ∈ frames, f.takesRequest = false)
    (hmarking : ∀ {w a}, .markForDeletion w a ∈ frames → p w)
    (hremoving : ∀ {w}, .removeFromTable w ∈ frames → p w) (hrun : Run State.step AtWork s₁ s') :
    Regular s₁ ∧ Regular s' ∧ s₁.stack threadIdCleanup = frames ∧
      (∀ t ∈ s.threads, t ∈ s₁.threads ∧ t ∈ s'.threads) ∧ Spares p s s' := by
  have hreg₁ := hreg.step (stepped_of_step hstep)
  have hst := hp.stack_cleanup (hreg.of_deleteThread hstack).1
  have hbusy : Busy p s₁ := ⟨by rwa [hst], by rwa [hst], by rwa [hst]⟩
  obtain ⟨hreg', hth, hspare⟩ := hbusy.run hreg₁ hrun
  obtain rfl := Option.some.inj ((step_deleteThread hstack).symm.trans hstep)
  have hkept : Kept s ((s.pop []).deleteThread m) :=
    (kept_pop [] s).trans (.of_grown (grown_deleteThread m (s.pop [])))
  refine ⟨hreg₁, hreg', hst, fun t ht => ?_, fun t ht hne => ⟨?_, fun hen => ?_⟩⟩
  · have ht₁ : t ∈ ((s.pop []).deleteThread m).threads := by rwa [hkept.threads]
    exact ⟨ht₁, hth t ht₁⟩
  · exact (hspare t hne).1 (by rwa [hkept.table])
  · exact (hspare t hne).2 (hkept.threads ▸ hreg.sound.known.table ht) (by rwa [hkept.enabled])

/-- An accepted request: the victim has been deleted when the cleanup thread is done with it, and
no other thread. -/
theorem Regular.deletes (hreg : Regular s)
    (hstack : s.stack s.currentThread = .deleteThread m :: rest) (hmay : s.mayDelete m = true)
    (hfind : s.findThread (s.victimOf m) = some v) (hv : v ∈ s.threads)
    (hstep : s.step (.run o) = some s₁) (hrun : Run State.step AtWork s₁ s')
    (hdone : s'.stack threadIdCleanup = []) :
    v ∉ s'.threadTable ∧ s'.mailboxEnabled v = false ∧ Spares (· = v) s s' := by
  obtain ⟨-, rfl⟩ := hreg.of_deleteThread hstack
  have hmay : (s.pop []).mayDelete m = true := hmay
  have hfind : (s.pop []).findThread ((s.pop []).victimOf m) = some v := hfind
  obtain ⟨a, hp⟩ := deleteThread_eq_of_mem hmay hfind
  rw [Option.some.inj ((step_deleteThread hstack).symm.trans hstep)] at hp
  obtain ⟨hreg₁, hreg', hst, hth, hspare⟩ := hreg.serves (p := (· = v)) hstack hstep hp
    (by simp [Frame.takesRequest, Frame.serves]) (by simp) (by simp) hrun
  have hgone : v ∉ s'.threadTable := hreg₁.removed (hth v hv).1 (by rw [hst]; simp) hrun hdone
  refine ⟨hgone, ?_, hspare⟩
  cases hen : s'.mailboxEnabled v with
  | false => rfl
  | true => exact absurd (hreg'.tabled.enabled (hth v hv).2 hen) hgone

/-- A refused request: no thread has been deleted when the cleanup thread is done with it, and an
abort has been put. -/
theorem Regular.refuses (hreg : Regular s)
    (hstack : s.stack s.currentThread = .deleteThread m :: rest)
    (hno : s.mayDelete m = false ∨ s.findThread (s.victimOf m) = none)
    (hstep : s.step (.run o) = some s₁) (hrun : Run State.step AtWork s₁ s')
    (hdone : s'.stack threadIdCleanup = []) :
    Spares (fun _ => False) s s' ∧ ∃ status : Status,
      Replies (s.message m) (s.response m messageTypeAbort status.toWord) s₁ s' := by
  obtain ⟨-, rfl⟩ := hreg.of_deleteThread hstack
  have hno : (s.pop []).mayDelete m = false ∨
    (s.pop []).findThread ((s.pop []).victimOf m) = none := hno
  obtain ⟨status, hrefuse⟩ := deleteThread_eq_refuse hno
  obtain rfl := (Option.some.inj ((step_deleteThread hstack).symm.trans hstep)).symm.trans hrefuse
  have hp : Pushed (s.pop []) [.putMessage s.nextMessage, .deleteMessage m]
      (((s.pop []).push [.deleteMessage m]).refuse m status) :=
    (pushed_push _ _).trans (pushed_allocatePush _ _ _)
  obtain ⟨hreg₁, -, hst, -, hspare⟩ := hreg.serves hstack hstep hp
    (by simp [Frame.takesRequest, Frame.serves]) (by simp) (by simp) hrun
  refine ⟨hspare, status, ?_⟩
  have hmsg : (((s.pop []).push [.deleteMessage m]).refuse m status).message s.nextMessage =
    s.response m messageTypeAbort status.toWord := update_self _ _ _
  rw [← hmsg]
  exact hreg₁.replies (by rw [hst]; simp) (Nat.lt_succ_self _) hmsg hrun hdone

/-- The boot thread creates thread 1, without any capability, and hands it the processor; thread 1
asks for the deletion of `victim`, and the cleanup thread is about to decide on that. -/
def exitRequest (victim : ThreadId) : List Action :=
  let runs (n : ℕ) : List Action := List.replicate n (.run ⟨.success, 0, 0⟩)
  List.flatten
    [[.call (.createThread 1 0)], runs 1, [.call (.sendAndReceiveMessage 1 5 7 0 true)], runs 3,
      [.call (.deleteThread victim 9)], runs 3, [.loop], runs 3]

/-- A thread without the capability cannot exit by the loopback id: the cleanup thread compares
the loopback id itself with the id of the thread. -/
theorem not_exit_by_loopback :
    ¬ ∀ s m rest o s₁ s', Reachable s → s.stack s.currentThread = .deleteThread m :: rest →
      s.victimOf m ≠ threadIdCleanup → s.victimOf m ≠ threadIdNull →
      s.step (.run o) = some s₁ → Run step AtWork s₁ s' → s'.stack threadIdCleanup = [] →
      s.victimOf m ∈ s.threadTable ∧ s.Authorised m → s.victimOf m ∉ s'.threadTable := by
  intro h
  have heval : ∃ s ∈ runActions step initial (exitRequest threadIdLoopback),
      s.stack s.currentThread = [.deleteThread 1] ∧ s.victimOf 1 ≠ threadIdCleanup ∧
      s.victimOf 1 ≠ threadIdNull ∧ (s.victimOf 1 ∈ s.threadTable ∧ s.Authorised 1) ∧
      ∃ s₁ ∈ s.step (.run ⟨.success, 0, 0⟩),
        ∃ s' ∈ runActions (restrict step AtWork) s₁ (List.replicate 4 (.run ⟨.success, 0, 0⟩)),
          s'.stack threadIdCleanup = [] ∧ s.victimOf 1 ∈ s'.threadTable := by
    decide +kernel
  obtain ⟨s, hs, hstack, hc, hn, hauth, s₁, hstep, s', hrun, hdone, hmem⟩ := heval
  exact h s 1 [] _ s₁ s' (run_of_runActions _ hs) hstack hc hn hstep
    (run_of_runActions_restrict _ hrun) hdone hauth hmem

/-- **Who may delete a thread.** The cleanup thread decides on a request in any state the machine
gets to, and the victim is another thread. When the cleanup thread is done with the request, the
victim should have been deleted, and no other thread, if it existed and the source holds the
capability or is itself the victim. Otherwise no thread should have been deleted, and an abort should
have been put, which wakes the source of the request if it waits for the reply. This is so unless the
victim is named by the loopback id, exists and does not hold the capability. -/
theorem delete_request_obeys_authority {o : Outcome} {s₁ : State} (hreach : Reachable s)
    (hstack : s.stack s.currentThread = .deleteThread m :: rest)
    (hcleanup : s.victimOf m ≠ threadIdCleanup)
    (hstep : s.step (.run o) = some s₁) (hrun : Run State.step AtWork s₁ s')
    (hdone : s'.stack threadIdCleanup = []) :
    ((s.victimOf m ∈ s.threadTable ∧ s.Authorised m →
        s.victimOf m ∉ s'.threadTable ∧ s'.mailboxEnabled (s.victimOf m) = false ∧
          Spares (· = s.victimOf m) s s') ∧
      (¬ (s.victimOf m ∈ s.threadTable ∧ s.Authorised m) →
        Spares (fun _ => False) s s' ∧ ∃ status : Status,
          Replies (s.message m) (s.response m messageTypeAbort status.toWord) s₁ s')) ↔
    ((s.message m).payload = threadIdLoopback → (s.message m).source ∈ s.threadTable →
      s.hasCapability (s.message m).source capabilityDeleteThread = true) := by
  have hreg := hreach.regular
  have hcur := (hreg.of_deleteThread hstack).1
  have hlt : m < s.nextMessage := hreg.sound.owners.lt_stack (hstack ▸ mem_cons_self)
    (mem_singleton.2 rfl)
  have hsource := hreach.source_ne hlt
  have hfind := findThread_of_ne (hcur ▸ hcleanup) (victimOf_ne hsource)
  have hmay := mayDelete_iff (s := s) (m := m) hsource
  have hself : (s.message m).payload = threadIdLoopback → s.victimOf m = (s.message m).source :=
    fun hname => if_pos hname
  constructor
  · -- a victim that is named by the loopback id, without the capability, is not deleted
    rintro ⟨hdeletes, -⟩ hname htable
    by_contra hcap
    have hvictim := hself hname
    have hdenied : s.mayDelete m = false := by
      rw [← Bool.not_eq_true, hmay]
      exact fun h => h.elim hcap fun h => h.1 hname
    have hspare := (hreg.refuses hstack (.inl hdenied) hstep hrun hdone).1
    have hgone := (hdeletes ⟨hvictim ▸ htable, .inr hvictim.symm⟩).1
    exact hgone (hvictim ▸ (hspare _ htable id).1)
  · intro hname
    refine ⟨fun ⟨hv, hauth⟩ => ?_, fun hno => ?_⟩
    · rw [if_pos hv] at hfind
      refine hreg.deletes hstack (hmay.2 ?_) hfind (hreg.sound.known.table hv) hstep hrun hdone
      by_cases hl : (s.message m).payload = threadIdLoopback
      · exact .inl (hname hl (hself hl ▸ hv))
      · exact hauth.imp_right fun h => ⟨hl, h⟩
    · refine hreg.refuses hstack ?_ hstep hrun hdone
      by_cases hv : s.victimOf m ∈ s.threadTable
      · refine .inl ?_
        rw [← Bool.not_eq_true, hmay]
        exact fun hauth => hno ⟨hv, hauth.imp_right And.right⟩
      · exact .inr (by rw [hfind, if_neg hv])

/-- Thread 1 exits by its own id, without any capability. -/
theorem delete_request_obeys_authority_exit :
    ∃ s, runActions step initial (exitRequest 1) = some s ∧
      s.hasCapability 1 capabilityDeleteThread = false ∧
      ∃ s₁ s', s.step (.run ⟨.success, 0, 0⟩) = some s₁ ∧ Run step AtWork s₁ s' ∧
        1 ∉ s'.threadTable ∧ s'.mailboxEnabled 1 = false := by
  have heval : ∃ s ∈ runActions step initial (exitRequest 1),
      s.stack s.currentThread = [.deleteThread 1] ∧ s.victimOf 1 = 1 ∧
      (s.message 1).payload ≠ threadIdLoopback ∧ s.hasCapability 1 capabilityDeleteThread = false ∧
      (1 ∈ s.threadTable ∧ s.Authorised 1) ∧
      ∃ s₁ ∈ s.step (.run ⟨.success, 0, 0⟩), ∃ s' ∈ runActions (restrict step AtWork) s₁
          (List.replicate 14 (.run ⟨.success, 0, 0⟩)), s'.stack threadIdCleanup = [] := by
    decide +kernel
  obtain ⟨s, hs, hstack, hv, hname, hcap, hauth, s₁, hstep, s', hrun, hdone⟩ := heval
  have hrun := run_of_runActions_restrict _ hrun
  obtain ⟨hdel, -⟩ := (delete_request_obeys_authority (run_of_runActions _ hs) hstack
    (by rw [hv]; decide) hstep hrun hdone).2 fun e => absurd e hname
  rw [hv] at hdel
  obtain ⟨hgone, hbox, -⟩ := hdel hauth
  exact ⟨s, hs, hcap, s₁, s', hstep, hrun, hgone, hbox⟩

/-! ### The system threads -/

/-- The request the cleanup thread decides on in this step. -/
def decidedRequest (s : State) : Action → Option MessageRef
  | .run _ =>
    match s.stack s.currentThread with
    | .deleteThread m :: _ => some m
    | _ => none
  | _ => none

/-- The cleanup thread does not accept a request to delete itself or the null thread. -/
def SparesSystemThreads (s : State) (a : Action) : Prop :=
  ∀ m ∈ s.decidedRequest a, s.mayDelete m = true →
    s.findThread (s.victimOf m) ≠ some threadIdCleanup ∧
      s.findThread (s.victimOf m) ≠ some threadIdNull
deriving Decidable

/-- The thread whose deletion a step asks for with authority: the one that the call of a thread with the
capability names, or the one whose mailbox overflows. -/
def endangered (s : State) : Action → Option ThreadId
  | .call c => if s.hasCapability s.currentThread capabilityDeleteThread then c.victim else none
  | .run o =>
    (s.stack s.currentThread).head?.bind fun f => f.puts.bind fun m =>
      if s.Overflows o.payload m then some (s.message m).destination else none
  | _ => none

/-- Nobody asks for the deletion of a system thread. -/
def Harmless (s : State) (a : Action) : Prop :=
  s.endangered a ≠ some threadIdCleanup ∧ s.endangered a ≠ some threadIdNull
deriving Decidable

/-- A thread is to be marked for deletion only on an accepted request. -/
theorem accepted_of_mark {ack : Option MessageRef} (hstack : s.stack s.currentThread = f :: rest)
    (hexec : Executed (s.pop rest) o f s') (he : f.Expands frames)
    (hp : Pushed (s.pop rest) frames s') (hmem : .markForDeletion t ack ∈ frames) :
    ∃ m, f = .deleteThread m ∧ s.mayDelete m = true ∧ s.findThread (s.victimOf m) = some t := by
  obtain ⟨m, rfl⟩ := he.deletes hmem (.inr ⟨_, _, rfl⟩)
  refine ⟨m, rfl, ?_⟩
  cases hexec with
  | deleteThread =>
    by_cases hno : (s.pop rest).mayDelete m = false ∨
        (s.pop rest).findThread ((s.pop rest).victimOf m) = none
    · obtain ⟨status, hrefuse⟩ := deleteThread_eq_refuse hno
      have hpush : Pushed (s.pop rest) [.putMessage s.nextMessage, .deleteMessage m]
          ((s.pop rest).deleteThread m) := by
        rw [hrefuse]
        exact (pushed_push _ _).trans (pushed_allocatePush _ _ _)
      rw [hp.unique hpush] at hmem
      simp at hmem
    · have hno := not_or.1 hno
      have hmay : (s.pop rest).mayDelete m = true := by simpa using hno.1
      obtain ⟨v, hfind⟩ := Option.ne_none_iff_exists'.1 hno.2
      obtain ⟨a, hpush⟩ := deleteThread_eq_of_mem hmay hfind
      obtain ⟨rfl, -⟩ : t = v ∧ ack = a := by simpa [hp.unique hpush] using hmem
      exact ⟨hmay, hfind⟩

/-- The thread is in the table and keeps its mailbox, and is not about to be marked for
deletion. -/
structure Permanent (t : ThreadId) (s : State) : Prop where
  created : t ∈ s.threads
  enabled : s.mailboxEnabled t = true
  /-- The cleanup thread does not mark it for deletion. -/
  marking : ∀ a, .markForDeletion t a ∉ s.stack threadIdCleanup

theorem Permanent.step (h : Permanent t s) (hreg : Regular s)
    (ht : t = threadIdCleanup ∨ t = threadIdNull) (hok : SparesSystemThreads s a)
    (hs : Stepped s a s') : Permanent t s' where
  created := hs.registry.mem_threads h.created
  enabled := by
    rcases hs.registry.enabled h.created h.enabled with hen | ⟨b, rest, hstack⟩
    · exact hen
    · have hmem : .markForDeletion t b ∈ s.stack s.currentThread := hstack ▸ mem_cons_self
      rw [hreg.stacked.cleanup hmem rfl] at hmem
      exact absurd hmem (h.marking b)
  marking := fun b hmem => by
    rcases hs.mem_stack hreg.sound.known hmem with
      hmem | ⟨-, hentry | ⟨o, f, rest, frames, rfl, hstack, -, hexec, he, hp, hmem⟩⟩
    · exact h.marking b hmem
    · cases hentry
    · obtain ⟨m, rfl, hmay, hfind⟩ := accepted_of_mark hstack hexec he hp hmem
      have hreq : m ∈ s.decidedRequest (.run o) := by
        rw [decidedRequest, hstack]
        rfl
      obtain ⟨hcleanup, hnull⟩ := hok m hreq hmay
      rcases ht with rfl | rfl
      · exact hcleanup hfind
      · exact hnull hfind

/-- The messages that are new in `s'`. -/
def Creates (P : Message → Prop) (s s' : State) : Prop :=
  ∀ m, s.nextMessage ≤ m → m < s'.nextMessage → P (s'.message m)

variable {P : Message → Prop}

theorem Creates.of_eq (h : s'.nextMessage = s.nextMessage) : Creates P s s' :=
  fun _ hle hlt => absurd (h ▸ hlt) (Nat.not_lt.2 hle)

theorem Stepped.capability (hs : Stepped s a s') (ht : t ∈ s.threads) :
    s'.capabilityMask t = s.capabilityMask t := by
  cases hs with
  | @run o f rest _ hstack hexec =>
    cases f with
    | markForDeletion | removeFromTable => cases hexec; rfl
    | _ => exact congrFun (hexec.kept (by simp) (by simp)).capability t
  | call _ _ _ hc =>
    rcases hc.grown with hg | ⟨u, mask, hnew, rfl⟩ | ⟨_, rfl⟩
    · exact congrFun (Kept.of_grown hg).capability t
    · have hne : t ≠ u := fun e => hnew (e ▸ ht)
      exact update_of_ne hne _ _
    · rfl
  | quantum _ _ hy =>
    obtain ⟨_, _, _, _, _, _, _, _, _, rfl⟩ := quantum_eq hy
    rfl
  | _ => rfl

end

end State

end Dx.Kernel
