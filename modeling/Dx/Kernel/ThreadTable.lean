import Dx.Kernel.Stack
import Dx.Kernel.Addressed

/-!
# The thread table

A thread is in the thread table from its creation until the cleanup thread has deleted it, and
its mailbox is enabled until it has been marked for deletion. In between, while its messages are
aborted, it is in the table with its mailbox disabled; the frame that takes it from the table is
then on the stack of the cleanup thread, and nowhere else.

The cleanup thread can be asked to delete itself. It does, and is out of work after that, for no
message gets into its mailbox any more.
-/

namespace Dx.Kernel

open Function List

/-- The cleanup thread has taken a message from its mailbox, and has not yet served it. -/
def Frame.serves : Frame → Bool
  | .removePending _ .cleanup => true
  | .deliverPayload _ .cleanup => true
  | .deleteThread _ => true
  | _ => false

variable {f : Frame} {frames : List Frame}

theorem Frame.serves_of_isPlain (hf : f.isPlain = true) : f.serves = false := by
  cases f <;> trivial

/-- Frames that serve a message are called by `get_message`. -/
theorem Frame.Expands.serves {g : Frame} (he : f.Expands frames) (hg : g ∈ frames)
    (hs : g.serves = true) : f.serves = true ∨ f = .getMessage .cleanup := by
  cases he with
  | plain hp => rw [serves_of_isPlain (hp g hg)] at hs; cases hs
  | send | giveUp | mark | unlink => rw [mem_singleton.1 hg] at hs; cases hs
  | request hp =>
    simp only [mem_cons] at hg
    rcases hg with rfl | rfl | rfl | hg
    · cases hs
    · cases hs
    · cases hs
    · rw [serves_of_isPlain (hp g hg)] at hs; cases hs
  | refused hp hp' =>
    simp only [mem_append, mem_cons] at hg
    rcases hg with hg | rfl | hg
    · rw [serves_of_isPlain (hp g hg)] at hs; cases hs
    · cases hs
    · rw [serves_of_isPlain (hp' g hg)] at hs; cases hs
  | @get _ r =>
    rw [mem_singleton.1 hg] at hs
    cases r <;> first | exact .inr rfl | cases hs
  | wait | answer | makeUp | wake =>
    simp only [mem_cons, not_mem_nil, or_false] at hg
    rcases hg with rfl | rfl <;> cases hs
  | @remove _ r =>
    rw [mem_singleton.1 hg] at hs
    cases r <;> first | exact .inl rfl | cases hs
  | fail hp | abort hp =>
    rcases mem_append.1 hg with hg | hg
    · rw [serves_of_isPlain (hp g hg)] at hs; cases hs
    · simp only [mem_cons, not_mem_nil, or_false] at hg
      rcases hg with rfl | rfl <;> cases hs
  | deliver | deleteThread => exact .inl rfl

/-- The frames that mark a thread and take it from the table come with the deletion of a thread. -/
theorem Frame.Expands.deletes {g : Frame} (he : f.Expands frames) (hg : g ∈ frames)
    (hd : (∃ v, g = .removeFromTable v) ∨ ∃ v a, g = .markForDeletion v a) :
    ∃ m, f = .deleteThread m := by
  have hplain : g.isPlain = false := by rcases hd with ⟨_, rfl⟩ | ⟨_, _, rfl⟩ <;> rfl
  have hnot : ∀ {l : List Frame}, (∀ g ∈ l, g.isPlain = true) → g ∉ l := fun hl hg => by
    cases hplain.symm.trans (hl g hg)
  cases he with
  | plain hp => exact absurd hg (hnot hp)
  | deleteThread => exact ⟨_, rfl⟩
  | request hp | fail hp | abort hp =>
    have hl := hnot hp
    rcases hd with ⟨_, rfl⟩ | ⟨_, _, rfl⟩ <;> simp [hl] at hg
  | refused hp hp' =>
    have hl := hnot hp
    have hl' := hnot hp'
    rcases hd with ⟨_, rfl⟩ | ⟨_, _, rfl⟩ <;> simp [hl, hl'] at hg
  | _ => rcases hd with ⟨_, rfl⟩ | ⟨_, _, rfl⟩ <;> simp at hg
namespace State

/-! ### What leaves the table alone -/

/-- The thread table, the capabilities and the mailboxes that are enabled are as before, and there is
no new acknowledgement. -/
structure Kept (s s' : State) : Prop where
  table : s'.threadTable = s.threadTable
  enabled : s'.mailboxEnabled = s.mailboxEnabled
  threads : s'.threads = s.threads
  capability : s'.capabilityMask = s.capabilityMask
  /-- No new acknowledgement. -/
  acknowledgement : ∀ {t m}, s'.deletionAcknowledgement t = some m →
    s.deletionAcknowledgement t = some m

section

variable {s s' s'' : State} {t u : ThreadId} {m : MessageRef} {o : Outcome} {rest : List Frame}
  {v : ThreadId} {a : Option MessageRef}

theorem Kept.of_eq
    (h : (s'.threadTable, s'.mailboxEnabled, s'.threads, s'.capabilityMask, s'.deletionAcknowledgement)
      = (s.threadTable, s.mailboxEnabled, s.threads, s.capabilityMask, s.deletionAcknowledgement)) :
    Kept s s' := by
  simp only [Prod.mk.injEq] at h
  exact ⟨h.1, h.2.1, h.2.2.1, h.2.2.2.1, fun ha => h.2.2.2.2 ▸ ha⟩

theorem Kept.trans (h : Kept s s') (h' : Kept s' s'') : Kept s s'' where
  table := h'.table.trans h.table
  enabled := h'.enabled.trans h.enabled
  threads := h'.threads.trans h.threads
  capability := h'.capability.trans h.capability
  acknowledgement := fun ha => h.acknowledgement (h'.acknowledgement ha)

theorem kept_push (frames : List Frame) (s : State) : Kept s (s.push frames) := .of_eq rfl

theorem kept_pop (rest : List Frame) (s : State) : Kept s (s.pop rest) := .of_eq rfl

theorem Kept.of_grown (h : Grown s s') : Kept s s' := by
  obtain ⟨_, _, _, _, _, _, rfl⟩ := h.eq
  exact .of_eq rfl

theorem kept_removeReference (t : ThreadId) (s : State) : Kept s (s.removeReference t) := by
  rw [removeReference]
  split
  · exact ⟨rfl, rfl, rfl, rfl, fun ha => of_update_none ha⟩
  · exact .of_eq rfl

theorem kept_unblock (t : ThreadId) (m : MessageRef) (s : State) : Kept s (s.unblock t m) := by
  have h := kept_removeReference (s.message m).source
    { s with threadState := update s.threadState t .ready }
  exact ⟨h.table, h.enabled, h.threads, h.capability, h.acknowledgement⟩

theorem Put.kept {status : Status} (h : Put s m status s') : Kept s s' := by
  cases h with
  | refused => exact .of_eq rfl
  | woken =>
    refine (kept_unblock (s.message m).destination m s).trans (.of_eq ?_)
    rw [blockOn]
    split <;> rfl
  | queued =>
    refine .of_eq ?_
    rw [blockOn]
    split <;> rfl

theorem kept_yield {lot : ℕ} (hy : s.yield lot = some s') : Kept s s' := by
  obtain ⟨_, _, _, _, _, rfl⟩ := yield_eq hy
  exact .of_eq rfl

/-- Only marking a thread for deletion and taking it from the table are seen here. -/
theorem Executed.kept (h : Executed s o f s') (hmark : ∀ v a, f ≠ .markForDeletion v a)
    (htable : ∀ v, f ≠ .removeFromTable v) : Kept s s' := by
  cases h with
  | put hp => exact hp.kept
  | putRefused | requestRefused => exact .of_grown (grown_killOnOverflow _ _ _ _)
  | request hp => exact hp.kept.trans (.of_eq rfl)
  | yield hy => exact kept_yield hy
  | undeliverable => exact .of_grown (grown_abortRequest _ _ _ _)
  | drop => exact kept_removeReference _ _
  | deleteThread => exact .of_grown (grown_deleteThread _ _)
  | abort => exact .of_grown (grown_abortMessages _ _)
  | mark => exact absurd rfl (hmark _ _)
  | table => exact absurd rfl (htable _)
  | _ => exact .of_eq rfl

theorem Executed.threads_eq (h : Executed s o f s') : s'.threads = s.threads := by
  cases f with
  | markForDeletion v a =>
    cases h with
    | mark => rfl
  | removeFromTable v =>
    cases h with
    | table => rfl
  | _ => exact (h.kept (by simp) (by simp)).threads

theorem Executed.enabled_of_enabled (h : Executed s o f s') (ht : s'.mailboxEnabled t = true) :
    s.mailboxEnabled t = true := by
  cases f with
  | markForDeletion v a =>
    cases h with
    | mark =>
      rcases Library.update_cases (P := (· = true)) ht with ⟨-, ht⟩ | ⟨-, ht⟩
      · cases ht
      · exact ht
  | removeFromTable v =>
    cases h with
    | table => exact ht
  | _ =>
    rw [(h.kept (by simp) (by simp)).enabled] at ht
    exact ht

/-! ### The invariant -/

/-- A thread is in the table until it has been deleted. -/
structure Tabled (s : State) : Prop where
  nodup : s.threadTable.Nodup
  /-- A thread whose mailbox is enabled is in the table. -/
  enabled : ∀ {t}, t ∈ s.threads → s.mailboxEnabled t = true → t ∈ s.threadTable
  /-- A thread in the table has an enabled mailbox, or is about to be taken from the table. -/
  listed : ∀ {t}, t ∈ s.threadTable →
    s.mailboxEnabled t = true ∨ .removeFromTable t ∈ s.stack threadIdCleanup
  /-- The mailbox of a thread is enabled until the thread is marked for deletion. -/
  marking : ∀ {t a}, .markForDeletion t a ∈ s.stack threadIdCleanup → s.mailboxEnabled t = true
  /-- A thread that is about to be taken from the table is in the table, and is marked for
  deletion before that. -/
  removing : ∀ {t}, .removeFromTable t ∈ s.stack threadIdCleanup → t ∈ s.threadTable ∧
    (s.mailboxEnabled t = false ∨ ∃ a, .markForDeletion t a ∈ s.stack threadIdCleanup)
  /-- The cleanup thread has not deleted itself before it serves a message. -/
  serving : ∀ {f}, f ∈ s.stack threadIdCleanup → f.serves = true →
    s.mailboxEnabled threadIdCleanup = true
  /-- A thread with an acknowledgement has been marked for deletion. -/
  acknowledgement : ∀ {t m}, s.deletionAcknowledgement t = some m → s.mailboxEnabled t = false

/-- The table is as before, and so are the frames on the stack of the cleanup thread that are
to change it. -/
theorem Tabled.restack (h : Tabled s) (hk : Kept s s')
    (hm : ∀ v a, .markForDeletion v a ∈ s'.stack threadIdCleanup ↔
      .markForDeletion v a ∈ s.stack threadIdCleanup)
    (hr : ∀ v, .removeFromTable v ∈ s'.stack threadIdCleanup ↔
      .removeFromTable v ∈ s.stack threadIdCleanup)
    (hserve : ∀ g ∈ s'.stack threadIdCleanup, g.serves = true →
      s.mailboxEnabled threadIdCleanup = true) : Tabled s' where
  nodup := by rw [hk.table]; exact h.nodup
  enabled := by rw [hk.threads, hk.enabled, hk.table]; exact h.enabled
  listed := by simp only [hk.table, hk.enabled, hr]; exact h.listed
  marking := by simp only [hk.enabled, hm]; exact h.marking
  removing := by simp only [hk.table, hk.enabled, hr, hm]; exact h.removing
  serving := by rw [hk.enabled]; exact fun hg => hserve _ hg
  acknowledgement := fun ha => by
    rw [hk.enabled]
    exact h.acknowledgement (hk.acknowledgement ha)

theorem Tabled.keep (h : Tabled s) (hk : Kept s s')
    (hs : s'.stack threadIdCleanup = s.stack threadIdCleanup) : Tabled s' :=
  h.restack hk (fun _ _ => by rw [hs]) (fun _ => by rw [hs]) fun _ hg => h.serving (hs ▸ hg)

/-- The cleanup thread executes a frame that does not change the table, and does not call the
frames that do. -/
theorem Tabled.expand (frames : List Frame) (h : Tabled s) (hk : Kept s s')
    (hs : s.stack threadIdCleanup = f :: rest) (hs' : s'.stack threadIdCleanup = frames ++ rest)
    (hmark : ∀ v a, f ≠ .markForDeletion v a) (htable : ∀ v, f ≠ .removeFromTable v)
    (hmark' : ∀ v a, .markForDeletion v a ∉ frames) (htable' : ∀ v, .removeFromTable v ∉ frames)
    (hserve : ∀ g ∈ frames, g.serves = true → s.mailboxEnabled threadIdCleanup = true) :
    Tabled s' := by
  refine h.restack hk (fun v a => ?_) (fun v => ?_) fun g hg hserves => ?_
  · rw [hs, hs', mem_append, mem_cons, or_iff_right (hmark' v a), or_iff_right (hmark v a).symm]
  · rw [hs, hs', mem_append, mem_cons, or_iff_right (htable' v), or_iff_right (htable v).symm]
  · rw [hs', mem_append] at hg
    rcases hg with hg | hg
    · exact hserve g hg hserves
    · exact h.serving (hs ▸ mem_cons_of_mem _ hg) hserves

section

variable (h : Tabled s)
include h

namespace Tabled

theorem pushed (hk : Kept s s') (hp : Pushed s frames s')
    (hmark : ∀ v a, .markForDeletion v a ∉ frames) (htable : ∀ v, .removeFromTable v ∉ frames)
    (hserve : ∀ g ∈ frames, g.serves = false) : Tabled s' := by
  by_cases hcur : s.currentThread = threadIdCleanup
  case neg => exact h.keep hk (by rw [hp.1, update_of_ne (Ne.symm hcur)])
  have hs : s'.stack threadIdCleanup = frames ++ s.stack threadIdCleanup := by
    rw [hp.1, hcur, update_self]
  refine h.restack hk (fun v a => ?_) (fun v => ?_) fun g hg hserves => ?_
  · rw [hs, mem_append, or_iff_right (hmark v a)]
  · rw [hs, mem_append, or_iff_right (htable v)]
  · rw [hs, mem_append] at hg
    rcases hg with hg | hg
    · rw [hserve g hg] at hserves
      cases hserves
    · exact h.serving hg hserves

/-- The cleanup thread is to delete the thread `v`, which it has found. -/
theorem deleteThread (hk : Kept s s')
    (hs : s.stack threadIdCleanup = .deleteThread m :: rest) (hrest : rest = [])
    (hs' : s'.stack threadIdCleanup = frames ++ rest)
    (hframes : frames =
      [.markForDeletion v a, .removeFromTable v, .dropReference v, .deleteMessage m])
    (hv : v ∈ s.threadTable) : Tabled s' := by
  subst hframes hrest
  have hen : s.mailboxEnabled v = true := by
    refine (h.listed hv).resolve_right fun hr => ?_
    simp [hs] at hr
  have hs' : s'.stack threadIdCleanup =
    [.markForDeletion v a, .removeFromTable v, .dropReference v, .deleteMessage m] := hs'
  exact
    { nodup := by rw [hk.table]; exact h.nodup
      enabled := by rw [hk.threads, hk.enabled, hk.table]; exact h.enabled
      listed := fun {t} ht => by
        rw [hk.table] at ht
        rw [hk.enabled]
        refine .inl ((h.listed ht).resolve_right fun hr => ?_)
        simp [hs] at hr
      marking := fun {t b} ht => by
        simp only [hs', mem_cons, Frame.markForDeletion.injEq, reduceCtorEq,
          not_mem_nil, or_false] at ht
        rw [hk.enabled, ht.1]
        exact hen
      removing := fun {t} ht => by
        simp only [hs', mem_cons, Frame.removeFromTable.injEq, reduceCtorEq,
          not_mem_nil, or_false, false_or] at ht
        rw [hk.table, ht]
        exact ⟨hv, .inr ⟨a, by simp [hs']⟩⟩
      serving := fun {g} hg hserves => by
        simp only [hs', mem_cons, not_mem_nil, or_false] at hg
        rcases hg with rfl | rfl | rfl | rfl <;> cases hserves
      acknowledgement := fun ha => by
        rw [hk.enabled]
        exact h.acknowledgement (hk.acknowledgement ha) }

theorem mark {l : List MessageRef}
    (hs : s.stack threadIdCleanup =
      [.markForDeletion v a, .removeFromTable v, .dropReference v, .deleteMessage m])
    (hs' : s'.stack threadIdCleanup =
      [.unlinkMessages l, .removeFromTable v, .dropReference v, .deleteMessage m])
    (ht : s'.threadTable = s.threadTable) (hth : s'.threads = s.threads)
    (he : s'.mailboxEnabled = update s.mailboxEnabled v false)
    (hack : ∀ {t m}, t ≠ v → s'.deletionAcknowledgement t = some m →
      s.deletionAcknowledgement t = some m) : Tabled s' where
  nodup := by rw [ht]; exact h.nodup
  enabled := fun {t} hmem hen => by
    rw [he, update_apply] at hen
    split at hen
    · cases hen
    · rw [ht]
      exact h.enabled (hth ▸ hmem) hen
  listed := fun {t} hmem => by
    rw [ht] at hmem
    by_cases htv : t = v
    · exact .inr (by simp [hs', htv])
    · refine .inl ?_
      rw [he, update_of_ne htv]
      exact (h.listed hmem).resolve_right fun hr => by simp [hs, htv] at hr
  marking := fun hm => by simp [hs'] at hm
  removing := fun {t} hr => by
    simp only [hs', mem_cons, Frame.removeFromTable.injEq, reduceCtorEq, not_mem_nil,
      or_false, false_or] at hr
    rw [hr]
    refine ⟨?_, .inl (by rw [he, update_self])⟩
    rw [ht]
    exact (h.removing (by simp [hs])).1
  serving := fun {g} hg hserves => by
    simp only [hs', mem_cons, not_mem_nil, or_false] at hg
    rcases hg with rfl | rfl | rfl | rfl <;> cases hserves
  acknowledgement := fun {t x} ha => by
    rw [he]
    by_cases htv : t = v
    · rw [htv, update_self]
    · rw [update_of_ne htv]
      exact h.acknowledgement (hack htv ha)

theorem remove
    (hs : s.stack threadIdCleanup =
      [.removeFromTable v, .dropReference v, .deleteMessage m])
    (hs' : s'.stack threadIdCleanup =
      [.dropReference v, .dropReference v, .deleteMessage m])
    (ht : s'.threadTable = s.threadTable.erase v) (hth : s'.threads = s.threads)
    (he : s'.mailboxEnabled = s.mailboxEnabled)
    (hack : s'.deletionAcknowledgement = s.deletionAcknowledgement) : Tabled s' := by
  have hdis : s.mailboxEnabled v = false := by
    refine ((h.removing (by simp [hs])).2).resolve_right ?_
    rintro ⟨a, hm⟩
    simp [hs] at hm
  exact
    { nodup := by rw [ht]; exact h.nodup.erase v
      enabled := fun {t} hmem hen => by
        rw [he] at hen
        have htv : t ≠ v := by rintro rfl; rw [hdis] at hen; cases hen
        rw [ht]
        exact (mem_erase_of_ne htv).2 (h.enabled (hth ▸ hmem) hen)
      listed := fun {t} hmem => by
        rw [ht, h.nodup.mem_erase_iff] at hmem
        rw [he]
        exact .inl ((h.listed hmem.2).resolve_right fun hr => by simp [hs, hmem.1] at hr)
      marking := fun hm => by simp [hs'] at hm
      removing := fun hr => by simp [hs'] at hr
      serving := fun {g} hg hserves => by
        simp only [hs', mem_cons, not_mem_nil, or_false] at hg
        rcases hg with rfl | rfl | rfl <;> cases hserves
      acknowledgement := by rw [he, hack]; exact h.acknowledgement }

theorem executed_of_ne (hst : Stacked s) (hstack : s.stack s.currentThread = f :: rest)
    (hne : s.currentThread ≠ threadIdCleanup) (hexec : Executed (s.pop rest) o f s') :
    Tabled s' := by
  have hof : f.ofCleanup = false := by
    by_contra hof
    exact hne (hst.cleanup (hstack ▸ mem_cons_self) (by simpa using hof))
  have hk : Kept s s' := (kept_pop rest s).trans (hexec.kept
    (by rintro v a rfl; cases hof) (by rintro v rfl; cases hof))
  refine h.keep hk ?_
  by_cases hy : f = .yield
  · subst hy
    cases hexec with
    | yield hy =>
      rw [yield_stack_eq hy]
      exact update_of_ne (Ne.symm hne) _ _
  · obtain ⟨frames, -, hp⟩ := hexec.expands hy
    rw [hp.stack_of_pop, update_of_ne (Ne.symm hne)]

theorem executed_other (ha : Addressed s) (hstack : s.stack s.currentThread = f :: rest)
    (hcur : s.currentThread = threadIdCleanup) (hexec : Executed (s.pop rest) o f s')
    (hdel : ∀ m, f ≠ .deleteThread m) (hmark : ∀ v a, f ≠ .markForDeletion v a)
    (htable : ∀ v, f ≠ .removeFromTable v) : Tabled s' := by
  have hk : Kept s s' := (kept_pop rest s).trans (hexec.kept hmark htable)
  have hs : s.stack threadIdCleanup = f :: rest := hcur ▸ hstack
  by_cases hy : f = .yield
  · subst hy
    cases hexec with
    | yield hy =>
      refine h.expand [] hk hs ?_ hmark htable (by simp) (by simp) (by simp)
      rw [yield_stack_eq hy, ← hcur]
      exact update_self _ _ _
  · obtain ⟨frames, he, hp⟩ := hexec.expands hy
    refine h.expand _ hk hs (by rw [hp.stack_of_pop, hcur, update_self]) hmark htable
      (fun v a hm => ?_) (fun v hr => ?_) fun g hg hserves => ?_
    · obtain ⟨m, rfl⟩ := he.deletes hm (.inr ⟨_, _, rfl⟩)
      exact hdel m rfl
    · obtain ⟨m, rfl⟩ := he.deletes hr (.inl ⟨_, rfl⟩)
      exact hdel m rfl
    · rcases he.serves hg hserves with hf | rfl
      · exact h.serving (hs ▸ mem_cons_self) hf
      · -- a message has been taken from the mailbox, so the mailbox is enabled
        by_contra hdis
        have hempty := (ha.closed (by simpa using hdis)).1
        cases hexec with
        | get hq =>
          have hq : s.messageQueue s.currentThread = _ := hq
          rw [hcur, hempty] at hq
          cases hq
        | wait =>
          obtain rfl := hp.unique (pushed_push _ _)
          simp only [mem_cons, not_mem_nil, or_false] at hg
          rcases hg with rfl | rfl <;> cases hserves

/-- The thread the cleanup thread finds is in the table, even when it finds itself. -/
theorem findThread {id : ThreadId} (hknown : Known s)
    (hstack : Frame.deleteThread m ∈ s.stack threadIdCleanup)
    (hcur : s.currentThread = threadIdCleanup) (hv : s.findThread id = some v) :
    v ∈ s.threadTable := by
  rw [State.findThread] at hv
  split at hv
  · cases hv
    refine h.enabled hknown.current ?_
    rw [hcur]
    exact h.serving hstack rfl
  obtain ⟨hid, hv⟩ := Option.ite_none_right_eq_some.1 hv
  cases hv
  exact hid

theorem executed (hst : Stacked s) (hsound : Sound s)
    (hstack : s.stack s.currentThread = f :: rest) (hexec : Executed (s.pop rest) o f s') :
    Tabled s' := by
  by_cases hcur : s.currentThread = threadIdCleanup
  case neg => exact h.executed_of_ne hst hstack hcur hexec
  have hs : s.stack threadIdCleanup = f :: rest := hcur ▸ hstack
  have hover : f.Over rest := (hs ▸ hst.well threadIdCleanup : WellStacked (f :: rest)).1
  have hpop : ∀ frames {s'}, Pushed (s.pop rest) frames s' →
      s'.stack threadIdCleanup = frames ++ rest := fun _ _ hp => by
    rw [hp.stack_of_pop, hcur, update_self]
  cases f with
  | deleteThread m =>
    cases hexec with
    | deleteThread =>
      have hk := (kept_pop rest s).trans (.of_grown (grown_deleteThread m (s.pop rest)))
      obtain ⟨frames, hp, hplain | ⟨v, a, hv, hframes⟩⟩ := pushed_deleteThread m (s.pop rest)
      · refine h.expand frames hk hs (hpop _ hp) (by simp) (by simp)
          (fun v a hm => ?_) (fun v hr => ?_) fun g hg hserves => ?_
        · cases hplain _ hm
        · cases hplain _ hr
        · rw [Frame.serves_of_isPlain (hplain g hg)] at hserves
          cases hserves
      · refine h.deleteThread hk hs hover (hpop _ hp) hframes ?_
        exact h.findThread hsound.known (hs ▸ mem_cons_self) hcur hv
  | markForDeletion v a =>
    obtain ⟨m, rfl⟩ := hover
    cases hexec with
    | mark =>
      refine h.mark hs (hpop [_] ⟨rfl, rfl⟩) rfl rfl rfl fun {t x} htv hx => ?_
      cases a with
      | none => exact hx
      | some a =>
        have hx : update s.deletionAcknowledgement v (some a) t = some x := hx
        rwa [update_of_ne htv] at hx
  | removeFromTable v =>
    obtain ⟨m, rfl⟩ := hover
    cases hexec with
    | table => exact h.remove hs (hpop [_] ⟨rfl, rfl⟩) rfl rfl rfl rfl
  | _ =>
    exact h.executed_other hsound.addressed hstack hcur hexec (by simp) (by simp) (by simp)

theorem createThread {mask : ℕ} (hknown : Known s) (ht : t ∉ s.threads) :
    Tabled (s.createThread t mask) := by
  have hclean : threadIdCleanup ≠ t := fun e => ht (e ▸ hknown.cleanup)
  have hs : (s.createThread t mask).stack threadIdCleanup = s.stack threadIdCleanup :=
    update_of_ne hclean _ _
  have hen : ∀ {u}, u ≠ t → (s.createThread t mask).mailboxEnabled u = s.mailboxEnabled u :=
    fun hu => update_of_ne hu _ _
  have hne : ∀ {u}, u ∈ s.threadTable → u ≠ t := fun hu e => ht (e ▸ hknown.table hu)
  refine
    { nodup := ?_, enabled := ?_, listed := ?_, marking := ?_, removing := ?_, serving := ?_,
      acknowledgement := ?_ }
  · refine nodup_append'.2 ⟨h.nodup, nodup_singleton _, fun u hu hu' => ?_⟩
    exact hne hu (mem_singleton.1 hu')
  · intro u hu he
    refine mem_append.2 ?_
    by_cases hut : u = t
    · exact .inr (mem_singleton.2 hut)
    · rw [hen hut] at he
      exact .inl (h.enabled ((mem_append.1 hu).resolve_right (by simpa using hut)) he)
  · intro u hu
    rw [hs]
    rcases mem_append.1 hu with hu | hu
    · rw [hen (hne hu)]
      exact h.listed hu
    · rw [mem_singleton.1 hu]
      exact .inl (update_self _ _ _)
  · intro u a hm
    rw [hs] at hm
    show update s.mailboxEnabled t true u = true
    rw [update_apply, h.marking hm, ite_self]
  · intro u hr
    rw [hs] at hr ⊢
    obtain ⟨hu, hd⟩ := h.removing hr
    exact ⟨mem_append_left _ hu, by rwa [hen (hne hu)]⟩
  · intro g hg hserves
    rw [hs] at hg
    rw [hen hclean]
    exact h.serving hg hserves
  · intro u x ha
    have hx := h.acknowledgement (of_update_none ha)
    rw [hen, hx]
    rintro rfl
    simp [State.createThread] at ha

theorem called {c : SystemCall} (hknown : Known s) (hcur : s.currentThread ≠ threadIdCleanup)
    (hc : Called s c s') : Tabled s' := by
  have hpush : ∀ {frames s'}, Pushed s frames s' → Kept s s' → Tabled s' := fun hp hk =>
    h.keep hk (by rw [hp.1, update_of_ne (Ne.symm hcur)])
  cases hc with
  | failed => exact h
  | send | sendAndReceive =>
    exact hpush (pushed_allocatePush _ _ _).of_addReference
      (.of_grown (.push _ (.allocate _ (.addReference _ .refl))))
  | receive => exact hpush (pushed_push _ _) (.of_eq rfl)
  | delete => exact hpush (pushed_allocatePush _ _ _) (.of_grown (.push _ (.allocate _ .refl)))
  | create ht =>
    refine (h.createThread hknown ht).keep (kept_push _ _) ?_
    exact update_of_ne (Ne.symm hcur) _ _
  | register => exact h.keep (.of_eq rfl) rfl

theorem step {a : Action} (hst : Stacked s) (hsound : Sound s) (hs : Stepped s a s') :
    Tabled s' := by
  cases hs with
  | run hstack hexec => exact h.executed hst hsound hstack hexec
  | call _ hcur _ hc => exact h.called hsound.known hcur hc
  | cleanupLoop | nullLoop =>
    exact h.pushed (.of_eq rfl) (pushed_push _ _) (by simp) (by simp) (by simp [Frame.serves])
  | tick => exact h.keep (.of_eq rfl) rfl
  | quantum _ _ hy =>
    obtain ⟨_, _, _, _, _, _, _, _, _, rfl⟩ := quantum_eq hy
    exact h.keep (.of_eq rfl) rfl
  | device =>
    exact h.pushed (.of_eq rfl) ⟨rfl, rfl⟩ (by simp) (by simp) (by simp [Frame.serves])

end Tabled

end

theorem tabled_initial : Tabled initial where
  nodup := by decide
  enabled := fun ht _ => ht
  listed := fun _ => .inl rfl
  marking := by simp [initial]
  removing := by simp [initial]
  serving := by simp [initial]
  acknowledgement := by simp [initial]

end

end State

end Dx.Kernel
