import Dx.Kernel.Delivery
import Dx.Library.Ledger

/-!
# What becomes of a message that leaves a mailbox

A message that has been taken from a mailbox is in the hands of `get_message` until its payload is
delivered, or cannot be (`Frame.inHand`); a message that has been discarded is in the hands of
`delete_messages` until it is answered, if its sender waits for a reply (`Frame.doomed`). In both
cases what went in is what came out and what is still there. The answer is put once, and unblocks
the sender if it still waits for that reply.
-/

namespace Dx.Kernel

open Library Function List Kernel.Frame

/-- The messages that have been taken and whose payload is still to be delivered. -/
def Frame.inHand : Frame → List MessageRef
  | .removePending m _ => [m]
  | .deliverPayload m _ => [m]
  | _ => []

/-- The messages that have been discarded and are still to be answered. -/
def Frame.doomed : Frame → List MessageRef
  | .unlinkMessages leftover => leftover
  | .abortMessages leftover => leftover
  | _ => []

/-- The message `get_message` returned, or for which it returned an error. -/
def Event.reported? : Event → Option MessageRef
  | .received m => some m
  | .failed m => some m
  | _ => none

def Event.aborted? : Event → Option MessageRef
  | .aborted m _ => some m
  | _ => none

/-- The messages that `get_message` returned, or for which it returned an error. -/
def reports (history : List Event) : List MessageRef := history.filterMap Event.reported?

def aborts (history : List Event) : List MessageRef := history.filterMap Event.aborted?

@[simp] theorem reports_append (h h' : List Event) : reports (h ++ h') = reports h ++ reports h' :=
  filterMap_append

@[simp] theorem aborts_append (h h' : List Event) : aborts (h ++ h') = aborts h ++ aborts h' :=
  filterMap_append

theorem aborts_discarded (l : List MessageRef) : aborts (l.map Event.discarded) = [] :=
  filterMap_eq_nil_iff.2 fun e he => by
    obtain ⟨m, -, rfl⟩ := mem_map.1 he
    rfl

theorem reports_discarded (l : List MessageRef) : reports (l.map Event.discarded) = [] :=
  filterMap_eq_nil_iff.2 fun e he => by
    obtain ⟨m, -, rfl⟩ := mem_map.1 he
    rfl

namespace Frame

variable {f : Frame} {frames : List Frame}

theorem inHand_of_isPlain (hf : f.isPlain = true) : f.inHand = [] := by
  cases f <;> first | rfl | cases hf

theorem doomed_of_isPlain (hf : f.isPlain = true) : f.doomed = [] := by
  cases f <;> first | rfl | cases hf

theorem inHand_of_isEntry (hf : f.isEntry = true) : f.inHand = [] := by
  cases f <;> first | rfl | cases hf

theorem doomed_of_isEntry (hf : f.isEntry = true) : f.doomed = [] := by
  cases f <;> first | rfl | cases hf

theorem flatMap_inHand_of_isPlain (hf : ∀ g ∈ frames, g.isPlain = true) :
    frames.flatMap inHand = [] :=
  flatMap_eq_nil_iff.2 fun g hg => inHand_of_isPlain (hf g hg)

theorem flatMap_doomed_of_isPlain (hf : ∀ g ∈ frames, g.isPlain = true) :
    frames.flatMap doomed = [] :=
  flatMap_eq_nil_iff.2 fun g hg => doomed_of_isPlain (hf g hg)

/-- Only `get_message` takes a message into its hands, and passes it on to its next part. -/
theorem Expands.inHand (he : f.Expands frames) (hget : ∀ r, f ≠ .getMessage r)
    (hremove : ∀ m r, f ≠ .removePending m r) : frames.flatMap inHand = [] := by
  cases he with
  | plain hp => exact flatMap_inHand_of_isPlain hp
  | @request _ _ _ _ _ rest hp =>
    exact (flatMap_inHand_of_isPlain hp : rest.flatMap inHand = [])
  | refused hp hp' =>
    rw [flatMap_append, flatMap_inHand_of_isPlain hp, flatMap_cons, flatMap_inHand_of_isPlain hp']
    rfl
  | get | wait => exact absurd rfl (hget _)
  | remove => exact absurd rfl (hremove _ _)
  | fail hp | abort hp => rw [flatMap_append, flatMap_inHand_of_isPlain hp]; rfl
  | _ => rfl

theorem Expands.doomed (he : f.Expands frames) (hmark : ∀ v a, f ≠ .markForDeletion v a)
    (hunlink : ∀ l, f ≠ .unlinkMessages l) (habort : ∀ l, f ≠ .abortMessages l) :
    frames.flatMap doomed = [] := by
  cases he with
  | plain hp => exact flatMap_doomed_of_isPlain hp
  | @request _ _ _ _ _ rest hp =>
    exact (flatMap_doomed_of_isPlain hp : rest.flatMap doomed = [])
  | refused hp hp' =>
    rw [flatMap_append, flatMap_doomed_of_isPlain hp, flatMap_cons, flatMap_doomed_of_isPlain hp']
    rfl
  | mark => exact absurd rfl (hmark _ _)
  | unlink => exact absurd rfl (hunlink _)
  | abort => exact absurd rfl (habort _)
  | fail hp => rw [flatMap_append, flatMap_doomed_of_isPlain hp]; rfl
  | _ => rfl

end Frame

namespace State

/-- What the frames of all threads hold. -/
def inStacks (g : Frame → List MessageRef) (s : State) : List MessageRef :=
  s.threads.flatMap fun t => (s.stack t).flatMap g

section

variable {s s' : State} {t u : ThreadId} {m x : MessageRef} {g : Frame → List MessageRef}
  {f : Frame} {rest frames : List Frame} {c : SystemCall} {a : Action} {o : Outcome}
  {es : List Event}

theorem count_inStacks_pushed (hk : Known s) (hs : s.stack s.currentThread = f :: rest)
    (hp : Pushed (s.pop rest) frames s') (ht : s'.threads = s.threads) (x : MessageRef) :
    (s'.inStacks g).count x + (g f).count x =
      (s.inStacks g).count x + (frames.flatMap g).count x := by
  have h := count_flatMap_update hk.nodup hk.current (fun fs => fs.flatMap g) s.stack
    (frames ++ rest) x
  rw [inStacks, inStacks, ht, hp.stack_of_pop]
  rw [hs, flatMap_cons, flatMap_append, count_append, count_append] at h
  omega

theorem inStacks_of_pushed (hk : Known s) (hp : Pushed s frames s') (hg : frames.flatMap g = [])
    (ht : s'.threads = s.threads ∨ ∃ t, t ∉ s.threads ∧ s'.threads = s.threads ++ [t]) :
    s'.inStacks g = s.inStacks g := by
  have hsame : ∀ t, (s'.stack t).flatMap g = (s.stack t).flatMap g := by
    intro t
    rw [hp.1]
    by_cases ht : t = s.currentThread
    · rw [ht, update_self, flatMap_append, hg, nil_append]
    · rw [update_of_ne ht]
  rw [inStacks, inStacks, funext hsame]
  rcases ht with ht | ⟨u, hu, ht⟩
  · rw [ht]
  · rw [ht, flatMap_append, flatMap_singleton, (hk.idle hu).stack, flatMap_nil, append_nil]

theorem Called.threads (hc : Called s c s') :
    s'.threads = s.threads ∨ ∃ t, t ∉ s.threads ∧ s'.threads = s.threads ++ [t] := by
  cases hc with
  | create hnew => exact .inr ⟨_, hnew, rfl⟩
  | _ => exact .inl rfl

theorem Called.history_eq (hc : Called s c s') : s'.history = s.history := by
  cases hc <;> rfl

/-- A step that is not the execution of a frame records nothing, and hands nothing to a frame. -/
theorem Stepped.flow (hs : Stepped s a s') (hk : Known s)
    (hentry : ∀ f, f.isEntry = true → g f = []) (hyield : g .yield = []) :
    (s'.history = s.history ∧ s'.inStacks g = s.inStacks g) ∨
      ∃ o f rest frames es, s.stack s.currentThread = f :: rest ∧ f ≠ .yield ∧
        Executed (s.pop rest) o f s' ∧ f.Expands frames ∧ Pushed (s.pop rest) frames s' ∧
        s'.history = s.history ++ es ∧ Logs (s.pop rest) es f ∧
        ∀ x, (s'.inStacks g).count x + (g f).count x =
          (s.inStacks g).count x + (frames.flatMap g).count x := by
  have hpush : ∀ {frames}, Pushed s frames s' → (∀ f ∈ frames, f.isEntry = true) →
      s'.threads = s.threads → s'.inStacks g = s.inStacks g := fun hp hf ht =>
    inStacks_of_pushed hk hp
      (flatMap_eq_nil_iff.2 fun f hmem => hentry f (hf f hmem)) (.inl ht)
  cases hs with
  | @run o f rest _ hstack hexec =>
    by_cases hy : f = .yield
    · subst hy
      cases hexec with
      | yield hy =>
        obtain ⟨_, _, _, _, _, rfl⟩ := yield_eq hy
        refine .inl ⟨rfl, ?_⟩
        refine flatMap_congr fun t _ => ?_
        show (update s.stack s.currentThread rest t).flatMap g = _
        by_cases htc : t = s.currentThread
        · rw [htc, update_self, hstack, flatMap_cons, hyield, nil_append]
        · rw [update_of_ne htc]
    · obtain ⟨frames, he, hp⟩ := hexec.expands hy
      obtain ⟨es, hes, hlogs⟩ := hexec.logs hy
      exact .inr ⟨o, f, rest, frames, es, hstack, hy, hexec, he, hp, hes, hlogs,
        count_inStacks_pushed hk hstack hp hexec.threads_eq⟩
  | call _ _ _ hc =>
    obtain ⟨frames, hf, hp⟩ := hc.pushed hk
    exact .inl ⟨hc.history_eq, inStacks_of_pushed hk hp
      (flatMap_eq_nil_iff.2 fun f hmem => hentry f (hf f hmem)) hc.threads⟩
  | cleanupLoop | nullLoop =>
    exact .inl ⟨rfl, hpush (pushed_push _ _) (forall_mem_singleton.2 rfl) rfl⟩
  | tick => exact .inl ⟨rfl, rfl⟩
  | quantum _ _ hy =>
    obtain ⟨_, _, _, _, _, _, _, _, _, rfl⟩ := quantum_eq hy
    exact .inl ⟨rfl, rfl⟩
  | @device irq =>
    exact .inl ⟨rfl, hpush (pushed_device irq s) (by simp [isEntry]) rfl⟩

/-! ### Messages that have been taken -/

/-- What `get_message` takes from a mailbox it reports, or keeps. -/
theorem Executed.inHand (hexec : Executed s o f s') (he : f.Expands frames)
    (hp : Pushed s frames s') (hes : s'.history = s.history ++ es) (hlogs : s.Logs es f)
    (x : MessageRef) :
    (takes es).count x + f.inHand.count x =
      (reports es).count x + (frames.flatMap inHand).count x := by
  cases f with
  | getMessage r =>
    cases hexec with
    | @get _ m queue hq =>
      have hget : Pushed s [.removePending m r] ((s.popMessage m queue).push [.removePending m r]) :=
        ⟨rfl, rfl⟩
      obtain rfl := hp.unique hget
      have hes : s.history ++ [.taken m] = s.history ++ es := hes
      obtain rfl := append_cancel_left hes
      exact Nat.add_comm _ _
    | wait hq hr | noReply =>
      obtain rfl := hp.unique (pushed_push _ _)
      have hes : s.history = s.history ++ es := hes
      obtain rfl := self_eq_append_right.1 hes
      rfl
    | empty =>
      obtain rfl := hp.unique (.of_eq rfl rfl)
      obtain rfl := self_eq_append_right.1 hes
      rfl
  | removePending m r =>
    obtain rfl : es = [] := hlogs
    cases hexec with
    | remove =>
      have hdeliver : Pushed s [.deliverPayload m r] ((s.dropPending m).push [.deliverPayload m r]) :=
        ⟨rfl, rfl⟩
      obtain rfl := hp.unique hdeliver
      rfl
  | deliverPayload m r =>
    rw [he.inHand (by simp) (by simp)]
    rcases hlogs with rfl | rfl <;> exact Nat.add_comm _ _
  | putMessage m | putRequest m _ _ _ _ =>
    rw [he.inHand (by simp) (by simp)]
    rcases hlogs with rfl | rfl | rfl <;> rfl
  | markForDeletion v a =>
    rw [he.inHand (by simp) (by simp)]
    obtain rfl : es = _ := hlogs
    rw [takes_discarded, reports_discarded]
    rfl
  | abortMessages l =>
    rw [he.inHand (by simp) (by simp)]
    cases l with
    | nil =>
      obtain rfl : es = [] := hlogs
      rfl
    | cons m rest =>
      obtain rfl : es = _ := hlogs
      split <;> rfl
  | _ =>
    rw [he.inHand (by simp) (by simp)]
    obtain rfl : es = [] := hlogs
    rfl

/-- What has been taken has been reported, or is in the hands of `get_message`. -/
def Handed (s : State) : Prop :=
  (takes s.history).Perm (reports s.history ++ s.inStacks inHand)

theorem Handed.step (h : Handed s) (hk : Known s) (hs : Stepped s a s') : Handed s' := by
  rcases hs.flow hk (fun _ => inHand_of_isEntry) rfl with
    ⟨hh, hin⟩ | ⟨o, f, rest, frames, es, hstack, hy, hexec, he, hp, hes, hlogs, hflow⟩
  · rw [Handed, hh, hin]
    exact h
  · rw [Handed, perm_iff_count]
    intro x
    have hold := perm_iff_count.1 h x
    have hbal := hexec.inHand he hp hes hlogs x
    have hnew := hflow x
    rw [hes, takes_append, reports_append]
    simp only [count_append] at hold ⊢
    omega

def asks (s : State) (m : MessageRef) : Bool := (s.message m).blocking

/-- What `delete_messages` holds after a frame: what has just been discarded, what it held before,
or that without the first message, which has been answered if it asked for a reply. -/
inductive Dooms (s : State) (es : List Event) (before after : List MessageRef) : Prop
  /-- Messages are discarded, or nothing happens. -/
  | discard : before = [] → after = drops es → aborts es = [] → Dooms s es before after
  /-- The messages are passed on. -/
  | pass : after = before → drops es = [] → aborts es = [] → Dooms s es before after
  /-- The first message is dealt with. -/
  | answer {m : MessageRef} : before = m :: after → drops es = [] →
      aborts es = (if s.asks m then [m] else []) → Dooms s es before after

theorem Executed.dooms (hexec : Executed s o f s') (he : f.Expands frames) (hp : Pushed s frames s')
    (hlogs : s.Logs es f) : Dooms s es f.doomed (frames.flatMap doomed) := by
  cases f with
  | markForDeletion v a =>
    obtain rfl : es = _ := hlogs
    cases hexec with
    | mark =>
      have hmark : Pushed s [.unlinkMessages (s.leftoverMessages v)] ((s.markForDeletion v a).push
        [.unlinkMessages (s.leftoverMessages v)]) := ⟨rfl, rfl⟩
      obtain rfl := hp.unique hmark
      refine .discard rfl ?_ (aborts_discarded _)
      rw [drops_discarded, flatMap_singleton]
      rfl
  | unlinkMessages l =>
    obtain rfl : es = [] := hlogs
    cases hexec with
    | unlink =>
      have hunlink : Pushed s [.abortMessages l] ({ s with
        pendingMessages := s.pendingMessages.removeAll l }.push [.abortMessages l]) := ⟨rfl, rfl⟩
      obtain rfl := hp.unique hunlink
      refine .pass ?_ rfl rfl
      rw [flatMap_singleton]
      rfl
  | abortMessages l =>
    cases l with
    | nil =>
      obtain rfl : es = [] := hlogs
      cases he with
      | plain hplain => exact .pass (flatMap_doomed_of_isPlain hplain) rfl rfl
    | cons m rest =>
      obtain rfl : es = _ := hlogs
      have hframes : frames.flatMap doomed = rest := by
        cases hexec with
        | abort =>
          obtain ⟨plain, hplain, hpush⟩ := pushed_abortMessages_cons m rest s
          obtain rfl := hp.unique hpush
          rw [flatMap_append, flatMap_doomed_of_isPlain hplain]
          exact append_nil rest
      rw [hframes]
      by_cases hb : (s.message m).blocking = true
      · have hasks : s.asks m = true := hb
        rw [if_pos hb]
        exact .answer rfl rfl (by rw [if_pos hasks]; rfl)
      · have hasks : ¬ s.asks m = true := hb
        rw [if_neg hb]
        exact .answer rfl rfl (by rw [if_neg hasks]; rfl)
  | putMessage m | putRequest m _ _ _ _ =>
    rw [he.doomed (by simp) (by simp) (by simp)]
    rcases hlogs with rfl | rfl | rfl <;> exact .pass rfl rfl rfl
  | getMessage r =>
    rw [he.doomed (by simp) (by simp) (by simp)]
    rcases hlogs with rfl | ⟨m, queue, -, rfl⟩ <;> exact .pass rfl rfl rfl
  | deliverPayload m r =>
    rw [he.doomed (by simp) (by simp) (by simp)]
    rcases hlogs with rfl | rfl <;> exact .pass rfl rfl rfl
  | _ =>
    rw [he.doomed (by simp) (by simp) (by simp)]
    obtain rfl : es = [] := hlogs
    exact .pass rfl rfl rfl

theorem Mail.asks (hmail : Mail s s') (hm : m < s.nextMessage) (hun : ¬ Unsent [] s m) :
    s'.asks m = s.asks m := by
  rw [State.asks, State.asks, hmail.message hm]
  intro deletes hf
  exact hun (.inr (.inl ⟨s.currentThread, _, hf, mem_singleton.2 rfl⟩))

/-- The frames of `delete_messages` only hold messages that were discarded; of these, those that
asked for a reply have been answered or are still in its hands. -/
structure Doomed (s : State) : Prop where
  /-- What `delete_messages` holds has been discarded. -/
  held : ∀ m ∈ s.inStacks doomed, m ∈ drops s.history
  /-- What has been answered was discarded, and asked for it. -/
  answered : ∀ m ∈ aborts s.history, m ∈ drops s.history ∧ s.asks m = true
  /-- Every message that asked for a reply is answered once. -/
  once : ∀ m, s.asks m = true →
    (drops s.history).count m = (aborts s.history).count m + (s.inStacks doomed).count m

/-- The balance, also for a message that was not discarded at all. -/
theorem Doomed.count_eq (h : Doomed s) (hm : m ∈ drops s.history → s.asks m = true) :
    (drops s.history).count m = (aborts s.history).count m + (s.inStacks doomed).count m := by
  by_cases hd : m ∈ drops s.history
  · exact h.once m (hm hd)
  · rw [count_eq_zero_of_not_mem hd, count_eq_zero_of_not_mem fun ha => hd (h.answered m ha).1,
      count_eq_zero_of_not_mem fun hi => hd (h.held m hi)]

theorem mem_inStacks (hk : Known s) (hf : f ∈ s.stack t) (hm : m ∈ g f) : m ∈ s.inStacks g :=
  mem_flatMap.2 ⟨t, (hk.frame hf).1, mem_flatMap.2 ⟨f, hf, hm⟩⟩

theorem Doomed.step (h : Doomed s) (hfresh : Fresh s) (hreg : Regular s) (hs : Stepped s a s') :
    Doomed s' := by
  have hold : ∀ m ∈ drops s.history, s'.asks m = s.asks m := fun m hm =>
    have hl := mem_logged_of_mem_drops hm
    (hs.mail hreg).asks (hfresh.lt m hl) (hfresh.sent m hl)
  have hcount : ∀ m, s'.asks m = true → (drops s.history).count m =
      (aborts s.history).count m + (s.inStacks doomed).count m := fun m hm =>
    h.count_eq fun hd => (hold m hd).symm.trans hm
  rcases hs.flow hreg.sound.known (fun _ => doomed_of_isEntry) rfl with
    ⟨hh, hin⟩ | ⟨o, f, rest, frames, es, hstack, hy, hexec, he, hp, hes, hlogs, hflow⟩
  · refine ⟨?_, fun m hm => ?_, fun m hm => ?_⟩
    · rw [hh, hin]
      exact h.held
    · rw [hh] at hm ⊢
      obtain ⟨hd, hasks⟩ := h.answered m hm
      exact ⟨hd, (hold m hd).trans hasks⟩
    · rw [hh, hin]
      exact hcount m hm
  · have hdooms := hexec.dooms he hp hlogs
    have hbefore : ∀ m ∈ f.doomed, m ∈ drops s.history := fun m hm =>
      h.held m (mem_inStacks hreg.sound.known (hstack ▸ mem_cons_self) hm)
    refine ⟨fun m hm => ?_, fun m hm => ?_, fun m hm => ?_⟩
    · -- what is held now was held, or is in the frames that have been called
      rw [hes, drops_append, mem_append]
      have hpos := count_pos_iff.2 hm
      have hbal := hflow m
      by_cases hi : m ∈ s.inStacks doomed
      · exact .inl (h.held m hi)
      · have hzero := count_eq_zero_of_not_mem hi
        have hafter : m ∈ frames.flatMap doomed := count_pos_iff.1 (by omega)
        cases hdooms with
        | discard _ ha => exact .inr (ha ▸ hafter)
        | pass ha => exact .inl (hbefore m (ha ▸ hafter))
        | answer hb => exact .inl (hbefore m (hb ▸ mem_cons_of_mem _ hafter))
    · rw [hes, aborts_append, mem_append] at hm
      rw [hes, drops_append, mem_append]
      rcases hm with hm | hm
      · obtain ⟨hd, hasks⟩ := h.answered m hm
        exact ⟨.inl hd, (hold m hd).trans hasks⟩
      · cases hdooms with
        | discard _ _ hnone | pass _ _ hnone => rw [hnone] at hm; cases hm
        | @answer x hb _ hx =>
          rw [hx] at hm
          split at hm
          case isTrue hasks =>
            obtain rfl := mem_singleton.1 hm
            have hd := hbefore m (hb ▸ mem_cons_self)
            exact ⟨.inl hd, (hold m hd).trans hasks⟩
          case isFalse => cases hm
    · rw [hes, drops_append, aborts_append, count_append, count_append]
      have hbal := hflow m
      have hbase := hcount m hm
      cases hdooms with
      | discard hb ha hnone =>
        rw [hb, ha, count_nil] at hbal
        rw [hnone, count_nil]
        omega
      | pass ha hd hnone =>
        rw [ha] at hbal
        rw [hd, hnone, count_nil]
        omega
      | @answer x hb hd hx =>
        have hx : aborts es = if s.asks x then [x] else [] := hx
        rw [hb, count_cons] at hbal
        rw [hd, hx, count_nil]
        by_cases hxm : x = m
        · subst hxm
          have hasks : s.asks x = true := (hold x (hbefore x (hb ▸ mem_cons_self))).symm.trans hm
          rw [if_pos hasks, count_singleton_self]
          rw [if_pos (beq_self_eq_true x)] at hbal
          omega
        · have hnot : m ∉ if s.asks x then [x] else [] := by
            split
            · simpa using fun e => hxm e.symm
            · simp
          rw [count_eq_zero_of_not_mem hnot]
          rw [if_neg (by simpa using hxm)] at hbal
          omega

/-- The answer to a discarded message: an abort with its id, from its destination to its source. -/
def abortOf (m : Message) : Message where
  source := m.destination
  destination := m.source
  type := messageTypeAbort
  id := m.id
  payload := Status.threadExited.toWord
  small := true
  blocking := false

theorem abortOf_congr {m m' : Message} (h : m'.header = m.header) : abortOf m' = abortOf m := by
  obtain ⟨hsource, hdest, -, hid, -⟩ := Message.eq_of_header h
  simp only [abortOf, hsource, hdest, hid]

/-- Every answer that has been recorded is the abort of its message. -/
def Answered (s : State) : Prop :=
  ∀ m r, .aborted m r ∈ s.history →
    m < s.nextMessage ∧ r < s.nextMessage ∧ (s.message r).header = abortOf (s.message m)

theorem Executed.aborted {r : MessageRef} (hexec : Executed s o f s') (hlogs : s.Logs es f)
    (hmem : .aborted m r ∈ es) :
    (∃ l, f = .abortMessages (m :: l)) ∧ r = s.nextMessage ∧ s'.nextMessage = s.nextMessage + 1 ∧
      s'.message r = abortOf (s.message m) := by
  cases f with
  | abortMessages l =>
    cases l with
    | nil =>
      obtain rfl : es = [] := hlogs
      cases hmem
    | cons x rest =>
      obtain rfl : es = _ := hlogs
      split at hmem
      case isFalse => cases hmem
      case isTrue hb =>
        obtain ⟨rfl, rfl⟩ : m = x ∧ r = s.nextMessage := by simpa using hmem
        cases hexec with
        | abort =>
          have hb : ((s.push [.deleteMessage m, .abortMessages rest]).message m).blocking = true := hb
          refine ⟨⟨rest, rfl⟩, rfl, ?_, ?_⟩
          · simp only [abortMessages, if_pos hb]
            rfl
          · simp only [abortMessages, if_pos hb]
            exact update_self ..
  | putMessage _ | putRequest _ _ _ _ _ => rcases hlogs with rfl | rfl | rfl <;> simp at hmem
  | getMessage _ => rcases hlogs with rfl | ⟨_, _, -, rfl⟩ <;> simp at hmem
  | deliverPayload _ _ => rcases hlogs with rfl | rfl <;> simp at hmem
  | markForDeletion _ _ =>
    obtain rfl : es = _ := hlogs
    simp at hmem
  | _ =>
    obtain rfl : es = [] := hlogs
    cases hmem

theorem Answered.step (h : Answered s) (hreg : Regular s) (hs : Stepped s a s') : Answered s' := by
  have hmail := hs.mail hreg
  have hnext := (hs.spends hreg.sound.known).next
  have hold : ∀ m r, .aborted m r ∈ s.history → m < s'.nextMessage ∧ r < s'.nextMessage ∧
      (s'.message r).header = abortOf (s'.message m) := by
    intro m r hmem
    obtain ⟨hm, hr, hheader⟩ := h m r hmem
    refine ⟨Nat.lt_of_lt_of_le hm hnext, Nat.lt_of_lt_of_le hr hnext, ?_⟩
    rw [hmail.header hr, hheader, abortOf_congr (hmail.header hm)]
  intro m r hmem
  rcases hs.flow hreg.sound.known (fun _ => Frame.doomed_of_isEntry) rfl with
    ⟨hh, -⟩ | ⟨o, f, rest, frames, es, hstack, -, hexec, -, -, hes, hlogs, -⟩
  · exact hold m r (hh ▸ hmem)
  · rw [hes] at hmem
    rcases mem_append.1 hmem with hmem | hmem
    · exact hold m r hmem
    · obtain ⟨⟨l, rfl⟩, rfl, hnew, hmsg⟩ := hexec.aborted hlogs hmem
      have hcarries : (m, false) ∈ (Frame.abortMessages (m :: l)).carries :=
        mem_map.2 ⟨m, mem_cons_self, rfl⟩
      have hm : m < s.nextMessage := hreg.sound.owners.lt_stack (hstack ▸ mem_cons_self) hcarries
      have hnew : s'.nextMessage = s.nextMessage + 1 := hnew
      refine ⟨Nat.lt_of_lt_of_le hm hnext, ?_, ?_⟩
      · rw [hnew]
        exact Nat.lt_succ_self _
      · rw [hmsg]
        exact (abortOf_congr (hmail.header hm)).symm

/-- The reply a thread is blocked for is put, whatever is in its mailbox. -/
theorem Regular.step_putMessage (hreg : Regular s)
    (hs : s.stack s.currentThread = .putMessage m :: rest) (hsmall : (s.message m).small = true)
    (hen : s.mailboxEnabled (s.message m).destination = true)
    (hwait : s.blockingThread (s.message m).destination = some (s.message m).source)
    (hid : s.blockingMessageId (s.message m).destination = (s.message m).id) :
    s.step (.run o) = some ((s.pop rest).answered m) := by
  have hnb : (s.message m).blocking = false := (hreg.sound.addressed.pop hs).2
  have hblocked : s.threadState (s.message m).destination = .blocked :=
    (hreg.waitFor.blocked _).2 ⟨_, hwait⟩
  have hpay : (s.pop rest).payloadStatus o.payload m = .success := by
    have hsmall : ((s.pop rest).message m).small = true := hsmall
    rw [payloadStatus, if_pos hsmall]
  have hloop : (s.pop rest).causesSchedulingLoop (s.message m).destination m = some false := by
    have hnb : ¬ ((s.pop rest).message m).blocking = true := by
      rw [show ((s.pop rest).message m).blocking = false from hnb]
      simp
    rw [causesSchedulingLoop, if_neg hnb]
  have hun : (s.pop rest).unblocks (s.message m).destination m = true := by
    show (s.threadState _ == .blocked && s.blockingThread _ == some (s.message m).source &&
      s.blockingMessageId _ == (s.message m).id) = true
    rw [hblocked, hwait, hid]
    simp
  have hthread : (s.pop rest).threadPutMessage (s.message m).destination m = some (.success,
      (((s.pop rest).unblock (s.message m).destination m).pushHead (s.message m).destination
        m).blockOn (s.message m).destination m) := by
    have hen : ¬ (s.pop rest).mailboxEnabled (s.message m).destination = false := by
      rw [show (s.pop rest).mailboxEnabled (s.message m).destination = true from hen]
      simp
    rw [threadPutMessage, if_neg hen, hloop]
    simp only [hun, if_true]
  have hput : (s.pop rest).putMessage o.payload m = some (.success, (s.pop rest).answered m) := by
    rw [putMessage, if_pos hpay]
    simp only [show ((s.pop rest).message m).destination = (s.message m).destination from rfl,
      hthread, if_true]
    rw [hreg.answered_eq hs hwait]
  simp only [State.step, hs, exec, hput, if_true, killOnOverflow, reduceCtorEq, if_false]

/-- What asked for a reply has been answered, or is still in the hands of `delete_messages`. -/
theorem Doomed.perm (h : Doomed s) : ((drops s.history).filter s.asks).Perm
    (aborts s.history ++ (s.inStacks doomed).filter s.asks) := by
  rw [perm_iff_count]
  intro m
  rw [count_append]
  cases hm : s.asks m with
  | true =>
    rw [count_filter hm, count_filter hm]
    exact h.once m hm
  | false =>
    have hnot : ∀ l : List MessageRef, m ∉ l.filter s.asks := by simp [hm]
    rw [count_eq_zero_of_not_mem (hnot _), count_eq_zero_of_not_mem (hnot _),
      count_eq_zero_of_not_mem fun ha => by
        rw [(h.answered m ha).2] at hm
        cases hm]

/-! ### Every run -/

/-- The messages from `a` to `b` among `l`. -/
def between (s : State) (a b : ThreadId) (l : List MessageRef) : List MessageRef :=
  (s.toward b l).filter fun m => (s.message m).source = a

end

end State

end Dx.Kernel
