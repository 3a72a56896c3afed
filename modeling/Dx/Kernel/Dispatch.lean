import Dx.Kernel.DeviceProxy

/-!
# Waking the interrupt handlers

The loop of `wake_interrupt_handlers`, which sends a message to each handler of a line and awaits its
reply before it goes on to the next. The number of handlers is read once, before the loop; the handlers
themselves are read one after another, and while the loop awaits a reply any thread may register on
the line, or unregister from it.

A new handler is put behind the others, where the loop does not come. But the last handler takes the
place of one that unregisters, and so the loop may miss it, and may read beyond the end of the list. What
the loop has still to read is a segment of the list (`pending`), and an unregistration does no harm
exactly if it leaves the handlers in there that stay registered (`Harmless`).
-/

namespace Dx.Kernel

open Library List

/-- `wake_interrupt_handlers`, between two steps of its loop. -/
structure Dispatch where
  proxy : DeviceProxy
  irq : ℕ
  threadCount : ℕ
  /-- `i`. -/
  index : ℕ
  waiting : Bool
  /-- The handlers when the interrupt came. -/
  registered : List ThreadId
  /-- The handlers that have been sent the interrupt. -/
  sent : List ThreadId
  /-- The threads that have unregistered from the line since the interrupt. -/
  unregistered : List ThreadId
  panicked : Bool

inductive DispatchAction
  /-- The next handler is read and sent a message, if there is memory for the message and room for it
  in the mailbox. -/
  | wake (sent : Bool)
  | acknowledge
  /-- While a reply is awaited, a thread makes a system call. -/
  | call (call : InterruptCall)
deriving DecidableEq, Repr

namespace Dispatch

def start (proxy : DeviceProxy) (irq : ℕ) : Dispatch where
  proxy := proxy
  irq := irq
  threadCount := (proxy.interruptHandler irq).1.count
  index := 0
  waiting := false
  registered := (proxy.interruptHandler irq).items
  sent := []
  unregistered := []
  panicked := false

def handlers (s : Dispatch) : HandlerList := s.proxy.interruptHandler s.irq

/-- The thread that a call unregisters from the line. -/
def leaving (irq : ℕ) : InterruptCall → List ThreadId
  | .register _ _ _ => []
  | .unregister t irq' => if irq' = irq then [t] else []

def step (s : Dispatch) : DispatchAction → Option Dispatch
  | .wake sent =>
    if s.panicked = false ∧ s.waiting = false ∧ s.index < s.threadCount then
      match s.handlers.read s.index with
      | none => some { s with panicked := true }
      | some t =>
        if sent then some { s with waiting := true, sent := s.sent ++ [t] }
        else some { s with index := s.index + 1 }
    else none
  | .acknowledge =>
    if s.waiting = true then some { s with index := s.index + 1, waiting := false } else none
  | .call c =>
    if s.waiting = true then
      (s.proxy.step c).map fun proxy =>
        { s with proxy := proxy, unregistered := leaving s.irq c ++ s.unregistered }
    else none

def next (s : Dispatch) : ℕ := if s.waiting then s.index + 1 else s.index

/-- The part of a list that the loop has still to read. -/
def pending (s : Dispatch) (l : List ThreadId) : List ThreadId := (l.take s.threadCount).drop s.next

def Finished (s : Dispatch) : Prop :=
  s.panicked = false ∧ s.waiting = false ∧ s.threadCount ≤ s.index

/-- The threads of a list that were there at first and have not gone. -/
def staying (first gone l : List ThreadId) : List ThreadId := l.filter fun t => t ∈ first ∧ t ∉ gone

/-- An unregistration does no harm: the loop has nothing more to read, or what it has to read is still
in the list, with the same handlers of those that stay. -/
def Harmless (s : Dispatch) (t : ThreadId) : Prop :=
  s.threadCount ≤ s.next ∨ (s.threadCount ≤ (s.handlers.remove t).items.length ∧
    (staying s.registered (t :: s.unregistered) (s.pending (s.handlers.remove t).items)).Perm
      (staying s.registered (t :: s.unregistered) (s.pending s.handlers.items)))
deriving Decidable

/-- The interrupt is not disturbed: every message can be sent, and the unregistrations from the line do
no harm. -/
def Undisturbed (s : Dispatch) : DispatchAction → Prop
  | .wake sent => sent = true
  | .acknowledge => True
  | .call c => ∀ t ∈ leaving s.irq c, s.Harmless t

instance (s : Dispatch) (action : DispatchAction) : Decidable (s.Undisturbed action) := by
  unfold Undisturbed
  split <;> infer_instance

/-- The handlers reply, and nobody makes a call. -/
def Quiet (_ : Dispatch) : DispatchAction → Prop
  | .wake sent => sent = true
  | .acknowledge => True
  | .call _ => False

section

variable {s s' : Dispatch} {t : ThreadId} {l first gone : List ThreadId} {c : InterruptCall}
  {l' : List ThreadId} {proxy : DeviceProxy} {action : DispatchAction}

/-! ### Segments -/

theorem pending_cons (hw : s.waiting = false) (hlt : s.index < s.threadCount) (ht : l[s.index]? = some t) :
    s.pending l = t :: (l.take s.threadCount).drop (s.index + 1) := by
  have htake : (l.take s.threadCount)[s.index]? = some t := by
    rw [List.getElem?_take_of_lt hlt, ht]
  obtain ⟨hbound, heq⟩ := List.getElem?_eq_some_iff.1 htake
  rw [pending, next, hw, if_neg Bool.false_ne_true, drop_eq_getElem_cons hbound, heq]

theorem pending_of_le (h : s.threadCount ≤ s.next) : s.pending l = [] := by
  refine drop_eq_nil_of_le ?_
  rw [length_take]
  omega

theorem pending_append (h : s.next < s.threadCount → s.threadCount ≤ l.length) (l' : List ThreadId) :
    s.pending (l ++ l') = s.pending l := by
  by_cases hlt : s.next < s.threadCount
  · rw [pending, pending, take_append_of_le_length (h hlt)]
  · rw [pending_of_le (by omega), pending_of_le (by omega)]

theorem staying_append (first gone l l' : List ThreadId) :
    staying first gone (l ++ l') = staying first gone l ++ staying first gone l' :=
  filter_append ..

theorem staying_staying (first gone' gone l : List ThreadId) :
    staying first (gone' ++ gone) (staying first gone l) = staying first (gone' ++ gone) l := by
  rw [staying, staying, staying, filter_filter]
  refine filter_congr fun t _ => ?_
  rw [Bool.eq_iff_iff]
  simp only [Bool.and_eq_true, decide_eq_true_eq, mem_append, not_or]
  exact ⟨fun h => h.1, fun h => ⟨h, h.1, h.2.2⟩⟩

theorem perm_staying (gone' : List ThreadId)
    (h : (staying first gone l).Perm (staying first gone l')) :
    (staying first (gone' ++ gone) l).Perm (staying first (gone' ++ gone) l') := by
  rw [← staying_staying first gone' gone l, ← staying_staying first gone' gone l']
  exact h.filter _

theorem count_staying (hfirst : t ∈ first) (ht : t ∉ gone) (l : List ThreadId) :
    (staying first gone l).count t = l.count t :=
  count_filter (decide_eq_true ⟨hfirst, ht⟩)

/-- Two lists with the same handlers that stay have each of these equally often. -/
theorem perm_staying_iff : (staying first gone l).Perm (staying first gone l') ↔
    ∀ t ∈ first, t ∉ gone → l.count t = l'.count t := by
  rw [perm_iff_count]
  constructor
  · intro h t hfirst ht
    rw [← count_staying hfirst ht l, h t, count_staying hfirst ht]
  · intro h t
    by_cases hstays : t ∈ first ∧ t ∉ gone
    · rw [count_staying hstays.1 hstays.2, count_staying hstays.1 hstays.2]
      exact h t hstays.1 hstays.2
    · have hnone : ∀ l : List ThreadId, (staying first gone l).count t = 0 := fun l =>
        count_eq_zero.2 fun hmem => hstays (of_decide_eq_true (mem_filter.1 hmem).2)
      rw [hnone, hnone]

/-! ### One step -/

/-- A call that leaves the line alone, or registers on it. -/
theorem handlers_step (hc : leaving s.irq c = []) (h : s.proxy.step c = some proxy) :
    ∃ l, (proxy.interruptHandler s.irq).items = s.handlers.items ++ l := by
  rcases DeviceProxy.step_cases h with ⟨rfl, -⟩ | ⟨t, irq, block, rfl, -, hregisters⟩ |
    ⟨t, irq, rfl, -, hunregisters⟩
  · exact ⟨[], (append_nil _).symm⟩
  · by_cases heq : s.irq = irq
    · rw [heq]
      refine ⟨[t], hregisters.handlers.trans ?_⟩
      rw [handlers, heq]
    · rw [hregisters.others s.irq heq]
      exact ⟨[], (append_nil _).symm⟩
  · have hne : s.irq ≠ irq := by
      intro heq
      rw [leaving, if_pos heq.symm] at hc
      cases hc
    rw [hunregisters.others s.irq hne]
    exact ⟨[], (append_nil _).symm⟩

theorem handlers_step_leaving (hirq : s.irq < interruptVectorPicCount) (ht : t ∈ leaving s.irq c)
    (h : s.proxy.step c = some proxy) :
    leaving s.irq c = [t] ∧ proxy.interruptHandler s.irq = s.handlers.remove t := by
  cases c with
  | register => cases ht
  | unregister u irq =>
    rw [leaving] at ht ⊢
    split at ht
    case isFalse => cases ht
    case isTrue heq =>
      obtain rfl := mem_singleton.1 ht
      subst heq
      refine ⟨if_pos rfl, ?_⟩
      rcases DeviceProxy.step_cases h with ⟨-, hrejected⟩ | ⟨_, _, _, hcall, -⟩ |
        ⟨_, _, hcall, -, hunregisters⟩
      · exact absurd hirq (hrejected t s.irq rfl)
      · cases hcall
      · cases hcall
        exact hunregisters.handlers

/-- The loop goes on as it should: what it has to read is in the list, and the handlers that stay are
those that have been sent the interrupt and those that it has still to read. -/
structure Sound (s : Dispatch) : Prop where
  irq : s.irq < interruptVectorPicCount
  calm : s.panicked = false
  /-- There is a handler whose reply is awaited. -/
  index : s.waiting = true → s.index < s.threadCount
  /-- What is to be read is in the list. -/
  inside : s.next < s.threadCount → s.threadCount ≤ s.handlers.items.length
  /-- Nobody is forgotten. -/
  handlers : (staying s.registered s.unregistered (s.sent ++ s.pending s.handlers.items)).Perm
    (staying s.registered s.unregistered s.registered)

theorem sound_start (proxy : DeviceProxy) {irq : ℕ} (hirq : irq < interruptVectorPicCount) :
    (start proxy irq).Sound where
  irq := hirq
  calm := rfl
  index h := nomatch h
  inside _ := (HandlerList.length_items _).ge
  handlers := by
    have hall : (start proxy irq).pending (proxy.interruptHandler irq).items =
        (proxy.interruptHandler irq).items :=
      take_of_length_le (HandlerList.length_items _).le
    exact List.Perm.of_eq (congrArg (staying _ []) hall)

/-- A step that is not disturbed keeps the loop right. -/
theorem Sound.step (h : s.Sound) (hok : s.Undisturbed action) (hs : s.step action = some s') :
    s'.Sound := by
  cases action with
  | wake sent =>
    obtain rfl : sent = true := hok
    rw [Dispatch.step] at hs
    obtain ⟨hguard, hs⟩ := Option.ite_none_right_eq_some.1 hs
    obtain ⟨-, hw, hlt⟩ := hguard
    have hnext : s.next = s.index := by rw [next, hw]; rfl
    have hinside := h.inside (by omega)
    obtain ⟨t, ht⟩ : ∃ t, s.handlers.items[s.index]? = some t :=
      ⟨_, List.getElem?_eq_getElem (by omega)⟩
    rw [HandlerList.read_eq, ht] at hs
    cases hs
    refine ⟨h.irq, h.calm, fun _ => hlt, fun _ => hinside, ?_⟩
    have hhandlers := h.handlers
    rw [pending_cons hw hlt ht] at hhandlers
    rw [append_assoc, singleton_append]
    exact hhandlers
  | acknowledge =>
    rw [Dispatch.step] at hs
    obtain ⟨hw, hs⟩ := Option.ite_none_right_eq_some.1 hs
    cases hs
    have hnext : s.next = s.index + 1 := by rw [next, hw]; rfl
    refine ⟨h.irq, h.calm, (fun hno => nomatch hno), fun hlt => h.inside ?_, ?_⟩
    · rw [hnext]
      exact hlt
    · have hhandlers := h.handlers
      rw [pending, hnext] at hhandlers
      exact hhandlers
  | call c =>
    rw [Dispatch.step] at hs
    obtain ⟨hw, hs⟩ := Option.ite_none_right_eq_some.1 hs
    obtain ⟨proxy, hproxy, rfl⟩ := Option.map_eq_some_iff.1 hs
    cases hleaving : leaving s.irq c with
    | nil =>
      obtain ⟨l, hl⟩ := handlers_step hleaving hproxy
      refine ⟨h.irq, h.calm, h.index, fun hlt => ?_, ?_⟩
      · show s.threadCount ≤ (proxy.interruptHandler s.irq).items.length
        rw [hl, length_append]
        exact (h.inside hlt).trans (Nat.le_add_right _ _)
      · show (staying s.registered s.unregistered
          (s.sent ++ s.pending (proxy.interruptHandler s.irq).items)).Perm _
        rw [hl, pending_append h.inside]
        exact h.handlers
    | cons t rest =>
      have ht : t ∈ leaving s.irq c := by
        rw [hleaving]
        exact mem_cons_self
      obtain ⟨hone, hremoved⟩ := handlers_step_leaving h.irq ht hproxy
      rw [hone] at hleaving
      cases hleaving
      have hharmless := hok _ ht
      have hkept : s.threadCount ≤ s.next ∨
          s.threadCount ≤ (s.handlers.remove t).items.length := hharmless.imp_right fun h => h.1
      refine ⟨h.irq, h.calm, h.index, fun hlt => ?_, ?_⟩
      · show s.threadCount ≤ (proxy.interruptHandler s.irq).items.length
        rw [hremoved]
        exact hkept.resolve_left (Nat.not_le_of_lt hlt)
      · show (staying s.registered ([t] ++ s.unregistered)
          (s.sent ++ s.pending (proxy.interruptHandler s.irq).items)).Perm
            (staying s.registered ([t] ++ s.unregistered) s.registered)
        refine List.Perm.trans ?_ (perm_staying [t] h.handlers)
        rw [hremoved, staying_append, staying_append]
        refine List.Perm.append_left _ ?_
        rcases hharmless with hdone | ⟨-, hperm⟩
        · rw [pending_of_le hdone, pending_of_le hdone]
        · exact hperm

theorem registered_step (hs : s.step action = some s') : s'.registered = s.registered := by
  cases action with
  | wake sent =>
    rw [step] at hs
    obtain ⟨-, hs⟩ := Option.ite_none_right_eq_some.1 hs
    split at hs
    case h_1 =>
      cases hs
      rfl
    split at hs
    case isTrue =>
      cases hs
      rfl
    cases hs
    rfl
  | acknowledge =>
    rw [step] at hs
    obtain ⟨-, hs⟩ := Option.ite_none_right_eq_some.1 hs
    cases hs
    rfl
  | call c =>
    rw [step] at hs
    obtain ⟨-, hs⟩ := Option.ite_none_right_eq_some.1 hs
    obtain ⟨proxy, -, rfl⟩ := Option.map_eq_some_iff.1 hs
    rfl

/-! ### The rest of the loop -/

/-- If nobody makes a call, then the loop ends when it has read what is pending, or the kernel panics
as that is not in the list. -/
theorem quiet_run (n : ℕ) (s : Dispatch) (hcalm : s.panicked = false) (hw : s.waiting = false)
    (hn : n = s.threadCount - s.index) :
    ∃ s', Run step Quiet s s' ∧
      if s.index < s.threadCount ∧ s.handlers.items.length < s.threadCount then s'.panicked = true
      else s'.Finished ∧ s'.sent = s.sent ++ s.pending s.handlers.items ∧
        s'.unregistered = s.unregistered := by
  induction n generalizing s with
  | zero =>
    have hnext : s.next = s.index := by rw [next, hw]; rfl
    refine ⟨s, .refl, ?_⟩
    rw [if_neg (by omega), pending_of_le (by omega), append_nil]
    exact ⟨⟨hcalm, hw, by omega⟩, rfl, rfl⟩
  | succ n ih =>
    have hlt : s.index < s.threadCount := by omega
    have hwake : s.step (.wake true) = match s.handlers.read s.index with
        | none => some { s with panicked := true }
        | some t => some { s with waiting := true, sent := s.sent ++ [t] } := by
      rw [step, if_pos ⟨hcalm, hw, hlt⟩]
      rfl
    rw [HandlerList.read_eq] at hwake
    cases ht : s.handlers.items[s.index]? with
    | none =>
      rw [ht] at hwake
      refine ⟨_, .single (a := .wake true) rfl hwake, ?_⟩
      have hlength := List.getElem?_eq_none_iff.1 ht
      rw [if_pos ⟨hlt, by omega⟩]
    | some t =>
      rw [ht] at hwake
      have hlength : s.index < s.handlers.items.length := (List.getElem?_eq_some_iff.1 ht).1
      -- the handler replies, and the rest is by induction
      generalize hs₂ : { s with index := s.index + 1, waiting := false, sent := s.sent ++ [t] } = s₂
      have hreply : step { s with waiting := true, sent := s.sent ++ [t] } .acknowledge = some s₂ := by
        rw [← hs₂]
        rfl
      have hread : Run step Quiet s s₂ := by
        refine .tail (.tail .refl ?_ hwake) ?_ hreply
        · exact rfl
        · exact trivial
      have hhandlers : s₂.handlers = s.handlers := by rw [← hs₂]; rfl
      have hindex : s₂.index = s.index + 1 := by rw [← hs₂]
      have hcount : s₂.threadCount = s.threadCount := by rw [← hs₂]
      have hw₂ : s₂.waiting = false := by rw [← hs₂]
      have hpending : s₂.pending s.handlers.items =
          (s.handlers.items.take s.threadCount).drop (s.index + 1) := by
        rw [pending, next, hw₂, hcount, hindex]
        rfl
      obtain ⟨s', hrun, hs'⟩ := ih s₂ (by rw [← hs₂]; exact hcalm) hw₂ (by omega)
      refine ⟨s', hread.trans hrun, ?_⟩
      rw [hhandlers, hindex, hcount, hpending] at hs'
      rw [pending_cons hw hlt ht]
      by_cases hshort : s.handlers.items.length < s.threadCount
      · rw [if_pos ⟨hlt, hshort⟩]
        rw [if_pos ⟨by omega, hshort⟩] at hs'
        exact hs'
      · rw [if_neg fun h => hshort h.2]
        rw [if_neg fun h => hshort h.2] at hs'
        obtain ⟨hfinished, hsent, hunregistered⟩ := hs'
        refine ⟨hfinished, hsent.trans ?_, hunregistered.trans ?_⟩
        · rw [← hs₂]
          rw [append_assoc, singleton_append]
        · rw [← hs₂]

/-- An unregistration that does harm leads to a panic, or to a handler that stays and has not been
sent the interrupt as often as it is registered, even if nobody makes a call any more. -/
theorem Sound.harm (h : s.Sound) (ht : t ∈ leaving s.irq c) (hharm : ¬ s.Harmless t)
    (hs : s.step (.call c) = some s') :
    ∃ s'', Run Dispatch.step Quiet s' s'' ∧ (s''.panicked = true ∨ s''.Finished ∧
      ∃ u ∈ s.registered, u ∉ s''.unregistered ∧ s''.sent.count u ≠ s.registered.count u) := by
  rw [Dispatch.step] at hs
  obtain ⟨hw, hs⟩ := Option.ite_none_right_eq_some.1 hs
  obtain ⟨proxy, hproxy, rfl⟩ := Option.map_eq_some_iff.1 hs
  obtain ⟨hone, hremoved⟩ := handlers_step_leaving h.irq ht hproxy
  rw [hone]
  obtain ⟨hleft, hright⟩ := not_or.1 hharm
  have hnext : s.next = s.index + 1 := by rw [next, hw]; rfl
  -- the handler replies first
  generalize hs₂ : { s with
    proxy := proxy
    unregistered := [t] ++ s.unregistered
    index := s.index + 1
    waiting := false } = s₂
  have hreply : Run Dispatch.step Quiet
      { s with proxy := proxy, unregistered := [t] ++ s.unregistered } s₂ := by
    refine .single (a := .acknowledge) trivial ?_
    rw [← hs₂, Dispatch.step, if_pos hw]
  have hhandlers : s₂.handlers = s.handlers.remove t := by
    rw [← hremoved, ← hs₂]
    rfl
  have hw₂ : s₂.waiting = false := by rw [← hs₂]
  have hindex : s₂.index = s.next := by rw [hnext, ← hs₂]
  have hcount : s₂.threadCount = s.threadCount := by rw [← hs₂]
  have hpending : s₂.pending = s.pending := by
    funext l
    rw [pending, pending, next, hw₂, hindex, hcount]
    rfl
  obtain ⟨s'', hrun, hs''⟩ := quiet_run _ s₂ (by rw [← hs₂]; exact h.calm) hw₂ rfl
  refine ⟨s'', hreply.trans hrun, ?_⟩
  rw [hhandlers, hindex, hcount, hpending] at hs''
  split at hs''
  case isTrue => exact .inl hs''
  case isFalse hlong =>
    obtain ⟨hfinished, hsent, hunregistered⟩ := hs''
    refine .inr ⟨hfinished, ?_⟩
    by_contra hnone
    have hall : ∀ u ∈ s.registered, u ∉ s''.unregistered →
        s''.sent.count u = s.registered.count u := by
      intro u hu hstays
      by_contra hne
      exact hnone ⟨u, hu, hstays, hne⟩
    rw [hunregistered, hsent, ← hs₂, ← perm_staying_iff] at hall
    have hsame := hall.trans (perm_staying [t] h.handlers).symm
    rw [staying_append, staying_append, perm_append_left_iff] at hsame
    exact hright ⟨by omega, hsame⟩

end

/-- **The interrupt is sent to each handler once.** In whatever state the device proxy is when the
interrupt comes, and whatever calls are made while the loop awaits a reply: if it is not disturbed then
it never reads beyond the end of the list, and when it has come to its end, then each handler that has
stayed registered has been sent the interrupt as often as it was registered on the line; and after an
unregistration that is not harmless it goes wrong, unless other calls mend it. -/
theorem dispatch_sends_once (proxy : DeviceProxy) (irq : ℕ) (hirq : irq < interruptVectorPicCount)
    (s : Dispatch) (h : Run step Undisturbed (start proxy irq) s) :
    s.panicked = false ∧
    (s.Finished → ∀ t ∈ (proxy.interruptHandler irq).items, t ∉ s.unregistered →
      s.sent.count t = (proxy.interruptHandler irq).items.count t) ∧
    ∀ c s', s.step (.call c) = some s' → ¬ s.Undisturbed (.call c) →
      ∃ s'', Run step Quiet s' s'' ∧ (s''.panicked = true ∨
        s''.Finished ∧ ∃ t ∈ (proxy.interruptHandler irq).items, t ∉ s''.unregistered ∧
          s''.sent.count t ≠ (proxy.interruptHandler irq).items.count t) := by
  have hsound : s.Sound :=
    h.invariant (sound_start proxy hirq) fun hx hok hstep => hx.step hok hstep
  have hfirst : s.registered = (proxy.interruptHandler irq).items :=
    h.invariant (I := fun s => s.registered = (proxy.interruptHandler irq).items) rfl
      fun hx _ hstep => (registered_step hstep).trans hx
  rw [← hfirst]
  refine ⟨hsound.calm, fun hfinished => ?_, fun c s' hs' hdisturbed => ?_⟩
  · obtain ⟨-, hw, hdone⟩ := hfinished
    have hnext : s.next = s.index := by rw [next, hw]; rfl
    have hhandlers := hsound.handlers
    rw [pending_of_le (by omega), append_nil] at hhandlers
    exact perm_staying_iff.1 hhandlers
  · obtain ⟨t, ht, hharm⟩ : ∃ t ∈ leaving s.irq c, ¬ s.Harmless t := by
      by_contra hnone
      refine hdisturbed fun t ht => ?_
      by_contra hharm
      exact hnone ⟨t, ht, hharm⟩
    exact hsound.harm ht hharm hs'

def threeHandlers : Option DeviceProxy :=
  runActions DeviceProxy.step (.initial fun _ => 1)
    [.register 1 5 (some 0), .register 2 5 none, .register 3 5 none]

/-- A fourth thread registers during the interrupt, and then the second one leaves. -/
theorem dispatch_sends_once_replaced : ∃ proxy ∈ threeHandlers, ∃ s,
    Run step Undisturbed (start proxy 5) s ∧ s.Finished ∧ s.sent = [1, 4, 3] ∧ s.unregistered = [2] ∧
      s.sent.count 3 = (proxy.interruptHandler 5).items.count 3 := by
  have heval : ∃ proxy ∈ threeHandlers, ∃ s ∈ runActions (restrict step Undisturbed) (start proxy 5)
      [.wake true, .call (.register 4 5 none), .call (.unregister 2 5), .acknowledge, .wake true,
        .acknowledge, .wake true, .acknowledge],
      (s.panicked = false ∧ s.waiting = false ∧ s.threadCount ≤ s.index) ∧ s.sent = [1, 4, 3] ∧
        s.unregistered = [2] ∧ 3 ∈ (proxy.interruptHandler 5).items := by
    decide +kernel
  obtain ⟨proxy, hproxy, s, hs, hfinished, hsent, hgone, hthree⟩ := heval
  have hrun := run_of_runActions_restrict _ hs
  refine ⟨proxy, hproxy, s, hrun, hfinished, hsent, hgone, ?_⟩
  exact (dispatch_sends_once proxy 5 (by decide) s hrun).2.1 hfinished 3 hthree (by rw [hgone]; decide)

/-- The first handler unregisters when it has been sent the interrupt: the third takes its place, and is
never sent the interrupt, and then the kernel panics. -/
theorem not_dispatch_sends_once : ∃ proxy ∈ threeHandlers, ∃ s ∈ runActions step (start proxy 5)
    [.wake true, .call (.unregister 1 5), .acknowledge, .wake true, .acknowledge, .wake true],
    s.panicked = true ∧ s.sent = [1, 2] ∧ s.handlers.items = [3, 2] := by
  decide +kernel

end Dispatch

end Dx.Kernel
