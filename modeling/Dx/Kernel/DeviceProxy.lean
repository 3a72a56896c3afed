import Dx.Containers.ObjectList
import Dx.Kernel.State
import Dx.Library.Run

/-!
# Interrupt handlers

`register_interrupt_handler` and `unregister_interrupt_handler` of the device proxy, with the masks of
the interrupt controllers. A registration is kept in three places: the thread is in the list of the
line, the line is unmasked, and the device proxy has a reference to the thread.

Nothing but the callers keeps the three in step. A thread that unregisters from a line it is not
registered on takes away a reference that it has not given, and if the line has no handlers then it is
masked, be it the clock. So the books are right after all calls that are `Ordered`, and wrong after the
first that is not (`interrupt_bookkeeping`).
-/

namespace Dx.Kernel

open Library Containers Function

/-! ### Lists of handlers -/

/-- `interrupt_handler_list_c`. -/
abbrev HandlerList := { l : ObjectList ThreadId // l.Ok }

namespace HandlerList

def items (l : HandlerList) : List ThreadId := l.1.items

def new : HandlerList := ⟨.new, ObjectList.ok_new⟩

/-- `operator+=`; `block` is what `new` returns if the array has to grow, or else the kernel panics. -/
def add (l : HandlerList) (t : ThreadId) (block : Option ℕ) : Option HandlerList :=
  match h : l.1.add t block [] with
  | some (l', _) => some ⟨l', (l.2.add h).ok⟩
  | none => none

theorem remove_of_not_mem {l : ObjectList ThreadId} {t : ThreadId} (h : t ∉ l.items) :
    l.remove (· == ·) t = l := by
  refine ObjectList.remove_eq_self fun y hy => beq_false_of_ne ?_
  rintro rfl
  exact h hy

theorem ok_remove (l : HandlerList) (t : ThreadId) : (l.1.remove (· == ·) t).Ok := by
  by_cases ht : t ∈ l.1.items
  · exact (l.2.remove ht fun _ _ => beq_iff_eq).1
  · rw [remove_of_not_mem ht]
    exact l.2

/-- `operator-=`, with `operator==` of threads, which compares their ids. -/
def remove (l : HandlerList) (t : ThreadId) : HandlerList := ⟨l.1.remove (· == ·) t, l.ok_remove t⟩

/-- `operator[]`; beyond the end of the list the kernel panics. -/
def read (l : HandlerList) (index : ℕ) : Option ThreadId :=
  if index < l.1.count then l.1.array.read index else none

variable {l l' : HandlerList} {t : ThreadId} {block : Option ℕ}

@[simp]
theorem length_items (l : HandlerList) : l.items.length = l.1.count := l.2.length_items

theorem read_eq (l : HandlerList) (index : ℕ) : l.read index = l.items[index]? :=
  (getElem?_items l.2.object index).symm

theorem items_add (h : l.add t block = some l') : l'.items = l.items ++ [t] := by
  unfold add at h
  split at h
  case h_1 l' held hadd =>
    cases h
    exact (l.2.add hadd).items_eq
  case h_2 => cases h

theorem items_remove_of_not_mem (h : t ∉ l.items) : (l.remove t).items = l.items :=
  congrArg ObjectList.items (remove_of_not_mem h)

theorem perm_remove (h : t ∈ l.items) : l.items.Perm (t :: (l.remove t).items) :=
  (l.2.remove h fun _ _ => beq_iff_eq).2.1

theorem length_remove (h : t ∈ l.items) : l.items.length = (l.remove t).items.length + 1 :=
  (perm_remove h).length_eq

theorem count_remove (h : t ∈ l.items) (u : ThreadId) :
    l.items.count u = (l.remove t).items.count u + if t = u then 1 else 0 := by
  rw [(perm_remove h).count_eq, List.count_cons]
  simp only [beq_iff_eq]

end HandlerList

/-! ### The device proxy -/

def clockLine : ℕ := 0

/-- The line of the master controller that the slave is connected to. It is never masked at the
start. -/
def cascadeLine : ℕ := 2

/-- `device_proxy_c`, with the two interrupt controllers and the threads. -/
structure DeviceProxy where
  interruptHandler : ℕ → HandlerList
  masterMask : BitVec 8
  slaveMask : BitVec 8
  /-- `reference_count` of each thread. A thread without references has been deleted. -/
  referenceCount : ThreadId → ℤ

inductive InterruptCall
  /-- `MAP_DEVICE`, of an interrupt; `block` is what `new` returns if the list has to grow. -/
  | register (t : ThreadId) (irq : ℕ) (block : Option ℕ)
  /-- `UNMAP_DEVICE`, of an interrupt. -/
  | unregister (t : ThreadId) (irq : ℕ)
deriving DecidableEq, Repr

namespace DeviceProxy

def maskInterrupt (irq : ℕ) (p : DeviceProxy) : DeviceProxy :=
  if irq < 8 then { p with masterMask := p.masterMask ||| 1#8 <<< irq }
  else { p with slaveMask := p.slaveMask ||| 1#8 <<< (irq - 8) }

def unmaskInterrupt (irq : ℕ) (p : DeviceProxy) : DeviceProxy :=
  if irq < 8 then { p with masterMask := p.masterMask &&& ~~~(1#8 <<< irq) }
  else { p with slaveMask := p.slaveMask &&& ~~~(1#8 <<< (irq - 8)) }

def masked (p : DeviceProxy) (irq : ℕ) : Bool :=
  if irq < 8 then p.masterMask.getLsbD irq else p.slaveMask.getLsbD (irq - 8)

/-- The controllers mask every line but one (`i8259_OCW1_MASK_ALL_MASTER_IRQS`), and the scheduler then
unmasks the clock. The threads have the references that others have given them. -/
def initial (others : ThreadId → ℤ) : DeviceProxy :=
  unmaskInterrupt clockLine ⟨fun _ => .new, 0xFB, 0xFF, others⟩

def setHandlers (irq : ℕ) (l : HandlerList) (p : DeviceProxy) : DeviceProxy :=
  { p with interruptHandler := update p.interruptHandler irq l }

/-- `add_reference` and `remove_reference`. -/
def addReferences (t : ThreadId) (n : ℤ) (p : DeviceProxy) : DeviceProxy :=
  { p with referenceCount := update p.referenceCount t (p.referenceCount t + n) }

def registerInterruptHandler (t : ThreadId) (irq : ℕ) (block : Option ℕ) (p : DeviceProxy) :
    Option DeviceProxy :=
  if irq < interruptVectorPicCount then
    ((p.interruptHandler irq).add t block).map fun l =>
      ((p.addReferences t 1).setHandlers irq l).unmaskInterrupt irq
  else some p

def unregisterInterruptHandler (t : ThreadId) (irq : ℕ) (p : DeviceProxy) : DeviceProxy :=
  if irq < interruptVectorPicCount then
    let p := p.setHandlers irq ((p.interruptHandler irq).remove t)
    let p := if (p.interruptHandler irq).items = [] then p.maskInterrupt irq else p
    p.addReferences t (-1)
  else p

def step (p : DeviceProxy) : InterruptCall → Option DeviceProxy
  | .register t irq block =>
    if 0 < p.referenceCount t then p.registerInterruptHandler t irq block else none
  | .unregister t irq =>
    if 0 < p.referenceCount t then some (p.unregisterInterruptHandler t irq) else none

/-! ### The masks -/

section Masks

variable {p : DeviceProxy} {irq irq' : ℕ} {m : BitVec 8} {i j : ℕ}

theorem getLsbD_mask (hi : i < 8) :
    (m ||| 1#8 <<< i).getLsbD j = (m.getLsbD j || decide (j = i)) := by
  rw [BitVec.getLsbD_or, BitVec.getLsbD_shiftLeft, BitVec.getLsbD_one]
  congr 1
  rw [Bool.eq_iff_iff]
  simp only [Bool.and_eq_true, decide_eq_true_eq, Bool.not_eq_true', decide_eq_false_iff_not]
  omega

theorem getLsbD_unmask (hj : j < 8) :
    (m &&& ~~~(1#8 <<< i)).getLsbD j = (m.getLsbD j && decide (j ≠ i)) := by
  rw [BitVec.getLsbD_and, BitVec.getLsbD_not, BitVec.getLsbD_shiftLeft, BitVec.getLsbD_one]
  congr 1
  rw [Bool.eq_iff_iff]
  simp only [Bool.and_eq_true, decide_eq_true_eq, Bool.not_eq_true', decide_eq_false_iff_not,
    Bool.and_eq_false_iff, Bool.not_eq_false']
  omega

theorem masked_maskInterrupt (h : irq < interruptVectorPicCount) (h' : irq' < interruptVectorPicCount) :
    (p.maskInterrupt irq).masked irq' = (p.masked irq' || decide (irq' = irq)) := by
  rw [show interruptVectorPicCount = 16 from rfl] at h h'
  unfold maskInterrupt masked
  by_cases hlow : irq < 8
  · rw [if_pos hlow]
    split
    case isTrue hlow' => exact getLsbD_mask hlow
    case isFalse hhigh' => rw [decide_eq_false (by omega), Bool.or_false]
  · rw [if_neg hlow]
    split
    case isTrue hlow' => rw [decide_eq_false (by omega), Bool.or_false]
    case isFalse hhigh' =>
      rw [getLsbD_mask (by omega)]
      congr 2
      exact propext (by omega)

theorem masked_unmaskInterrupt (h : irq < interruptVectorPicCount)
    (h' : irq' < interruptVectorPicCount) :
    (p.unmaskInterrupt irq).masked irq' = (p.masked irq' && decide (irq' ≠ irq)) := by
  rw [show interruptVectorPicCount = 16 from rfl] at h h'
  unfold unmaskInterrupt masked
  by_cases hlow : irq < 8
  · rw [if_pos hlow]
    split
    case isTrue hlow' => exact getLsbD_unmask hlow'
    case isFalse hhigh' => rw [decide_eq_true (by omega), Bool.and_true]
  · rw [if_neg hlow]
    split
    case isTrue hlow' => rw [decide_eq_true (by omega), Bool.and_true]
    case isFalse hhigh' =>
      rw [getLsbD_unmask (by omega)]
      congr 2
      exact propext (by omega)

@[simp]
theorem interruptHandler_maskInterrupt : (p.maskInterrupt irq).interruptHandler = p.interruptHandler := by
  unfold maskInterrupt
  split <;> rfl

@[simp]
theorem interruptHandler_unmaskInterrupt :
    (p.unmaskInterrupt irq).interruptHandler = p.interruptHandler := by
  unfold unmaskInterrupt
  split <;> rfl

@[simp]
theorem referenceCount_maskInterrupt : (p.maskInterrupt irq).referenceCount = p.referenceCount := by
  unfold maskInterrupt
  split <;> rfl

@[simp]
theorem referenceCount_unmaskInterrupt :
    (p.unmaskInterrupt irq).referenceCount = p.referenceCount := by
  unfold unmaskInterrupt
  split <;> rfl

end Masks

/-! ### What a call does -/

section Calls

variable {p p' : DeviceProxy} {t : ThreadId} {irq : ℕ} {block : Option ℕ}

/-- A registration: the thread is the last in the list of its line. -/
structure Registers (t : ThreadId) (irq : ℕ) (p p' : DeviceProxy) : Prop where
  handlers : (p'.interruptHandler irq).items = (p.interruptHandler irq).items ++ [t]
  others : ∀ irq', irq' ≠ irq → p'.interruptHandler irq' = p.interruptHandler irq'
  masked : ∀ irq' < interruptVectorPicCount, p'.masked irq' = (p.masked irq' && decide (irq' ≠ irq))
  references : p'.referenceCount = update p.referenceCount t (p.referenceCount t + 1)

/-- The end of a registration: the thread is removed from the list of its line. -/
structure Unregisters (t : ThreadId) (irq : ℕ) (p p' : DeviceProxy) : Prop where
  handlers : p'.interruptHandler irq = (p.interruptHandler irq).remove t
  others : ∀ irq', irq' ≠ irq → p'.interruptHandler irq' = p.interruptHandler irq'
  masked : ∀ irq' < interruptVectorPicCount, p'.masked irq' = (p.masked irq' ||
    decide (irq' = irq ∧ ((p.interruptHandler irq).remove t).items = []))
  references : p'.referenceCount = update p.referenceCount t (p.referenceCount t - 1)

theorem registers_of_eq (hirq : irq < interruptVectorPicCount)
    (h : p.registerInterruptHandler t irq block = some p') : Registers t irq p p' := by
  unfold registerInterruptHandler at h
  rw [if_pos hirq] at h
  obtain ⟨l, hl, rfl⟩ := Option.map_eq_some_iff.1 h
  refine ⟨?_, fun irq' hne => ?_, fun irq' hirq' => masked_unmaskInterrupt hirq hirq', ?_⟩
  · have hhere : ((p.addReferences t 1).setHandlers irq l).interruptHandler irq = l :=
      update_self ..
    rw [interruptHandler_unmaskInterrupt, hhere]
    exact HandlerList.items_add hl
  · rw [interruptHandler_unmaskInterrupt]
    exact update_of_ne hne _ _
  · rw [referenceCount_unmaskInterrupt]
    rfl

theorem unregisters_of_eq (hirq : irq < interruptVectorPicCount)
    (h : p.unregisterInterruptHandler t irq = p') : Unregisters t irq p p' := by
  subst h
  unfold unregisterInterruptHandler
  rw [if_pos hirq]
  generalize hq : p.setHandlers irq ((p.interruptHandler irq).remove t) = q
  have hhere : q.interruptHandler irq = (p.interruptHandler irq).remove t := by
    rw [← hq]
    exact update_self ..
  have hothers : ∀ irq', irq' ≠ irq → q.interruptHandler irq' = p.interruptHandler irq' := by
    intro irq' hne
    rw [← hq]
    exact update_of_ne hne _ _
  have hmasked : ∀ irq', q.masked irq' = p.masked irq' := by
    rw [← hq]
    exact fun _ => rfl
  have hreferences : q.referenceCount = p.referenceCount := by rw [← hq]; rfl
  dsimp only
  rw [hhere]
  by_cases hempty : ((p.interruptHandler irq).remove t).items = []
  · rw [if_pos hempty]
    refine ⟨?_, fun irq' hne => ?_, fun irq' hirq' => ?_, ?_⟩
    · exact (congrFun interruptHandler_maskInterrupt irq).trans hhere
    · exact (congrFun interruptHandler_maskInterrupt irq').trans (hothers irq' hne)
    · refine (masked_maskInterrupt hirq hirq').trans ?_
      rw [hmasked]
      congr 2
      exact propext ⟨fun h => ⟨h, hempty⟩, fun h => h.1⟩
    · rw [addReferences, referenceCount_maskInterrupt, hreferences]
      rfl
  · rw [if_neg hempty]
    refine ⟨hhere, hothers, fun irq' hirq' => ?_, ?_⟩
    · rw [decide_eq_false fun h => hempty h.2, Bool.or_false, ← hmasked]
      rfl
    · rw [addReferences, hreferences]
      rfl

/-- **The calls**, of threads that exist: they are rejected, or register or unregister the thread. -/
theorem step_cases {call : InterruptCall} (h : p.step call = some p') :
    p' = p ∧ (∀ t irq, call = .unregister t irq → ¬ irq < interruptVectorPicCount) ∨
    (∃ t irq block, call = .register t irq block ∧ irq < interruptVectorPicCount ∧
      Registers t irq p p') ∨
    ∃ t irq, call = .unregister t irq ∧ irq < interruptVectorPicCount ∧ Unregisters t irq p p' := by
  cases call with
  | register t irq block =>
    rw [step] at h
    obtain ⟨-, h⟩ := Option.ite_none_right_eq_some.1 h
    by_cases hirq : irq < interruptVectorPicCount
    · exact .inr (.inl ⟨t, irq, block, rfl, hirq, registers_of_eq hirq h⟩)
    · rw [registerInterruptHandler, if_neg hirq] at h
      cases h
      exact .inl ⟨rfl, fun _ _ heq => nomatch heq⟩
  | unregister t irq =>
    rw [step] at h
    obtain ⟨-, h⟩ := Option.ite_none_right_eq_some.1 h
    by_cases hirq : irq < interruptVectorPicCount
    · exact .inr (.inr ⟨t, irq, rfl, hirq, unregisters_of_eq hirq (Option.some.inj h)⟩)
    · rw [unregisterInterruptHandler, if_neg hirq] at h
      cases h
      refine .inl ⟨rfl, fun _ _ heq => ?_⟩
      cases heq
      exact hirq

end Calls

/-! ### The books -/

def registrations (p : DeviceProxy) (t : ThreadId) : ℕ :=
  ∑ irq ∈ Finset.range interruptVectorPicCount, (p.interruptHandler irq).items.count t

/-- The line is unmasked exactly when it has a handler, and the clock always is. -/
def InStep (p : DeviceProxy) (irq : ℕ) : Prop :=
  p.masked irq = false ↔ irq = clockLine ∨ (p.interruptHandler irq).items ≠ []

/-- The books are right. The cascade line is in step only from the first registration on it on, as it is
unmasked at the start. -/
structure Bookkept (others : ThreadId → ℤ) (p : DeviceProxy) : Prop where
  lines : ∀ irq < interruptVectorPicCount, irq ≠ cascadeLine → p.InStep irq
  /-- Each thread has a reference for each of its registrations, over what others have given it. -/
  references : ∀ t, p.referenceCount t = others t + p.registrations t

/-- A thread only unregisters from a line it is registered on, and not as the last one on the line of
the clock. -/
def Ordered (p : DeviceProxy) : InterruptCall → Prop
  | .register _ _ _ => True
  | .unregister t irq => irq < interruptVectorPicCount →
    t ∈ (p.interruptHandler irq).items ∧
      (irq = clockLine → 2 ≤ (p.interruptHandler irq).items.length)

instance (p : DeviceProxy) (call : InterruptCall) : Decidable (p.Ordered call) := by
  unfold Ordered
  split <;> infer_instance

section Books

variable {others : ThreadId → ℤ} {p p' q : DeviceProxy} {t : ThreadId} {irq irq' : ℕ}
  {call : InterruptCall}

theorem Registers.registrations (h : Registers t irq p p') (hirq : irq < interruptVectorPicCount)
    (u : ThreadId) : p'.registrations u = p.registrations u + if t = u then 1 else 0 := by
  refine sum_range_add hirq ?_ fun irq' hne => by rw [h.others irq' hne]
  rw [h.handlers, List.count_append, List.count_singleton]
  simp only [beq_iff_eq]

theorem Unregisters.registrations (h : Unregisters t irq p p') (hirq : irq < interruptVectorPicCount)
    (ht : t ∈ (p.interruptHandler irq).items) (u : ThreadId) :
    p.registrations u = p'.registrations u + if t = u then 1 else 0 := by
  refine sum_range_add hirq ?_ fun irq' hne => by rw [h.others irq' hne]
  rw [h.handlers]
  exact HandlerList.count_remove ht u

theorem Unregisters.registrations_of_not_mem (h : Unregisters t irq p p')
    (ht : t ∉ (p.interruptHandler irq).items) (u : ThreadId) :
    p'.registrations u = p.registrations u := by
  refine Finset.sum_congr rfl fun irq' _ => ?_
  by_cases heq : irq' = irq
  · rw [heq, h.handlers, HandlerList.items_remove_of_not_mem ht]
  · rw [h.others irq' heq]

theorem InStep.registers (h : irq' ≠ irq → p.InStep irq') (hirq' : irq' < interruptVectorPicCount)
    (hp' : Registers t irq p p') : p'.InStep irq' := by
  rw [InStep, hp'.masked irq' hirq']
  by_cases heq : irq' = irq
  · subst heq
    rw [hp'.handlers]
    simp
  · rw [hp'.others irq' heq, decide_eq_true heq, Bool.and_true]
    exact h heq

/-- The end of a registration keeps all lines in step, if somebody is left on the line of the clock. -/
theorem InStep.unregisters (h : p.InStep irq') (hirq' : irq' < interruptVectorPicCount)
    (hp' : Unregisters t irq p p')
    (hclock : irq = clockLine → ((p.interruptHandler irq).remove t).items ≠ []) :
    p'.InStep irq' := by
  rw [InStep, hp'.masked irq' hirq', Bool.or_eq_false_iff, decide_eq_false_iff_not]
  by_cases heq : irq' = irq
  · subst heq
    rw [hp'.handlers]
    by_cases hempty : ((p.interruptHandler irq').remove t).items = []
    · refine iff_of_false (fun hmasked => hmasked.2 ⟨rfl, hempty⟩) ?_
      rintro (hline | hrest)
      · exact hclock hline hempty
      · exact hrest hempty
    · have hsome : (p.interruptHandler irq').items ≠ [] := fun hnone => hempty <| by
        rw [HandlerList.items_remove_of_not_mem (by simp [hnone]), hnone]
      exact iff_of_true ⟨h.2 (.inr hsome), fun hno => hempty hno.2⟩ (.inr hempty)
  · rw [hp'.others irq' heq]
    exact (and_iff_left fun hempty => heq hempty.1).trans h

/-- Every call keeps a line other than that of the clock in step. -/
theorem InStep.step (h : p.InStep irq') (hirq' : irq' < interruptVectorPicCount)
    (hne : irq' ≠ clockLine) (hp' : p.step call = some p') : p'.InStep irq' := by
  rcases step_cases hp' with ⟨rfl, -⟩ | ⟨t, irq, block, rfl, -, hregisters⟩ |
    ⟨t, irq, rfl, -, hunregisters⟩
  · exact h
  · exact .registers (fun _ => h) hirq' hregisters
  · by_cases heq : irq' = irq
    · exact h.unregisters hirq' hunregisters fun hclock => absurd (heq.trans hclock) hne
    · rw [InStep, hunregisters.masked irq' hirq', hunregisters.others irq' heq,
        decide_eq_false fun hempty => heq hempty.1, Bool.or_false]
      exact h

theorem inStep_cascadeLine {block : Option ℕ} (hp' : p.step (.register t cascadeLine block) = some p')
    (h : Run DeviceProxy.step Always p' q) : q.InStep cascadeLine := by
  refine h.invariant (I := fun q => q.InStep cascadeLine) ?_ fun hx _ hy =>
    hx.step (by decide) (by decide) hy
  obtain ⟨-, hp'⟩ := Option.ite_none_right_eq_some.1 hp'
  exact .registers (fun hne => absurd rfl hne) (by decide) (registers_of_eq (by decide) hp')

theorem Bookkept.registers (h : p.Bookkept others) (hirq : irq < interruptVectorPicCount)
    (hp' : Registers t irq p p') : p'.Bookkept others where
  lines irq' hirq' hne := .registers (fun _ => h.lines irq' hirq' hne) hirq' hp'
  references u := by
    rw [hp'.references, hp'.registrations hirq u]
    by_cases hu : u = t
    · subst hu
      rw [update_self, h.references, if_pos rfl]
      push_cast
      omega
    · rw [update_of_ne hu, h.references, if_neg fun heq => hu heq.symm, Nat.add_zero]

theorem Bookkept.unregisters_iff (h : p.Bookkept others) (hirq : irq < interruptVectorPicCount)
    (hp' : Unregisters t irq p p') :
    p'.Bookkept others ↔ t ∈ (p.interruptHandler irq).items ∧
      (irq = clockLine → 2 ≤ (p.interruptHandler irq).items.length) := by
  constructor
  · intro hbooks
    have ht : t ∈ (p.interruptHandler irq).items := by
      by_contra hno
      -- the reference is gone, and the registrations are as before
      have hreferences := hbooks.references t
      rw [hp'.references, update_self, hp'.registrations_of_not_mem hno, h.references]
        at hreferences
      omega
    refine ⟨ht, fun hclock => ?_⟩
    have hmasked := (hbooks.lines irq hirq (by rw [hclock]; decide)).2 (.inl hclock)
    rw [hp'.masked irq hirq, Bool.or_eq_false_iff] at hmasked
    have hrest : ((p.interruptHandler irq).remove t).items ≠ [] := fun hempty =>
      of_decide_eq_false hmasked.2 ⟨rfl, hempty⟩
    have hlength := HandlerList.length_remove ht
    have hpos := List.length_pos_of_ne_nil hrest
    omega
  · rintro ⟨ht, hclock⟩
    have hlength := HandlerList.length_remove ht
    refine ⟨fun irq' hirq' hne => (h.lines irq' hirq' hne).unregisters hirq' hp' ?_, fun u => ?_⟩
    · intro hline hempty
      have hlarge := hclock hline
      rw [hlength, hempty, List.length_nil] at hlarge
      omega
    · have hregistrations := hp'.registrations hirq ht u
      rw [hp'.references]
      by_cases hu : u = t
      · subst hu
        rw [if_pos rfl] at hregistrations
        rw [update_self, h.references, hregistrations]
        push_cast
        omega
      · rw [if_neg fun heq => hu heq.symm] at hregistrations
        rw [update_of_ne hu, h.references, hregistrations, Nat.add_zero]

theorem Bookkept.step_iff (h : p.Bookkept others) (hp' : p.step call = some p') : p'.Bookkept others ↔ p.Ordered call := by
  rcases step_cases hp' with ⟨rfl, hrejected⟩ | ⟨t, irq, block, rfl, hirq, hregisters⟩ |
    ⟨t, irq, rfl, hirq, hunregisters⟩
  · refine ⟨fun _ => ?_, fun _ => h⟩
    cases call with
    | register => trivial
    | unregister t irq => exact fun hirq => absurd hirq (hrejected t irq rfl)
  · exact ⟨fun _ => trivial, fun _ => h.registers hirq hregisters⟩
  · rw [h.unregisters_iff hirq hunregisters]
    exact ⟨fun hordered _ => hordered, fun hordered => hordered hirq⟩

theorem bookkept_initial (others : ThreadId → ℤ) : (initial others).Bookkept others where
  lines irq hirq hne := by
    have hbase : ∀ irq < 16, irq ≠ cascadeLine →
        (if irq < 8 then (0xFB#8).getLsbD irq else (0xFF#8).getLsbD (irq - 8)) = true := by decide
    have hmasked : (initial others).masked irq = decide (irq ≠ clockLine) := by
      have hall : masked ⟨fun _ => .new, 0xFB, 0xFF, others⟩ irq = true := hbase irq hirq hne
      rw [initial, masked_unmaskInterrupt (by decide) hirq, hall, Bool.true_and]
    have hnone : ((initial others).interruptHandler irq).items = [] := rfl
    rw [InStep, hmasked, hnone, decide_eq_false_iff_not, not_not]
    exact ⟨.inl, fun h => h.resolve_right fun hno => hno rfl⟩
  references t := by
    have hnone : (initial others).registrations t = 0 := Finset.sum_eq_zero fun irq _ => rfl
    rw [hnone]
    exact (add_zero _).symm

end Books

/-- **The books of the interrupt handlers.** After all calls that are in order, by any threads on any
lines, each line but the cascade line is unmasked exactly when it has a handler or is the clock, and
each thread has a reference for each of its registrations; and the next call keeps the books right
exactly if it is in order too. The same holds for the cascade line after the first registration on it,
whatever is called then. -/
theorem interrupt_bookkeeping (others : ThreadId → ℤ) (p : DeviceProxy)
    (h : Run step Ordered (initial others) p) :
    p.Bookkept others ∧
      (∀ call p', p.step call = some p' → (p'.Bookkept others ↔ p.Ordered call)) ∧
      ∀ t block p' q, p.step (.register t cascadeLine block) = some p' → Run step Always p' q →
        q.InStep cascadeLine := by
  have hbooks : p.Bookkept others :=
    h.invariant (bookkept_initial others) fun hx hcall hstep => (hx.step_iff hstep).2 hcall
  exact ⟨hbooks, fun call p' hp' => hbooks.step_iff hp', fun t block p' q => inStep_cascadeLine⟩

/-- A driver registers on a line and leaves it again. -/
theorem interrupt_bookkeeping_driver :
    ∃ p, Run step Ordered (initial fun _ => 1) p ∧ p.referenceCount 7 = 2 ∧ p.masked 5 = false ∧
      p.masked 9 = true ∧ p.Bookkept fun _ => 1 := by
  have heval : ∃ p ∈ runActions (restrict step Ordered) (initial fun _ => 1)
      [.register 7 5 (some 0), .register 7 9 (some 1), .unregister 7 9],
      p.referenceCount 7 = 2 ∧ p.masked 5 = false ∧ p.masked 9 = true := by
    decide +kernel
  obtain ⟨p, hp, hcount, hfive, hnine⟩ := heval
  have hrun := run_of_runActions_restrict _ hp
  exact ⟨p, hrun, hcount, hfive, hnine, (interrupt_bookkeeping _ p hrun).1⟩

/-- A thread unregisters from the line of the clock, on which nobody is registered: the clock is masked,
and the thread, which had one reference, is deleted. And the cascade line is unmasked without a
handler from the start. -/
theorem not_interrupt_bookkeeping :
    (∃ p ∈ (initial fun _ => 1).step (.unregister 7 clockLine),
      p.masked clockLine = true ∧ p.referenceCount 7 = 0 ∧ p.registrations 7 = 0) ∧
    ((initial fun _ => 1).masked cascadeLine = false ∧
      ((initial fun _ => 1).interruptHandler cascadeLine).items = []) := by
  decide +kernel

end DeviceProxy

end Dx.Kernel
