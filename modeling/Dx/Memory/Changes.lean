import Dx.Memory.Machine

/-!
# What the operations change

Every operation on an address space is a sequence of a few elementary changes: a page table is added,
a page is mapped, unmapped or marked as shared, or one of the tables and pools of the address space
changes. `Edit M C` is one such change, where `M` are the pages that may be mapped and `C` those that
may be looked up, shared or unmapped; `Touches a M C` says that the address space `a` changes in this
way and that no other one changes. There is one lemma for each operation, and what is shown of every
operation is shown of the elementary changes.
-/

namespace Dx.Memory

open Function Option

open Relation

/-! ### Elementary changes -/

/-- One change of an address space. -/
inductive Edit (M C : ℕ → Prop) (sp : AddressSpace) : AddressSpace → Prop
  /-- A page table is added, if the one for page `v` is missing. -/
  | expand {heap : ℕ → Bool} {v : ℕ} {d : PageDirectory} :
      C v → sp.directory.findEntryExpand heap v = some d → Edit M C sp { sp with directory := d }
  /-- Page `v` is mapped. -/
  | commit {heap : ℕ → Bool} {v frame : ℕ} {flags : MemoryFlags} {d : PageDirectory} :
      M v → sp.directory.commitPage heap v frame flags = .ok d →
        Edit M C sp { sp with directory := d }
  /-- Page `v` is unmapped. -/
  | clear {v : ℕ} : C v → Edit M C sp { sp with directory := sp.directory.clearPage v }
  /-- Page `v` is marked as shared. -/
  | share {v : ℕ} {e : PageTableEntry} :
      C v → sp.directory.lookup v = some e → e.superPage = false →
        Edit M C sp { sp with directory := sp.directory.sharePage v }
  /-- The table of shared pages changes. -/
  | sharedFrames {l : List (ℕ × ℕ)} : Edit M C sp { sp with sharedFrames := l }
  /-- A medium payload block is allocated or freed. -/
  | mediumPool {pool : MemoryPool} :
      (sp.mediumPool.Medium → pool.Medium) → Edit M C sp { sp with mediumPool := pool }

variable {M M' C C' : ℕ → Prop} {sp sp' : AddressSpace}

theorem Edit.mono (hM : ∀ v, M v → M' v) (hC : ∀ v, C v → C' v) (h : Edit M C sp sp') :
    Edit M' C' sp sp' := by
  cases h with
  | expand hv h => exact .expand (hC _ hv) h
  | commit hv h => exact .commit (hM _ hv) h
  | clear hv => exact .clear (hC _ hv)
  | share hv h hs => exact .share (hC _ hv) h hs
  | sharedFrames => exact .sharedFrames
  | mediumPool h => exact .mediumPool h

/-- The kernel's part of the directory changes only if a page of the kernel is unmapped, or committed
where nothing is mapped. -/
theorem Edit.kernelMapped (h : Edit M C sp sp') (hM : ∀ v, M v → payloadAreaBase ≤ v)
    (hC : ∀ v, C v → payloadAreaBase ≤ v) (hsp : sp.directory.KernelMapped) :
    sp'.directory.KernelMapped := by
  cases h with
  | expand hv h => exact hsp.findEntryExpand (hC _ hv) h
  | commit hv h => exact hsp.commitPage (hM _ hv) h
  | clear hv => exact hsp.set (hC _ hv)
  | share hv h hs => exact hsp.set (hC _ hv)
  | sharedFrames | mediumPool => exact hsp

theorem Edit.blank (h : Edit M C sp sp') (hsp : sp.directory.Blank) : sp'.directory.Blank := by
  cases h with
  | expand _ h => exact hsp.findEntryExpand h
  | commit _ h => exact hsp.commitPage h
  | clear => exact hsp.set fun _ => rfl
  | share => exact hsp.set fun hp => hsp _ hp
  | sharedFrames | mediumPool => exact hsp

theorem Edit.largePools (h : Edit M C sp sp') : sp'.largePools = sp.largePools := by
  cases h <;> rfl

theorem Edit.medium (h : Edit M C sp sp') (hsp : sp.mediumPool.Medium) : sp'.mediumPool.Medium := by
  cases h with
  | mediumPool h => exact h hsp
  | _ => exact hsp

/-- **The rule for edits.** What one edit keeps is kept by any number of them. -/
theorem edits_keep {P : AddressSpace → Prop} (h : ReflTransGen (Edit M C) sp sp')
    (hedit : ∀ {x y}, Edit M C x y → P x → P y) (hsp : P sp) : P sp' := by
  induction h with
  | refl => exact hsp
  | tail _ h ih => exact hedit h ih

namespace State

variable {a m n page address id frame : ℕ} {s s' s'' : State} {heap : Heap} {flags : MemoryFlags}
  {ids frames : List ℕ} {d : PageDirectory} {copyPage : ℕ} {success : Bool}

/-- Nothing but the address space `a` changes, of all that is not the business of frames and
messages. -/
structure Elsewhere (a : ℕ) (s s' : State) : Prop where
  space : ∀ b, b ≠ a → s'.space b = s.space b
  addressSpaces : s'.addressSpaces = s.addressSpaces
  threads : s'.threads = s.threads
  thread : s'.thread = s.thread

/-- The address spaces and the threads are as before. -/
structure SameSpaces (s s' : State) : Prop where
  space : s'.space = s.space
  addressSpaces : s'.addressSpaces = s.addressSpaces
  threads : s'.threads = s.threads
  thread : s'.thread = s.thread

/-- The address space `a` is edited, and nothing else. -/
structure Touches (a : ℕ) (M C : ℕ → Prop) (s s' : State) : Prop extends Elsewhere a s s' where
  edits : ReflTransGen (Edit M C) (s.space a) (s'.space a)

theorem SameSpaces.refl (s : State) : SameSpaces s s := ⟨rfl, rfl, rfl, rfl⟩

theorem SameSpaces.trans (h : SameSpaces s s') (h' : SameSpaces s' s'') : SameSpaces s s'' :=
  ⟨h'.space.trans h.space, h'.addressSpaces.trans h.addressSpaces, h'.threads.trans h.threads,
    h'.thread.trans h.thread⟩

theorem Elsewhere.trans (h : Elsewhere a s s') (h' : Elsewhere a s' s'') : Elsewhere a s s'' where
  space b hb := (h'.space b hb).trans (h.space b hb)
  addressSpaces := h'.addressSpaces.trans h.addressSpaces
  threads := h'.threads.trans h.threads
  thread := h'.thread.trans h.thread

theorem SameSpaces.elsewhere (h : SameSpaces s s') : Elsewhere a s s' :=
  ⟨fun b _ => congrFun h.space b, h.addressSpaces, h.threads, h.thread⟩

theorem SameSpaces.touches (h : SameSpaces s s') : Touches a M C s s' where
  toElsewhere := h.elsewhere
  edits := by rw [h.space]

namespace Touches

theorem refl (s : State) : Touches a M C s s := (SameSpaces.refl s).touches

theorem trans (h : Touches a M C s s') (h' : Touches a M C s' s'') : Touches a M C s s'' where
  toElsewhere := h.toElsewhere.trans h'.toElsewhere
  edits := h.edits.trans h'.edits

theorem mono (h : Touches a M C s s') (hM : ∀ v, M v → M' v) (hC : ∀ v, C v → C' v) :
    Touches a M' C' s s' where
  toElsewhere := h.toElsewhere
  edits := ReflTransGen.mono (fun _ _ => Edit.mono hM hC) _ _ h.edits

theorem then_same (h : Touches a M C s s') (h' : SameSpaces s' s'') : Touches a M C s s'' :=
  h.trans h'.touches

theorem largePools (h : Touches a M C s s') : (s'.space a).largePools = (s.space a).largePools :=
  edits_keep h.edits
    (fun h hsp => h.largePools.trans hsp) rfl

end Touches

theorem elsewhere_setSpace (a : ℕ) (sp : AddressSpace) (s : State) :
    Elsewhere a s (s.setSpace a sp) :=
  ⟨fun _ hb => update_of_ne hb _ _, rfl, rfl, rfl⟩

@[simp]
theorem space_setSpace (a : ℕ) (sp : AddressSpace) (s : State) : (s.setSpace a sp).space a = sp :=
  update_self ..

@[simp]
theorem space_setDirectory (a : ℕ) (d : PageDirectory) (s : State) :
    (s.setDirectory a d).space a = { s.space a with directory := d } :=
  update_self ..

def lookup (s : State) (a v : ℕ) : Option PageTableEntry := (s.space a).directory.lookup v

theorem lookup_setDirectory (a : ℕ) (d : PageDirectory) (s : State) (v : ℕ) :
    (s.setDirectory a d).lookup a v = d.lookup v := by
  rw [State.lookup, space_setDirectory]

theorem touches_setSpace (h : ReflTransGen (Edit M C) (s.space a) sp) :
    Touches a M C s (s.setSpace a sp) where
  toElsewhere := elsewhere_setSpace a sp s
  edits := by rwa [space_setSpace]

/-- The address space is edited, and what is not the business of address spaces changes too. -/
theorem SameSpaces.touches_setSpace (hsame : SameSpaces s s')
    (h : ReflTransGen (Edit M C) (s.space a) sp) : Touches a M C s (s'.setSpace a sp) :=
  hsame.touches.trans (State.touches_setSpace (by rwa [hsame.space]))

theorem touches_setDirectory (h : Edit M C (s.space a) { s.space a with directory := d }) :
    Touches a M C s (s.setDirectory a d) :=
  touches_setSpace (.single h)

/-! ### What does not change the address spaces -/

theorem sameSpaces_freeFrame (frame : ℕ) (s : State) : SameSpaces s (s.freeFrame frame) := by
  rw [freeFrame]
  split
  case isTrue => exact .refl s
  case isFalse => exact ⟨rfl, rfl, rfl, rfl⟩

theorem sameSpaces_freeFrames (frames : List ℕ) (s : State) : SameSpaces s (s.freeFrames frames) := by
  induction frames generalizing s with
  | nil => exact .refl s
  | cons frame frames ih => exact (sameSpaces_freeFrame frame s).trans (ih (s.freeFrame frame))

theorem sameSpaces_addReference (id : ℕ) (s : State) : SameSpaces s (s.addReference id) := by
  rw [addReference]
  split
  case h_1 => exact .refl s
  case h_2 => exact ⟨rfl, rfl, rfl, rfl⟩

theorem sameSpaces_removeReference (id : ℕ) (s : State) : SameSpaces s (s.removeReference id) := by
  rw [removeReference]
  split
  case h_1 => exact .refl s
  case h_2 d _ =>
    split
    case isTrue =>
      have hremoved : SameSpaces s { s with descriptor := update s.descriptor id none } :=
        ⟨rfl, rfl, rfl, rfl⟩
      exact hremoved.trans (sameSpaces_freeFrame d.address _)
    case isFalse => exact ⟨rfl, rfl, rfl, rfl⟩

theorem sameSpaces_removeReferences (ids : List ℕ) (s : State) :
    SameSpaces s (s.removeReferences ids) := by
  induction ids generalizing s with
  | nil => exact .refl s
  | cons id ids ih => exact (sameSpaces_removeReference id s).trans (ih (s.removeReference id))

theorem sameSpaces_removeMessage (m : ℕ) (s : State) : SameSpaces s (s.removeMessage m) := by
  have herased : SameSpaces s { s with messages := s.messages.erase m } := ⟨rfl, rfl, rfl, rfl⟩
  exact herased.trans (sameSpaces_removeReferences _ _)

/-! ### Ranges of pages -/

/-- The pages of a range, with the addresses that wrap around. -/
def InRange (page n v : ℕ) : Prop := ∃ i < n, v / pageSize = pageAfter page i / pageSize

theorem inRange_first (h : page < 2 ^ 32) : InRange page (n + 1) page :=
  ⟨0, Nat.succ_pos n, by rw [pageAfter_zero h]⟩

theorem inRange_rest {v : ℕ} (h : InRange ((page + pageSize) % 2 ^ 32) n v) :
    InRange page (n + 1) v := by
  obtain ⟨i, hi, hv⟩ := h
  exact ⟨i + 1, Nat.succ_lt_succ hi, by rw [hv, pageAfter_succ]⟩

theorem pageBase_div (v : ℕ) : pageBase v / pageSize = v / pageSize :=
  Nat.mul_div_cancel _ (by decide)

theorem inRange_pageBase (h : page < 2 ^ 32) : InRange page (n + 1) (pageBase page) :=
  ⟨0, Nat.succ_pos n, by rw [pageAfter_zero h, pageBase_div]⟩

theorem add_pageSize_mod_lt (page : ℕ) : (page + pageSize) % 2 ^ 32 < 2 ^ 32 :=
  Nat.mod_lt _ (by decide)

/-! ### Sharing -/

theorem touches_shareFrame
    (hC : ∀ e, (s.space a).directory.lookup (pageBase address) = some e → e.superPage = false →
      C (pageBase address)) :
    Touches a M C s (s.shareFrame a address heap).2 := by
  rw [shareFrame]
  dsimp only
  split
  case h_1 id _ => exact (sameSpaces_addReference id s).touches
  split
  case isTrue => exact .refl s
  case isFalse hs =>
    split
    case isTrue hp =>
      have hs := Bool.eq_false_of_not_eq_true hs
      have hlookup : (s.space a).directory.lookup (pageBase address) = some _ :=
        PageDirectory.lookup_eq_some.2 ⟨rfl, hp⟩
      have hC := hC _ hlookup hs
      have hshare : Edit M C (s.space a) { s.space a with
          directory := (s.space a).directory.sharePage (pageBase address) } :=
        .share hC hlookup hs
      split
      case isTrue =>
        exact SameSpaces.touches_setSpace ⟨rfl, rfl, rfl, rfl⟩
          ((ReflTransGen.single hshare).tail .sharedFrames)
      exact touches_setSpace ((ReflTransGen.single hshare).tail (.clear hC))
    case isFalse => exact .refl s

/-- The pages of a range that can be shared: if the kernel is mapped (`K`), those above it. -/
theorem touches_shareFrames {K : Prop} (heap : Heap) (hpage : page < 2 ^ 32)
    (hK : K → (s.space a).directory.KernelMapped)
    (hC : ∀ v, InRange page n v → (K → payloadAreaBase ≤ v) → C v) :
    Touches a (fun _ => False) C s (s.shareFrames a m heap n page).2 := by
  induction n generalizing s page with
  | zero => exact .refl s
  | succ n ih =>
    have hfirst : Touches a (fun _ => False)
        (fun v => InRange page (n + 1) v ∧ (K → payloadAreaBase ≤ v)) s
        (s.shareFrame a page heap).2 :=
      touches_shareFrame fun e he hs => ⟨inRange_pageBase hpage, fun k => (hK k).le_of_lookup he hs⟩
    have hkernel : K → ((s.shareFrame a page heap).2.space a).directory.KernelMapped := fun k =>
      edits_keep hfirst.edits
        (fun h => h.kernelMapped (fun _ hv => hv.elim) fun _ hv => hv.2 k) (hK k)
    have hfirst := hfirst.mono (fun _ h => h) fun v hv => hC v hv.1 hv.2
    unfold shareFrames
    split
    case h_1 s' heq =>
      rw [heq] at hfirst
      exact hfirst
    case h_2 id s' heq =>
      rw [heq] at hfirst hkernel
      have hadded : SameSpaces s' (s'.addFrame m id) := ⟨rfl, rfl, rfl, rfl⟩
      exact (hfirst.then_same hadded).trans
        (ih (add_pageSize_mod_lt page) hkernel fun v hv hbase => hC v (inRange_rest hv) hbase)

theorem touches_unshareFrame (hC : C (pageBase address)) :
    Touches a M C s (s.unshareFrame a address) := by
  rw [unshareFrame]
  split
  case h_1 id _ =>
    refine Touches.then_same (touches_setSpace ?_) (sameSpaces_removeReference id _)
    split
    case isTrue => exact .single .sharedFrames
    case isFalse => exact (ReflTransGen.single (.clear hC)).tail .sharedFrames
  split
  case isTrue =>
    exact (touches_setDirectory (.clear hC)).then_same (sameSpaces_freeFrame _ _)
  case isFalse => exact .refl s

theorem touches_unshareFrames (hpage : page < 2 ^ 32) (hC : ∀ v, InRange page n v → C v) :
    Touches a M C s (s.unshareFrames a n page) := by
  induction n generalizing s page with
  | zero => exact .refl s
  | succ n ih =>
    exact (touches_unshareFrame (hC _ (inRange_pageBase hpage))).trans
      (ih (add_pageSize_mod_lt page) fun v hv => hC v (inRange_rest hv))

/-! ### Committing -/

/-- The pages a loop of `commit_frame` can map: if the kernel is mapped (`K`), then the loop stops
when it wraps around to the kernel's first page. -/
def Committable (K : Prop) (page n v : ℕ) : Prop :=
  InRange page n v ∧ (K → payloadAreaBase ≤ v)

/-- Where such a loop is: at the kernel's first page, or above the kernel. -/
def Committing (K : Prop) (d : PageDirectory) (page : ℕ) : Prop :=
  page < 2 ^ 32 ∧ page % pageSize = 0 ∧
    (K → d.KernelMapped ∧ (page = 0 ∨ payloadAreaBase ≤ page))

theorem Committing.start (hpage : page < 2 ^ 32) (haligned : page % pageSize = 0)
    (hbase : payloadAreaBase ≤ page) : Committing d.KernelMapped d page :=
  ⟨hpage, haligned, fun h => ⟨h, .inr hbase⟩⟩

section

variable {K : Prop} {d d' : PageDirectory} {v : ℕ}

theorem Committing.first (h : Committing K d page)
    (hd : d.commitPage heap.table page frame flags = .ok d') : Committable K page (n + 1) page := by
  obtain ⟨hpage, -, hstart⟩ := h
  refine ⟨inRange_first hpage, fun hK => ?_⟩
  obtain ⟨hkernel, rfl | hbase⟩ := hstart hK
  · exact absurd hd hkernel.commitPage_zero
  · exact hbase

theorem Committing.next (h : Committing K d page)
    (hd : d.commitPage heap.table page frame flags = .ok d') :
    Committing K d' ((page + pageSize) % 2 ^ 32) := by
  obtain ⟨hpage, haligned, hstart⟩ := h
  have hsize : pageSize = 4096 := rfl
  rw [hsize] at haligned ⊢
  refine ⟨Nat.mod_lt _ (by decide), by rw [hsize]; omega, fun hK => ?_⟩
  obtain ⟨hkernel, rfl | hbase⟩ := hstart hK
  · exact absurd hd hkernel.commitPage_zero
  · refine ⟨hkernel.commitPage hbase hd, ?_⟩
    omega

theorem Committable.rest (h : Committable K ((page + pageSize) % 2 ^ 32) n v) :
    Committable K page (n + 1) v :=
  ⟨inRange_rest h.1, h.2⟩

theorem touches_commitFrames (h : Committing K (s.space a).directory page)
    (hM : ∀ v, Committable K page frames.length v → M v) :
    Touches a M C s (s.commitFrames a heap flags frames page).2 := by
  induction frames generalizing s page with
  | nil => exact .refl s
  | cons frame frames ih =>
    unfold commitFrames
    split
    case h_1 => exact .refl s
    case h_2 d hd =>
      have hnext := h.next hd
      refine (touches_setDirectory (.commit (hM _ (h.first hd)) hd)).trans
        (ih ?_ fun v hv => hM v hv.rest)
      rwa [space_setDirectory]

theorem touches_commitSharedFrames (h : Committing K (s.space a).directory page)
    (hM : ∀ v, Committable K page ids.length v → M v) :
    Touches a M C s (s.commitSharedFrames a heap flags ids page).2 := by
  induction ids generalizing s page with
  | nil => exact .refl s
  | cons id ids ih =>
    unfold commitSharedFrames
    split
    case h_1 => exact .refl s
    case h_2 d hd =>
      have hnext := h.next hd
      have hcommit : Edit M C (s.space a) { s.space a with directory := d } :=
        .commit (hM _ (h.first hd)) hd
      refine Touches.trans ((sameSpaces_addReference id s).touches_setSpace
        ((ReflTransGen.single hcommit).tail .sharedFrames)) (ih ?_ fun v hv => hM v hv.rest)
      rwa [space_setSpace]

end

theorem touches_decommitFrames (hpage : page < 2 ^ 32) (hC : ∀ v, InRange page n v → C v) :
    Touches a M C s (s.decommitFrames a n page).2 := by
  induction n generalizing s page with
  | zero => exact .refl s
  | succ n ih =>
    exact (touches_setDirectory (.clear (hC _ (inRange_first hpage)))).trans
      (ih (add_pageSize_mod_lt page) fun v hv => hC v (inRange_rest hv))

/-! ### Writing -/

theorem touches_copyOut {source target : ℕ}
    (hd : (s.space a).directory.findEntryExpand heap.table copyPage = some d) (hC : C copyPage) :
    Touches a M C s (s.copyOut a copyPage frame source target d) :=
  SameSpaces.touches_setSpace ⟨rfl, rfl, rfl, rfl⟩
    ((ReflTransGen.single (.expand hC hd)).tail (.clear hC))

theorem touches_rebind (hC : C (pageBase address)) (hM : M address) :
    Touches a M C s (s.rebind a address frame heap) := by
  rw [rebind]
  split
  case h_1 d hd =>
    exact (touches_unshareFrame hC).trans (touches_setDirectory (.commit hM hd))
  case h_2 => exact touches_unshareFrame hC

theorem touches_copyOnWrite {frame : Option ℕ}
    (h : s.copyOnWrite a copyPage address heap frame = some (success, s')) (hcopy : C copyPage)
    (hC : C (pageBase address)) (hM : M address) : Touches a M C s s' := by
  unfold copyOnWrite at h
  dsimp only at h
  split at h
  case isFalse =>
    cases h
    exact .refl s
  split at h
  case h_1 =>
    cases h
    exact .refl s
  case h_2 d hd =>
    cases h
    exact touches_setDirectory (.expand hcopy hd)
  case h_3 d frame hd =>
    obtain ⟨-, h⟩ := ite_none_right_eq_some.1 h
    split at h
    case isTrue => cases h
    cases h
    exact (touches_copyOut hd hcopy).trans (touches_rebind hC hM)

theorem touches_write {bytes : List UInt8} {frame : Option ℕ}
    (h : s.write a copyPage address bytes heap frame = some (success, s')) (hcopy : C copyPage)
    (hC : C (pageBase address)) (hM : M address) : Touches a M C s s' := by
  rw [write] at h
  split at h
  case isTrue =>
    obtain ⟨x, -, hx⟩ := map_eq_some_iff.1 h
    cases hx
    exact SameSpaces.touches ⟨rfl, rfl, rfl, rfl⟩
  split at h
  case h_1 s₁ hcow =>
    obtain ⟨x, -, hx⟩ := map_eq_some_iff.1 h
    cases hx
    exact (touches_copyOnWrite hcow hcopy hC hM).then_same ⟨rfl, rfl, rfl, rfl⟩
  case h_2 => exact touches_copyOnWrite h hcopy hC hM

/-! ### Payload blocks -/

theorem touches_allocateMediumPayloadBlock {frame block : Option ℕ}
    (h : s.allocateMediumPayloadBlock a heap frame = some (block, s'))
    (hC : ∀ v, (s.space a).mediumPool.allocateBlock.1 = some v → C v ∧ M v) :
    Touches a M C s s' ∧ (block = none ∨ block = (s.space a).mediumPool.allocateBlock.1) := by
  have hallocated : (s.space a).mediumPool.Medium → (s.space a).mediumPool.allocateBlock.2.Medium :=
    fun hm => hm.allocateBlock
  rw [allocateMediumPayloadBlock] at h
  split at h
  case h_1 pool heq =>
    cases h
    rw [heq] at hallocated
    exact ⟨touches_setSpace (.single (.mediumPool hallocated)), .inl rfl⟩
  case h_2 block pool heq =>
    rw [heq] at hallocated
    have hfreed : (s.space a).mediumPool.Medium → (pool.freeBlock block).2.Medium :=
      fun hm => (hallocated hm).freeBlock block
    obtain ⟨hCv, hMv⟩ := hC block (by rw [heq])
    split at h
    case h_1 =>
      cases h
      exact ⟨touches_setSpace (.single (.mediumPool hfreed)), .inl rfl⟩
    case h_2 d hd =>
      have hexpand : Edit M C (s.space a) { s.space a with directory := d } := .expand hCv hd
      split at h
      case isTrue =>
        cases h
        exact ⟨touches_setSpace ((ReflTransGen.single hexpand).tail (.mediumPool hallocated)),
          .inr (by rw [heq])⟩
      case isFalse hp =>
        split at h
        case h_1 =>
          cases h
          exact ⟨touches_setSpace ((ReflTransGen.single hexpand).tail (.mediumPool hfreed)), .inl rfl⟩
        case h_2 frame =>
          obtain ⟨-, h⟩ := ite_none_right_eq_some.1 h
          cases h
          have hcommit : (s.space a).directory.commitPage heap.table block frame memoryUserDefault =
              .ok (d.set (.ofFrame frame memoryUserDefault) (d.findEntry block)) := by
            rw [PageDirectory.commitPage, hd]
            exact if_neg hp
          have hedit : Edit M C (s.space a) { s.space a with
              directory := d.set (.ofFrame frame memoryUserDefault) (d.findEntry block) } :=
            .commit hMv hcommit
          exact ⟨SameSpaces.touches_setSpace ⟨rfl, rfl, rfl, rfl⟩
            ((ReflTransGen.single hedit).tail (.mediumPool hallocated)), .inr (by rw [heq])⟩

/-! ### System calls -/

section

variable {t size first data : ℕ} {K : Prop} {payload : ℕ} {receiver : Word}

theorem InRange.bounds {v : ℕ} (h : InRange page n v)
    (hbound : pageBase page + n * pageSize ≤ 2 ^ 32) :
    pageBase page ≤ v ∧ v < pageBase page + n * pageSize := by
  obtain ⟨i, hi, hv⟩ := h
  have hsize : pageSize = 4096 := rfl
  rw [pageBase, hsize] at hbound ⊢
  rw [pageAfter, hsize] at hv
  omega

theorem touches_addPages {frames : Option (List ℕ)} (hfirst : first < 2 ^ 32)
    (haligned : first % pageSize = 0) (h : s.addPages a first n frames heap = some s') :
    Touches a (InRange first n) (InRange first n) s s' := by
  unfold addPages at h
  split at h
  case h_1 =>
    cases h
    exact SameSpaces.touches ⟨rfl, rfl, rfl, rfl⟩
  case h_2 frames =>
    obtain ⟨hframes, h⟩ := ite_none_right_eq_some.1 h
    obtain ⟨rfl, -⟩ := hframes
    have hallocated : SameSpaces s (s.allocateFrames frames) := ⟨rfl, rfl, rfl, rfl⟩
    have hcommit : Touches a (InRange first frames.length) (InRange first frames.length)
        (s.allocateFrames frames)
        ((s.allocateFrames frames).commitFrames a heap memoryUserDefault frames first).2 :=
      touches_commitFrames ⟨hfirst, haligned, False.elim⟩ fun v hv => hv.1
    dsimp only at h
    split at h
    case isTrue =>
      cases h
      exact (hallocated.touches.trans hcommit).then_same ⟨rfl, rfl, rfl, rfl⟩
    cases h
    refine ((hallocated.touches.trans hcommit).trans
      (touches_decommitFrames hfirst fun v hv => hv)).then_same ?_
    exact (sameSpaces_freeFrames _ _).trans ⟨rfl, rfl, rfl, rfl⟩

/-- `expand` is refused, or it adds the pages of a range above the kernel that does not wrap
around. -/
theorem expand_cases {frames : Option (List ℕ)} (hfirst : first < 2 ^ 32)
    (h : s.expand t first size frames heap = some s') :
    SameSpaces s s' ∨
      (payloadAreaBase ≤ first ∧ first % pageSize = 0 ∧
        first + pageCount 0 size * pageSize ≤ 2 ^ 32 ∧
        Touches (s.thread t).addressSpace (InRange first (pageCount 0 size))
          (InRange first (pageCount 0 size)) s s') := by
  rw [expand] at h
  split at h
  case isTrue =>
    cases h
    exact .inl ⟨rfl, rfl, rfl, rfl⟩
  split at h
  case isTrue =>
    cases h
    exact .inl ⟨rfl, rfl, rfl, rfl⟩
  case isFalse hcount =>
    split at h
    case isTrue =>
      cases h
      exact .inl ⟨rfl, rfl, rfl, rfl⟩
    case isFalse hvalid =>
      split at h
      case isTrue =>
        cases h
        exact .inl ⟨rfl, rfl, rfl, rfl⟩
      have haligned : first % pageSize = 0 := by
        by_contra hne
        exact hvalid (.inl hne)
      have huser : payloadAreaBase ≤ first := by
        by_contra hne
        exact hvalid (.inr (.inl fun htrue => hne (of_decide_eq_true htrue)))
      have hlast : first ≤ (first + (pageCount 0 size - 1) * pageSize) % 2 ^ 32 := by
        by_contra hne
        exact hvalid (.inr (.inr (by omega)))
      refine .inr ⟨huser, haligned, ?_, touches_addPages hfirst haligned h⟩
      have hsize : pageSize = 4096 := rfl
      have hmax : expandAddressSpacePageCount = 96 := rfl
      rw [hsize] at haligned hlast ⊢
      omega

/-- The pages whose sharing a message can cause: if the kernel is mapped (`K`), none of its own. -/
def Sendable (K : Prop) (payload size v : ℕ) : Prop :=
  InRange payload (pageCount payload size) v ∧ (K → payloadAreaBase ≤ v)

theorem sameSpaces_finishCollecting (m : ℕ) (result : Status × State) :
    SameSpaces result.2 (finishCollecting m result) := by
  rw [finishCollecting]
  split
  case isTrue => exact ⟨rfl, rfl, rfl, rfl⟩
  case isFalse => exact (sameSpaces_removeMessage m result.2).trans ⟨rfl, rfl, rfl, rfl⟩

theorem touches_collectLargePayload (hpayload : payload < 2 ^ 32)
    (hK : K → (s.space (s.thread t).addressSpace).directory.KernelMapped) :
    Touches (s.thread t).addressSpace (fun _ => False) (Sendable K payload size) s
      (s.collectLargePayload t payload size receiver heap) := by
  unfold collectLargePayload
  generalize checkPayload (s.thread t).capabilities payload receiver = check
  cases check with
  | error status => exact SameSpaces.touches ⟨rfl, rfl, rfl, rfl⟩
  | ok target =>
    have hnew : SameSpaces s (s.newMessage (.large payload size target [])) := ⟨rfl, rfl, rfl, rfl⟩
    exact (hnew.touches.trans (touches_shareFrames heap hpayload hK
      fun v hv hbase => ⟨hv, hbase⟩)).then_same (sameSpaces_finishCollecting _ _)

/-- Sending a message shares the pages of its payload, all of them above the kernel. -/
theorem touches_sendMessage (hpayload : payload < 2 ^ 32)
    (hK : K → (s.space (s.thread t).addressSpace).directory.KernelMapped)
    (h : s.sendMessage t payload size receiver heap = some s') :
    Touches (s.thread t).addressSpace (fun _ => False) (Sendable K payload size) s s' := by
  rw [sendMessage] at h
  split at h
  case isTrue =>
    obtain rfl := Option.some.inj h
    exact touches_collectLargePayload hpayload hK
  split at h
  case isTrue =>
    obtain ⟨bytes, -, rfl⟩ := map_eq_some_iff.1 h
    exact SameSpaces.touches ⟨rfl, rfl, rfl, rfl⟩
  obtain rfl := Option.some.inj h
  exact SameSpaces.touches ⟨rfl, rfl, rfl, rfl⟩

/-- The large payload pools of `a` change, and nothing else of any address space. -/
structure Repools (a : ℕ) (pools : LargePools) (s s' : State) : Prop extends Elsewhere a s s' where
  here : s'.space a = { s.space a with largePools := pools }

theorem repools_setSpace (a : ℕ) (pools : LargePools) (s : State) :
    Repools a pools s (s.setSpace a { s.space a with largePools := pools }) where
  toElsewhere := elsewhere_setSpace a _ s
  here := space_setSpace a _ s

theorem Repools.then_same {pools : LargePools} (h : Repools a pools s s') (h' : SameSpaces s' s'') :
    Repools a pools s s'' where
  toElsewhere := h.toElsewhere.trans h'.elsewhere
  here := by rw [h'.space, h.here]

/-- The address space `a` is edited, its large payload pools are exchanged for others that are where they
should be, and nothing else changes. -/
structure Reworks (a : ℕ) (M C : ℕ → Prop) (s s' : State) : Prop extends Elsewhere a s s' where
  keeps : ∀ {P : AddressSpace → Prop}, (∀ {x y}, Edit M C x y → P x → P y) →
    (∀ {x pools}, pools.Ok → P x → P { x with largePools := pools }) → P (s.space a) → P (s'.space a)

theorem Touches.reworks (h : Touches a M C s s') : Reworks a M C s s' where
  toElsewhere := h.toElsewhere
  keeps hedit _ hP := edits_keep h.edits hedit hP

theorem SameSpaces.reworks (h : SameSpaces s s') : Reworks a M C s s' := h.touches.reworks

theorem Repools.reworks {pools : LargePools} (h : Repools a pools s s') (hok : pools.Ok) :
    Reworks a M C s s' where
  toElsewhere := h.toElsewhere
  keeps _ hpools hP := by
    rw [h.here]
    exact hpools hok hP

theorem Reworks.trans (h : Reworks a M C s s') (h' : Reworks a M C s' s'') : Reworks a M C s s'' where
  toElsewhere := h.toElsewhere.trans h'.toElsewhere
  keeps hedit hpools hP := h'.keeps hedit hpools (h.keeps hedit hpools hP)

/-- A medium message: a block is taken from the pool, mapped if it is the first on its page, and
written, which may copy the page. -/
theorem touches_deliverMediumPayload {bytes : List UInt8} {frame : Option ℕ}
    (h : s.deliverMediumPayload t bytes heap frame = some s') (hcopy : C (s.thread t).copyPage)
    (hC : ∀ v, (s.space (s.thread t).addressSpace).mediumPool.allocateBlock.1 = some v →
      C v ∧ C (pageBase v) ∧ M v) :
    Touches (s.thread t).addressSpace M C s s' := by
  unfold deliverMediumPayload at h
  dsimp only at h
  split at h
  case h_1 => cases h
  case h_2 s₁ hblock =>
    cases h
    exact (touches_allocateMediumPayloadBlock hblock fun v hv =>
      ⟨(hC v hv).1, (hC v hv).2.2⟩).1.then_same ⟨rfl, rfl, rfl, rfl⟩
  case h_3 block s₁ hblock =>
    obtain ⟨htouches, hsome⟩ := touches_allocateMediumPayloadBlock hblock fun v hv =>
      ⟨(hC v hv).1, (hC v hv).2.2⟩
    obtain ⟨-, hbase, hmap⟩ := hC block (hsome.resolve_left (fun h => nomatch h)).symm
    split at h
    case h_1 s₂ hwrite =>
      cases h
      refine (htouches.trans (touches_write hwrite ?_ hbase hmap)).then_same ⟨rfl, rfl, rfl, rfl⟩
      rw [htouches.thread]
      exact hcopy
    case h_2 => cases h

theorem touches_mapPayload (h : Committing K (s.space a).directory page)
    (hM : ∀ v, Committable K page ids.length v → M v) :
    Touches a M C s (s.mapPayload a page payload size ids heap) := by
  have hcommit : Touches a M C s (s.commitSharedFrames a heap memoryPayload ids page).2 :=
    touches_commitSharedFrames h hM
  unfold mapPayload
  dsimp only
  split
  case isTrue => exact hcommit.then_same ⟨rfl, rfl, rfl, rfl⟩
  case isFalse => exact hcommit.then_same ⟨rfl, rfl, rfl, rfl⟩

/-- A large message is mapped where the sender says, or in a block that is reserved for it. -/
theorem deliverLargePayload_cases (t sender size : ℕ) (receiver : Option UserAddress) (ids : List ℕ)
    (heap : Heap) (s : State) :
    let a := (s.thread t).addressSpace
    let s' := s.deliverLargePayload t sender size receiver ids heap
    (∃ target : UserAddress, receiver = some target ∧
      s' = s.mapPayload a (pageBase target) target size ids heap) ∨
    ∃ block pools, (s.space a).largePools.allocate ids.length = (block, pools) ∧
      ((block = none ∧ s' =
          (s.setSpace a { s.space a with largePools := pools }).finish .insufficientMemory) ∨
        ∃ page, block = some page ∧ s' =
          (s.setSpace a { s.space a with largePools := pools }).mapPayload a page
            (page + pageOffset sender) size ids heap) := by
  unfold deliverLargePayload
  cases receiver with
  | some target => exact .inl ⟨target, rfl, rfl⟩
  | none =>
    dsimp only
    cases (s.space (s.thread t).addressSpace).largePools.allocate ids.length with
    | mk block pools =>
      refine .inr ⟨block, pools, rfl, ?_⟩
      cases block with
      | none => exact .inl ⟨rfl, rfl⟩
      | some page => exact .inr ⟨page, rfl, rfl⟩

/-! ### Freeing payload blocks -/

/-- The pages that an operation on `size` bytes at `data` names. -/
abbrev Named (data size : ℕ) : ℕ → Prop := InRange data (pageCount data size)

-- These two functions take apart what `free_block` returns, which must not be computed: so they are
-- unfolded as functions, not at their arguments.

theorem freeLargePayloadBlock_def : freeLargePayloadBlock = fun a block s =>
    let (status, pools) := (s.space a).largePools.free block
    (status, s.setSpace a { s.space a with largePools := pools }) := by
  delta freeLargePayloadBlock
  exact Eq.refl _

theorem freeLargePayloadBlock_eq (a block : ℕ) (s : State) :
    ∃ status pools, (s.space a).largePools.free block = (status, pools) ∧
      s.freeLargePayloadBlock a block =
        (status, s.setSpace a { s.space a with largePools := pools }) := by
  rewrite [freeLargePayloadBlock_def]
  beta_reduce
  generalize (s.space a).largePools.free block = result
  obtain ⟨status, pools⟩ := result
  exact ⟨status, pools, rfl, rfl⟩

theorem destroyThread_def : destroyThread = fun t s =>
    let (_, s) := s.freeLargePayloadBlock (s.thread t).addressSpace (s.thread t).copyPage
    { s with threads := s.threads.erase t } := by
  delta destroyThread
  exact Eq.refl _

theorem destroyThread_eq (t : ℕ) (s : State) :
    ∃ status pools,
      (s.space (s.thread t).addressSpace).largePools.free (s.thread t).copyPage = (status, pools) ∧
      s.destroyThread t = { s.setSpace (s.thread t).addressSpace
        { s.space (s.thread t).addressSpace with largePools := pools } with
        threads := s.threads.erase t } := by
  obtain ⟨status, pools, hfree, heq⟩ :=
    freeLargePayloadBlock_eq (s.thread t).addressSpace (s.thread t).copyPage s
  refine ⟨status, pools, hfree, ?_⟩
  rewrite [destroyThread_def]
  beta_reduce
  rewrite [heq]
  rfl

theorem deleteMessage_small (h : ¬ 0 < size) : s.deleteMessage t data size = s.finish .success := by
  delta deleteMessage
  exact if_neg h

theorem deleteMessage_large (h : 0 < size) (hlarge : largePayloadPoolBase ≤ data)
    (ha : (s.thread t).addressSpace = a)
    (hs : s.unshareFrames a (pageCount data size) data = s') :
    ∃ status pools, (s'.space a).largePools.free data = (status, pools) ∧
      s.deleteMessage t data size =
        (s'.setSpace a { s'.space a with largePools := pools }).finish status := by
  obtain ⟨status, pools, hfree, heq⟩ := freeLargePayloadBlock_eq a data s'
  refine ⟨status, pools, hfree, ?_⟩
  delta deleteMessage
  rewrite [if_pos h, if_pos hlarge, ha, hs, heq]
  rfl

theorem deleteMessage_medium (h : 0 < size) (hmedium : ¬ largePayloadPoolBase ≤ data)
    (ha : (s.thread t).addressSpace = a) :
    ∃ status pool, (s.space a).mediumPool.freeBlock data = (status, pool) ∧
      s.deleteMessage t data size =
        (s.setSpace a { s.space a with mediumPool := pool }).finish status := by
  delta deleteMessage
  rewrite [if_pos h, if_neg hmedium, ha]
  generalize (s.space a).mediumPool.freeBlock data = result
  obtain ⟨status, pool⟩ := result
  exact ⟨status, pool, rfl, rfl⟩

/-- The checks of `unmap_memory`. -/
structure Unmaps (t mappedAddress : ℕ) (s : State) : Prop where
  capability : .unmapDevice ∈ (s.thread t).capabilities
  /-- The address is that of a page, -/
  aligned : mappedAddress % pageSize = 0
  /-- above the kernel. -/
  user : payloadAreaBase ≤ mappedAddress

theorem unmapDevice_eq (size : ℕ) (ha : (s.thread t).addressSpace = a)
    (hs : (s.decommitFrames a (pageCount data size) data).2 = s') :
    (∃ status, s.unmapDevice t data size = s.finish status) ∨
      s.Unmaps t data ∧ ∃ status pools, (s'.space a).largePools.free data = (status, pools) ∧
        s.unmapDevice t data size =
          (s'.setSpace a { s'.space a with largePools := pools }).finish .success := by
  delta unmapDevice
  split
  case isTrue => exact .inl ⟨.accessDenied, rfl⟩
  case isFalse hcapability =>
    by_cases hvalid : data = 0 ∨ data % pageSize ≠ 0 ∨ ¬ isUserAddress data ∨ pageCount data size = 0
    · rewrite [if_pos hvalid]
      exact .inl ⟨.invalidData, rfl⟩
    · rewrite [if_neg hvalid, ha, hs]
      obtain ⟨status, pools, hfree, heq⟩ := freeLargePayloadBlock_eq a data s'
      refine .inr ⟨⟨Decidable.not_not.1 hcapability, ?_, ?_⟩, status, pools, hfree, ?_⟩
      · by_contra hne
        exact hvalid (.inr (.inl hne))
      · by_contra hne
        exact hvalid (.inr (.inr (.inl fun htrue => hne (of_decide_eq_true htrue))))
      · rewrite [heq]
        rfl

theorem repools_finish (a : ℕ) (pools : LargePools) (s : State) (status : Status) :
    Repools a pools s ((s.setSpace a { s.space a with largePools := pools }).finish status) :=
  (repools_setSpace a pools s).then_same ⟨rfl, rfl, rfl, rfl⟩

/-- Deleting a message does nothing; or it unmaps the pages that it names and frees the large payload
block they begin in; or it frees a medium payload block. -/
theorem deleteMessage_cases (hdata : data < 2 ^ 32) (ha : (s.thread t).addressSpace = a)
    (h : s.deleteMessage t data size = s') :
    (0 < size ∧ largePayloadPoolBase ≤ data ∧ ∃ s₁ status pools,
      Touches a (fun _ => False) (Named data size) s s₁ ∧
      (s.space a).largePools.free data = (status, pools) ∧ Repools a pools s₁ s') ∨
    Touches a (fun _ => False) (fun _ => False) s s' := by
  subst h
  by_cases hsize : 0 < size
  · by_cases hlarge : largePayloadPoolBase ≤ data
    · have htouches : Touches a (fun _ => False) (Named data size) s
          (s.unshareFrames a (pageCount data size) data) :=
        touches_unshareFrames hdata fun _ hv => hv
      obtain ⟨status, pools, hfree, heq⟩ := deleteMessage_large hsize hlarge ha rfl
      rewrite [htouches.largePools] at hfree
      rewrite [heq]
      exact .inl ⟨hsize, hlarge, _, status, pools, htouches, hfree, repools_finish a pools _ status⟩
    · obtain ⟨status, pool, hfree, heq⟩ := deleteMessage_medium hsize hlarge ha
      have hmedium : (s.space a).mediumPool.Medium → pool.Medium := fun hm => by
        have hfreed := hm.freeBlock data
        rewrite [hfree] at hfreed
        exact hfreed
      rewrite [heq]
      exact .inr ((touches_setSpace (.single (.mediumPool hmedium))).then_same ⟨rfl, rfl, rfl, rfl⟩)
  · rewrite [deleteMessage_small hsize]
    exact .inr (SameSpaces.touches ⟨rfl, rfl, rfl, rfl⟩)

/-- Unmapping a device is refused, or unmaps the pages that it names and frees the block they begin
in. -/
theorem unmapDevice_cases (hdata : data < 2 ^ 32) (ha : (s.thread t).addressSpace = a)
    (h : s.unmapDevice t data size = s') :
    SameSpaces s s' ∨ (s.Unmaps t data ∧ ∃ s₁ status pools,
      Touches a (fun _ => False) (Named data size) s s₁ ∧
      (s.space a).largePools.free data = (status, pools) ∧ Repools a pools s₁ s') := by
  subst h
  have htouches : Touches a (fun _ => False) (Named data size) s
      (s.decommitFrames a (pageCount data size) data).2 :=
    touches_decommitFrames hdata fun _ hv => hv
  rcases unmapDevice_eq size ha rfl with ⟨status, heq⟩ | ⟨hunmaps, status, pools, hfree, heq⟩
  · rewrite [heq]
    exact .inl ⟨rfl, rfl, rfl, rfl⟩
  · rewrite [htouches.largePools] at hfree
    rewrite [heq]
    exact .inr ⟨hunmaps, _, status, pools, htouches, hfree, repools_finish a pools _ .success⟩

theorem touches_userWrite {byte : UInt8} {frame : Option ℕ}
    (h : s.userWrite t address byte frame heap = some s')
    (hcopy : C (s.thread t).copyPage) (hC : C (pageBase address)) (hM : M address) :
    Touches (s.thread t).addressSpace M C s s' := by
  unfold userWrite at h
  obtain ⟨-, h⟩ := ite_none_right_eq_some.1 h
  obtain ⟨⟨success, s₁⟩, hwrite, rfl⟩ := map_eq_some_iff.1 h
  exact touches_write hwrite hcopy hC hM

/-- The destructor of an address space changes no other one. -/
theorem elsewhere_releaseFrames (n page : ℕ) (s : State) :
    Elsewhere a s (s.releaseFrames a n page) ∧
      ∃ d, (s.releaseFrames a n page).space a = { s.space a with directory := d } := by
  induction n generalizing s page with
  | zero => exact ⟨(SameSpaces.refl s).elsewhere, (s.space a).directory, rfl⟩
  | succ n ih =>
    rw [releaseFrames]
    generalize (s.space a).directory.findPresentEntry page = result
    dsimp only
    split
    case isTrue =>
      generalize (s.space a).directory.set .clear result.1 = d
      generalize ((s.space a).directory.get result.1).frame = frame
      have hfree := sameSpaces_freeFrame frame (s.setDirectory a d)
      obtain ⟨helse, d', hd'⟩ := ih result.2 ((s.setDirectory a d).freeFrame frame)
      refine ⟨((elsewhere_setSpace a _ s).trans hfree.elsewhere).trans helse, d', ?_⟩
      rw [hd', hfree.space, space_setDirectory]
    case isFalse => exact ⟨(SameSpaces.refl s).elsewhere, (s.space a).directory, rfl⟩

/-- The destructor of an address space, for all others. -/
theorem destroyAddressSpace_eq (a : ℕ) (s : State) :
    ∃ s' d, Elsewhere a s s' ∧ s'.space a = { s.space a with sharedFrames := [], directory := d } ∧
      s.destroyAddressSpace a = { s' with addressSpaces := s'.addressSpaces.erase a } := by
  unfold destroyAddressSpace
  dsimp only
  generalize (s.space a).sharedFrames.map (·.2) = ids
  generalize hs₁ : (s.setSpace a { s.space a with sharedFrames := [] }).removeReferences ids = s₁
  have hsame := sameSpaces_removeReferences ids (s.setSpace a { s.space a with sharedFrames := [] })
  rw [hs₁] at hsame
  have hhere : s₁.space a = { s.space a with sharedFrames := [] } := by
    rw [hsame.space, space_setSpace]
  obtain ⟨helse, d, hd⟩ := elsewhere_releaseFrames (2 ^ 20 + 2 ^ 10) userBase s₁
  generalize s₁.releaseFrames a (2 ^ 20 + 2 ^ 10) userBase = s₂ at helse hd
  rw [hhere] at hd
  exact ⟨s₂, d, ((elsewhere_setSpace a _ s).trans hsame.elsewhere).trans helse, hd, rfl⟩

/-- A new thread has a payload block for its copy page, or there is none. -/
theorem createThread_eq (t a : ℕ) (capabilities : List Capability) (s : State) :
    ∃ block pools, (s.space a).largePools.allocate 1 = (block, pools) ∧
      ((block = none ∧ s.createThread t a capabilities =
          (s.setSpace a { s.space a with largePools := pools }).finish .insufficientMemory) ∨
        ∃ copyPage, block = some copyPage ∧ s.createThread t a capabilities =
          { s.setSpace a { s.space a with largePools := pools } with
            threads := t :: s.threads
            thread := update s.thread t ⟨a, copyPage, capabilities⟩ }.finish .success) := by
  unfold createThread
  generalize (s.space a).largePools.allocate 1 = result
  obtain ⟨block, pools⟩ := result
  refine ⟨block, pools, rfl, ?_⟩
  cases block with
  | none => exact .inl ⟨rfl, rfl⟩
  | some copyPage => exact .inr ⟨copyPage, rfl, rfl⟩

end

end State

end Dx.Memory
