import Dx.Memory.Expansion
import Dx.Memory.Formed

/-!
# Delivering a large payload

`deliver_payload` of a large message reserves a block for the payload, unless the sender has said
where it goes, and maps one page after the other, each with a reference to its frame. When a page
cannot be mapped the message is deleted, and that is all: the block stays reserved, and the pages
before it stay mapped, with their references.

So a delivery that fails leaves the receiver as it was exactly when it fails before it has done
anything (`Refused`).
-/

namespace Dx.Memory

open PageDirectory Library

namespace State

variable {a t m page size sender : ℕ} {heap : Heap} {flags : MemoryFlags} {s s' : State}
  {ids : List ℕ} {receiver : Option UserAddress}

theorem commitSharedFrames_keeps (ids : List ℕ) (page : ℕ) (s : State) :
    let s' := (s.commitSharedFrames a heap flags ids page).2
    (s'.space a).largePools = (s.space a).largePools ∧
      ∀ v e, s.lookup a v = some e → s'.lookup a v = some e := by
  induction ids generalizing page s with
  | nil => exact ⟨rfl, fun _ _ h => h⟩
  | cons id ids ih =>
    rw [commitSharedFrames]
    cases hd : (s.space a).directory.commitPage heap.table page
        (((s.descriptor id).map SharedFrame.address).getD 0) flags with
    | error status => exact ⟨rfl, fun _ _ h => h⟩
    | ok d =>
      obtain ⟨habsent, hlookup⟩ := lookup_commitPage hd
      dsimp only
      generalize hnext : (s.addReference id).setSpace a { s.space a with
          directory := d
          sharedFrames := (s.space a).addShared heap page id } = s₁
      have hspace : s₁.space a = { s.space a with
          directory := d
          sharedFrames := (s.space a).addShared heap page id } := by
        rw [← hnext, space_setSpace]
      obtain ⟨hpools, hkeeps⟩ := ih ((page + pageSize) % 2 ^ 32) s₁
      refine ⟨by rw [hpools, hspace], fun v e he => hkeeps v e ?_⟩
      have hne : v / pageSize ≠ page / pageSize := fun heq => by
        have hnone : s.lookup a v = none := (lookup_congr heq).trans habsent
        rw [hnone] at he
        cases he
      rw [State.lookup, hspace]
      exact (hlookup v).trans ((if_neg hne).trans he)

/-- Nothing of a delivery is left but the references that the deletion of the message drops. -/
structure Undelivered (m : ℕ) (s s' : State) : Prop where
  lookup : ∀ b v, s'.lookup b v = s.lookup b v
  /-- So are the tables of shared pages, -/
  sharedFrames : ∀ b, (s'.space b).sharedFrames = (s.space b).sharedFrames
  /-- and the payload blocks. -/
  blocks : ∀ b v, (s'.space b).largePools.Allocated v ↔ (s.space b).largePools.Allocated v
  /-- The reference counts are those without the message. -/
  descriptor : s'.descriptor = (s.removeMessage m).descriptor
  free : s'.free = (s.removeMessage m).free

/-- The delivery fails before it does anything: there is no block for the payload, or the first page
cannot be mapped where the sender wants it. -/
def Refused (t : ℕ) (receiver : Option UserAddress) (frames : List ℕ) (heap : Heap) (s : State) :
    Prop :=
  match receiver with
  | none => ((s.space (s.thread t).addressSpace).largePools.allocate frames.length).1 = none
  | some target => ∃ id ∈ frames.head?, ∃ status,
      (s.space (s.thread t).addressSpace).directory.commitPage heap.table (pageBase target)
        (((s.descriptor id).map SharedFrame.address).getD 0) memoryPayload = .error status

/-! ### What deleting the message leaves alone -/

theorem removeReference_finish (id : ℕ) (status : Status) (s : State) :
    (s.finish status).removeReference id = (s.removeReference id).finish status := by
  have hsame : (s.finish status).descriptor id = s.descriptor id := rfl
  rw [removeReference, removeReference, hsame]
  cases s.descriptor id with
  | none => rfl
  | some d =>
    dsimp only
    split
    case isTrue =>
      unfold freeFrame
      split <;> rfl
    case isFalse => rfl

theorem removeReferences_finish (ids : List ℕ) (status : Status) (s : State) :
    (s.finish status).removeReferences ids = (s.removeReferences ids).finish status := by
  induction ids generalizing s with
  | nil => rfl
  | cons id ids ih =>
    unfold removeReferences at ih ⊢
    rw [List.foldl_cons, List.foldl_cons, removeReference_finish, ih]

theorem removeMessage_finish (m : ℕ) (status : Status) (s : State) :
    (s.finish status).removeMessage m = (s.removeMessage m).finish status :=
  removeReferences_finish (s.message m).frames status { s with messages := s.messages.erase m }

theorem result_removeReference (id : ℕ) (s : State) : (s.removeReference id).result = s.result := by
  unfold removeReference
  cases s.descriptor id with
  | none => rfl
  | some d =>
    dsimp only
    split
    case isTrue =>
      unfold freeFrame
      split <;> rfl
    case isFalse => rfl

theorem result_removeMessage (m : ℕ) (s : State) : (s.removeMessage m).result = s.result := by
  have hids : ∀ (ids : List ℕ) (s : State), (s.removeReferences ids).result = s.result := by
    intro ids
    induction ids with
    | nil => exact fun _ => rfl
    | cons id ids ih => exact fun s => (ih _).trans (result_removeReference id s)
  exact hids _ _

/-- The message is deleted and an error returned: nothing is left of the delivery. -/
theorem undelivered_finish (m : ℕ) (status : Status) (s : State) :
    s.Undelivered m ((s.finish status).removeMessage m) := by
  have hsame := (sameSpaces_removeMessage m s).space
  rw [removeMessage_finish]
  have hspace : ∀ b, ((s.removeMessage m).finish status).space b = s.space b := fun b =>
    congrFun hsame b
  refine ⟨fun b v => ?_, fun b => ?_, fun b v => ?_, rfl, rfl⟩
  · rw [State.lookup, hspace]
    rfl
  · rw [hspace]
  · rw [hspace]

/-! ### The delivery -/

theorem undelivered_of_refused (hpools : (s.space (s.thread t).addressSpace).largePools.Ok)
    (hfail : ((s.deliverLargePayload t sender size receiver ids heap).removeMessage m).result.status ≠
      .success)
    (h : s.Refused t receiver ids heap) :
    s.Undelivered m ((s.deliverLargePayload t sender size receiver ids heap).removeMessage m) := by
  rw [result_removeMessage] at hfail
  unfold deliverLargePayload at hfail ⊢
  cases receiver with
  | none =>
    have hnone : (s.space (s.thread t).addressSpace).largePools.allocate ids.length =
        (none, (s.space (s.thread t).addressSpace).largePools) := by
      have hspec := hpools.allocate_some ids.length
      have h : ((s.space (s.thread t).addressSpace).largePools.allocate ids.length).1 = none := h
      generalize (s.space (s.thread t).addressSpace).largePools.allocate ids.length = result at hspec h
      cases hspec with
      | none => rfl
      | some => cases h
    have hset : s.setSpace (s.thread t).addressSpace { s.space (s.thread t).addressSpace with
        largePools := (s.space (s.thread t).addressSpace).largePools } = s := by
      rw [setSpace, Function.update_eq_self]
    dsimp only
    rw [hnone]
    rw [hset]
    exact undelivered_finish m _ s
  | some target =>
    obtain ⟨id, hid, status, hstatus⟩ := h
    cases ids with
    | nil => cases hid
    | cons id' ids =>
      obtain rfl : id' = id := Option.some.inj hid
      have hcommit : s.commitSharedFrames (s.thread t).addressSpace heap memoryPayload (id' :: ids)
          (pageBase target) = (status, s) := by
        rw [commitSharedFrames, hstatus]
      dsimp only at hfail ⊢
      unfold mapPayload at hfail ⊢
      rw [hcommit] at hfail ⊢
      dsimp only at hfail ⊢
      split at hfail
      case isTrue => exact absurd rfl hfail
      case isFalse hne =>
        rw [if_neg hne]
        exact undelivered_finish m status s

/-- A page has been mapped, and nothing unmaps it. -/
theorem not_undelivered_of_mapped {target : ℕ} {payload : ℕ} {id : ℕ} {d : PageDirectory}
    (hd : (s.space a).directory.commitPage heap.table target
      (((s.descriptor id).map SharedFrame.address).getD 0) memoryPayload = .ok d) :
    ¬ s.Undelivered m ((s.mapPayload a target payload size (id :: ids) heap).removeMessage m) := by
  intro h
  obtain ⟨habsent, hlookup⟩ := lookup_commitPage hd
  have hsame := (sameSpaces_removeMessage m
    (s.mapPayload a target payload size (id :: ids) heap)).space
  have hafter : ((s.mapPayload a target payload size (id :: ids) heap).removeMessage m).lookup a target =
      (s.commitSharedFrames a heap memoryPayload (id :: ids) target).2.lookup a target := by
    rw [State.lookup, hsame, mapPayload]
    split <;> rfl
  have hmapped : (s.commitSharedFrames a heap memoryPayload (id :: ids) target).2.lookup a target =
      some (.ofFrame (((s.descriptor id).map SharedFrame.address).getD 0) memoryPayload) := by
    rw [commitSharedFrames, hd]
    refine (commitSharedFrames_keeps ids _ _).2 target _ ?_
    rw [State.lookup, space_setSpace]
    exact (hlookup target).trans (if_pos rfl)
  have hbefore := h.lookup a target
  rw [hafter, hmapped] at hbefore
  exact absurd (hbefore.trans habsent) (Option.some_ne_none _)

/-- A block has been reserved, and nothing frees it. -/
theorem not_undelivered_of_reserved {block payload : ℕ} {pools : LargePools}
    (hpools : (s.space a).largePools.Ok)
    (hblock : (s.space a).largePools.allocate ids.length = (some block, pools)) :
    ¬ s.Undelivered m (((s.setSpace a { s.space a with largePools := pools }).mapPayload a block
      payload size ids heap).removeMessage m) := by
  intro h
  have hspec := hpools.allocate_some ids.length
  rw [hblock] at hspec
  cases hspec with
  | @some _ pages _ hok haligned hsize hfree hafter =>
    have hin : block < block + pages * pageSize := by
      rw [pageSize_eq]
      omega
    obtain ⟨harea, hnot⟩ := hfree block (Nat.le_refl block) hin
    have hreserved := (hafter block harea).2 (.inl ⟨Nat.le_refl block, hin⟩)
    generalize hs₁ : s.setSpace a { s.space a with largePools := pools } = s₁ at h
    have hspace : (s₁.space a).largePools = pools := by rw [← hs₁, space_setSpace]
    have hlast : (((s₁.mapPayload a block payload size ids heap).removeMessage m).space a).largePools =
        pools := by
      have hsame := (sameSpaces_removeMessage m (s₁.mapPayload a block payload size ids heap)).space
      have hkeeps : ((s₁.commitSharedFrames a heap memoryPayload ids block).2.space a).largePools = _ :=
        (commitSharedFrames_keeps ids block s₁).1
      rw [hsame, mapPayload]
      split
      · exact hkeeps.trans hspace
      · exact hkeeps.trans hspace
    have hblocks := h.blocks a block
    rw [hlast] at hblocks
    exact hnot (hblocks.1 hreserved)

/-- **A delivery that fails** leaves the receiver as it was, but for the references of the deleted
message, if and only if it is refused before anything is reserved or mapped. -/
theorem failed_delivery_undone_iff (boot : Boot) (t m sender size : ℕ)
    (receiver : Option UserAddress) (ids : List ℕ) (frame : Option ℕ) (heap : Heap) (s s' : State)
    (hrun : Run step Always boot.initial s) (hmessage : s.message m = .large sender size receiver ids)
    (h : s.receiveMessage t m frame heap = some s') (hfail : s'.result.status ≠ .success) :
    s.Undelivered m s' ↔ s.Refused t receiver ids heap := by
  have hpools := (formed_of_run hrun).largePools (s.thread t).addressSpace
  rw [receiveMessage, hmessage] at h
  cases h
  refine ⟨fun hundone => ?_, undelivered_of_refused hpools hfail⟩
  rw [result_removeMessage] at hfail
  unfold deliverLargePayload at hfail hundone
  cases receiver with
  | none =>
    cases hblock : (s.space (s.thread t).addressSpace).largePools.allocate ids.length with
    | mk block pools =>
      cases block with
      | none =>
        rw [Refused, hblock]
      | some block =>
        dsimp only at hfail hundone
        rw [hblock] at hfail hundone
        exact absurd hundone (not_undelivered_of_reserved hpools hblock)
  | some target =>
    cases ids with
    | nil => exact absurd rfl hfail
    | cons id ids =>
      cases hd : (s.space (s.thread t).addressSpace).directory.commitPage heap.table
          (pageBase target) (((s.descriptor id).map SharedFrame.address).getD 0) memoryPayload with
      | error status => exact ⟨id, rfl, status, hd⟩
      | ok d => exact absurd hundone (not_undelivered_of_mapped hd)

/-- Thread 1 sends the two pages at 0x40000000 to thread 2 in another address space, which has a page
at 0x50001000. -/
def sending (target : Word) : List Action :=
  [.createAddressSpace 1, .createThread 1 0 [.expandAddressSpace, .explicitTargetAddress],
    .createThread 2 1 [.expandAddressSpace],
    .expand 1 0x40000000 0x2000 (some [0xC00000, 0xC01000]) Heap.plenty,
    .expand 2 0x50001000 0x1000 (some [0xC02000]) Heap.plenty,
    .sendMessage 1 0x40000000 0x2000 target Heap.plenty]

/-- The two pages cannot go to 0x50001000, because the first of them is taken. -/
theorem failed_delivery_undone_taken : ∃ s s', Run step Always Boot.small.initial s ∧
    s.receiveMessage 2 0 none Heap.plenty = some s' ∧ s'.result.status = .resourceConflict ∧
    s.Undelivered 0 s' := by
  have heval : ∃ s ∈ runActions step Boot.small.initial (sending 0x50001000),
      s.message 0 = .large 0x40000000 0x2000 (some ⟨0x50001000, by decide⟩) [0, 1] ∧
      ((s.space (s.thread 2).addressSpace).directory.commitPage Heap.plenty.table
        (pageBase 0x50001000) (((s.descriptor 0).map SharedFrame.address).getD 0)
        memoryPayload).toBool = false ∧
      ∃ s' ∈ s.receiveMessage 2 0 none Heap.plenty, s'.result.status = .resourceConflict := by
    decide +kernel
  obtain ⟨s, hs, hmessage, hcommit, s', hs', hstatus⟩ := heval
  have hrun := run_of_runActions _ hs
  refine ⟨s, s', hrun, hs', hstatus, ?_⟩
  refine (failed_delivery_undone_iff Boot.small 2 0 0x40000000 0x2000 _ _ none Heap.plenty s s' hrun
    hmessage hs' (by rw [hstatus]; decide)).2 ⟨0, rfl, ?_⟩
  cases hd : (s.space (s.thread 2).addressSpace).directory.commitPage Heap.plenty.table
      (pageBase 0x50001000) (((s.descriptor 0).map SharedFrame.address).getD 0) memoryPayload with
  | error status => exact ⟨status, rfl⟩
  | ok d =>
    rw [hd] at hcommit
    cases hcommit

/-- They cannot go to 0x50000000 either, because the second of them is taken; and the first one is
mapped now, with a reference that is never dropped. And when there is no memory for a page table, the
block that was reserved for them is lost. -/
theorem not_failed_delivery_undone :
    (∃ s ∈ runActions step Boot.small.initial (sending 0x50000000),
      ∃ s' ∈ s.receiveMessage 2 0 none Heap.plenty,
        s'.result.status = .resourceConflict ∧ s.translate 1 0x50000000 = none ∧
        s'.translate 1 0x50000000 = some 0xC00000 ∧
        (s.removeMessage 0).descriptor 0 = some ⟨0xC00000, 1⟩ ∧
        s'.descriptor 0 = some ⟨0xC00000, 2⟩) ∧
    ∃ s ∈ runActions step Boot.small.initial (sending 0),
      ∃ s' ∈ s.receiveMessage 2 0 none { Heap.plenty with table := fun _ => false },
        s'.result.status = .insufficientMemory ∧
        ((s.space 1).largePools.allocate 2).1 = some 0x20800000 ∧
        ((s'.space 1).largePools.allocate 2).1 = some 0x20802000 := by
  decide +kernel

end State

end Dx.Memory
