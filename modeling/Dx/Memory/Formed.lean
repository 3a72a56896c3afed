import Dx.Memory.Changes

/-!
# What every state keeps

Whatever the system calls do to the mappings, the payload pools of every address space stay where
they are, every thread belongs to an address space that exists, and its copy page is a page of the
large payload blocks.
-/

namespace Dx.Memory

open Library LargePools Function Option

/-- The thread that makes a system call. -/
def Action.caller : Action → Option ℕ
  | .expand t _ _ _ _ | .sendMessage t _ _ _ _ | .receiveMessage t _ _ _ | .deleteMessage t _ _
  | .unmapDevice t _ _ | .write t _ _ _ _ => some t
  | _ => none

namespace State

variable {a t m : ℕ} {s s' : State} {M C : ℕ → Prop} {v : ℕ} {K : Prop}

/-- The kernel is mapped in every address space, as it was when the address space was created. -/
def KernelMapped (s : State) : Prop := ∀ a ∈ s.addressSpaces, (s.space a).directory.KernelMapped

/-- The pages of the range do not come around to the beginning of the address space. -/
def NoWrap (data size : ℕ) : Prop := pageBase data + pageCount data size * pageSize ≤ 2 ^ 32
deriving Decidable

/-- The ranges that are unmapped do not come around. -/
def Bounded (s : State) : Action → Prop
  | .deleteMessage _ data size =>
    0 < size.toNat → largePayloadPoolBase ≤ data.toNat → NoWrap data.toNat size.toNat
  | .unmapDevice t address size => s.Unmaps t address.toNat → NoWrap address.toNat size.toNat
  | _ => True

instance (t v : ℕ) (s : State) : Decidable (s.Unmaps t v) :=
  decidable_of_iff (.unmapDevice ∈ (s.thread t).capabilities ∧ v % pageSize = 0 ∧
    payloadAreaBase ≤ v) ⟨fun h => ⟨h.1, h.2.1, h.2.2⟩, fun h => ⟨h.1, h.2, h.3⟩⟩

instance (s : State) (action : Action) : Decidable (s.Bounded action) := by
  unfold Bounded
  split <;> infer_instance

theorem payloadAreaBase_le_pageBase (h : payloadAreaBase ≤ v) : payloadAreaBase ≤ pageBase v := by
  rw [show payloadAreaBase = 0x20000000 from rfl] at *
  rw [pageBase, pageSize_eq]
  omega

/-- All pages of a range that begins above the kernel are above it, if it does not come around. -/
theorem NoWrap.le {data size : ℕ} (h : NoWrap data size) (hdata : payloadAreaBase ≤ data)
    (hv : Named data size v) : payloadAreaBase ≤ v :=
  (payloadAreaBase_le_pageBase hdata).trans (InRange.bounds hv h).1

/-- The page is above the kernel, if `K` holds. -/
abbrev Above (K : Prop) (v : ℕ) : Prop := K → payloadAreaBase ≤ v

/-- The pools are where they should be, and so are the threads. -/
structure Formed (s : State) : Prop where
  largePools : ∀ a, (s.space a).largePools.Ok
  mediumPool : ∀ a, (s.space a).mediumPool.Medium
  /-- An entry of a page table that is not present has no frame. -/
  blank : ∀ a ∈ s.addressSpaces, (s.space a).directory.Blank
  nodup : s.addressSpaces.Nodup
  live : ∀ t ∈ s.threads, (s.thread t).addressSpace ∈ s.addressSpaces
  /-- The copy page of a thread is a payload block. -/
  copyPage : ∀ t ∈ s.threads, InArea (s.thread t).copyPage ∧ (s.thread t).copyPage % pageSize = 0

namespace Formed

section

variable (h : s.Formed)
include h

/-- One address space changes, and its pools are still where they should be. -/
theorem elsewhere (hs : Elsewhere a s s') (hlarge : (s'.space a).largePools.Ok)
    (hmedium : (s'.space a).mediumPool.Medium)
    (hblank : a ∈ s.addressSpaces → (s'.space a).directory.Blank) : s'.Formed where
  largePools b := by
    by_cases hb : b = a
    · rwa [hb]
    · rw [hs.space b hb]
      exact h.largePools b
  mediumPool b := by
    by_cases hb : b = a
    · rwa [hb]
    · rw [hs.space b hb]
      exact h.mediumPool b
  blank b hmem := by
    rw [hs.addressSpaces] at hmem
    by_cases hb : b = a
    · rw [hb] at hmem ⊢
      exact hblank hmem
    · rw [hs.space b hb]
      exact h.blank b hmem
  nodup := by
    rw [hs.addressSpaces]
    exact h.nodup
  live := by
    rw [hs.threads, hs.thread, hs.addressSpaces]
    exact h.live
  copyPage := by
    rw [hs.threads, hs.thread]
    exact h.copyPage

theorem reworks (hs : Reworks a M C s s') : s'.Formed :=
  h.elsewhere hs.toElsewhere
    (hs.keeps (P := fun sp => sp.largePools.Ok) (fun hedit hok => hedit.largePools ▸ hok)
      (fun hok _ => hok) (h.largePools a))
    (hs.keeps (P := fun sp => sp.mediumPool.Medium) (fun hedit hm => hedit.medium hm)
      (fun _ hm => hm) (h.mediumPool a))
    fun ha => hs.keeps (P := fun sp => sp.directory.Blank) (fun hedit hb => hedit.blank hb)
      (fun _ hb => hb) (h.blank a ha)

theorem same (hs : SameSpaces s s') : s'.Formed :=
  h.reworks (a := 0) (M := fun _ => True) (C := fun _ => True) hs.reworks

theorem repools {pools : LargePools} (hs : Repools a pools s s') (hok : pools.Ok) : s'.Formed :=
  h.reworks (M := fun _ => True) (C := fun _ => True) (hs.reworks hok)

theorem free {data : ℕ} {status : Status} {pools : LargePools} (hdata : data < 2 ^ 32)
    (hfree : (s.space a).largePools.free data = (status, pools)) : pools.Ok := by
  have hok := ((h.largePools a).free hdata).1
  rw [hfree] at hok
  exact hok

/-! ### One step -/

theorem createAddressSpace (ha : a ∉ s.addressSpaces) :
    ({ s with addressSpaces := a :: s.addressSpaces }.setSpace a .new).Formed where
  largePools b := update_intro (P := fun sp : AddressSpace => sp.largePools.Ok) (fun _ => .new)
    fun _ => h.largePools b
  mediumPool b := update_intro (P := fun sp : AddressSpace => sp.mediumPool.Medium) (fun _ => .new)
    fun _ => h.mediumPool b
  blank b hmem := update_intro (P := fun sp : AddressSpace => sp.directory.Blank)
    (fun _ => .new) fun hb => h.blank b ((List.mem_cons.1 hmem).resolve_left hb)
  nodup := List.nodup_cons.2 ⟨ha, h.nodup⟩
  live t ht := List.mem_cons_of_mem a (h.live t ht)
  copyPage := h.copyPage

theorem destroyAddressSpace (hthreads : ∀ t ∈ s.threads, (s.thread t).addressSpace ≠ a) :
    (s.destroyAddressSpace a).Formed := by
  obtain ⟨s₂, d, helse, hd, heq⟩ := destroyAddressSpace_eq a s
  rw [heq]
  have hlive : ∀ t ∈ s₂.threads, (s₂.thread t).addressSpace ∈ s₂.addressSpaces.erase a := by
    rw [helse.threads, helse.thread, helse.addressSpaces]
    exact fun t ht => (List.mem_erase_of_ne (hthreads t ht)).2 (h.live t ht)
  refine ⟨fun b => ?_, fun b => ?_, fun b hmem => ?_, ?_, hlive, ?_⟩
  · by_cases hb : b = a
    · rw [hb, hd]
      exact h.largePools a
    · rw [helse.space b hb]
      exact h.largePools b
  · by_cases hb : b = a
    · rw [hb, hd]
      exact h.mediumPool a
    · rw [helse.space b hb]
      exact h.mediumPool b
  · rw [helse.addressSpaces, h.nodup.mem_erase_iff] at hmem
    rw [helse.space b hmem.1]
    exact h.blank b hmem.2
  · rw [helse.addressSpaces]
    exact h.nodup.erase a
  · rw [helse.threads, helse.thread]
    exact h.copyPage

theorem createThread (ha : a ∈ s.addressSpaces) (capabilities : List Capability) :
    (s.createThread t a capabilities).Formed := by
  have hspec := (h.largePools a).allocate_some 1
  obtain ⟨block, pools, hblock, hcases⟩ := createThread_eq t a capabilities s
  rw [hblock] at hspec
  have hset := repools_setSpace a pools s
  have hformed := h.repools hset (hspec.ok (h.largePools a))
  rcases hcases with ⟨-, heq⟩ | ⟨copyPage, rfl, heq⟩
  · rw [heq]
    exact hformed.same ⟨rfl, rfl, rfl, rfl⟩
  · rw [heq]
    refine ⟨hformed.largePools, hformed.mediumPool, hformed.blank, hformed.nodup, fun u hu => ?_, fun u hu => ?_⟩
    · exact update_intro (P := fun x : Thread => x.addressSpace ∈ s.addressSpaces) (fun _ => ha)
        fun hne => h.live u ((List.mem_cons.1 hu).resolve_left hne)
    · exact update_intro (P := fun x : Thread => InArea x.copyPage ∧ x.copyPage % pageSize = 0)
        (fun _ => hspec.block (Nat.le_refl 1))
        fun hne => h.copyPage u ((List.mem_cons.1 hu).resolve_left hne)

theorem destroyThread (ht : t ∈ s.threads) : (s.destroyThread t).Formed := by
  obtain ⟨status, pools, hfree, heq⟩ := destroyThread_eq t s
  have hformed := h.repools (repools_setSpace (s.thread t).addressSpace pools s)
    (h.free (h.copyPage t ht).1.bounds.2 hfree)
  rewrite [heq]
  exact ⟨hformed.largePools, hformed.mediumPool, hformed.blank, hformed.nodup,
    fun u hu => hformed.live u (List.mem_of_mem_erase hu),
    fun u hu => hformed.copyPage u (List.mem_of_mem_erase hu)⟩

/-! ### The system calls -/

/-- A large message is mapped above the kernel. -/
theorem deliverLargePayload {sender size : ℕ} {receiver : Option UserAddress} {ids : List ℕ}
    {heap : Heap} (hK : K → (s.space (s.thread t).addressSpace).directory.KernelMapped) :
    Reworks (s.thread t).addressSpace (Above K) (Above K) s
      (s.deliverLargePayload t sender size receiver ids heap) := by
  rcases deliverLargePayload_cases t sender size receiver ids heap s with
    ⟨target, -, heq⟩ | ⟨block, pools, hblock, hcases⟩
  · rw [heq]
    exact (touches_mapPayload (.start ((Nat.div_mul_le_self _ _).trans_lt target.2.2)
      (Nat.mul_mod_left _ _) (payloadAreaBase_le_pageBase target.2.1))
        fun _ hv hk => hv.2 (hK hk)).reworks
  · have hspec := (h.largePools (s.thread t).addressSpace).allocate_some ids.length
    rw [hblock] at hspec
    have hpools := repools_setSpace (s.thread t).addressSpace pools s
    refine (hpools.reworks (hspec.ok (h.largePools _))).trans ?_
    rcases hcases with ⟨-, heq⟩ | ⟨page, rfl, heq⟩
    · rw [heq]
      exact SameSpaces.reworks ⟨rfl, rfl, rfl, rfl⟩
    · rw [heq]
      obtain ⟨harea, haligned⟩ := hspec.block (Nat.le_refl 1)
      refine (touches_mapPayload (.start harea.bounds.2 haligned harea.bounds.1)
        fun _ hv hk => hv.2 ?_).reworks
      rw [hpools.here]
      exact hK hk

theorem receiveMessage {frame : Option ℕ} {heap : Heap} (ht : t ∈ s.threads)
    (hK : K → (s.space (s.thread t).addressSpace).directory.KernelMapped)
    (hs : s.receiveMessage t m frame heap = some s') :
    Reworks (s.thread t).addressSpace (Above K) (Above K) s s' := by
  unfold State.receiveMessage at hs
  split at hs
  case h_1 =>
    cases hs
    exact SameSpaces.reworks ((sameSpaces_removeMessage m s).trans ⟨rfl, rfl, rfl, rfl⟩)
  case h_2 bytes _ =>
    obtain ⟨s₁, hdeliver, rfl⟩ := map_eq_some_iff.1 hs
    refine ((touches_deliverMediumPayload hdeliver (fun _ => (h.copyPage t ht).1.bounds.1)
      fun v hv => ?_).then_same (sameSpaces_removeMessage m s₁)).reworks
    have hblock : payloadAreaBase ≤ v := ((h.mediumPool _).block hv).1
    exact ⟨fun _ => hblock, fun _ => payloadAreaBase_le_pageBase hblock, fun _ => hblock⟩
  cases hs
  exact (h.deliverLargePayload hK).trans (sameSpaces_removeMessage m _).reworks

/-- **What a system call does.** It reworks the address space of the thread that makes it. If the kernel
is mapped and no range comes around, then only pages above it are changed. -/
theorem calls {action : Action} (hcall : action.caller = some t) (hs : s.step action = some s')
    (hK : K → s.KernelMapped ∧ s.Bounded action) :
    Reworks (s.thread t).addressSpace (Above K) (Above K) s s' := by
  have hreset : SameSpaces s { s with returned := [] } := ⟨rfl, rfl, rfl, rfl⟩
  replace h := h.same hreset
  have hthread : (s.thread t).addressSpace =
    (({ s with returned := [] } : State).thread t).addressSpace := rfl
  replace hK : K → KernelMapped { s with returned := [] } ∧
      ({ s with returned := [] } : State).Bounded action := by
    refine fun hk => ⟨(hK hk).1, ?_⟩
    cases action with
    | unmapDevice t address size =>
      exact fun hunmaps => (hK hk).2 ⟨hunmaps.capability, hunmaps.aligned, hunmaps.user⟩
    | _ => exact (hK hk).2
  refine hreset.reworks.trans ?_
  unfold State.step at hs
  rw [hthread]
  generalize { s with returned := [] } = s at h hK hs
  have hkernel (ht : t ∈ s.threads) (hk : K) := (hK hk).1 _ (h.live t ht)
  cases action with
  | expand _ first size frames heap =>
    cases hcall
    obtain ⟨-, hs⟩ := ite_none_right_eq_some.1 hs
    rcases expand_cases first.isLt hs with hsame | ⟨hbase, haligned, hbound, htouches⟩
    · exact hsame.reworks
    · have hpage : pageBase first.toNat = first.toNat := Nat.div_mul_cancel
        (Nat.dvd_of_mod_eq_zero haligned)
      have hrange : ∀ v, InRange first.toNat (pageCount 0 size.toNat) v → Above K v :=
        fun v hv _ => hbase.trans (hpage ▸ (hv.bounds (by rw [hpage]; exact hbound)).1)
      exact (htouches.mono hrange hrange).reworks
  | sendMessage _ payload size receiver heap =>
    cases hcall
    obtain ⟨ht, hs⟩ := ite_none_right_eq_some.1 hs
    exact ((touches_sendMessage payload.isLt (hkernel ht) hs).mono (fun _ hv => hv.elim)
      fun _ hv => hv.2).reworks
  | receiveMessage _ m frame heap =>
    cases hcall
    obtain ⟨⟨ht, -⟩, hs⟩ := ite_none_right_eq_some.1 hs
    exact h.receiveMessage ht (hkernel ht) hs
  | deleteMessage _ data size =>
    cases hcall
    obtain ⟨-, hs⟩ := ite_none_right_eq_some.1 hs
    rcases deleteMessage_cases data.isLt rfl (Option.some.inj hs) with
      ⟨hsize, hlarge, s₁, status, pools, htouches, hfree, hrepools⟩ | htouches
    · have hbase : payloadAreaBase ≤ data.toNat := Nat.le_trans (by decide) hlarge
      exact (htouches.mono (fun _ hv => hv.elim) fun _ hv hk =>
        ((hK hk).2 hsize hlarge).le hbase hv).reworks.trans (hrepools.reworks (h.free data.isLt hfree))
    · exact (htouches.mono (fun _ hv => hv.elim) fun _ hv => hv.elim).reworks
  | unmapDevice _ address size =>
    cases hcall
    obtain ⟨-, hs⟩ := ite_none_right_eq_some.1 hs
    rcases unmapDevice_cases address.isLt rfl (Option.some.inj hs) with
      hsame | ⟨hunmaps, s₁, status, pools, htouches, hfree, hrepools⟩
    · exact hsame.reworks
    · exact (htouches.mono (fun _ hv => hv.elim) fun _ hv hk =>
        ((hK hk).2 hunmaps).le hunmaps.user hv).reworks.trans
          (hrepools.reworks (h.free address.isLt hfree))
  | write _ address byte frame heap =>
    cases hcall
    obtain ⟨ht, hs⟩ := ite_none_right_eq_some.1 hs
    -- users can only write above the kernel
    have hbase : Above K address.toNat := by
      intro hk
      unfold State.userWrite at hs
      obtain ⟨huser, hs⟩ := ite_none_right_eq_some.1 hs
      obtain ⟨hp, hu⟩ := Bool.and_eq_true_iff.1 huser
      exact (hkernel ht hk).le_of_user (PageDirectory.lookup_eq_some.2 ⟨rfl, hp⟩) hu
    exact (touches_userWrite hs (fun _ => (h.copyPage t ht).1.bounds.1)
      (fun hk => payloadAreaBase_le_pageBase (hbase hk)) hbase).reworks
  | _ => cases hcall

theorem step {action : Action} (hs : s.step action = some s') : s'.Formed := by
  have hreset : SameSpaces s { s with returned := [] } := ⟨rfl, rfl, rfl, rfl⟩
  cases action with
  | createAddressSpace a =>
    obtain ⟨ha, hs⟩ := ite_none_right_eq_some.1 hs
    cases hs
    exact (h.same hreset).createAddressSpace ha
  | deleteAddressSpace a =>
    obtain ⟨⟨-, -, hthreads⟩, hs⟩ := ite_none_right_eq_some.1 hs
    cases hs
    exact (h.same hreset).destroyAddressSpace hthreads
  | createThread t a capabilities =>
    obtain ⟨⟨-, ha⟩, hs⟩ := ite_none_right_eq_some.1 hs
    cases hs
    exact (h.same hreset).createThread ha capabilities
  | deleteThread t =>
    obtain ⟨ht, hs⟩ := ite_none_right_eq_some.1 hs
    cases hs
    exact (h.same hreset).destroyThread ht
  | discardMessage m =>
    obtain ⟨-, hs⟩ := ite_none_right_eq_some.1 hs
    cases hs
    exact (h.same hreset).same (sameSpaces_removeMessage m _)
  | _ => exact h.reworks (h.calls (K := False) rfl hs False.elim)

end

end Formed

end State

/-! ### Every run -/

/-- Sharing the ramdisk changes the table of shared pages only. -/
theorem State.touches_shareKernelFrames {M C : ℕ → Prop} (a n block : ℕ) (s : State) :
    Touches a M C s (s.shareKernelFrames a n block) := by
  induction n generalizing block s with
  | zero => exact .refl s
  | succ n ih =>
    unfold shareKernelFrames
    refine Touches.trans ?_ (ih (block + pageSize) _)
    split
    case h_1 => exact .refl s
    case h_2 => exact SameSpaces.touches_setSpace ⟨rfl, rfl, rfl, rfl⟩ (.single .sharedFrames)

theorem Boot.formed (boot : Boot) : boot.initial.Formed := by
  refine State.Formed.reworks ?_
    (State.touches_shareKernelFrames (M := fun _ => True) (C := fun _ => True) 0 _ _ _).reworks
  exact ⟨fun _ => .new, fun _ => .new, fun _ _ => .new, List.nodup_singleton 0, fun _ h => absurd h List.not_mem_nil,
    fun _ h => absurd h List.not_mem_nil⟩

/-- Every state that is reached is well formed. -/
theorem formed_of_run {boot : Boot} {ok : State → Action → Prop} {s : State}
    (h : Run State.step ok boot.initial s) : s.Formed :=
  h.invariant boot.formed fun hs _ hstep => hs.step hstep

end Dx.Memory
