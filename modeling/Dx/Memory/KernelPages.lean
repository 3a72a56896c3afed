import Dx.Memory.Formed

/-!
# The pages of the kernel

The first entries of every page directory map the kernel. No system call is meant to change them, and
each of them looks at the address it is given. But `DELETE_MESSAGE` and `UNMAP_DEVICE` take a range of
pages, and only its beginning is looked at: a range that goes on beyond the last page comes around to
the kernel, and `unshare_frame` and `decommit_frame` then clear the entry of a whole superpage
(`not_kernel_pages_kept`). Nothing else comes near them: an expansion that comes around is refused, a
superpage is never shared, and a large message that comes around stops at the first page of the kernel,
which is taken (`KernelMapped.commitPage_zero`).
-/

namespace Dx.Memory

open Library Option

namespace State

variable {a t m : ℕ} {s s' : State} {M C : ℕ → Prop} {v : ℕ}

namespace KernelMapped

variable (h : s.KernelMapped)
include h

/-- One address space changes, above the kernel. -/
theorem reworks (hs : Reworks a (Above True) (Above True) s s') : s'.KernelMapped := by
  intro b hb
  rw [hs.addressSpaces] at hb
  by_cases hba : b = a
  · subst hba
    exact hs.keeps (P := fun sp => sp.directory.KernelMapped)
      (fun hedit => hedit.kernelMapped (fun _ hv => hv trivial) fun _ hv => hv trivial)
      (fun _ hsp => hsp) (h b hb)
  · rw [hs.space b hba]
    exact h b hb

/-- The directories do not depend on the payload pools. -/
theorem repools (a : ℕ) (pools : LargePools) :
    (s.setSpace a { s.space a with largePools := pools }).KernelMapped := fun b hb =>
  update_intro (P := fun sp : AddressSpace => sp.directory.KernelMapped) (fun heq => h a (heq ▸ hb))
    fun _ => h b hb

theorem step {action : Action} (hformed : s.Formed) (hbounded : s.Bounded action)
    (hs : s.step action = some s') : s'.KernelMapped := by
  have hreset : KernelMapped { s with returned := [] } := h
  cases action with
  | createAddressSpace a =>
    obtain ⟨-, hs⟩ := ite_none_right_eq_some.1 hs
    cases hs
    exact fun b hb => update_intro (P := fun sp : AddressSpace => sp.directory.KernelMapped)
      (fun _ => .new) fun hne => h b ((List.mem_cons.1 hb).resolve_left hne)
  | deleteAddressSpace a =>
    obtain ⟨-, hs⟩ := ite_none_right_eq_some.1 hs
    cases hs
    obtain ⟨s₂, d, helse, -, heq⟩ := destroyAddressSpace_eq a { s with returned := [] }
    intro b hb
    rw [heq] at hb ⊢
    rw [helse.addressSpaces, hformed.nodup.mem_erase_iff] at hb
    rw [helse.space b hb.1]
    exact h b hb.2
  | createThread t a capabilities =>
    obtain ⟨-, hs⟩ := ite_none_right_eq_some.1 hs
    cases hs
    obtain ⟨_, pools, -, ⟨-, heq⟩ | ⟨_, -, heq⟩⟩ :=
      createThread_eq t a capabilities { s with returned := [] }
    all_goals
      rw [heq]
      exact hreset.repools a pools
  | deleteThread t =>
    obtain ⟨-, hs⟩ := ite_none_right_eq_some.1 hs
    cases hs
    obtain ⟨_, pools, -, heq⟩ := destroyThread_eq t { s with returned := [] }
    rw [heq]
    exact hreset.repools _ pools
  | discardMessage m =>
    obtain ⟨-, hs⟩ := ite_none_right_eq_some.1 hs
    cases hs
    exact hreset.reworks (a := 0) (sameSpaces_removeMessage m _).reworks
  | _ => exact h.reworks (hformed.calls rfl hs fun _ => ⟨h, hbounded⟩)

end KernelMapped

end State

open State

theorem Boot.kernelMapped (boot : Boot) : boot.initial.KernelMapped := by
  have htouches : Touches 0 (fun _ => False) (fun _ => False) _ boot.initial :=
    touches_shareKernelFrames 0 _ _ _
  refine KernelMapped.reworks ?_
    (htouches.mono (fun _ hv => hv.elim) fun _ hv => hv.elim).reworks
  exact fun _ _ => .new

/-- **The kernel stays mapped.** As long as no range that is unmapped comes around, the entries of
every page directory below the payload area are those it was created with. -/
theorem kernel_pages_kept {boot : Boot} {s : State} (h : Run State.step Bounded boot.initial s)
    {a : ℕ} (ha : a ∈ s.addressSpaces) :
    ∀ i < PageDirectory.calculateIndex payloadAreaBase,
      (s.space a).directory.entry i = PageDirectory.new.entry i := by
  have hkept : s.Formed ∧ s.KernelMapped :=
    h.invariant (I := fun s => s.Formed ∧ s.KernelMapped) ⟨boot.formed, boot.kernelMapped⟩
      fun hs hbounded hstep => ⟨hs.1.step hstep, hs.2.step hs.1 hbounded hstep⟩
  exact hkept.2 a ha

/-- A page is mapped, the last page of the address space is deleted as if it were a message, and the
first payload block is unmapped as if it were a device. -/
theorem kernel_pages_kept_last : ∃ s, Run State.step Bounded Boot.small.initial s ∧
    0 ∈ s.addressSpaces ∧ s.translate 0 0x40000000 = some 0xC00000 ∧
    ∀ i < PageDirectory.calculateIndex payloadAreaBase,
      (s.space 0).directory.entry i = PageDirectory.new.entry i := by
  have heval : ∃ s ∈ runActions (restrict State.step Bounded) Boot.small.initial
      [.createThread 1 0 [.expandAddressSpace, .unmapDevice],
        .expand 1 0x40000000 0x1000 (some [0xC00000]) Heap.plenty,
        .deleteMessage 1 0xFFFFF000 0x1000, .unmapDevice 1 0x20400000 0x1000],
      0 ∈ s.addressSpaces ∧ s.translate 0 0x40000000 = some 0xC00000 := by
    decide +kernel
  obtain ⟨s, hs, hzero, hpage⟩ := heval
  have hrun := run_of_runActions_restrict _ hs
  exact ⟨s, hrun, hzero, hpage, kernel_pages_kept hrun hzero⟩

/-- Deleting a message of 4097 bytes at the last page of the address space: the second page of it is
the first page of the kernel, and the kernel is gone. -/
theorem not_kernel_pages_kept : ∃ s, Run State.step Always Boot.small.initial s ∧
    0 ∈ s.addressSpaces ∧ (PageDirectory.new.translate 0x1000) = some 0x1000 ∧
    s.translate 0 0x1000 = none :=
  exists_run [.createThread 1 0 [], .deleteMessage 1 0xFFFFF000 0x1001] (by decide +kernel)

end Dx.Memory
