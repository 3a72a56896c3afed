import Dx.Memory.PayloadBlocks
import Dx.Memory.Changes

/-!
# Device memory

`map_memory` and `unmap_memory` of the device proxy. A thread names a range of physical addresses, and
the pages behind it are bound to a payload block of its address space.

The range must not reach into the memory from the image of the kernel up to `USER_KERNEL_BOUNDARY`,
but only two addresses are checked: the first of the range, and the first after it. The range is no
longer than a payload block, and so it cannot go around the memory in between; neither can it when it
wraps past the end of the addresses (`map_memory_hides_kernel`).

Both functions keep the list of the frames in an array on the stack of the kernel, of as many entries
as there are pages in the range (`device_stack_bounded_iff`).
-/

namespace Dx.Memory

open PageDirectory Nat

/-- Where the linker has put the image of the kernel. -/
structure KernelImage where
  start : ℕ
  /-- It is above the memory of the BIOS, -/
  aboveBios : 0x100000 ≤ start
  /-- and below the memory the kernel pages. -/
  belowPaged : start ≤ 0xC00000

def KernelImage.low : KernelImage := ⟨0x100000, by decide, by decide⟩

/-- `USER_KERNEL_BOUNDARY`, which is also `USER_BASE`. -/
abbrev userKernelBoundary : ℕ := userBase

def invalidPhysicalAddress : ℕ := 0

/-- `MEMORY_WRITABLE | MEMORY_USER`. -/
def memoryDevice : MemoryFlags := ⟨true, true, false, false⟩

def KernelImage.Contains (image : KernelImage) (address : ℕ) : Prop :=
  image.start ≤ address ∧ address < userKernelBoundary
deriving Decidable

/-- A call of `map_memory` or `unmap_memory` has returned. -/
structure DeviceCall where
  status : Status
  /-- `syscall->data0`. -/
  data0 : ℕ
  /-- The number of entries of `physical_address`. -/
  reserved : ℕ
  /-- The entries that have been written. -/
  physicalAddress : List ℕ
  state : State

def deviceFrames : ℕ → ℕ → List ℕ
  | 0, _ => []
  | n + 1, deviceMemory => deviceMemory :: deviceFrames n ((deviceMemory + pageSize) % 2 ^ 32)

namespace State

/-- `map_memory`, once the address is known to be right. -/
def mapFrames (a deviceMemory count : ℕ) (heap : Heap) (s : State) : DeviceCall :=
  let (block, pools) := (s.space a).largePools.allocate count
  let s := s.setSpace a { s.space a with largePools := pools }
  match block with
  | none => ⟨.insufficientMemory, deviceMemory, count, [], s⟩
  | some mappedAddress =>
    let frames := deviceFrames count deviceMemory
    let (status, s) := s.commitFrames a heap memoryDevice frames mappedAddress
    if status = .success then ⟨.success, mappedAddress, count, frames, s⟩
    else
      let decommitted := s.decommitFrames a count mappedAddress
      ⟨status, deviceMemory, count, decommitted.1,
        (decommitted.2.freeLargePayloadBlock a mappedAddress).2⟩

def mapMemory (image : KernelImage) (t deviceMemory size : ℕ) (heap : Heap) (s : State) : DeviceCall :=
  let count := pageCount 0 size
  let lastByte := (deviceMemory + count * pageSize) % 2 ^ 32
  if deviceMemory = invalidPhysicalAddress ∨ deviceMemory % pageSize ≠ 0 ∨ count = 0 then
    ⟨.invalidData, deviceMemory, count, [], s⟩
  else if image.Contains deviceMemory then ⟨.accessDenied, deviceMemory, count, [], s⟩
  else if image.Contains lastByte then ⟨.accessDenied, deviceMemory, count, [], s⟩
  else s.mapFrames (s.thread t).addressSpace deviceMemory count heap

/-- `unmap_memory` does not reject the address. -/
def Unmappable (mappedAddress size : ℕ) : Prop :=
  mappedAddress ≠ 0 ∧ mappedAddress % pageSize = 0 ∧ isUserAddress mappedAddress ∧
    pageCount mappedAddress size ≠ 0
deriving Decidable

/-- `unmap_memory`, once the address is known to be right. -/
def unmapFrames (a mappedAddress count : ℕ) (s : State) : DeviceCall :=
  ⟨.success, mappedAddress, count, (s.decommitFrames a count mappedAddress).1,
    ((s.decommitFrames a count mappedAddress).2.freeLargePayloadBlock a mappedAddress).2⟩

def unmapMemory (t mappedAddress size : ℕ) (s : State) : DeviceCall :=
  if Unmappable mappedAddress size then
    s.unmapFrames (s.thread t).addressSpace mappedAddress (pageCount mappedAddress size)
  else ⟨.invalidData, mappedAddress, 0, [], s⟩

variable {size t a n deviceMemory : ℕ} {s : State} {heap : Heap}

theorem not_unmappable_iff {mappedAddress : ℕ} : ¬ Unmappable mappedAddress size ↔
    mappedAddress = 0 ∨ mappedAddress % pageSize ≠ 0 ∨ ¬ isUserAddress mappedAddress ∨
      pageCount mappedAddress size = 0 := by
  rw [Unmappable, not_and_or, not_and_or, not_and_or, not_not, not_not]

/-- This is the function that the system call comes to, if the thread has the capability. -/
theorem unmapDevice_eq_unmapMemory (h : .unmapDevice ∈ (s.thread t).capabilities)
    (mappedAddress size : ℕ) :
    s.unmapDevice t mappedAddress size =
      (s.unmapMemory t mappedAddress size).state.finish (s.unmapMemory t mappedAddress size).status := by
  delta unmapDevice
  rewrite [if_neg (not_not_intro h), unmapMemory]
  by_cases hvalid : Unmappable mappedAddress size
  · obtain ⟨status, pools, -, heq⟩ := freeLargePayloadBlock_eq (s.thread t).addressSpace mappedAddress
      (s.decommitFrames (s.thread t).addressSpace (pageCount mappedAddress size) mappedAddress).2
    rewrite [if_pos hvalid, if_neg fun hno => not_unmappable_iff.2 hno hvalid, unmapFrames, heq]
    rfl
  · rewrite [if_neg hvalid, if_pos (not_unmappable_iff.1 hvalid)]
    rfl

/-! ### The frames of a range -/

theorem length_deviceFrames (n deviceMemory : ℕ) : (deviceFrames n deviceMemory).length = n := by
  induction n generalizing deviceMemory with
  | zero => rfl
  | succ n ih => rw [deviceFrames, List.length_cons, ih]

theorem mem_deviceFrames {frame : ℕ} (hlt : deviceMemory < 2 ^ 32)
    (h : frame ∈ deviceFrames n deviceMemory) : ∃ i < n, frame = pageAfter deviceMemory i := by
  induction n generalizing deviceMemory with
  | zero => cases h
  | succ n ih =>
    rw [deviceFrames, List.mem_cons] at h
    rcases h with rfl | h
    · exact ⟨0, succ_pos n, (pageAfter_zero hlt).symm⟩
    · obtain ⟨i, hi, rfl⟩ := ih (add_pageSize_mod_lt deviceMemory) h
      exact ⟨i + 1, succ_lt_succ hi, pageAfter_succ deviceMemory i⟩

theorem length_decommitFrames (a n page : ℕ) (s : State) :
    (s.decommitFrames a n page).1.length = n := by
  induction n generalizing page s with
  | zero => rfl
  | succ n ih =>
    rw [decommitFrames]
    rw [List.length_cons, ih]

theorem pageCount_lt (b size : ℕ) : pageCount b size < 2 ^ 20 := by
  unfold pageCount
  rw [pageSize_eq]
  omega

def largestBlock : ℕ := 2 ^ (largePayloadPoolCount - 1)

theorem le_of_allocate {pools pools' : LargePools} {block : ℕ} (hn : n < 2 ^ 20)
    (h : pools.allocate n = (some block, pools')) : n ≤ largestBlock := by
  by_contra hlarge
  have hword : (BitVec.ofNat 32 n).toNat = n := Nat.mod_eq_of_lt (by omega)
  have hwide : 128 < (BitVec.ofNat 32 n).toNat := by
    rw [hword]
    exact Nat.lt_of_not_le hlarge
  have hnone := LargePools.allocate_eq_none pools (.inr hwide)
  rw [hword, h] at hnone
  cases hnone

theorem lookup_commitFrames {b v page : ℕ} {flags : MemoryFlags} {frames : List ℕ} {status : Status}
    {s' : State} {e : PageTableEntry} (h : s.commitFrames a heap flags frames page = (status, s'))
    (he : s'.lookup b v = some e) :
    s.lookup b v = some e ∨ ∃ frame ∈ frames, e = .ofFrame frame flags := by
  induction frames generalizing page s with
  | nil =>
    cases h
    exact .inl he
  | cons frame frames ih =>
    rw [commitFrames] at h
    split at h
    case h_1 =>
      cases h
      exact .inl he
    case h_2 d hd =>
      rcases ih h with hold | ⟨frame', hframe', heq⟩
      · by_cases hb : b = a
        · subst hb
          rw [lookup_setDirectory, (lookup_commitPage hd).2] at hold
          split at hold
          case isTrue => exact .inr ⟨frame, List.mem_cons_self, (Option.some.inj hold).symm⟩
          case isFalse => exact .inl hold
        · refine .inl ?_
          rw [State.lookup, setDirectory, (elsewhere_setSpace a _ s).space b hb] at hold
          exact hold
      · exact .inr ⟨frame', List.mem_cons_of_mem frame hframe', heq⟩

theorem not_contains_of_ends {image : KernelImage} {i x : ℕ} (hlt : deviceMemory < 2 ^ 32)
    (haligned : deviceMemory % pageSize = 0) (hn : n ≤ largestBlock)
    (hfirst : ¬ image.Contains deviceMemory)
    (hlast : ¬ image.Contains ((deviceMemory + n * pageSize) % 2 ^ 32)) (hi : i < n)
    (hx : pageAfter deviceMemory i ≤ x) (hx' : x < pageAfter deviceMemory i + pageSize) :
    ¬ image.Contains x := by
  have hhigh := image.belowPaged
  unfold KernelImage.Contains at *
  unfold pageAfter at hx hx'
  rw [show largestBlock = 128 from rfl] at hn
  rw [pageSize_eq] at *
  rw [show userKernelBoundary = 0x40000000 from rfl] at *
  omega

/-- `map_memory` succeeds: a block has been allocated, and the frames have been bound to it. -/
theorem mapFrames_success (h : (s.mapFrames a deviceMemory n heap).status = .success) :
    ∃ mappedAddress pools, (s.space a).largePools.allocate n = (some mappedAddress, pools) ∧
      (s.setSpace a { s.space a with largePools := pools }).commitFrames a heap memoryDevice
        (deviceFrames n deviceMemory) mappedAddress =
          (.success, (s.mapFrames a deviceMemory n heap).state) := by
  revert h
  unfold mapFrames
  rcases (s.space a).largePools.allocate n with ⟨_ | mappedAddress, pools⟩
  · exact fun h => nomatch h
  · dsimp only
    generalize hcommit : (s.setSpace a { s.space a with largePools := pools }).commitFrames a heap
      memoryDevice (deviceFrames n deviceMemory) mappedAddress = result
    split
    case isTrue hstatus =>
      refine fun _ => ⟨mappedAddress, pools, rfl, ?_⟩
      rw [hcommit, ← hstatus]
    case isFalse hne => exact fun h => absurd h hne

/-- `map_memory` succeeds: the checks have been passed. -/
theorem mapMemory_success {image : KernelImage}
    (h : (s.mapMemory image t deviceMemory size heap).status = .success) :
    deviceMemory % pageSize = 0 ∧ ¬ image.Contains deviceMemory ∧
      ¬ image.Contains ((deviceMemory + pageCount 0 size * pageSize) % 2 ^ 32) ∧
      s.mapMemory image t deviceMemory size heap =
        s.mapFrames (s.thread t).addressSpace deviceMemory (pageCount 0 size) heap := by
  revert h
  unfold mapMemory
  dsimp only
  generalize pageCount 0 size = n
  generalize s.mapFrames (s.thread t).addressSpace deviceMemory n heap = call
  split
  case isTrue => exact fun h => nomatch h
  case isFalse hvalid =>
    split
    case isTrue => exact fun h => nomatch h
    case isFalse hfirst =>
      split
      case isTrue => exact fun h => nomatch h
      case isFalse hlast =>
        exact fun _ => ⟨Decidable.not_not.1 fun hne => hvalid (.inr (.inl hne)), hfirst, hlast, rfl⟩

theorem lookup_setLargePools (a b v : ℕ) (pools : LargePools) (s : State) :
    (s.setSpace a { s.space a with largePools := pools }).lookup b v = s.lookup b v := by
  by_cases hb : b = a
  · rw [hb, State.lookup, space_setSpace]
    rfl
  · rw [State.lookup, (elsewhere_setSpace a _ s).space b hb]
    rfl

/-- **Mapping a device never exposes the kernel.** Whatever the address and the size, if the call
succeeds then each page that is mapped afterwards was mapped before, or is bound to a frame of which
no byte lies between the image of the kernel and `USER_KERNEL_BOUNDARY`. -/
theorem map_memory_hides_kernel (image : KernelImage) (t : ℕ) (deviceMemory size : Word) (heap : Heap)
    (s : State)
    (h : (s.mapMemory image t deviceMemory.toNat size.toNat heap).status = .success) :
    ∀ a v e, (s.mapMemory image t deviceMemory.toNat size.toNat heap).state.lookup a v = some e →
      s.lookup a v = some e ∨
        (e.superPage = false ∧ ∀ x, e.frame ≤ x → x < e.frame + pageSize → ¬ image.Contains x) := by
  intro b v e he
  obtain ⟨haligned, hfirst, hlast, heq⟩ := mapMemory_success h
  rw [heq] at h he
  obtain ⟨mappedAddress, pools, hblock, hcommit⟩ := mapFrames_success h
  rcases lookup_commitFrames hcommit he with hold | ⟨frame, hframe, rfl⟩
  · rw [lookup_setLargePools] at hold
    exact .inl hold
  · obtain ⟨i, hi, rfl⟩ := mem_deviceFrames deviceMemory.isLt hframe
    have hbase : (PageTableEntry.ofFrame (pageAfter deviceMemory.toNat i) memoryDevice).frame =
        pageAfter deviceMemory.toNat i :=
      Nat.div_mul_cancel (Nat.dvd_of_mod_eq_zero (pageAfter_mod haligned))
    refine .inr ⟨rfl, fun x hx hx' => ?_⟩
    rw [hbase] at hx hx'
    exact not_contains_of_ends deviceMemory.isLt haligned
      (le_of_allocate (pageCount_lt 0 size.toNat) hblock) hfirst hlast hi hx hx'

/-- The last page of all addresses and the first are mapped together. -/
theorem map_memory_hides_kernel_wrapped :
    let s := Boot.small.initial.createThread 1 0 []
    (s.mapMemory .low 1 (0xFFFFF000 : Word).toNat (0x2000 : Word).toNat .plenty).physicalAddress =
      [0xFFFFF000, 0] ∧
    ∀ a v e, (s.mapMemory .low 1 (0xFFFFF000 : Word).toNat (0x2000 : Word).toNat .plenty).state.lookup
        a v = some e →
      s.lookup a v = some e ∨
        (e.superPage = false ∧ ∀ x, e.frame ≤ x → x < e.frame + pageSize →
          ¬ KernelImage.low.Contains x) :=
  ⟨by decide +kernel, map_memory_hides_kernel .low 1 0xFFFFF000 0x2000 .plenty _ (by decide +kernel)⟩

/-! ### The stack -/

/-- The array is not larger than the largest payload block, and neither is what is written there. -/
def OnStack (call : DeviceCall) : Prop :=
  call.reserved ≤ largestBlock ∧ call.physicalAddress.length ≤ largestBlock

theorem mapFrames_stack (a deviceMemory n : ℕ) (heap : Heap) (s : State) :
    (s.mapFrames a deviceMemory n heap).reserved = n ∧
      (s.mapFrames a deviceMemory n heap).physicalAddress.length ≤ n := by
  unfold mapFrames
  rcases (s.space a).largePools.allocate n with ⟨_ | mappedAddress, pools⟩
  · exact ⟨rfl, zero_le n⟩
  · dsimp only
    generalize (s.setSpace a { s.space a with largePools := pools }).commitFrames a heap memoryDevice
      (deviceFrames n deviceMemory) mappedAddress = result
    split
    case isTrue => exact ⟨rfl, (length_deviceFrames n deviceMemory).le⟩
    case isFalse => exact ⟨rfl, (length_decommitFrames a n mappedAddress result.2).le⟩

/-- `map_memory` reserves an entry for each page before anything is checked. -/
theorem mapMemory_stack (image : KernelImage) (t deviceMemory size : ℕ) (heap : Heap) (s : State) :
    (s.mapMemory image t deviceMemory size heap).reserved = pageCount 0 size ∧
      (s.mapMemory image t deviceMemory size heap).physicalAddress.length ≤ pageCount 0 size := by
  have hframes := mapFrames_stack (s.thread t).addressSpace deviceMemory (pageCount 0 size) heap s
  unfold mapMemory
  dsimp only
  generalize pageCount 0 size = n at *
  generalize s.mapFrames (s.thread t).addressSpace deviceMemory n heap = call at *
  split
  case isTrue => exact ⟨rfl, zero_le n⟩
  split
  case isTrue => exact ⟨rfl, zero_le n⟩
  split
  case isTrue => exact ⟨rfl, zero_le n⟩
  case isFalse => exact hframes

theorem unmapFrames_stack (a mappedAddress n : ℕ) (s : State) :
    (s.unmapFrames a mappedAddress n).reserved = n ∧
      (s.unmapFrames a mappedAddress n).physicalAddress.length = n :=
  ⟨rfl, length_decommitFrames a n mappedAddress s⟩

/-- `unmap_memory` reserves an entry for each page, and writes them all, unless it rejects the
address. -/
theorem unmapMemory_stack (t mappedAddress size : ℕ) (s : State) :
    ((s.unmapMemory t mappedAddress size).reserved =
        if Unmappable mappedAddress size then pageCount mappedAddress size else 0) ∧
      (s.unmapMemory t mappedAddress size).physicalAddress.length =
        if Unmappable mappedAddress size then pageCount mappedAddress size else 0 := by
  have hframes := unmapFrames_stack (s.thread t).addressSpace mappedAddress
    (pageCount mappedAddress size) s
  unfold unmapMemory
  generalize s.unmapFrames (s.thread t).addressSpace mappedAddress (pageCount mappedAddress size) =
    call at *
  by_cases hvalid : Unmappable mappedAddress size
  · rw [if_pos hvalid, if_pos hvalid]
    exact hframes
  · rw [if_neg hvalid, if_neg hvalid]
    exact ⟨rfl, rfl⟩

/-- **The stack** of the two calls is bounded by the largest payload block exactly when the range has
no more pages than that, or `unmap_memory` has rejected the address before it counts. -/
theorem device_stack_bounded_iff (image : KernelImage) (t : ℕ) (address size : Word) (heap : Heap)
    (s : State) :
    (OnStack (s.mapMemory image t address.toNat size.toNat heap) ↔
      pageCount 0 size.toNat ≤ largestBlock) ∧
    (OnStack (s.unmapMemory t address.toNat size.toNat) ↔
      (Unmappable address.toNat size.toNat → pageCount address.toNat size.toNat ≤ largestBlock)) := by
  constructor
  · obtain ⟨hreserved, hwritten⟩ := mapMemory_stack image t address.toNat size.toNat heap s
    rw [OnStack, hreserved]
    exact ⟨fun h => h.1, fun h => ⟨h, hwritten.trans h⟩⟩
  · obtain ⟨hreserved, hwritten⟩ := unmapMemory_stack t address.toNat size.toNat s
    rw [OnStack, hreserved, hwritten]
    split
    case isTrue hvalid => exact ⟨fun h _ => h.1, fun h => ⟨h hvalid, h hvalid⟩⟩
    case isFalse hvalid => exact ⟨fun _ h => absurd h hvalid, fun _ => ⟨zero_le _, zero_le _⟩⟩

/-- A request to map 516 KB is rejected, with 129 entries on the stack; and to unmap them, from an
address where nothing is mapped, writes 129 entries. -/
theorem not_device_stack_bounded :
    let s := Boot.small.initial.createThread 1 0 []
    ((s.mapMemory .low 1 0xE0000000 0x81000 .plenty).status = .insufficientMemory ∧
      (s.mapMemory .low 1 0xE0000000 0x81000 .plenty).reserved = 129) ∧
    (s.unmapMemory 1 0x50000000 0x81000).physicalAddress.length = 129 := by
  refine ⟨⟨by decide +kernel, ?_⟩, ?_⟩
  · rw [(mapMemory_stack _ _ _ _ _ _).1]
    decide +kernel
  · rw [(unmapMemory_stack _ _ _ _).2]
    decide +kernel

end State

end Dx.Memory
