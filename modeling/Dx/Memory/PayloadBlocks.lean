import Dx.Library.Run
import Dx.Memory.PayloadPool

/-!
# Blocks of the large payload area

The pools of `PayloadPool` as a family of pools that lie side by side: every block that
`allocate_large_payload_block` returns is one of the layout, and `free_large_payload_block` gives back
the block in whose first page the address lies.
-/

namespace Dx.Memory

open Library LargePools

namespace LargePools

variable {pools : LargePools}

/-- What `allocate_large_payload_block` can do: nothing, or take a block that is large enough. -/
theorem allocate_cases (h : pools.Ok) (pageCount : BitVec 32) :
    allocate pageCount.toNat pools = (none, pools) ∨
      ∃ (b : layout.Block) (pools' : LargePools),
        allocate pageCount.toNat pools = (some b.start, pools') ∧ pageCount.toNat ≤ 2 ^ b.pool ∧
        ¬ MemoryPool.Taken pools b ∧ pools'.Ok ∧
        ∀ c : layout.Block, MemoryPool.Taken pools' c ↔ c = b ∨ MemoryPool.Taken pools c := by
  unfold allocate
  rcases Nat.lt_or_ge (Region.calculateOrder pageCount.toNat) largePayloadPoolCount with hlt | hge
  · have hlarge := le_two_pow_calculateOrder pageCount.isLt hlt
    refine (h.allocateLoop_cases (by omega)).imp_right ?_
    rintro ⟨b, pools', heq, hpool, hspec⟩
    exact ⟨b, pools', heq, hlarge.trans (Nat.pow_le_pow_right (by decide) hpool), hspec⟩
  · rw [Nat.sub_eq_zero_of_le hge]
    exact .inl rfl

/-- No block has room for more than 128 pages, and a request for none gets none. -/
theorem allocate_eq_none (pools : LargePools) {pageCount : BitVec 32}
    (h : pageCount.toNat = 0 ∨ 128 < pageCount.toNat) :
    allocate pageCount.toNat pools = (none, pools) := by
  have hge : largePayloadPoolCount ≤ Region.calculateOrder pageCount.toNat := by
    rcases h with hzero | hmany
    · rw [hzero]
      decide +kernel
    · exact le_calculateOrder hmany pageCount.isLt
  unfold allocate
  rw [Nat.sub_eq_zero_of_le hge]
  rfl

end LargePools

/-! ### Runs -/

/-- A block that is out: its address, and the pages it was allocated for. -/
structure PayloadBlock where
  address : ℕ
  pages : ℕ
deriving DecidableEq

/-- The addresses of a block, which is as large as the blocks of its pool. -/
def PayloadBlock.Covers (b : PayloadBlock) (v : ℕ) : Prop :=
  b.address ≤ v ∧ v < b.address + blockSize (order b.address)

/-- The pools of an address space, and the blocks that are out. -/
structure PayloadState where
  pools : LargePools
  live : List PayloadBlock

/-- What the delivery and the deletion of messages ask of the pools. -/
inductive PayloadAction
  | allocate (pageCount : BitVec 32)
  | free (address : ℕ)
deriving DecidableEq

namespace PayloadState

open LargePools

def initial : PayloadState := ⟨new, []⟩

/-- One request; only an address in the first page of a block that is out is freed. -/
def step (s : PayloadState) : PayloadAction → Option PayloadState
  | .allocate pageCount =>
    match allocate pageCount.toNat s.pools with
    | (block, pools) => some ⟨pools, block.toList.map (⟨·, pageCount.toNat⟩) ++ s.live⟩
  | .free address =>
    if pageBase address ∈ s.live.map PayloadBlock.address then
      match free address s.pools with
      | (_, pools) => some ⟨pools, s.live.filter fun b => b.address ≠ pageBase address⟩
    else none

/-- The list has exactly the blocks that are taken, and each of them is large enough. -/
structure Sound (s : PayloadState) : Prop where
  ok : s.pools.Ok
  large : ∀ b ∈ s.live, b.pages * pageSize ≤ blockSize (order b.address)
  live : ∃ blocks : List layout.Block, s.live.map PayloadBlock.address = blocks.map (·.start) ∧
    Slabs.Tracks (MemoryPool.Taken s.pools) blocks

variable {s t : PayloadState} {a : PayloadAction}

theorem sound_initial : initial.Sound := by
  refine ⟨LargePools.Ok.new, fun b hb => absurd hb List.not_mem_nil, [], rfl, .nil fun b => ?_⟩
  rw [← allocated_iff b.covers_start]
  exact not_allocated_new (covers_iff.1 b.covers_start).1

theorem Sound.step (h : s.Sound) (hstep : s.step a = some t) : t.Sound := by
  obtain ⟨hok, hlarge, blocks, hlive, htracks⟩ := h
  cases a with
  | allocate pageCount =>
    rw [PayloadState.step] at hstep
    rcases allocate_cases hok pageCount with heq | ⟨b, pools', heq, hpages, hnot, hok', htaken⟩
    · rw [heq] at hstep
      obtain rfl := Option.some.inj hstep
      exact ⟨hok, hlarge, blocks, hlive, htracks⟩
    · rw [heq] at hstep
      obtain rfl := Option.some.inj hstep
      refine ⟨hok', fun c hc => ?_, b :: blocks, ?_, htracks.cons hnot htaken⟩
      · rcases List.mem_cons.1 hc with rfl | hc
        · obtain ⟨-, horder, -⟩ := covers_iff.1 b.covers_start
          rw [horder, blockSize, Nat.one_shiftLeft]
          exact Nat.mul_le_mul_right _ hpages
        · exact hlarge c hc
      · rw [List.map_cons, ← hlive]
        rfl
  | free address =>
    rw [PayloadState.step] at hstep
    obtain ⟨hmem, hstep⟩ := Option.ite_none_right_eq_some.1 hstep
    rw [hlive, List.mem_map] at hmem
    obtain ⟨b, -, hb⟩ := hmem
    obtain ⟨status, pools', heq, hok', htaken⟩ := hok.free_of_covers (hb ▸ b.covers_start)
    rw [heq] at hstep
    obtain rfl := Option.some.inj hstep
    refine ⟨hok', fun c hc => hlarge c (List.mem_filter.1 hc).1,
      blocks.filter fun c => c.start ≠ b.start, ?_, htracks.filter fun c => ?_⟩
    · have hfilter := congrArg (List.filter fun v => decide (v ≠ b.start)) hlive
      rw [List.filter_map, List.filter_map] at hfilter
      rw [← hb]
      exact hfilter
    · have heq : c = b ↔ c.start = b.start :=
        ⟨fun h => h ▸ rfl, Slabs.Block.start_injective⟩
      rw [htaken, ne_eq, heq, decide_eq_true_eq]

theorem sound_of_run (h : Run step Always initial s) : s.Sound :=
  h.invariant sound_initial fun hs _ hstep => hs.step hstep

theorem covers_iff_of_address {b : PayloadBlock} {c : layout.Block} (h : b.address = c.start) {v : ℕ} :
    b.Covers v ↔ c.Covers v := by
  obtain ⟨-, horder, -⟩ := covers_iff.1 c.covers_start
  rw [PayloadBlock.Covers, h, horder]
  rfl

theorem Sound.exists_block (h : s.Sound) {b : PayloadBlock} (hb : b ∈ s.live) :
    ∃ c : layout.Block, b.address = c.start ∧ MemoryPool.Taken s.pools c := by
  obtain ⟨-, -, blocks, hlive, htracks⟩ := h
  have hmem : b.address ∈ blocks.map (·.start) := hlive ▸ List.mem_map_of_mem hb
  obtain ⟨c, hc, hstart⟩ := List.mem_map.1 hmem
  exact ⟨c, hstart.symm, (htracks.mem c).1 hc⟩

theorem Sound.pairwise_address (h : s.Sound) :
    s.live.Pairwise fun b c => b.address ≠ c.address := by
  obtain ⟨-, -, blocks, hlive, htracks⟩ := h
  have hpairs : (blocks.map (·.start)).Pairwise (· ≠ ·) := by
    rw [List.pairwise_map]
    exact htracks.nodup.imp fun hne heq => hne (Slabs.Block.start_injective heq)
  rwa [← hlive, List.pairwise_map] at hpairs

/-- The addresses that are allocated are those of the blocks that are out. -/
theorem Sound.allocated_iff (h : s.Sound) {v : ℕ} (hv : InArea v) :
    s.pools.Allocated v ↔ ∃ b ∈ s.live, b.Covers v := by
  constructor
  · intro hall
    obtain ⟨c, hc⟩ := LargePools.exists_block hv
    obtain ⟨-, -, blocks, hlive, htracks⟩ := h
    have hmem := (htracks.mem c).2 ((LargePools.allocated_iff hc).1 hall)
    have haddress : c.start ∈ s.live.map PayloadBlock.address := hlive ▸ List.mem_map_of_mem hmem
    obtain ⟨b, hb, hstart⟩ := List.mem_map.1 haddress
    exact ⟨b, hb, (covers_iff_of_address hstart).2 hc⟩
  · rintro ⟨b, hb, hcovers⟩
    obtain ⟨c, hstart, htaken⟩ := h.exists_block hb
    exact (LargePools.allocated_iff ((covers_iff_of_address hstart).1 hcovers)).2 htaken

/-- **Large payload blocks.** In every state that is reached, the blocks that are out have no address
in common, lie in the area, and are as large as was asked for; any address in the first page of one of
them frees this block and no other; and requests for no page or for more than 128 are refused. -/
theorem large_payload_blocks (h : Run step Always initial s) :
    s.live.Pairwise (fun b c => ∀ v, ¬ (b.Covers v ∧ c.Covers v)) ∧
    (∀ b ∈ s.live, b.pages * pageSize ≤ blockSize (order b.address) ∧
      ∀ v, b.Covers v → InArea v) ∧
    (∀ v, InArea v → (s.pools.Allocated v ↔ ∃ b ∈ s.live, b.Covers v)) ∧
    (∀ b ∈ s.live, ∀ v, pageBase v = b.address → ∃ status pools',
      free v s.pools = (status, pools') ∧
      ∀ w, InArea w → (pools'.Allocated w ↔ ¬ b.Covers w ∧ s.pools.Allocated w)) ∧
    ∀ pageCount : BitVec 32, pageCount.toNat = 0 ∨ 128 < pageCount.toNat →
      allocate pageCount.toNat s.pools = (none, s.pools) := by
  have hsound := sound_of_run h
  refine ⟨?_, fun b hb => ⟨hsound.large b hb, fun v hv => ?_⟩, fun v hv => hsound.allocated_iff hv,
    fun b hb v hv => ?_, fun pageCount hcount => allocate_eq_none s.pools hcount⟩
  · refine List.Pairwise.imp_of_mem ?_ hsound.pairwise_address
    rintro b c hb hc hne v ⟨hbv, hcv⟩
    obtain ⟨b', hb', -⟩ := hsound.exists_block hb
    obtain ⟨c', hc', -⟩ := hsound.exists_block hc
    have heq : b' = c' := Slabs.Block.eq_of_covers ((covers_iff_of_address hb').1 hbv)
      ((covers_iff_of_address hc').1 hcv)
    rw [hb', hc', heq] at hne
    exact hne rfl
  · obtain ⟨c, hstart, -⟩ := hsound.exists_block hb
    exact (covers_iff.1 ((covers_iff_of_address hstart).1 hv)).1
  · obtain ⟨c, hstart, -⟩ := hsound.exists_block hb
    obtain ⟨status, pools', heq, -, htaken⟩ := hsound.ok.free_of_covers
      (hv.trans hstart ▸ c.covers_start)
    refine ⟨status, pools', heq, fun w hw => ?_⟩
    obtain ⟨d, hd⟩ := exists_block hw
    have hsame : d = c ↔ c.Covers w := ⟨fun heq => heq ▸ hd, fun hc => Slabs.Block.eq_of_covers hd hc⟩
    rw [allocated_iff hd, allocated_iff hd, htaken, ne_eq, hsame, covers_iff_of_address hstart]

/-- Blocks for three pages and for one, and the first one freed from within its first page: the second
one is still out. -/
theorem large_payload_blocks_second : ∃ s ∈ runActions step initial
      [.allocate 3, .allocate 1, .free 0x20C00123],
    s.live = [⟨0x20400000, 1⟩] ∧
    s.live.Pairwise (fun b c => ∀ v, ¬ (b.Covers v ∧ c.Covers v)) := by
  have heval : ∃ s ∈ runActions step initial [.allocate 3, .allocate 1, .free 0x20C00123],
      s.live = [⟨0x20400000, 1⟩] := by
    decide +kernel
  obtain ⟨s, hs, hlive⟩ := heval
  exact ⟨s, hs, hlive, (large_payload_blocks (run_of_runActions _ hs)).1⟩

end PayloadState

end Dx.Memory
