import Dx.Memory.Pools
import Dx.Memory.RoundUp

/-!
# Payload blocks

The pools of an address space from which the kernel takes the addresses where it maps the payloads of
large messages: eight pools of 4 MB each, side by side (`layout`), the `i`-th one cut into blocks of
`2 ^ i` pages.

What the rest needs to know of the pools is which pages lie in a block that is allocated
(`LargePools.Allocated`), and how the two operations change that.
-/

namespace Dx.Memory

open Library Nat

/-! ### The order of a block -/

theorem le_calculateOrder {n : ℕ} (h : 128 < n) (hn : n < 2 ^ 32) : 8 ≤ Region.calculateOrder n := by
  -- some bit above the sixth of `n - 1` is set, so the lowest eight of the rounded value are clear
  obtain ⟨j, hj7, hj, hbit⟩ : ∃ j, 7 ≤ j ∧ j < 32 ∧ (BitVec.ofNat 32 n - 1).getLsbD j = true := by
    by_contra hnone
    have hlt : (BitVec.ofNat 32 n - 1).toNat < 2 ^ 7 := by
      refine lt_pow_two_of_testBit _ fun j hj => ?_
      rcases lt_or_ge j 32 with h32 | h32
      · exact Bool.eq_false_of_not_eq_true fun hbit => hnone ⟨j, hj, h32, hbit⟩
      · exact BitVec.getLsbD_of_ge _ _ h32
    have hsub : (BitVec.ofNat 32 n - 1).toNat = n - 1 := by
      rw [BitVec.toNat_sub_of_le]
      · rw [BitVec.toNat_ofNat, mod_eq_of_lt hn]
        rfl
      · rw [BitVec.le_def, BitVec.toNat_ofNat, mod_eq_of_lt hn]
        show 1 ≤ n
        omega
    omega
  have hones : (roundUp2n (BitVec.ofNat 32 n) - 1).toNat % 2 ^ 8 = 2 ^ 8 - 1 := by
    refine eq_of_testBit_eq fun i => ?_
    rw [testBit_mod_two_pow, testBit_two_pow_sub_one]
    by_cases hi : i < 8
    · have := getLsbD_roundUp2n_sub_one (i := i) (by omega) hj hbit
      rw [BitVec.getLsbD] at this
      rw [this, Bool.and_true]
    · rw [decide_eq_false hi, Bool.false_and]
  have hzero : (roundUp2n (BitVec.ofNat 32 n)).toNat % 2 ^ 8 = 0 := by
    rw [BitVec.toNat_sub] at hones
    have hone : BitVec.toNat (1 : BitVec 32) = 1 := rfl
    rw [hone] at hones
    omega
  rw [Region.calculateOrder]
  rcases findOneBit32_cases (roundUp2n (.ofNat 32 n)) with ⟨heq, -⟩ | ⟨-, hbit, -⟩
  · rw [heq]
    decide
  · by_contra hlt
    have hclear := congrArg (fun m => m.testBit (findOneBit32 (roundUp2n (.ofNat 32 n)))) hzero
    rw [testBit_mod_two_pow, zero_testBit, decide_eq_true (by omega), Bool.true_and] at hclear
    rw [BitVec.getLsbD, hclear] at hbit
    cases hbit

/-- The pools from the order on have blocks that are large enough. -/
theorem le_two_pow_calculateOrder {n : ℕ} (hn : n < 2 ^ 32) (h : Region.calculateOrder n < 8) :
    n ≤ 2 ^ Region.calculateOrder n := by
  rcases lt_or_ge 128 n with hlarge | hsmall
  · exact absurd (le_calculateOrder hlarge hn) (by omega)
  · have hall : ∀ n < 129, Region.calculateOrder n < 8 → n ≤ 2 ^ Region.calculateOrder n := by
      decide +kernel
    exact hall n (by omega) h

/-! ### The pools of an address space -/

/-- `large_payload_pool`. -/
abbrev LargePools := ℕ → MemoryPool

namespace LargePools

/-- The base of the pool of order `i`. -/
def poolBase (i : ℕ) : ℕ := largePayloadPoolBase + i * payloadPoolSize

def blockSize (i : ℕ) : ℕ := (1 <<< i) * pageSize

def new : LargePools := fun i => .new (poolBase i) payloadPoolSize (blockSize i)

/-- The loop of `allocate_large_payload_block`, with `n` pools left from pool `i` on. -/
def allocateLoop : ℕ → ℕ → LargePools → Option ℕ × LargePools
  | 0, _, pools => (none, pools)
  | n + 1, i, pools =>
    match (pools i).allocateBlock with
    | (some block, pool) => (some block, Function.update pools i pool)
    | (none, pool) => allocateLoop n (i + 1) (Function.update pools i pool)

/-- `allocate_large_payload_block(page_count)`. -/
def allocate (pageCount : ℕ) (pools : LargePools) : Option ℕ × LargePools :=
  allocateLoop (largePayloadPoolCount - Region.calculateOrder pageCount)
    (Region.calculateOrder pageCount) pools

/-- The index of the pool in `free_large_payload_block(block)`. -/
def indexOf (block : ℕ) : ℕ :=
  (pageBase block + 2 ^ 32 - largePayloadPoolBase) % 2 ^ 32 / payloadPoolSize

/-- `free_large_payload_block(block)`. -/
def free (block : ℕ) (pools : LargePools) : Status × LargePools :=
  if indexOf block < largePayloadPoolCount then
    let (status, pool) := (pools (indexOf block)).freeBlock (pageBase block)
    (status, Function.update pools (indexOf block) pool)
  else (.invalidData, pools)

def InArea (v : ℕ) : Prop :=
  largePayloadPoolBase ≤ v ∧ v < largePayloadPoolBase + largePayloadPoolCount * payloadPoolSize
deriving Decidable

theorem InArea.bounds {v : ℕ} (h : InArea v) : payloadAreaBase ≤ v ∧ v < 2 ^ 32 := by
  obtain ⟨hle, hlt⟩ := h
  rw [show largePayloadPoolBase = 0x20400000 from rfl] at hle hlt
  rw [show payloadPoolSize = 0x400000 from rfl, show largePayloadPoolCount = 8 from rfl] at hlt
  rw [show payloadAreaBase = 0x20000000 from rfl]
  omega

def order (v : ℕ) : ℕ := (v - largePayloadPoolBase) / payloadPoolSize

def block (v : ℕ) : ℕ := (v - poolBase (order v)) / blockSize (order v)

def Allocated (pools : LargePools) (v : ℕ) : Prop :=
  (pools (order v)).bitmap.isSet (block v) = true
deriving Decidable

def SameBlock (v w : ℕ) : Prop := order v = order w ∧ block v = block w
deriving Decidable

/-- The pools are where they should be. -/
structure Ok (pools : LargePools) : Prop where
  pool : ∀ i < largePayloadPoolCount, (pools i).Ok
  base : ∀ i < largePayloadPoolCount, (pools i).base = poolBase i
  blockCount : ∀ i < largePayloadPoolCount, (pools i).blockCount = payloadPoolSize / blockSize i
  blockSize : ∀ i < largePayloadPoolCount, (pools i).blockSize = blockSize i

variable {pools : LargePools} {v w i k n : ℕ}

theorem blockSize_pos (i : ℕ) : 0 < blockSize i := by
  rw [blockSize, Nat.one_shiftLeft]
  exact Nat.mul_pos (Nat.two_pow_pos i) (by decide)

theorem blockCount_mul_blockSize (hi : i < largePayloadPoolCount) :
    payloadPoolSize / blockSize i * blockSize i = payloadPoolSize ∧
      0 < payloadPoolSize / blockSize i ∧ payloadPoolSize / blockSize i ≤ 1024 := by
  have hall : ∀ i < largePayloadPoolCount,
      payloadPoolSize / blockSize i * blockSize i = payloadPoolSize ∧
      0 < payloadPoolSize / blockSize i ∧ payloadPoolSize / blockSize i ≤ 1024 := by
    decide +kernel
  exact hall i hi

theorem order_lt (hv : InArea v) : order v < largePayloadPoolCount := by
  obtain ⟨hlow, hhigh⟩ := hv
  refine Nat.div_lt_of_lt_mul ?_
  rw [Nat.mul_comm]
  omega

theorem poolBase_order_le (hv : InArea v) :
    poolBase (order v) ≤ v ∧ v < poolBase (order v) + payloadPoolSize := by
  have hle := div_mul_le_self (v - largePayloadPoolBase) payloadPoolSize
  have hlt := lt_div_mul_add (a := v - largePayloadPoolBase) (b := payloadPoolSize) (by decide)
  have hlow := hv.1
  rw [poolBase, order]
  omega

theorem block_lt (hv : InArea v) : block v < payloadPoolSize / blockSize (order v) := by
  obtain ⟨hlow, hhigh⟩ := poolBase_order_le hv
  refine Nat.div_lt_of_lt_mul ?_
  rw [Nat.mul_comm, (blockCount_mul_blockSize (order_lt hv)).1]
  omega

/-- The addresses of block `k` of pool `i`. -/
theorem order_block_eq (hi : i < largePayloadPoolCount) (hk : k < payloadPoolSize / blockSize i)
    (hlow : poolBase i + k * blockSize i ≤ v)
    (hhigh : v < poolBase i + k * blockSize i + blockSize i) :
    InArea v ∧ order v = i ∧ block v = k := by
  have hin : k * blockSize i + blockSize i ≤ payloadPoolSize := by
    rw [← (blockCount_mul_blockSize hi).1, ← Nat.succ_mul]
    exact Nat.mul_le_mul_right _ hk
  have hbase : poolBase i = largePayloadPoolBase + i * payloadPoolSize := rfl
  have hend : i * payloadPoolSize + payloadPoolSize ≤ largePayloadPoolCount * payloadPoolSize := by
    rw [← Nat.succ_mul]
    exact Nat.mul_le_mul_right _ hi
  have horder : order v = i := by
    rw [order, Nat.div_eq_iff (by decide)]
    omega
  refine ⟨⟨by omega, by omega⟩, horder, ?_⟩
  rw [block, horder, Nat.div_eq_iff (blockSize_pos i)]
  have := blockSize_pos i
  omega

theorem Ok.new : Ok new where
  pool _ hi := MemoryPool.Ok.new (blockCount_mul_blockSize hi).2.2
  base _ _ := rfl
  blockCount _ _ := rfl
  blockSize _ _ := rfl

theorem not_allocated_new (hv : InArea v) : ¬ new.Allocated v := by
  have hfalse : (new (order v)).bitmap.isSet (block v) = false :=
    MemoryPool.isSet_new (blockCount_mul_blockSize (order_lt hv)).2.2 (block_lt hv)
  rw [Allocated, hfalse]
  exact Bool.false_ne_true

/-! ### The layout -/

/-- The number of blocks of pool `i`; there are eight pools. -/
def blockCount (i : ℕ) : ℕ := if i < largePayloadPoolCount then payloadPoolSize / blockSize i else 0

def layout : Slabs ℕ where
  base := poolBase
  blockSize := blockSize
  count := blockCount
  pos := blockSize_pos
  apart := by
    have hend : ∀ i, poolBase i + blockCount i * blockSize i ≤ poolBase (i + 1) := by
      intro i
      have hnext : poolBase (i + 1) = poolBase i + payloadPoolSize := by
        rw [poolBase, poolBase, Nat.succ_mul, Nat.add_assoc]
      rw [hnext, blockCount]
      split
      case isTrue hi => rw [(blockCount_mul_blockSize hi).1]
      case isFalse => omega
    have hmono : ∀ i j, i < j → poolBase (i + 1) ≤ poolBase j := by
      intro i j hij
      exact Nat.add_le_add_left (Nat.mul_le_mul_right _ hij) _
    intro i j hne
    rcases Nat.lt_or_gt_of_ne hne with hij | hij
    · exact .inl ((hend i).trans (hmono i j hij))
    · exact .inr ((hend j).trans (hmono j i hij))

theorem count_pos_iff : 0 < layout.count i ↔ i < largePayloadPoolCount := by
  show 0 < blockCount i ↔ _
  rw [blockCount]
  split
  case isTrue hi => exact ⟨fun _ => hi, fun _ => (blockCount_mul_blockSize hi).2.1⟩
  case isFalse hi => exact ⟨fun h => absurd h (lt_irrefl 0), fun h => absurd h hi⟩

theorem layout_end (hi : 0 < layout.count i) :
    layout.base i + layout.count i * layout.blockSize i ≤ 2 ^ 32 := by
  have hlt := count_pos_iff.1 hi
  have hcount : layout.count i * layout.blockSize i = payloadPoolSize := by
    show blockCount i * blockSize i = _
    rw [blockCount, if_pos hlt, (blockCount_mul_blockSize hlt).1]
  have hbase : layout.base i = 0x20400000 + i * 0x400000 := rfl
  have hsize : payloadPoolSize = 0x400000 := rfl
  have hpools : largePayloadPoolCount = 8 := rfl
  omega

/-- The pools are where they should be when they lie as the layout says. -/
theorem fits_iff : MemoryPool.Fits layout pools ↔ pools.Ok := by
  constructor
  · intro h
    constructor
    · intro i hi
      exact h.ok i (count_pos_iff.2 hi)
    · intro i hi
      exact h.base i (count_pos_iff.2 hi)
    · intro i hi
      rw [h.blockCount i (count_pos_iff.2 hi)]
      exact if_pos hi
    · intro i hi
      exact h.blockSize i (count_pos_iff.2 hi)
  · intro h
    constructor
    · intro i hi
      exact h.pool i (count_pos_iff.1 hi)
    · intro i hi
      exact h.base i (count_pos_iff.1 hi)
    · intro i hi
      rw [h.blockCount i (count_pos_iff.1 hi)]
      exact (if_pos (count_pos_iff.1 hi)).symm
    · intro i hi
      exact h.blockSize i (count_pos_iff.1 hi)

variable {b : layout.Block}

theorem covers_iff : b.Covers v ↔ InArea v ∧ order v = b.pool ∧ block v = b.index := by
  have hpool : b.pool < largePayloadPoolCount := count_pos_iff.1 (MemoryPool.count_pos b)
  have hindex : b.index < payloadPoolSize / blockSize b.pool := by
    have hlt := b.lt
    rwa [show layout.count b.pool = _ from if_pos hpool] at hlt
  constructor
  · rintro ⟨hlow, hhigh⟩
    exact order_block_eq hpool hindex hlow hhigh
  · rintro ⟨hin, horder, hblock⟩
    have hle := div_mul_le_self (v - poolBase (order v)) (blockSize (order v))
    have hlt := lt_div_mul_add (a := v - poolBase (order v)) (blockSize_pos (order v))
    have hbase := (poolBase_order_le hin).1
    rw [block] at hblock
    rw [hblock, horder] at hle hlt
    rw [horder] at hbase
    have hstart : b.start = poolBase b.pool + b.index * blockSize b.pool := rfl
    have hfinish : b.finish = b.start + blockSize b.pool := rfl
    constructor
    · omega
    · omega

/-- A block is taken when its addresses are allocated. -/
theorem allocated_iff (hv : b.Covers v) : pools.Allocated v ↔ MemoryPool.Taken pools b := by
  obtain ⟨-, horder, hblock⟩ := covers_iff.1 hv
  rw [Allocated, MemoryPool.Taken, horder, hblock]

theorem exists_block (hv : InArea v) : ∃ b : layout.Block, b.Covers v := by
  have hlt : block v < layout.count (order v) := by
    rw [show layout.count (order v) = _ from if_pos (order_lt hv)]
    exact block_lt hv
  exact ⟨⟨order v, block v, hlt⟩, covers_iff.2 ⟨hv, rfl, rfl⟩⟩

/-! ### The operations -/

/-- The loop tries one pool after the other. -/
theorem allocateLoop_eq (n i : ℕ) (pools : LargePools) : allocateLoop n i pools =
    ((MemoryPool.allocateFirst (List.range' i n) pools).1.map Prod.snd,
      (MemoryPool.allocateFirst (List.range' i n) pools).2) := by
  induction n generalizing i pools with
  | zero => rfl
  | succ n ih =>
    rw [List.range'_succ]
    unfold allocateLoop MemoryPool.allocateFirst
    generalize (pools i).allocateBlock = result
    obtain ⟨block, pool⟩ := result
    cases block with
    | none => exact ih _ _
    | some block => rfl

/-- The loop does nothing, or takes a block of one of the pools. -/
theorem Ok.allocateLoop_cases (h : pools.Ok) (hn : i + n ≤ largePayloadPoolCount) :
    allocateLoop n i pools = (none, pools) ∨
      ∃ (b : layout.Block) (pools' : LargePools), allocateLoop n i pools = (some b.start, pools') ∧
        i ≤ b.pool ∧ ¬ MemoryPool.Taken pools b ∧ pools'.Ok ∧
        ∀ c : layout.Block, MemoryPool.Taken pools' c ↔ c = b ∨ MemoryPool.Taken pools c := by
  have hrange : ∀ j ∈ List.range' i n, i ≤ j ∧ 0 < layout.count j := by
    intro j hj
    rw [List.mem_range'_1] at hj
    exact ⟨hj.1, count_pos_iff.2 (by omega)⟩
  have hspec := (fits_iff.2 h).allocateFirst (fun i => layout_end) fun j hj => (hrange j hj).2
  rw [allocateLoop_eq]
  generalize MemoryPool.allocateFirst (List.range' i n) pools = result at hspec
  cases hspec with
  | none => exact .inl rfl
  | some hmem hnot hfits htaken =>
    exact .inr ⟨_, _, rfl, (hrange _ hmem).1, hnot, fits_iff.1 hfits, htaken⟩

theorem start_mod (b : layout.Block) : b.start % pageSize = 0 := by
  have hstart : b.start = (0x20400 + b.pool * 1024 + b.index * 2 ^ b.pool) * 4096 := by
    show poolBase b.pool + b.index * blockSize b.pool = _
    rw [blockSize, one_shiftLeft, add_mul, add_mul, mul_assoc, mul_assoc]
    rfl
  rw [hstart]
  exact mul_mod_left _ _

/-- What `allocate` can do: nothing, or take a block that is large enough and not allocated. -/
inductive Allocates (pools : LargePools) (pageCount : ℕ) : Option ℕ × LargePools → Prop
  | none : Allocates pools pageCount (none, pools)
  /-- The block at `base`, of `size` pages. -/
  | some {base size : ℕ} {pools' : LargePools} :
      pools'.Ok → base % pageSize = 0 → pageCount ≤ size →
      (∀ v, base ≤ v → v < base + size * pageSize → InArea v ∧ ¬ pools.Allocated v) →
      (∀ v, InArea v → (pools'.Allocated v ↔
        (base ≤ v ∧ v < base + size * pageSize) ∨ pools.Allocated v)) →
      Allocates pools pageCount (some base, pools')

theorem Ok.allocateLoop (h : pools.Ok) (hn : i + n ≤ largePayloadPoolCount) {pageCount : ℕ}
    (hcount : pageCount ≤ 2 ^ i) : Allocates pools pageCount (allocateLoop n i pools) := by
  rcases h.allocateLoop_cases hn with heq | ⟨b, pools', heq, hpool, hnot, hok, htaken⟩
  · rw [heq]
    exact .none
  rw [heq]
  have hsize : b.finish = b.start + 2 ^ b.pool * pageSize := by
    rw [← Nat.one_shiftLeft]
    rfl
  refine .some hok (start_mod b) (hcount.trans (Nat.pow_le_pow_right (by decide) hpool))
    (fun v hlow hhigh => ?_) fun v hv => ?_
  · have hv : b.Covers v := ⟨hlow, hsize ▸ hhigh⟩
    exact ⟨(covers_iff.1 hv).1, (allocated_iff hv).not.2 hnot⟩
  · obtain ⟨c, hc⟩ := exists_block hv
    have hsame : c = b ↔ b.Covers v := ⟨fun heq => heq ▸ hc, Slabs.Block.eq_of_covers hc⟩
    rw [allocated_iff hc, allocated_iff hc, htaken, hsame, Slabs.Block.Covers, hsize]

/-- Whatever the number of pages, a block that is allocated has at least one, and was not allocated
before. -/
theorem Ok.allocate_some (h : pools.Ok) (pageCount : ℕ) :
    Allocates pools 1 (LargePools.allocate pageCount pools) := by
  rw [LargePools.allocate]
  by_cases hlt : Region.calculateOrder pageCount < largePayloadPoolCount
  · exact h.allocateLoop (by omega) (Nat.two_pow_pos _)
  · rw [Nat.sub_eq_zero_of_le (by omega)]
    exact .none

theorem Allocates.ok {result : Option ℕ × LargePools} {pageCount : ℕ}
    (h : Allocates pools pageCount result) (hpools : pools.Ok) : result.2.Ok := by
  cases h with
  | none => exact hpools
  | some hok => exact hok

theorem Allocates.block {base : ℕ} {pools' : LargePools} {pageCount : ℕ}
    (h : Allocates pools pageCount (Option.some base, pools')) (hcount : 1 ≤ pageCount) :
    InArea base ∧ base % pageSize = 0 := by
  cases h with
  | some _ haligned hsize hfree _ =>
    refine ⟨(hfree base (le_refl base) ?_).1, haligned⟩
    rw [pageSize_eq]
    omega

/-- `free_large_payload_block` gives back the block in which the page of the address lies. -/
theorem Ok.free_of_covers (h : pools.Ok) {b : layout.Block} (hb : b.Covers (pageBase v)) :
    ∃ status pools', LargePools.free v pools = (status, pools') ∧ pools'.Ok ∧
      ∀ c : layout.Block, MemoryPool.Taken pools' c ↔ c ≠ b ∧ MemoryPool.Taken pools c := by
  obtain ⟨⟨hge, hlt⟩, horder, -⟩ := covers_iff.1 hb
  have hend : largePayloadPoolBase + largePayloadPoolCount * payloadPoolSize ≤ 2 ^ 32 := by decide
  have hsub : (pageBase v + 2 ^ 32 - largePayloadPoolBase) % 2 ^ 32 =
      pageBase v - largePayloadPoolBase := by omega
  have hindex : indexOf v = b.pool := by rw [indexOf, hsub, ← horder, order]
  obtain ⟨-, hfits, htaken⟩ := (fits_iff.2 h).freeBlock (fun i => layout_end) hb
  rcases hfree : (pools b.pool).freeBlock (pageBase v) with ⟨status, pool⟩
  rw [hfree] at hfits htaken
  refine ⟨status, _, ?_, fits_iff.1 hfits, htaken⟩
  rw [LargePools.free, hindex, if_pos (count_pos_iff.1 (MemoryPool.count_pos b)), hfree]

/-- **Freeing.** The block the address lies in is not allocated any more; outside of the area,
nothing changes. -/
theorem Ok.free (h : pools.Ok) (hv : v < 2 ^ 32) :
    (free v pools).2.Ok ∧ ∀ w, InArea w →
      ((free v pools).2.Allocated w ↔
        ¬ (InArea (pageBase v) ∧ SameBlock w (pageBase v)) ∧ pools.Allocated w) := by
  by_cases hin : InArea (pageBase v)
  · obtain ⟨b, hb⟩ := exists_block hin
    obtain ⟨status, pools', heq, hok, htaken⟩ := h.free_of_covers hb
    rw [heq]
    refine ⟨hok, fun w hw => ?_⟩
    obtain ⟨c, hc⟩ := exists_block hw
    have hsame : SameBlock w (pageBase v) ↔ c = b := by
      rw [SameBlock, (covers_iff.1 hb).2.1, (covers_iff.1 hb).2.2, (covers_iff.1 hc).2.1,
        (covers_iff.1 hc).2.2, Slabs.Block.ext_iff]
    rw [allocated_iff hc, allocated_iff hc, htaken, hsame]
    simp [hin]
  · have hout : ¬ indexOf v < largePayloadPoolCount := by
      have hbase : pageBase v ≤ v := div_mul_le_self v pageSize
      rw [InArea, show largePayloadPoolBase = 0x20400000 from rfl, show payloadPoolSize = 0x400000 from rfl,
        show largePayloadPoolCount = 8 from rfl] at hin
      rw [indexOf, show largePayloadPoolBase = 0x20400000 from rfl,
        show payloadPoolSize = 0x400000 from rfl, show largePayloadPoolCount = 8 from rfl]
      omega
    rw [LargePools.free, if_neg hout]
    exact ⟨h, fun w _ => by simp [hin]⟩

end LargePools

end Dx.Memory
