import Dx.Library.Run
import Dx.Memory.FrameManager
import Dx.Memory.Pools
import Dx.Memory.RoundUp

/-!
# The kernel heap

`kernel_heap.cpp`: ten pools, of blocks of 8 bytes up to 8KB, one after the other in the superpage of
the kernel data. A request is rounded up to a power of two and tried in the pool of this block size
and in the larger ones. The heap does not record where a block comes from: `free_block` finds the pool
again from the address, by its alignment and the ranges of the pools.

Along every run the blocks that are out are disjoint, lie in the heap, and are found to be in the pool
they came from (`heap_consistent`). And `heap_block_suits_iff` says which requests get a block of the
size and the alignment that were asked for.
-/

namespace Dx.Memory

open Library

/-! ### The pools -/

/-- The pools of `kernel_heap_c`. -/
inductive HeapPool
  | pool8 | pool16 | pool32 | pool64 | pool128 | pool256 | pool512 | pool1024 | pool4096 | pool8192
deriving DecidableEq

namespace HeapPool

/-- The blocks of the pool have `2 ^ order` bytes. -/
def order : HeapPool → ℕ
  | pool8 => 3
  | pool16 => 4
  | pool32 => 5
  | pool64 => 6
  | pool128 => 7
  | pool256 => 8
  | pool512 => 9
  | pool1024 => 10
  | pool4096 => 12
  | pool8192 => 13

def blockSize (p : HeapPool) : ℕ := 2 ^ p.order

/-- `KERNEL_POOL8_BASE` and so on. -/
def base : HeapPool → ℕ
  | pool8192 => kernelPool8192Base
  | pool1024 => kernelPool8192Base + 16 * 8192
  | pool512 => kernelPool8192Base + 16 * 8192 + 64 * 1024
  | pool256 => kernelPool8192Base + 16 * 8192 + 64 * 1024 + 64 * 512
  | pool128 => kernelPool8192Base + 16 * 8192 + 64 * 1024 + 64 * 512 + 128 * 256
  | pool64 => kernelPool8192Base + 16 * 8192 + 64 * 1024 + 64 * 512 + 128 * 256 + 256 * 128
  | pool32 => kernelPool8192Base + 16 * 8192 + 64 * 1024 + 64 * 512 + 128 * 256 + 256 * 128 + 512 * 64
  | pool16 => kernelPool8192Base + 16 * 8192 + 64 * 1024 + 64 * 512 + 128 * 256 + 256 * 128 +
    512 * 64 + 1024 * 32
  | pool8 => kernelPool8192Base + 16 * 8192 + 64 * 1024 + 64 * 512 + 128 * 256 + 256 * 128 +
    512 * 64 + 1024 * 32 + 1024 * 16
  | pool4096 => kernelPool4096Base

/-- `KERNEL_POOL8_SIZE` and so on. -/
def size : HeapPool → ℕ
  | pool8192 => 16 * 8192
  | pool1024 => 64 * 1024
  | pool512 => 64 * 512
  | pool256 => 128 * 256
  | pool128 => 256 * 128
  | pool64 => 512 * 64
  | pool32 => 1024 * 32
  | pool16 => 1024 * 16
  | pool8 => 1024 * 8
  | pool4096 => kernelDataPage0End - kernelPool4096Base

/-- The address at which the next pool begins, as `find_pool` has it. -/
def limit : HeapPool → ℕ
  | pool8192 => pool1024.base
  | pool4096 => kernelDataPage0End
  | pool1024 => pool512.base
  | pool512 => pool256.base
  | pool256 => pool128.base
  | pool128 => pool64.base
  | pool64 => pool32.base
  | pool32 => pool16.base
  | pool16 => pool8.base
  | pool8 => pool4096.base

end HeapPool

open HeapPool

/-- `kernel_heap_c`. -/
abbrev KernelHeap := HeapPool → MemoryPool

structure HeapBlock where
  pool : HeapPool
  address : ℕ
deriving DecidableEq

namespace KernelHeap

def memoryZero : BitVec 32 := 0x10000000

def readAlignmentFlags (flags : BitVec 32) : BitVec 32 := flags &&& 0x00FFFFFF

def new : KernelHeap := fun p => .new p.base p.size p.blockSize

def allocationSize (size flags : BitVec 32) : BitVec 32 :=
  if 0 < size.toNat then
    roundUp2n (if size.toNat < (readAlignmentFlags flags).toNat then readAlignmentFlags flags else size)
  else 0

/-- The cases of the switch of `allocate_block`, each of which falls through to the next. -/
def poolsFrom (allocationSize : ℕ) : List HeapPool :=
  match allocationSize with
  | 0 | 1 | 2 | 4 | 8 =>
    [pool8, pool16, pool32, pool64, pool128, pool256, pool512, pool1024, pool4096, pool8192]
  | 16 => [pool16, pool32, pool64, pool128, pool256, pool512, pool1024, pool4096, pool8192]
  | 32 => [pool32, pool64, pool128, pool256, pool512, pool1024, pool4096, pool8192]
  | 64 => [pool64, pool128, pool256, pool512, pool1024, pool4096, pool8192]
  | 128 => [pool128, pool256, pool512, pool1024, pool4096, pool8192]
  | 256 => [pool256, pool512, pool1024, pool4096, pool8192]
  | 512 => [pool512, pool1024, pool4096, pool8192]
  | 1024 => [pool1024, pool4096, pool8192]
  | 2048 | 4096 => [pool4096, pool8192]
  | 8192 => [pool8192]
  | _ => []

/-- `allocate_block(size, flags)`, up to the wiping of the block; `none` is `NULL`. -/
def allocateBlock (size flags : BitVec 32) (heap : KernelHeap) : Option HeapBlock × KernelHeap :=
  match MemoryPool.allocateFirst (poolsFrom (allocationSize size flags).toNat) heap with
  | (block, heap) => (block.map fun b => ⟨b.1, b.2⟩, heap)

/-- The number of bytes that `allocate_block(size, flags)` wipes, from the start of the block on. -/
def wiped (size flags : BitVec 32) : ℕ := if flags &&& memoryZero ≠ 0 then size.toNat else 0

/-- The cases of the switch of `find_pool`, each of which falls through to the next. -/
def candidates (alignment : ℕ) : List HeapPool :=
  match alignment with
  | 8192 => [pool8192, pool4096, pool1024, pool512, pool256, pool128, pool64, pool32, pool16, pool8]
  | 4096 => [pool4096, pool1024, pool512, pool256, pool128, pool64, pool32, pool16, pool8]
  | 2048 | 1024 => [pool1024, pool512, pool256, pool128, pool64, pool32, pool16, pool8]
  | 512 => [pool512, pool256, pool128, pool64, pool32, pool16, pool8]
  | 256 => [pool256, pool128, pool64, pool32, pool16, pool8]
  | 128 => [pool128, pool64, pool32, pool16, pool8]
  | 64 => [pool64, pool32, pool16, pool8]
  | 32 => [pool32, pool16, pool8]
  | 16 => [pool16, pool8]
  | 8 => [pool8]
  | _ => []

def findPool (block : ℕ) : Option HeapPool :=
  let b := BitVec.ofNat 32 block
  (candidates (min (b &&& -b).toNat 8192)).find? fun p => decide (p.base ≤ block ∧ block < p.limit)

def freeBlock (block : ℕ) (heap : KernelHeap) : KernelHeap :=
  match findPool block with
  | some p => Function.update heap p ((heap p).freeBlock block).2
  | none => heap

/-! ### The layout -/

def layout : Slabs HeapPool where
  base := base
  blockSize := blockSize
  count p := p.size / p.blockSize
  pos p := Nat.two_pow_pos p.order
  apart := by
    have hall : ∀ p q : HeapPool, p ≠ q →
        p.base + p.size / p.blockSize * p.blockSize ≤ q.base ∨
          q.base + q.size / q.blockSize * q.blockSize ≤ p.base := by
      intro p q
      cases p <;> cases q <;> decide
    exact hall

theorem count_pos (p : HeapPool) : 0 < layout.count p := by
  cases p <;> decide

theorem pool_inside (p : HeapPool) : kernelPool8192Base ≤ layout.base p ∧
    layout.base p + layout.count p * layout.blockSize p ≤ p.limit ∧ p.limit ≤ kernelDataPage0End := by
  cases p <;> decide

theorem layout_end (p : HeapPool) :
    layout.base p + layout.count p * layout.blockSize p ≤ 2 ^ 32 := by
  have hend : kernelDataPage0End ≤ 2 ^ 32 := by decide
  obtain ⟨-, hle, hlimit⟩ := pool_inside p
  omega

theorem fits_new : MemoryPool.Fits layout new where
  ok p _ := MemoryPool.Ok.new (by cases p <;> decide)
  base _ _ := rfl
  blockCount _ _ := rfl
  blockSize _ _ := rfl

theorem not_taken_new (b : layout.Block) : ¬ MemoryPool.Taken new b := by
  have hcount : b.pool.size / b.pool.blockSize ≤ 1024 := by
    cases b.pool <;> decide
  have hclear : (new b.pool).bitmap.isSet b.index = false := MemoryPool.isSet_new hcount b.lt
  rw [MemoryPool.Taken, hclear]
  exact Bool.false_ne_true

/-! ### Finding the pool of a block -/

/-- `b & (-b)` is the lowest bit of `b`. -/
theorem and_neg_eq_bit {x : BitVec 32} (h : findOneBit32 x < 32) : x &&& -x = bit (findOneBit32 x) := by
  rcases findOneBit32_cases x with ⟨hnone, -⟩ | ⟨-, hbit, hbefore⟩
  · rw [hnone] at h
    exact absurd h (by decide)
  · refine BitVec.eq_of_getLsbD_eq fun i hi => ?_
    rw [BitVec.getLsbD_and, BitVec.getLsbD_neg, getLsbD_bit h, decide_eq_true hi]
    rcases Nat.lt_trichotomy i (findOneBit32 x) with hlt | rfl | hgt
    · rw [hbefore i hlt, Bool.false_and, decide_eq_false (Nat.ne_of_lt hlt)]
    · have hnone : ¬ ∃ j < findOneBit32 x, x.getLsbD j = true := by
        rintro ⟨j, hj, hset⟩
        rw [hbefore j hj] at hset
        cases hset
      rw [hbit, decide_eq_false hnone]
      simp
    · have hsome : ∃ j < i, x.getLsbD j = true := ⟨_, hgt, hbit⟩
      rw [decide_eq_true hsome, decide_eq_false (Nat.ne_of_gt hgt)]
      cases x.getLsbD i <;> rfl

/-- The lowest bit of a multiple of a power of two. -/
theorem le_findOneBit32 {v o : ℕ} (hpos : 0 < v) (hlt : v < 2 ^ 32) (hdvd : 2 ^ o ∣ v) :
    findOneBit32 (.ofNat 32 v) < 32 ∧ o ≤ findOneBit32 (.ofNat 32 v) := by
  rcases findOneBit32_cases (.ofNat 32 v) with ⟨-, hall⟩ | ⟨hlt32, hbit, -⟩
  · have hzero : BitVec.ofNat 32 v = 0#32 := BitVec.eq_of_getLsbD_eq fun i hi => by
      rw [hall i hi, BitVec.getLsbD_zero]
    have hnat := congrArg BitVec.toNat hzero
    rw [BitVec.toNat_ofNat, Nat.mod_eq_of_lt hlt] at hnat
    exact absurd hnat (Nat.ne_of_gt hpos)
  · refine ⟨hlt32, ?_⟩
    by_contra hless
    obtain ⟨m, hm⟩ := hdvd
    have hclear : v.testBit (findOneBit32 (.ofNat 32 v)) = false := by
      generalize findOneBit32 (.ofNat 32 v) = i at hless
      rw [hm, Nat.testBit_two_pow_mul, decide_eq_false (by omega), Bool.false_and]
    rw [BitVec.getLsbD_ofNat, hclear, Bool.and_false] at hbit
    cases hbit

theorem blockSize_dvd_start (b : layout.Block) : 2 ^ b.pool.order ∣ b.start := by
  have hbase : ∀ p : HeapPool, 2 ^ p.order ∣ p.base := by
    intro p
    cases p <;> decide
  exact Nat.dvd_add (hbase b.pool) (Nat.dvd_mul_left _ _)

theorem mem_candidates (p : HeapPool) : ∀ e < 32, p.order ≤ e → p ∈ candidates (min (2 ^ e) 8192) := by
  cases p <;> decide

theorem eq_of_between {p q : HeapPool} {v : ℕ} (hp : p.base ≤ v ∧ v < p.limit)
    (hq : q.base ≤ v ∧ v < q.limit) : p = q := by
  have hapart : ∀ p q : HeapPool, p ≠ q → p.limit ≤ q.base ∨ q.limit ≤ p.base := by
    intro p q
    cases p <;> cases q <;> decide
  by_contra hne
  have := hapart p q hne
  omega

theorem findPool_start (b : layout.Block) : findPool b.start = some b.pool := by
  have hrange : b.pool.base ≤ b.start ∧ b.start < b.pool.limit := by
    have hbase := b.base_le_start
    have hfinish := b.finish_le
    have hstart := b.covers_start.2
    obtain ⟨-, hle, -⟩ := pool_inside b.pool
    exact ⟨hbase, by omega⟩
  have hlt : b.start < 2 ^ 32 := by
    have hend := layout_end b.pool
    obtain ⟨-, hle, -⟩ := pool_inside b.pool
    have hfinish := b.finish_le
    have hstart := b.covers_start.2
    omega
  have hpos : 0 < b.start := by
    have hheap : 0 < kernelPool8192Base := by decide
    have hbase := b.base_le_start
    obtain ⟨hle, -⟩ := pool_inside b.pool
    omega
  have hlow := le_findOneBit32 hpos hlt (blockSize_dvd_start b)
  have halign : (BitVec.ofNat 32 b.start &&& -(BitVec.ofNat 32 b.start)).toNat =
      2 ^ findOneBit32 (.ofNat 32 b.start) := by
    rw [and_neg_eq_bit hlow.1, bit, BitVec.toNat_shiftLeft, Nat.shiftLeft_eq]
    have hpow : 2 ^ findOneBit32 (.ofNat 32 b.start) < 2 ^ 32 :=
      Nat.pow_lt_pow_right (by decide) hlow.1
    rw [show (1#32).toNat = 1 from rfl, Nat.one_mul, Nat.mod_eq_of_lt hpow]
  unfold findPool
  dsimp only
  rw [halign]
  have hmem := mem_candidates b.pool _ hlow.1 hlow.2
  cases hfind : (candidates (min (2 ^ findOneBit32 (.ofNat 32 b.start)) 8192)).find?
      fun p => decide (p.base ≤ b.start ∧ b.start < p.limit) with
  | none =>
    have hnone := List.find?_eq_none.1 hfind b.pool hmem
    exact absurd (decide_eq_true hrange) hnone
  | some q =>
    have hq := List.find?_some hfind
    rw [decide_eq_true_eq] at hq
    rw [eq_of_between hrange hq]

def toHeapBlock (b : layout.Block) : HeapBlock := ⟨b.pool, b.start⟩

/-- There is a block at the address, and it can be allocated. -/
def Available (heap : KernelHeap) (v : ℕ) : Prop :=
  ∃ b : layout.Block, b.start = v ∧ ¬ MemoryPool.Taken heap b

variable {heap heap' : KernelHeap} {size flags : BitVec 32}

theorem allocateBlock_cases (h : MemoryPool.Fits layout heap) (size flags : BitVec 32) :
    (allocateBlock size flags heap = (none, heap)) ∨
      ∃ (b : layout.Block) (heap' : KernelHeap),
        allocateBlock size flags heap = (some (toHeapBlock b), heap') ∧
        b.pool ∈ poolsFrom (allocationSize size flags).toNat ∧ ¬ MemoryPool.Taken heap b ∧
        MemoryPool.Fits layout heap' ∧
        ∀ c : layout.Block, MemoryPool.Taken heap' c ↔ c = b ∨ MemoryPool.Taken heap c := by
  have hspec := h.allocateFirst (fun p _ => layout_end p) (l := poolsFrom (allocationSize size flags).toNat)
    fun p _ => count_pos p
  unfold allocateBlock
  generalize MemoryPool.allocateFirst (poolsFrom (allocationSize size flags).toNat) heap = result
    at hspec
  cases hspec with
  | none => exact .inl rfl
  | some hmem hnot hfits htaken => exact .inr ⟨_, _, rfl, hmem, hnot, hfits, htaken⟩

theorem freeBlock_spec (h : MemoryPool.Fits layout heap) (b : layout.Block) :
    MemoryPool.Fits layout (freeBlock b.start heap) ∧
      ∀ c : layout.Block, MemoryPool.Taken (freeBlock b.start heap) c ↔
        c ≠ b ∧ MemoryPool.Taken heap c := by
  obtain ⟨-, hfits, htaken⟩ := h.freeBlock (fun p _ => layout_end p) b.covers_start
  rw [freeBlock, findPool_start]
  exact ⟨hfits, htaken⟩

theorem available_free (h : MemoryPool.Fits layout heap) (b : layout.Block) (v : ℕ) :
    Available (freeBlock b.start heap) v ↔ v = b.start ∨ Available heap v := by
  have htaken := (freeBlock_spec h b).2
  constructor
  · rintro ⟨c, rfl, hc⟩
    rw [htaken, not_and_or, not_not] at hc
    rcases hc with rfl | hc
    · exact .inl rfl
    · exact .inr ⟨c, rfl, hc⟩
  · rintro (rfl | ⟨c, rfl, hc⟩)
    · exact ⟨b, rfl, fun ht => ((htaken b).1 ht).1 rfl⟩
    · exact ⟨c, rfl, fun ht => hc ((htaken c).1 ht).2⟩

theorem available_allocate {b : layout.Block}
    (htaken : ∀ c : layout.Block, MemoryPool.Taken heap' c ↔ c = b ∨ MemoryPool.Taken heap c) (v : ℕ) :
    Available heap' v ↔ v ≠ b.start ∧ Available heap v := by
  constructor
  · rintro ⟨c, rfl, hc⟩
    rw [htaken, not_or] at hc
    exact ⟨fun heq => hc.1 (Slabs.Block.start_injective heq), c, rfl, hc.2⟩
  · rintro ⟨hne, c, rfl, hc⟩
    refine ⟨c, rfl, ?_⟩
    rw [htaken, not_or]
    exact ⟨fun heq => hne (heq ▸ rfl), hc⟩

end KernelHeap

/-! ### Runs -/

structure HeapState where
  heap : KernelHeap
  live : List HeapBlock

inductive HeapAction
  | allocate (size flags : BitVec 32)
  | free (block : ℕ)
deriving DecidableEq

namespace HeapState

open KernelHeap

/-- At the beginning all blocks are in the heap. -/
def initial : HeapState := ⟨KernelHeap.new, []⟩

/-- One request; only a block that is out is freed. -/
def step (s : HeapState) : HeapAction → Option HeapState
  | .allocate size flags =>
    match allocateBlock size flags s.heap with
    | (block, heap) => some ⟨heap, block.toList ++ s.live⟩
  | .free block =>
    if block ∈ s.live.map HeapBlock.address then
      some ⟨freeBlock block s.heap, s.live.filter fun b => b.address ≠ block⟩
    else none

/-- The list has exactly the blocks that are taken. -/
structure Sound (s : HeapState) : Prop where
  fits : MemoryPool.Fits layout s.heap
  live : ∃ blocks : List layout.Block, s.live = blocks.map toHeapBlock ∧
    Slabs.Tracks (MemoryPool.Taken s.heap) blocks

variable {s t : HeapState} {a : HeapAction}

theorem sound_initial : initial.Sound := ⟨fits_new, [], rfl, .nil not_taken_new⟩

theorem Sound.step (h : s.Sound) (hstep : s.step a = some t) : t.Sound := by
  obtain ⟨hfits, blocks, hlive, htracks⟩ := h
  cases a with
  | allocate size flags =>
    rw [HeapState.step] at hstep
    rcases allocateBlock_cases hfits size flags with heq | ⟨b, heap', heq, -, hnot, hfits', htaken⟩
    · rw [heq] at hstep
      obtain rfl := Option.some.inj hstep
      exact ⟨hfits, blocks, hlive, htracks⟩
    · rw [heq] at hstep
      obtain rfl := Option.some.inj hstep
      refine ⟨hfits', b :: blocks, ?_, htracks.cons hnot htaken⟩
      rw [List.map_cons, ← hlive]
      rfl
  | free block =>
    rw [HeapState.step] at hstep
    obtain ⟨hmem, hstep⟩ := Option.ite_none_right_eq_some.1 hstep
    obtain rfl := Option.some.inj hstep
    rw [hlive, List.map_map, List.mem_map] at hmem
    obtain ⟨b, -, rfl⟩ := hmem
    obtain ⟨hfits', htaken⟩ := freeBlock_spec hfits b
    refine ⟨hfits', blocks.filter fun c => c.start ≠ b.start, ?_, htracks.filter fun c => ?_⟩
    · rw [hlive, List.filter_map]
      rfl
    · have heq : c = b ↔ c.start = b.start :=
        ⟨fun h => h ▸ rfl, Slabs.Block.start_injective⟩
      show MemoryPool.Taken (freeBlock b.start s.heap) c ↔ _
      rw [htaken, ne_eq, heq, decide_eq_true_eq]

theorem sound_of_run (h : Run step Always initial s) : s.Sound :=
  h.invariant sound_initial fun hs _ hstep => hs.step hstep

theorem Sound.exists_block (h : s.Sound) {b : HeapBlock} (hb : b ∈ s.live) :
    ∃ c : layout.Block, toHeapBlock c = b := by
  obtain ⟨-, blocks, hlive, -⟩ := h
  rw [hlive] at hb
  obtain ⟨c, -, hc⟩ := List.mem_map.1 hb
  exact ⟨c, hc⟩

end HeapState

/-- The addresses of a block, which is as large as its pool's blocks are. -/
def HeapBlock.Covers (b : HeapBlock) (v : ℕ) : Prop :=
  b.address ≤ v ∧ v < b.address + b.pool.blockSize

namespace HeapState

open KernelHeap

variable {s : HeapState}

/-- **Consistency of the heap.** In every state that is reached, the blocks that are out have no
address in common, lie in the heap, and are found in the pool they came from. Allocating takes one
block that was available, and freeing one that is out makes this block available and no other. -/
theorem heap_consistent (h : Run step Always initial s) :
    s.live.Pairwise (fun b c => ∀ v, ¬ (b.Covers v ∧ c.Covers v)) ∧
    (∀ b ∈ s.live, kernelPool8192Base ≤ b.address ∧
      b.address + b.pool.blockSize ≤ kernelDataPage0End ∧ findPool b.address = some b.pool) ∧
    (∀ size flags b heap', allocateBlock size flags s.heap = (some b, heap') →
      Available s.heap b.address ∧
      ∀ v, Available heap' v ↔ v ≠ b.address ∧ Available s.heap v) ∧
    ∀ b ∈ s.live, ∀ v, Available (freeBlock b.address s.heap) v ↔
      v = b.address ∨ Available s.heap v := by
  have hsound := sound_of_run h
  refine ⟨?_, fun b hb => ?_, fun size flags b heap' halloc => ?_, fun b hb v => ?_⟩
  · obtain ⟨-, blocks, hlive, htracks⟩ := hsound
    rw [hlive, List.pairwise_map]
    exact htracks.pairwise
  · obtain ⟨c, rfl⟩ := hsound.exists_block hb
    obtain ⟨hbase, hend, hlimit⟩ := pool_inside c.pool
    have hstart := c.base_le_start
    have hfinish : c.start + c.pool.blockSize ≤ _ := c.finish_le
    exact ⟨hbase.trans hstart, hfinish.trans (hend.trans hlimit), findPool_start c⟩
  · rcases allocateBlock_cases hsound.fits size flags with heq | ⟨c, heap'', heq, -, hnot, -, htaken⟩
    · rw [heq] at halloc
      cases halloc
    · rw [heq] at halloc
      obtain ⟨rfl, rfl⟩ := Prod.mk.inj halloc |>.imp Option.some.inj id
      exact ⟨⟨c, rfl, hnot⟩, available_allocate htaken⟩
  · obtain ⟨c, rfl⟩ := hsound.exists_block hb
    exact available_free hsound.fits c v

/-- Blocks for 100 and for 5000 bytes, and the first one freed: the second one is still out. -/
theorem heap_consistent_second : ∃ s ∈ runActions step initial
      [.allocate 100 4, .allocate 5000 4, .free 0x848000],
    s.live = [⟨pool8192, 0x808000⟩] ∧
    s.live.Pairwise (fun b c => ∀ v, ¬ (b.Covers v ∧ c.Covers v)) := by
  have heval : ∃ s ∈ runActions step initial [.allocate 100 4, .allocate 5000 4, .free 0x848000],
      s.live = [⟨pool8192, 0x808000⟩] := by
    decide +kernel
  obtain ⟨s, hs, hlive⟩ := heval
  exact ⟨s, hs, hlive, (heap_consistent (run_of_runActions _ hs)).1⟩

end HeapState

/-! ### Sizes and alignments -/

namespace KernelHeap

variable {size flags : BitVec 32}

theorem le_blockSize_of_mem {n : ℕ} {p : HeapPool} (h : p ∈ poolsFrom n) : n ≤ p.blockSize := by
  revert h
  unfold poolsFrom
  split
  case h_16 => exact fun h => absurd h List.not_mem_nil
  all_goals cases p <;> decide

theorem toNat_allocationSize (hpos : 0 < size.toNat) (hsize : size.toNat ≤ 2 ^ 31) :
    size.toNat ≤ (allocationSize size flags).toNat ∧
      (readAlignmentFlags flags).toNat ≤ (allocationSize size flags).toNat := by
  have halign : (readAlignmentFlags flags).toNat ≤ 2 ^ 31 := by
    rw [readAlignmentFlags, BitVec.toNat_and]
    exact Nat.and_le_right.trans (by decide)
  rw [allocationSize, if_pos hpos]
  split
  case isTrue hlt =>
    have hle := le_roundUp2n (Nat.zero_lt_of_lt hlt) halign
    exact ⟨by omega, hle⟩
  case isFalse hge =>
    have hle := le_roundUp2n hpos hsize
    exact ⟨hle, by omega⟩

/-- Beyond 2^31 a block of the smallest size is taken. -/
theorem allocationSize_eq_zero (hsize : 2 ^ 31 < size.toNat) : allocationSize size flags = 0 := by
  rw [allocationSize, if_pos (Nat.zero_lt_of_lt hsize)]
  split
  case isTrue hlt => exact roundUp2n_eq_zero (hsize.trans hlt)
  case isFalse => exact roundUp2n_eq_zero hsize

/-- The address is a multiple of every alignment among the flags. -/
def Aligned (flags : BitVec 32) (v : ℕ) : Prop :=
  ∀ k, (readAlignmentFlags flags).getLsbD k = true → 2 ^ k ∣ v

/-- The block has the size and the alignment that were asked for, and no byte beyond it is wiped. -/
structure Suits (size flags : BitVec 32) (b : HeapBlock) : Prop where
  large : size.toNat ≤ b.pool.blockSize
  within : wiped size flags ≤ b.pool.blockSize
  aligned : Aligned flags b.address

/-- The requests that are always met. -/
def Regular (size flags : BitVec 32) : Prop :=
  size.toNat ≤ 2 ^ 31 ∧
    (size.toNat = 0 → ∀ k, (readAlignmentFlags flags).getLsbD k = true → k ≤ 3)

theorem two_pow_le_of_getLsbD {x : BitVec 32} {k : ℕ} (h : x.getLsbD k = true) : 2 ^ k ≤ x.toNat :=
  Nat.ge_two_pow_of_testBit h

theorem suits_of_regular (h : Regular size flags) {b : layout.Block}
    (hb : b.pool ∈ poolsFrom (allocationSize size flags).toNat) :
    Suits size flags (toHeapBlock b) := by
  obtain ⟨hsize, hzero⟩ := h
  have hle := le_blockSize_of_mem hb
  have hfits : size.toNat ≤ b.pool.blockSize := by
    rcases Nat.eq_zero_or_pos size.toNat with h0 | hpos
    · omega
    · exact (toNat_allocationSize hpos hsize).1.trans hle
  have horder : ∀ k, (readAlignmentFlags flags).getLsbD k = true → k ≤ b.pool.order := by
    intro k hk
    rcases Nat.eq_zero_or_pos size.toNat with h0 | hpos
    · have hmin : ∀ p : HeapPool, 3 ≤ p.order := by
        intro p
        cases p <;> decide
      exact (hzero h0 k hk).trans (hmin b.pool)
    · have hpow : 2 ^ k ≤ 2 ^ b.pool.order := by
        calc 2 ^ k ≤ (readAlignmentFlags flags).toNat := two_pow_le_of_getLsbD hk
          _ ≤ (allocationSize size flags).toNat := (toNat_allocationSize hpos hsize).2
          _ ≤ 2 ^ b.pool.order := hle
      exact (Nat.pow_le_pow_iff_right (by decide)).1 hpow
  refine ⟨hfits, ?_, fun k hk => ?_⟩
  · rw [wiped]
    split
    · exact hfits
    · exact Nat.zero_le _
  · exact (Nat.pow_dvd_pow 2 (horder k hk)).trans (blockSize_dvd_start b)

end KernelHeap

namespace HeapState

open KernelHeap

/-- **Sizes and alignments.** In every state that is reached a request gets a block of its size and
alignment, if it gets one at all, exactly when the size is at most 2^31 and a request for no bytes has
no alignment beyond 8. -/
theorem heap_block_suits_iff (size flags : BitVec 32) :
    (∀ s, Run step Always initial s → ∀ b heap',
      allocateBlock size flags s.heap = (some b, heap') → Suits size flags b) ↔
    Regular size flags := by
  constructor
  · intro h
    have hfirst : (MemoryPool.allocateFirst (poolsFrom 0) initial.heap).1 =
        some (pool8, 0x864000) := by
      decide +kernel
    refine ⟨?_, fun hzero k hk => ?_⟩
    · by_contra hlarge
      have hblock : allocateBlock size flags initial.heap = (some ⟨pool8, 0x864000⟩,
          (MemoryPool.allocateFirst (poolsFrom 0) initial.heap).2) := by
        rw [allocateBlock, allocationSize_eq_zero (Nat.lt_of_not_le hlarge)]
        exact Prod.ext (congrArg (Option.map fun b => HeapBlock.mk b.1 b.2) hfirst) rfl
      have hsize : size.toNat ≤ 8 := (h _ .refl _ _ hblock).large
      omega
    · -- the second block of the smallest pool is aligned to 8 bytes only
      have hsecond : ∃ s ∈ runActions step initial [.allocate 1 0],
          (MemoryPool.allocateFirst (poolsFrom 0) s.heap).1 = some (pool8, 0x864008) := by
        decide +kernel
      obtain ⟨s, hs, hblock⟩ := hsecond
      have halloc : allocateBlock size flags s.heap = (some ⟨pool8, 0x864008⟩,
          (MemoryPool.allocateFirst (poolsFrom 0) s.heap).2) := by
        rw [allocateBlock, allocationSize, if_neg (by omega)]
        exact Prod.ext (congrArg (Option.map fun b => HeapBlock.mk b.1 b.2) hblock) rfl
      have hdvd : 2 ^ k ∣ 0x864008 := (h s (run_of_runActions _ hs) _ _ halloc).aligned k hk
      by_contra hgt
      have h16 : 2 ^ 4 ∣ 0x864008 := (Nat.pow_dvd_pow 2 (by omega)).trans hdvd
      exact absurd h16 (by decide)
  · intro h s hrun b heap' halloc
    rcases allocateBlock_cases (sound_of_run hrun).fits size flags with
      heq | ⟨c, heap'', heq, hmem, -⟩
    · rw [heq] at halloc
      cases halloc
    · rw [heq] at halloc
      obtain ⟨hb, -⟩ := Prod.mk.inj halloc
      obtain rfl := Option.some.inj hb
      exact suits_of_regular h hmem

/-- A request for 2^31 + 1 bytes gets a block of 8 bytes; and so does a request for no bytes on a
boundary of 16, at an address that is not on one. -/
theorem not_heap_block_suits :
    (allocateBlock 0x80000001 0x10000004 initial.heap).1 = some ⟨pool8, 0x864000⟩ ∧
    wiped 0x80000001 0x10000004 = 0x80000001 ∧
    ∃ s ∈ runActions step initial [.allocate 1 4],
      (allocateBlock 0 0x10 s.heap).1 = some ⟨pool8, 0x864008⟩ ∧ 0x864008 % 0x10 ≠ 0 := by
  decide +kernel

end HeapState

end Dx.Memory
