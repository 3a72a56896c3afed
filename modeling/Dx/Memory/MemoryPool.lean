import Dx.Memory.PageDirectory

/-!
# Memory pools

`memory_pool.cpp`: addresses that are cut into blocks of one size, and a bitmap of the blocks that are
allocated. A pool only reserves addresses; what is mapped there is the business of the page directory.
-/

namespace Dx.Memory

open MultilevelBitmap

/-- `memory_pool_c`. -/
structure MemoryPool where
  base : ℕ
  blockCount : ℕ
  blockSize : ℕ
  bitmap : Bitmap1024

namespace MemoryPool

def new (base size blockSize : ℕ) : MemoryPool :=
  ⟨base, size / blockSize, blockSize, Bitmap1024.new (size / blockSize)⟩

/-- `allocate_block()`; `none` is `NULL`. -/
def allocateBlock (p : MemoryPool) : Option ℕ × MemoryPool :=
  (if p.bitmap.allocate.1 < p.blockCount then
    some ((p.base + p.bitmap.allocate.1 * p.blockSize) % 2 ^ 32) else none,
    { p with bitmap := p.bitmap.allocate.2 })

/-- The index of a block, in `free_block(block)`. -/
def indexOf (p : MemoryPool) (block : ℕ) : ℕ := (block + 2 ^ 32 - p.base) % 2 ^ 32 / p.blockSize

def freeBlock (p : MemoryPool) (block : ℕ) : Status × MemoryPool :=
  if p.indexOf block < p.bitmap.size then
    (.success, { p with bitmap := p.bitmap.free (p.indexOf block) })
  else (.invalidData, p)

/-- The bits beyond the last block are set, so they are never allocated. -/
structure Ok (p : MemoryPool) : Prop where
  bitmap : p.bitmap.Ok
  size : p.bitmap.size = p.blockCount
  count : p.blockCount ≤ 1024
  beyond : ∀ i < 1024, p.blockCount ≤ i → p.bitmap.isSet i = true

variable {p : MemoryPool} {base size blockSize : ℕ}

theorem size_new (n : ℕ) : (Bitmap1024.new n).size = n := by
  rw [Bitmap1024.new, MultilevelBitmap.new]
  split
  case isTrue => rw [MultilevelBitmap.size_setRange]
  case isFalse => rfl

theorem Ok.new (h : size / blockSize ≤ 1024) : (new base size blockSize).Ok := by
  obtain ⟨hok, hset⟩ := Bitmap1024.new_spec h
  exact ⟨hok, size_new _, h, fun i hi hle => (hset i hi).trans (decide_eq_true hle)⟩

theorem isSet_new (h : size / blockSize ≤ 1024) {i : ℕ} (hi : i < size / blockSize) :
    (new base size blockSize).bitmap.isSet i = false :=
  ((Bitmap1024.new_spec h).2 i (by omega)).trans (decide_eq_false (by omega))

/-- A pool gives out a block that is not allocated, or none when all are. -/
theorem Ok.allocateBlock (h : p.Ok) :
    (p.allocateBlock = (none, p) ∧ ∀ i < p.blockCount, p.bitmap.isSet i = true) ∨
      ∃ i < p.blockCount, p.bitmap.isSet i = false ∧
        p.allocateBlock = (some ((p.base + i * p.blockSize) % 2 ^ 32),
          { p with bitmap := p.bitmap.set i }) := by
  rw [MemoryPool.allocateBlock]
  rcases allocate_spec h.bitmap with ⟨heq, hall⟩ | ⟨hlt, hclear, -, hset⟩
  · have hcount := h.count
    refine .inl ⟨?_, fun i hi => hall i (by omega)⟩
    rw [heq, if_neg (show ¬ 0xFFFFFFFF < p.blockCount by omega)]
  · have hin : p.bitmap.allocate.1 < p.blockCount := by
      by_contra hout
      rw [h.beyond _ hlt (by omega)] at hclear
      cases hclear
    exact .inr ⟨_, hin, hclear, by rw [if_pos hin, hset]⟩

theorem Ok.set (h : p.Ok) {i : ℕ} (hi : i < p.blockCount) :
    ({ p with bitmap := p.bitmap.set i } : MemoryPool).Ok := by
  have hcount := h.count
  refine ⟨h.bitmap.set (by omega), ?_, h.count, fun j hj hle => ?_⟩
  · rw [size_set, h.size]
  · rw [isSet_set (by omega), h.beyond j hj hle, Bool.or_true]

theorem Ok.free (h : p.Ok) {i : ℕ} (hi : i < p.blockCount) :
    ({ p with bitmap := p.bitmap.free i } : MemoryPool).Ok := by
  have hcount := h.count
  refine ⟨h.bitmap.free (by omega), ?_, h.count, fun j hj hle => ?_⟩
  · rw [size_free, h.size]
  · have hle : p.blockCount ≤ j := hle
    rw [isSet_free (by omega), h.beyond j hj hle, decide_eq_false (by omega : ¬ j = i)]
    rfl

/-- The pool of the blocks for medium messages. -/
structure Medium (p : MemoryPool) : Prop where
  ok : p.Ok
  base : p.base = mediumPayloadPoolBase
  blockCount : p.blockCount = 1024
  blockSize : p.blockSize = 256

theorem Medium.new : (MemoryPool.new mediumPayloadPoolBase (256 * 1024) 256).Medium :=
  ⟨.new (by decide), rfl, rfl, rfl⟩

theorem Medium.setBitmap (h : p.Medium) {bitmap : Bitmap1024}
    (hok : ({ p with bitmap := bitmap } : MemoryPool).Ok) :
    ({ p with bitmap := bitmap } : MemoryPool).Medium :=
  ⟨hok, h.base, h.blockCount, h.blockSize⟩

theorem Medium.allocateBlock (h : p.Medium) : p.allocateBlock.2.Medium := by
  rcases h.ok.allocateBlock with ⟨heq, -⟩ | ⟨i, hi, -, heq⟩
  · rw [heq]
    exact h
  · rw [heq]
    exact h.setBitmap (h.ok.set hi)

theorem Medium.freeBlock (h : p.Medium) (block : ℕ) : (p.freeBlock block).2.Medium := by
  rw [MemoryPool.freeBlock]
  generalize p.indexOf block = i
  split
  case isTrue hi =>
    rw [h.ok.size] at hi
    exact h.setBitmap (h.ok.free hi)
  case isFalse => exact h

/-- Its blocks do not straddle pages. -/
theorem Medium.block (h : p.Medium) {v : ℕ} (hv : p.allocateBlock.1 = some v) :
    mediumPayloadPoolBase ≤ v ∧ v < mediumPayloadPoolBase + 256 * 1024 ∧ v % 256 = 0 := by
  have hbase : mediumPayloadPoolBase = 0x20000000 := rfl
  rcases h.ok.allocateBlock with ⟨heq, -⟩ | ⟨i, hi, -, heq⟩
  · rw [heq] at hv
    cases hv
  · rw [heq, h.base, h.blockSize] at hv
    rw [h.blockCount] at hi
    obtain rfl := Option.some.inj hv
    rw [hbase]
    omega

end MemoryPool

end Dx.Memory
