import Dx.Library.Buddy
import Dx.Library.Run
import Dx.Library.Update
import Dx.Memory.Bitmap

/-!
# Page frame regions

`page_frame_region_c`: a region of 1024 page frames, managed by a buddy allocator. There is a bitmap
of free blocks for each of the orders 0 to 6; a bit that is clear stands for a free block, and the
index of the bit is that of one of the frames of the block.

It need not be the first: `join` gives the block it makes of two buddies the index of the one that
was freed last. So a free block is the cell around its index (`Region.block`, `Tiling`), and it
starts at its index only if it was never joined from its upper half. `allocate_block` however hands
out the frames from the index on. With blocks of one frame that makes no difference; a larger block
may be handed out that is not all free, or that ends outside of the region (`not_blocks_disjoint`).
-/

namespace Dx.Memory

open Library Function List

def pageSize : ℕ := 4096
def invalidFrame : ℕ := 0
def frameCountPerRegion : ℕ := 1024
def regionSize : ℕ := pageSize * frameCountPerRegion
/-- `MAX_BLOCK_ORDER`: the number of orders. -/
def maxBlockOrder : ℕ := 7
def maxBlockSize : ℕ := 1 <<< (maxBlockOrder - 1)

theorem pageSize_eq : pageSize = 4096 := rfl

/-- `page_frame_region_c`: the pools are those below `maxBlockOrder`. -/
structure Region where
  /-- `base`: the physical address of the region. -/
  base : ℕ
  /-- `pool`: for each order, the frames at which no free block is kept. -/
  pool : ℕ → Bitmap1024

namespace Region

def calculateBuddyIndex (frameIndex order : ℕ) : ℕ := frameIndex ^^^ (1 <<< order)

def calculateOrder (frameCount : ℕ) : ℕ := findOneBit32 (roundUp2n (.ofNat 32 frameCount))

/-- `pool[order] = bitmap`. -/
def setPool (order : ℕ) (bitmap : Bitmap1024) (r : Region) : Region :=
  { r with pool := Function.update r.pool order bitmap }

/-- `pool[order].free(index)`. -/
def freeBit (order index : ℕ) (r : Region) : Region :=
  r.setPool order ((r.pool order).free index)

/-- `pool[order].set(index)`. -/
def setBit (order index : ℕ) (r : Region) : Region := r.setPool order ((r.pool order).set index)

/-- `page_frame_region_c(region_base)`. -/
def new (base : ℕ) : Region :=
  (List.range (frameCountPerRegion / maxBlockSize)).foldl
    (fun r i => r.freeBit (maxBlockOrder - 1) (i * maxBlockSize))
    ⟨base, fun _ => (Bitmap1024.new 1024).setRange 0 frameCountPerRegion⟩

/-- The loop of `split`, with `n` orders left. -/
def splitLoop (frameIndex requestedOrder : ℕ) : ℕ → Region → Region
  | 0, r => r
  | n + 1, r => splitLoop frameIndex requestedOrder n
      (r.freeBit (requestedOrder + n) (calculateBuddyIndex frameIndex (requestedOrder + n)))

def split (frameIndex requestedOrder actualOrder : ℕ) (r : Region) : Region :=
  r.splitLoop frameIndex requestedOrder (actualOrder - requestedOrder)

/-- The loop of `join`, with `n` orders left. -/
def joinLoop (frameIndex : ℕ) : ℕ → ℕ → Region → Region
  | 0, _, r => r
  | n + 1, order, r =>
    if (r.pool order).isSet (calculateBuddyIndex frameIndex order) = false then
      joinLoop frameIndex n (order + 1)
        (((r.setBit order frameIndex).setBit order (calculateBuddyIndex frameIndex order)).freeBit
          (order + 1) frameIndex)
    else r

def join (frameIndex order : ℕ) (r : Region) : Region :=
  r.joinLoop frameIndex (maxBlockOrder - 1 - order) order

/-- The loop of `allocate_block`, with `n` pools left. -/
def allocateLoop (order : ℕ) : ℕ → Region → ℕ × Region
  | 0, r => (invalidFrame, r)
  | n + 1, r =>
    let i := maxBlockOrder - (n + 1)
    let found := (r.pool i).allocate
    let r := r.setPool i found.2
    if found.1 < frameCountPerRegion then
      (r.base + found.1 * pageSize, if order < i then r.split found.1 order i else r)
    else allocateLoop order n r

def allocateBlock (frameCount : ℕ) (r : Region) : ℕ × Region :=
  r.allocateLoop (calculateOrder frameCount) (maxBlockOrder - calculateOrder frameCount)

def freeBlock (frame frameCount : ℕ) (r : Region) : Region :=
  let frameIndex := (frame - r.base) / pageSize
  let order := calculateOrder frameCount
  (r.freeBit order frameIndex).join frameIndex order

/-! ### The free blocks -/

/-- There is a free block of order `k` around the frame `i`. -/
def block (r : Region) (k i : ℕ) : Prop :=
  k < maxBlockOrder ∧ i < frameCountPerRegion ∧ (r.pool k).isSet i = false

/-- The block that a request of order `m` is served from: the first one of the smallest order that is
large enough. -/
structure Picks (r : Region) (m k i : ℕ) : Prop where
  order : m ≤ k
  block : r.block k i
  least : ∀ l j, m ≤ l → l < k → ¬ r.block l j
  first : ∀ j < i, ¬ r.block k j

/-- The bitmaps are in order. -/
def Ok (r : Region) : Prop := ∀ k < maxBlockOrder, (r.pool k).Ok

variable {r : Region} {k l i j n m : ℕ} {free : ℕ → Prop}

theorem Picks.unique (h : r.Picks m k i) (h' : r.Picks m l j) : k = l ∧ i = j := by
  have hle : ∀ {k l i j}, r.Picks m k i → r.Picks m l j → k ≤ l := fun h h' =>
    Nat.le_of_not_lt fun hlt => h.least _ _ h'.order hlt h'.block
  obtain rfl : k = l := Nat.le_antisymm (hle h h') (hle h' h)
  have hge : ∀ {i j}, r.Picks m k i → r.Picks m k j → i ≤ j := fun h h' =>
    Nat.le_of_not_lt fun hlt => h.first _ hlt h'.block
  exact ⟨rfl, Nat.le_antisymm (hge h h') (hge h' h)⟩

theorem Ok.setPool {b : Bitmap1024} (h : r.Ok) (hb : b.Ok) : (r.setPool k b).Ok :=
  fun l hl => update_intro (fun _ => hb) fun _ => h l hl

theorem Ok.freeBit (h : r.Ok) (hk : k < maxBlockOrder) (hi : i < frameCountPerRegion) :
    (r.freeBit k i).Ok :=
  h.setPool ((h k hk).free hi)

theorem Ok.setBit (h : r.Ok) (hk : k < maxBlockOrder) (hi : i < frameCountPerRegion) :
    (r.setBit k i).Ok :=
  h.setPool ((h k hk).set hi)

theorem block_freeBit (hk : k < maxBlockOrder) (hi : i < frameCountPerRegion) :
    (r.freeBit k i).block l j ↔ r.block l j ∨ l = k ∧ j = i := by
  show l < _ ∧ j < _ ∧ (update r.pool k _ l).isSet j = false ↔ _
  by_cases hlk : l = k
  · subst hlk
    rw [update_self, MultilevelBitmap.isSet_free hi, block]
    by_cases hji : j = i <;> simp [hji, hk, hi]
  · rw [update_of_ne hlk, block]
    simp [hlk]

theorem block_setBit (hi : i < frameCountPerRegion) :
    (r.setBit k i).block l j ↔ r.block l j ∧ ¬ (l = k ∧ j = i) := by
  show l < _ ∧ j < _ ∧ (update r.pool k _ l).isSet j = false ↔ _
  by_cases hlk : l = k
  · subst hlk
    rw [update_self, MultilevelBitmap.isSet_set hi, block]
    by_cases hji : j = i <;> simp [hji]
  · rw [update_of_ne hlk, block]
    simp [hlk]

theorem calculateBuddyIndex_eq (i k : ℕ) : calculateBuddyIndex i k = i ^^^ 2 ^ k := by
  rw [calculateBuddyIndex, Nat.one_shiftLeft]

theorem calculateBuddyIndex_lt (hk : k < maxBlockOrder) (hi : i < frameCountPerRegion) :
    calculateBuddyIndex i k < frameCountPerRegion := by
  have hk : k < 10 := Nat.lt_trans hk (by decide)
  rw [calculateBuddyIndex_eq]
  exact buddy_lt hi hk

/-- The order is that of the smallest block that is large enough. -/
theorem calculateOrder_spec (h1 : 1 ≤ n) (hn : n ≤ maxBlockSize) :
    calculateOrder n < maxBlockOrder ∧ n ≤ 2 ^ calculateOrder n := by
  have hall : ∀ n < 65, 1 ≤ n → calculateOrder n < maxBlockOrder ∧ n ≤ 2 ^ calculateOrder n := by
    decide +kernel
  have hn : n ≤ 64 := hn
  exact hall n (by omega) h1

theorem calculateOrder_one : calculateOrder 1 = 0 := by decide +kernel

/-! ### What the operations do to the free blocks -/

theorem base_splitLoop (i m n : ℕ) (r : Region) : (r.splitLoop i m n).base = r.base := by
  induction n generalizing r with
  | zero => rfl
  | succ n ih => exact ih _

theorem base_joinLoop (i n k : ℕ) (r : Region) : (r.joinLoop i n k).base = r.base := by
  induction n generalizing r k with
  | zero => rfl
  | succ n ih =>
    rw [joinLoop]
    split
    · exact ih _ _
    · rfl

theorem Ok.splitLoop (h : r.Ok) (hi : i < frameCountPerRegion) (hn : m + n ≤ maxBlockOrder) :
    (r.splitLoop i m n).Ok := by
  induction n generalizing r with
  | zero => exact h
  | succ n ih =>
    have hk : m + n < maxBlockOrder := by omega
    exact ih (h.freeBit hk (calculateBuddyIndex_lt hk hi)) (by omega)

/-- A block of order `m + n` has been taken, and the buddies of its lower orders are given back. -/
theorem tiling_splitLoop (ht : Tiling r.block fun x => free x ∧ ¬ Cell (m + n) i x)
    (hfree : ∀ x, Cell (m + n) i x → free x) (hi : i < frameCountPerRegion)
    (hn : m + n ≤ maxBlockOrder) :
    Tiling (r.splitLoop i m n).block fun x => free x ∧ ¬ Cell m i x := by
  induction n generalizing r with
  | zero => exact ht
  | succ n ih =>
    have hk : m + n < maxBlockOrder := by omega
    have hb := calculateBuddyIndex_lt hk hi
    have ht : Tiling r.block fun x => free x ∧ ¬ Cell (m + n + 1) i x := ht
    refine ih ?_ (fun x hx => hfree x (hx.mono (by omega))) (by omega)
    refine (ht.giveBuddy hfree).congr (fun l j => ?_) fun _ => Iff.rfl
    rw [block_freeBit hk hb, calculateBuddyIndex_eq]

theorem block_join (hb : r.block k i) (hk : k + 1 < maxBlockOrder) :
    (((r.setBit k i).setBit k (calculateBuddyIndex i k)).freeBit (k + 1) i).block l j ↔
      (r.block l j ∧ ¬ (l = k ∧ (j = i ∨ j = i ^^^ 2 ^ k))) ∨ l = k + 1 ∧ j = i := by
  obtain ⟨hlt, hi, -⟩ := hb
  rw [block_freeBit hk hi, block_setBit (calculateBuddyIndex_lt hlt hi), block_setBit hi,
    calculateBuddyIndex_eq]
  tauto

theorem Ok.joinLoop (h : r.Ok) (hi : i < frameCountPerRegion) (hn : k + n < maxBlockOrder) :
    (r.joinLoop i n k).Ok := by
  induction n generalizing r k with
  | zero => exact h
  | succ n ih =>
    have hk : k < maxBlockOrder := by omega
    rw [Region.joinLoop]
    split
    case isTrue =>
      have hset := (h.setBit hk hi).setBit hk (calculateBuddyIndex_lt hk hi)
      exact ih (hset.freeBit (by omega) hi) (by omega)
    case isFalse => exact h

theorem block_buddy (hb : r.block k i) :
    (r.pool k).isSet (calculateBuddyIndex i k) = false ↔ r.block k (i ^^^ 2 ^ k) := by
  rw [← calculateBuddyIndex_eq]
  exact ⟨fun hset => ⟨hb.1, calculateBuddyIndex_lt hb.1 hb.2.1, hset⟩, fun hbuddy => hbuddy.2.2⟩

/-- Joining buddies changes the blocks, and not what is free. -/
theorem tiling_joinLoop (ht : Tiling r.block free) (hb : r.block k i) (hn : k + n < maxBlockOrder) :
    Tiling (r.joinLoop i n k).block free := by
  induction n generalizing r k with
  | zero => exact ht
  | succ n ih =>
    rw [joinLoop]
    split
    case isTrue hset =>
      have hk : k + 1 < maxBlockOrder := by omega
      refine ih ?_ ((block_join hb hk).2 (.inr ⟨rfl, rfl⟩)) (by omega)
      exact (ht.join hb ((block_buddy hb).1 hset)).congr (fun _ _ => block_join hb hk) fun _ => Iff.rfl
    case isFalse => exact ht

theorem index_of_base (r : Region) (i : ℕ) : (r.base + i * pageSize - r.base) / pageSize = i := by
  rw [Nat.add_sub_cancel_left, Nat.mul_div_cancel _ (by decide)]

theorem freeBit_of_le (hi : frameCountPerRegion ≤ i) : r.freeBit k i = r := by
  have hi : ¬ i / 32 < 32 := by
    have hi : 1024 ≤ i := hi
    omega
  rw [freeBit, MultilevelBitmap.free, if_neg hi, setPool, update_eq_self]

theorem setBit_of_le (hi : frameCountPerRegion ≤ i) : r.setBit k i = r := by
  have hi : ¬ i / 32 < 32 := by
    have hi : 1024 ≤ i := hi
    omega
  rw [setBit, MultilevelBitmap.set, if_neg hi, setPool, update_eq_self]

theorem joinLoop_of_le (hi : frameCountPerRegion ≤ i) (hn : k + n < maxBlockOrder) :
    r.joinLoop i n k = r := by
  induction n generalizing k with
  | zero => rfl
  | succ n ih =>
    have hbuddy : frameCountPerRegion ≤ calculateBuddyIndex i k := by
      by_contra hlt
      have hback := calculateBuddyIndex_lt (k := k) (by omega) (Nat.lt_of_not_le hlt)
      rw [calculateBuddyIndex_eq, calculateBuddyIndex_eq, Nat.xor_assoc, Nat.xor_self,
        Nat.xor_zero] at hback
      omega
    rw [joinLoop, setBit_of_le hi, setBit_of_le hbuddy, freeBit_of_le hi, ih (by omega), ite_self]

/-- What is freed outside of the region changes nothing. -/
theorem freeBlock_of_le (hi : frameCountPerRegion ≤ i) (hm : calculateOrder n < maxBlockOrder) :
    r.freeBlock (r.base + i * pageSize) n = r := by
  have hm : calculateOrder n < 7 := hm
  rw [freeBlock, index_of_base, freeBit_of_le hi]
  exact joinLoop_of_le hi (show _ < 7 by show _ + (7 - 1 - _) < 7; omega)

theorem Ok.freeBlock (h : r.Ok) (hm : calculateOrder n < maxBlockOrder) :
    (r.freeBlock (r.base + i * pageSize) n).Ok := by
  by_cases hi : i < frameCountPerRegion
  · rw [Region.freeBlock, index_of_base]
    refine (h.freeBit hm hi).joinLoop hi ?_
    have hm : calculateOrder n < 7 := hm
    omega
  · rwa [freeBlock_of_le (Nat.le_of_not_lt hi) hm]

/-- `free_block` makes the cell of the block free. -/
theorem freeBlock_spec (h : r.Ok) (ht : Tiling r.block free) (hi : i < frameCountPerRegion)
    (hm : calculateOrder n < maxBlockOrder) (hnot : ∀ x, Cell (calculateOrder n) i x → ¬ free x) :
    (r.freeBlock (r.base + i * pageSize) n).Ok ∧
      Tiling (r.freeBlock (r.base + i * pageSize) n).block
        fun x => free x ∨ Cell (calculateOrder n) i x := by
  refine ⟨h.freeBlock hm, ?_⟩
  rw [freeBlock, index_of_base]
  refine tiling_joinLoop ?_ ((block_freeBit hm hi).2 (.inr ⟨rfl, rfl⟩)) ?_
  · exact (ht.give hnot).congr (fun l j => block_freeBit hm hi) fun _ => Iff.rfl
  · have hm : calculateOrder n < 7 := hm
    omega

theorem base_freeBlock (frame n : ℕ) (r : Region) : (r.freeBlock frame n).base = r.base :=
  base_joinLoop _ _ _ _

/-- What `allocate_block` can come to: there is no free block that is large enough, and nothing
changes; or a block is taken, cut down to order `m`, and handed out from its index on. -/
inductive Allocated (m : ℕ) (r : Region) : ℕ × Region → Prop
  | none : (∀ k i, m ≤ k → ¬ r.block k i) → Allocated m r (invalidFrame, r)
  /-- A block is handed out. -/
  | found {k i : ℕ} {r' : Region} : r.Picks m k i → r'.base = r.base → r'.Ok →
      (∀ free, Tiling r.block free → Tiling r'.block fun x => free x ∧ ¬ Cell m i x) →
      Allocated m r (r.base + i * pageSize, r')

/-- `allocate_block` finds no block, or takes one and gives back the buddies of what is left of it. -/
theorem allocateLoop_eq (h : r.Ok) (hn : m + n ≤ maxBlockOrder)
    (hnone : ∀ k i, m ≤ k → k < maxBlockOrder - n → ¬ r.block k i) :
    (r.allocateLoop m n = (invalidFrame, r) ∧ ∀ k i, m ≤ k → ¬ r.block k i) ∨
      ∃ k i, r.Picks m k i ∧
        r.allocateLoop m n = (r.base + i * pageSize, (r.setBit k i).splitLoop i m (k - m)) := by
  induction n with
  | zero => exact .inl ⟨rfl, fun k i hk hb => hnone k i hk hb.1 hb⟩
  | succ n ih =>
    have hk : maxBlockOrder - (n + 1) < maxBlockOrder := by
      have : 0 < maxBlockOrder := by decide
      omega
    have hm : m ≤ maxBlockOrder - (n + 1) := by omega
    rw [allocateLoop]
    generalize hK : maxBlockOrder - (n + 1) = k at *
    rcases MultilevelBitmap.allocate_spec (h k hk) with ⟨hfull, hall⟩ | ⟨hlt, hclear, hlow, hset⟩
    · -- this pool is empty
      have hsame : r.setPool k (r.pool k) = r := by
        rw [setPool, update_eq_self]
      rw [hfull, hsame]
      refine ih (by omega) fun l i hl hlk hb => ?_
      by_cases hle : l < k
      · exact hnone l i hl hle hb
      · obtain rfl : l = k := by omega
        have hclear := hb.2.2
        rw [hall i hb.2.1] at hclear
        cases hclear
    · have hlt' : (r.pool k).allocate.1 < frameCountPerRegion := hlt
      rw [if_pos hlt', hset]
      generalize (r.pool k).allocate.1 = i at *
      refine .inr ⟨k, i, ⟨hm, ⟨hk, hlt, hclear⟩, hnone, fun j hj hb => ?_⟩, ?_⟩
      · have hfree := hb.2.2
        rw [hlow j hj] at hfree
        cases hfree
      split
      case isTrue => rfl
      case isFalse hmk =>
        rw [Nat.sub_eq_zero_of_le (Nat.le_of_not_lt hmk)]
        rfl

/-- What is left of a block that has been taken and split is free. -/
theorem splitLoop_spec (h : r.Ok) (hpick : r.Picks m k i) :
    ((r.setBit k i).splitLoop i m (k - m)).Ok ∧
      ∀ free, Tiling r.block free →
        Tiling ((r.setBit k i).splitLoop i m (k - m)).block fun x => free x ∧ ¬ Cell m i x := by
  have hb := hpick.block
  have hk := hb.1
  have hi := hb.2.1
  have hsum : m + (k - m) = k := Nat.add_sub_of_le hpick.order
  refine ⟨(h.setBit hk hi).splitLoop hi (by omega), fun free ht => ?_⟩
  refine tiling_splitLoop ?_ (fun x hx => ?_) hi (by omega)
  · rw [hsum]
    exact (ht.take hb).congr (fun l j => block_setBit hi) fun _ => Iff.rfl
  · rw [hsum] at hx
    exact ht.free_of_block hb hx

theorem allocateLoop_spec (h : r.Ok) (hn : m + n ≤ maxBlockOrder)
    (hnone : ∀ k i, m ≤ k → k < maxBlockOrder - n → ¬ r.block k i) :
    Allocated m r (r.allocateLoop m n) := by
  rcases allocateLoop_eq h hn hnone with ⟨heq, hnone⟩ | ⟨k, i, hpick, heq⟩
  · rw [heq]
    exact .none hnone
  · obtain ⟨hok, ht⟩ := splitLoop_spec h hpick
    rw [heq]
    exact .found hpick (base_splitLoop _ _ _ _) hok ht

theorem allocateBlock_spec (h : r.Ok) (hm : calculateOrder n < maxBlockOrder) :
    Allocated (calculateOrder n) r (r.allocateBlock n) :=
  allocateLoop_spec h (by omega) fun k i hk hlt => by omega

/-! ### A new region -/

theorem foldl_freeBit_spec (l : List ℕ) (h : r.Ok) (hk : k < maxBlockOrder)
    (hl : ∀ i ∈ l, i * maxBlockSize < frameCountPerRegion) :
    (l.foldl (fun r i => r.freeBit k (i * maxBlockSize)) r).Ok ∧
      ∀ m j, (l.foldl (fun r i => r.freeBit k (i * maxBlockSize)) r).block m j ↔
        r.block m j ∨ m = k ∧ ∃ i ∈ l, j = i * maxBlockSize := by
  induction l generalizing r with
  | nil => exact ⟨h, fun m j => by simp⟩
  | cons i l ih =>
    have hi := hl i mem_cons_self
    obtain ⟨hok, hblock⟩ := ih (h.freeBit hk hi) fun j hj => hl j (mem_cons_of_mem _ hj)
    refine ⟨hok, fun m j => ?_⟩
    rw [foldl_cons, hblock, block_freeBit hk hi, or_assoc, ← and_or_left]
    simp only [mem_cons, or_and_right, exists_or, exists_eq_left]

/-- The blocks of a new region are those of the largest order. -/
theorem block_new (base : ℕ) :
    (new base).Ok ∧ ∀ m j, (new base).block m j ↔ m = 6 ∧ ∃ i < 16, j = i * 64 := by
  have hbitmap := MultilevelBitmap.setRange_spec (Bitmap1024.new_spec (n := 1024) (by decide)).1
    (i := 0) (n := frameCountPerRegion) (by decide)
  have hfull : ∀ m j, ¬ (⟨base, fun _ => (Bitmap1024.new 1024).setRange 0 frameCountPerRegion⟩ :
      Region).block m j := by
    rintro m j ⟨-, hj, hclear⟩
    rw [hbitmap.2 j, decide_eq_true (by omega)] at hclear
    cases hclear
  obtain ⟨hok, hblock⟩ := foldl_freeBit_spec (k := maxBlockOrder - 1)
    (List.range (frameCountPerRegion / maxBlockSize))
    (r := ⟨base, fun _ => (Bitmap1024.new 1024).setRange 0 frameCountPerRegion⟩)
    (fun k _ => hbitmap.1) (by decide) fun i hi => by
      have hi : i < 16 := mem_range.1 hi
      show i * 64 < 1024
      omega
  refine ⟨hok, fun m j => (hblock m j).trans ⟨fun h => ?_, fun ⟨hm, i, hi, hj⟩ => ?_⟩⟩
  · obtain ⟨hm, i, hi, hj⟩ := h.resolve_left (hfull m j)
    exact ⟨hm, i, mem_range.1 hi, hj⟩
  · exact .inr ⟨hm, i, mem_range.2 hi, hj⟩

theorem new_spec (base : ℕ) :
    (new base).Ok ∧ Tiling (new base).block fun x => x < frameCountPerRegion := by
  obtain ⟨hok, hblock⟩ := block_new base
  refine ⟨hok, ⟨fun x => ?_, fun {k i l j x} hb hb' hx hx' => ?_⟩⟩
  · constructor
    · intro hx
      have hx : x < 1024 := hx
      refine ⟨6, x / 64 * 64, (hblock _ _).2 ⟨rfl, x / 64, by omega, rfl⟩, ?_⟩
      show x / 64 = x / 64 * 64 / 64
      omega
    · rintro ⟨k, i, hb, hx⟩
      obtain ⟨rfl, j, hj, rfl⟩ := (hblock k i).1 hb
      have hx : x / 64 = j * 64 / 64 := hx
      show x < 1024
      omega
  · obtain ⟨rfl, i, -, rfl⟩ := (hblock k i).1 hb
    obtain ⟨rfl, j, -, rfl⟩ := (hblock l j).1 hb'
    have hx : x / 64 = i * 64 / 64 := hx
    have hx' : x / 64 = j * 64 / 64 := hx'
    exact ⟨rfl, by omega⟩

theorem base_new (base : ℕ) : (new base).base = base := by
  have hfold : ∀ (l : List ℕ) (r : Region) (k : ℕ),
      (l.foldl (fun r i => r.freeBit k (i * maxBlockSize)) r).base = r.base := by
    intro l
    induction l with
    | nil => exact fun _ _ => rfl
    | cons i l ih => exact fun r k => ih _ k
  exact hfold _ _ _

end Region

/-! ### Handing out blocks -/

/-- A block that has been handed out: its frames, but for those that have been freed one by one. -/
structure Lease where
  /-- The index of the first frame. -/
  index : ℕ
  count : ℕ
  /-- The frames that have been freed. -/
  freed : List ℕ
deriving DecidableEq

def Lease.frames (l : Lease) : List ℕ :=
  (List.range' l.index l.count).filter fun x => x ∉ l.freed

structure Estate where
  region : Region
  /-- The blocks that have been handed out and not been freed as a whole. -/
  leases : List Lease

inductive RegionAction
  /-- `allocate_block(count)`. -/
  | allocate (count : ℕ)
  /-- `free_block`, for a block as a whole. -/
  | freeBlock (lease : Lease)
  /-- `free_block`, for one of the frames of a block. -/
  | freeFrame (lease : Lease) (frame : ℕ)

namespace Estate

def indexOf (s : Estate) (frame : ℕ) : ℕ := (frame - s.region.base) / pageSize

/-- The region does what it is asked for; only frames that are handed out are freed. -/
def step (s : Estate) : RegionAction → Option Estate
  | .allocate count =>
    if 1 ≤ count ∧ count ≤ maxBlockSize then
      let result := s.region.allocateBlock count
      if result.1 = invalidFrame then some { s with region := result.2 }
      else some ⟨result.2, ⟨s.indexOf result.1, count, []⟩ :: s.leases⟩
    else none
  | .freeBlock lease =>
    if lease ∈ s.leases ∧ lease.freed = [] then
      some ⟨s.region.freeBlock (s.region.base + lease.index * pageSize) lease.count,
        s.leases.erase lease⟩
    else none
  | .freeFrame lease frame =>
    if lease ∈ s.leases ∧ frame ∈ lease.frames then
      some ⟨s.region.freeBlock (s.region.base + frame * pageSize) 1,
        { lease with freed := frame :: lease.freed } :: s.leases.erase lease⟩
    else none

def initial (base : ℕ) : Estate := ⟨.new base, []⟩

/-- The blocks that are handed out are disjoint, and inside of the region. -/
def Disjoint (s : Estate) : Prop :=
  s.leases.Pairwise (fun l l' => ∀ x ∈ l.frames, x ∉ l'.frames) ∧
    ∀ l ∈ s.leases, ∀ x ∈ l.frames, x < frameCountPerRegion
deriving Decidable

/-- The blocks do overlap: two frames are allocated and freed one by one, the second of them becomes
the index of the block they are joined to, and the block of frames 1 and 2 is handed out; frames 2
and 3 are the next. -/
theorem not_blocks_disjoint : ∃ s, Run step Always (initial regionSize) s ∧ ¬ s.Disjoint :=
  exists_run [.allocate 1, .allocate 1, .freeBlock ⟨0, 1, []⟩, .freeBlock ⟨1, 1, []⟩, .allocate 2,
    .allocate 2] (by decide +kernel)

/-- The frames of the block that will be handed out are inside of the region, and not yet handed out.
The frame at address 0 never is. -/
def Fits (s : Estate) : RegionAction → Prop
  | .allocate count => ∀ k i, s.region.Picks (Region.calculateOrder count) k i →
      s.region.base + i * pageSize ≠ invalidFrame → ∀ x ∈ List.range' i count,
        x < frameCountPerRegion ∧ ∀ l ∈ s.leases, x ∉ l.frames
  | _ => True

/-- The block that will be handed out does not reach beyond the free block it is taken from. -/
def Contained (s : Estate) : RegionAction → Prop
  | .allocate count => ∀ k i, s.region.Picks (Region.calculateOrder count) k i →
      i % 2 ^ Region.calculateOrder count + count ≤ 2 ^ Region.calculateOrder count
  | _ => True

end Estate

/-- The frames that are not free because of the block: the whole cell, while no frame of it has been
freed; and only what is left of the block from then on. -/
def Lease.Reserves (l : Lease) (x : ℕ) : Prop :=
  (l.freed = [] → Cell (Region.calculateOrder l.count) l.index x) ∧
    (l.freed ≠ [] → x ∈ l.frames)

/-- The block is inside of the region, and of its cell. -/
structure Lease.Ok (l : Lease) : Prop where
  order : Region.calculateOrder l.count < maxBlockOrder
  index : l.index < frameCountPerRegion
  /-- The block does not reach beyond its cell. -/
  inside : l.index % 2 ^ Region.calculateOrder l.count + l.count ≤
    2 ^ Region.calculateOrder l.count

namespace Lease

variable {l : Lease} {x y : ℕ}

theorem mem_frames : x ∈ l.frames ↔ (l.index ≤ x ∧ x < l.index + l.count) ∧ x ∉ l.freed := by
  rw [frames, mem_filter, mem_range'_1, decide_eq_true_iff]

theorem Ok.cell (h : l.Ok) (hx : x ∈ l.frames) :
    Cell (Region.calculateOrder l.count) l.index x := by
  obtain ⟨⟨hle, hlt⟩, -⟩ := mem_frames.1 hx
  have hdiv := Nat.div_add_mod' l.index (2 ^ Region.calculateOrder l.count)
  have hin := h.inside
  rw [cell_iff_le]
  omega

theorem Ok.reserves (h : l.Ok) (hx : x ∈ l.frames) : l.Reserves x :=
  ⟨fun _ => h.cell hx, fun _ => hx⟩

theorem reserves_of_nil (hl : l.freed = []) :
    l.Reserves x ↔ Cell (Region.calculateOrder l.count) l.index x :=
  ⟨fun h => h.1 hl, fun h => ⟨fun _ => h, fun hne => absurd hl hne⟩⟩

theorem Ok.reserves_lt (h : l.Ok) (hx : l.Reserves x) : x < frameCountPerRegion := by
  have hcell : Cell (Region.calculateOrder l.count) l.index x := by
    by_cases hl : l.freed = []
    · exact hx.1 hl
    · exact h.cell (hx.2 hl)
  have horder : Region.calculateOrder l.count < 7 := h.order
  have hindex : l.index < 2 ^ 10 := h.index
  exact hcell.lt hindex (by omega)

theorem Ok.reserves_free (h : l.Ok)
    (hx : ({ l with freed := y :: l.freed } : Lease).Reserves x) : l.Reserves x ∧ x ≠ y := by
  obtain ⟨hin, hout⟩ := mem_frames.1 (hx.2 (cons_ne_nil _ _))
  rw [mem_cons, not_or] at hout
  exact ⟨h.reserves (mem_frames.2 ⟨hin, hout.2⟩), hout.1⟩

end Lease

theorem pairwise_cons_erase {P : Lease → ℕ → Prop} {leases : List Lease} {l : Lease}
    (h : leases.Pairwise fun l l' => ∀ x, P l x → ¬ P l' x) (hl : l ∈ leases) :
    (l :: leases.erase l).Pairwise fun l l' => ∀ x, P l x → ¬ P l' x := by
  refine ((perm_cons_erase hl).pairwise_iff fun {l l'} h x hx hx' => ?_).1 h
  exact h x hx' hx

namespace Estate

/-- The blocks that are handed out are disjoint, and none of their frames is free. -/
structure Sound (free : ℕ → Prop) (s : Estate) : Prop where
  ok : s.region.Ok
  /-- The free blocks hold the frames that are free. -/
  tiling : Tiling s.region.block free
  lease : ∀ l ∈ s.leases, l.Ok
  taken : ∀ l ∈ s.leases, ∀ x, l.Reserves x → ¬ free x
  disjoint : s.leases.Pairwise fun l l' => ∀ x, l.Reserves x → ¬ l'.Reserves x

namespace Sound

variable {s t : Estate} {free : ℕ → Prop} {l : Lease} {a : RegionAction}

theorem initial (base : ℕ) : (initial base).Sound fun x => x < frameCountPerRegion where
  ok := (Region.new_spec base).1
  tiling := (Region.new_spec base).2
  lease := fun _ hl => absurd hl not_mem_nil
  taken := fun _ hl => absurd hl not_mem_nil
  disjoint := .nil

theorem allocate {count : ℕ} (h : s.Sound free) (hin : s.Contained (.allocate count))
    (ht : s.step (.allocate count) = some t) : ∃ free', t.Sound free' := by
  rw [step] at ht
  obtain ⟨hcount, ht⟩ := Option.ite_none_right_eq_some.1 ht
  have horder := (Region.calculateOrder_spec hcount.1 hcount.2).1
  have hspec := Region.allocateBlock_spec h.ok horder
  generalize s.region.allocateBlock count = result at hspec ht
  cases hspec with
  | none _ =>
    cases ht
    exact ⟨free, h⟩
  | @found k i r' hpick hbase hok htiling =>
    have hblock := hpick.block
    have htiling := htiling free h.tiling
    have hfree : ∀ x, Cell (Region.calculateOrder count) i x → free x := fun x hx =>
      h.tiling.free_of_block hblock (hx.mono hpick.order)
    have htaken : ∀ l ∈ s.leases, ∀ x, l.Reserves x →
        ¬ (free x ∧ ¬ Cell (Region.calculateOrder count) i x) := fun l hl x hx hout =>
      h.taken l hl x hx hout.1
    have hindex : s.indexOf (s.region.base + i * pageSize) = i := by
      rw [indexOf, Region.index_of_base]
    dsimp only at ht
    rw [hindex] at ht
    split at ht
    · -- the frame at address 0 is never handed out
      cases ht
      exact ⟨_, hok, htiling, h.lease, htaken, h.disjoint⟩
    · cases ht
      have hnew : ∀ {x}, (⟨i, count, []⟩ : Lease).Reserves x ↔
          Cell (Region.calculateOrder count) i x := fun {x} => Lease.reserves_of_nil rfl
      refine ⟨_, hok, htiling, fun l hl => ?_, fun l hl x hx => ?_, ?_⟩
      · rcases mem_cons.1 hl with rfl | hl
        · exact ⟨horder, hblock.2.1, hin k i hpick⟩
        · exact h.lease l hl
      · rcases mem_cons.1 hl with rfl | hl
        · exact fun hout => hout.2 (hnew.1 hx)
        · exact htaken l hl x hx
      · refine pairwise_cons.2 ⟨fun l hl x hx hx' => ?_, h.disjoint⟩
        exact h.taken l hl x hx' (hfree x (hnew.1 hx))

theorem freeBlock (h : s.Sound free) (ht : s.step (.freeBlock l) = some t) :
    ∃ free', t.Sound free' := by
  rw [step] at ht
  obtain ⟨hl, ht⟩ := Option.ite_none_right_eq_some.1 ht
  cases ht
  obtain ⟨hl, hwhole⟩ := hl
  have hlease := h.lease l hl
  have hreserves : ∀ {x}, l.Reserves x ↔ Cell (Region.calculateOrder l.count) l.index x :=
    fun {x} => Lease.reserves_of_nil hwhole
  obtain ⟨hok, htiling⟩ := Region.freeBlock_spec h.ok h.tiling hlease.index hlease.order
    fun x hx => h.taken l hl x (hreserves.2 hx)
  obtain ⟨hothers, hdisjoint⟩ := pairwise_cons.1 (pairwise_cons_erase h.disjoint hl)
  refine ⟨_, hok, htiling, fun l' hl' => h.lease l' (mem_of_mem_erase hl'),
    fun l' hl' x hx hfree => ?_, hdisjoint⟩
  rcases hfree with hfree | hfree
  · exact h.taken l' (mem_of_mem_erase hl') x hx hfree
  · exact hothers l' hl' x (hreserves.2 hfree) hx

theorem freeFrame {frame : ℕ} (h : s.Sound free) (ht : s.step (.freeFrame l frame) = some t) :
    ∃ free', t.Sound free' := by
  rw [step] at ht
  obtain ⟨hl, ht⟩ := Option.ite_none_right_eq_some.1 ht
  cases ht
  obtain ⟨hl, hframe⟩ := hl
  have hlease := h.lease l hl
  have hin := hlease.reserves hframe
  have hcell : ∀ {x}, Cell (Region.calculateOrder 1) frame x ↔ x = frame := fun {x} => by
    rw [Region.calculateOrder_one, cell_zero]
  obtain ⟨hok, htiling⟩ := Region.freeBlock_spec h.ok h.tiling (hlease.reserves_lt hin)
    (by rw [Region.calculateOrder_one]; decide)
    fun x hx => (hcell.1 hx).symm ▸ h.taken l hl frame hin
  obtain ⟨hothers, hdisjoint⟩ := pairwise_cons.1 (pairwise_cons_erase h.disjoint hl)
  refine ⟨_, hok, htiling, fun l' hl' => ?_, fun l' hl' x hx hfree => ?_, ?_⟩
  · rcases mem_cons.1 hl' with rfl | hl'
    · exact ⟨hlease.order, hlease.index, hlease.inside⟩
    · exact h.lease l' (mem_of_mem_erase hl')
  · rcases mem_cons.1 hl' with rfl | hmem
    · obtain ⟨hx, hne⟩ := hlease.reserves_free hx
      exact hfree.elim (h.taken l hl x hx) fun hc => hne (hcell.1 hc)
    · rcases hfree with hfree | hfree
      · exact h.taken l' (mem_of_mem_erase hmem) x hx hfree
      · obtain rfl := hcell.1 hfree
        exact hothers l' hmem x hin hx
  · refine pairwise_cons.2 ⟨fun l' hl' x hx => ?_, hdisjoint⟩
    exact hothers l' hl' x (hlease.reserves_free hx).1

theorem step (h : s.Sound free) (hin : s.Contained a) (ht : s.step a = some t) :
    ∃ free', t.Sound free' := by
  cases a with
  | allocate count => exact h.allocate hin ht
  | freeBlock l => exact h.freeBlock ht
  | freeFrame l frame => exact h.freeFrame ht

theorem blocks (h : s.Sound free) : s.Disjoint := by
  constructor
  · refine h.disjoint.imp_of_mem fun {l l'} hl hl' hdisjoint x hx hx' => ?_
    exact hdisjoint x ((h.lease l hl).reserves hx) ((h.lease l' hl').reserves hx')
  · intro l hl x hx
    exact (h.lease l hl).reserves_lt ((h.lease l hl).reserves hx)

end Sound

/-- The bitmaps are in order, and the blocks that are handed out are those of one of the pools. -/
structure Placed (s : Estate) : Prop where
  ok : s.region.Ok
  order : ∀ l ∈ s.leases, Region.calculateOrder l.count < maxBlockOrder

namespace Placed

variable {base : ℕ} {s t : Estate} {a : RegionAction}

theorem initial (base : ℕ) : (initial base).Placed :=
  ⟨(Region.new_spec base).1, fun _ hl => absurd hl not_mem_nil⟩

theorem step (h : s.Placed) (ht : s.step a = some t) : t.Placed := by
  cases a with
  | allocate count =>
    rw [Estate.step] at ht
    obtain ⟨hcount, ht⟩ := Option.ite_none_right_eq_some.1 ht
    have horder := (Region.calculateOrder_spec hcount.1 hcount.2).1
    have hspec := Region.allocateBlock_spec h.ok horder
    generalize s.region.allocateBlock count = result at hspec ht
    have hok : result.2.Ok := by
      cases hspec with
      | none _ => exact h.ok
      | found _ _ hok _ => exact hok
    dsimp only at ht
    split at ht <;> cases ht
    · exact ⟨hok, h.order⟩
    · exact ⟨hok, forall_mem_cons.2 ⟨horder, h.order⟩⟩
  | freeBlock l =>
    obtain ⟨hl, ht⟩ := Option.ite_none_right_eq_some.1 ht
    cases ht
    exact ⟨h.ok.freeBlock (h.order l hl.1), fun l' hl' => h.order l' (mem_of_mem_erase hl')⟩
  | freeFrame l frame =>
    obtain ⟨hl, ht⟩ := Option.ite_none_right_eq_some.1 ht
    cases ht
    exact ⟨h.ok.freeBlock (by rw [Region.calculateOrder_one]; decide), forall_mem_cons.2
      ⟨h.order l hl.1, fun l' hl' => h.order l' (mem_of_mem_erase hl')⟩⟩

theorem of_run {ok : Estate → RegionAction → Prop} (h : Run Estate.step ok (.initial base) s) :
    s.Placed :=
  h.invariant (initial base) fun hx _ hy => hx.step hy

theorem disjoint_cons {i count : ℕ} (hs : s.Disjoint) (r : Region) :
    Disjoint ⟨r, ⟨i, count, []⟩ :: s.leases⟩ ↔ ∀ x ∈ List.range' i count,
      x < frameCountPerRegion ∧ ∀ l ∈ s.leases, x ∉ l.frames := by
  have hframes : ∀ x, x ∈ (⟨i, count, []⟩ : Lease).frames ↔ x ∈ List.range' i count := fun x => by
    rw [Lease.mem_frames, mem_range'_1]
    exact and_iff_left not_mem_nil
  constructor
  · rintro ⟨hpairs, hin⟩ x hx
    have hx := (hframes x).2 hx
    exact ⟨hin _ mem_cons_self x hx, fun l hl => (pairwise_cons.1 hpairs).1 l hl x hx⟩
  · intro hnew
    refine ⟨pairwise_cons.2 ⟨fun l hl x hx => ?_, hs.1⟩, forall_mem_cons.2 ⟨fun x hx => ?_, hs.2⟩⟩
    · exact (hnew x ((hframes x).1 hx)).2 l hl
    · exact (hnew x ((hframes x).1 hx)).1

/-- What a step does to blocks that are disjoint. -/
theorem disjoint_iff (h : s.Placed) (hs : s.Disjoint) (ht : s.step a = some t) :
    t.Disjoint ↔ s.Fits a := by
  cases a with
  | allocate count =>
    rw [Estate.step] at ht
    obtain ⟨hcount, ht⟩ := Option.ite_none_right_eq_some.1 ht
    have hspec := Region.allocateBlock_spec h.ok (Region.calculateOrder_spec hcount.1 hcount.2).1
    generalize s.region.allocateBlock count = result at hspec ht
    cases hspec with
    | none hnone =>
      cases ht
      exact iff_of_true hs fun k i hpick => absurd hpick.block (hnone k i hpick.order)
    | @found k i r' hpick _ _ _ =>
      dsimp only at ht
      split at ht
      case isTrue hinvalid =>
        cases ht
        refine iff_of_true hs fun l j hpick' hne => absurd ?_ hne
        rwa [(hpick'.unique hpick).2]
      case isFalse hne =>
        cases ht
        rw [indexOf, Region.index_of_base, disjoint_cons hs]
        refine ⟨fun hnew l j hpick' _ => ?_, fun hfits => hfits k i hpick hne⟩
        rwa [(hpick'.unique hpick).2]
  | freeBlock l =>
    obtain ⟨hl, ht⟩ := Option.ite_none_right_eq_some.1 ht
    cases ht
    exact iff_of_true ⟨hs.1.sublist erase_sublist, fun l' hl' => hs.2 l' (mem_of_mem_erase hl')⟩
      trivial
  | freeFrame l frame =>
    obtain ⟨hl, ht⟩ := Option.ite_none_right_eq_some.1 ht
    cases ht
    have hsub : ∀ x ∈ ({ l with freed := frame :: l.freed } : Lease).frames, x ∈ l.frames := by
      intro x hx
      obtain ⟨hin, hout⟩ := Lease.mem_frames.1 hx
      exact Lease.mem_frames.2 ⟨hin, fun hfreed => hout (mem_cons_of_mem _ hfreed)⟩
    obtain ⟨hothers, hpairs⟩ := pairwise_cons.1 (pairwise_cons_erase hs.1 hl.1)
    refine iff_of_true ⟨pairwise_cons.2 ⟨fun l' hl' x hx => hothers l' hl' x (hsub x hx), hpairs⟩,
      forall_mem_cons.2 ⟨fun x hx => hs.2 l hl.1 x (hsub x hx), fun l' hl' => ?_⟩⟩ trivial
    exact hs.2 l' (mem_of_mem_erase hl')

/-- A run all of whose states have disjoint blocks. -/
theorem run_fits {ok : Estate → RegionAction → Prop} (h : Run Estate.step ok (.initial base) s)
    (hok : ∀ {x y a}, Run Estate.step ok (.initial base) x → ok x a → x.step a = some y →
      y.Disjoint) : Run Estate.step Fits (.initial base) s ∧ s.Disjoint := by
  induction h with
  | refl => exact ⟨.refl, .nil, fun _ hl => absurd hl not_mem_nil⟩
  | tail hx ha hy ih =>
    have hdisjoint := hok hx ha hy
    exact ⟨ih.1.tail (((of_run hx).disjoint_iff ih.2 hy).1 hdisjoint) hy, hdisjoint⟩

end Placed

/-- **Blocks of frames.** As long as the frames of each block that will be handed out are inside of
the region and not handed out yet, the blocks that are handed out and not yet freed are disjoint and
inside of the region; and the first block for which it is not so breaks this. It is so if no block
reaches beyond the free block it is taken from. -/
theorem blocks_disjoint {base : ℕ} {s : Estate} :
    (Run step Fits (initial base) s →
      s.Disjoint ∧ ∀ a t, s.step a = some t → (t.Disjoint ↔ s.Fits a)) ∧
    (Run step Contained (initial base) s → Run step Fits (initial base) s) := by
  refine ⟨fun h => ?_, fun h => (Placed.run_fits h fun {x y a} hx hin hy => ?_).1⟩
  · have hinv : s.Placed ∧ s.Disjoint := by
      refine h.invariant (I := fun s => s.Placed ∧ s.Disjoint)
        ⟨.initial base, .nil, fun _ hl => absurd hl not_mem_nil⟩ ?_
      rintro x y a ⟨hx, hdisjoint⟩ hfits hy
      exact ⟨hx.step hy, (hx.disjoint_iff hdisjoint hy).2 hfits⟩
    exact ⟨hinv.2, fun a t ht => hinv.1.disjoint_iff hinv.2 ht⟩
  · have hsound : ∃ free, x.Sound free := by
      refine hx.invariant (I := fun s => ∃ free, s.Sound free) ⟨_, .initial base⟩ ?_
      rintro x y a ⟨free, hx⟩ hin hy
      exact hx.step hin hy
    obtain ⟨free, hsound⟩ := hsound
    obtain ⟨free', hsound'⟩ := hsound.step hin hy
    exact hsound'.blocks

/-- Two frames are allocated and freed, and two frames are handed out that are not those of one free
block; they are disjoint from all others, but the next two are not. -/
theorem blocks_disjoint_shifted : ∃ s, Run step Fits (initial regionSize) s ∧ s.Disjoint ∧
    s.leases.map (fun l => l.frames) = [[1, 2]] ∧ ¬ s.Fits (.allocate 2) := by
  have heval : ∃ s ∈ runActions (restrict step fun s a => ∀ t ∈ s.step a, t.Disjoint)
      (initial regionSize) [.allocate 1, .allocate 1, .freeBlock ⟨0, 1, []⟩, .freeBlock ⟨1, 1, []⟩,
        .allocate 2],
      s.leases.map (fun l => l.frames) = [[1, 2]] ∧ ∃ t ∈ s.step (.allocate 2), ¬ t.Disjoint := by
    decide +kernel
  obtain ⟨s, hs, hframes, t, ht, hnot⟩ := heval
  have hrun := (Placed.run_fits (run_of_runActions_restrict _ hs)
    fun {x y a} _ hok hy => hok y hy).1
  obtain ⟨hdisjoint, hnext⟩ := blocks_disjoint.1 hrun
  exact ⟨s, hrun, hdisjoint, hframes, fun hfits => hnot ((hnext _ t ht).2 hfits)⟩

end Estate

end Dx.Memory
