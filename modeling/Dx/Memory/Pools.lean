import Dx.Library.Slab
import Dx.Library.Update
import Dx.Memory.MemoryPool

/-!
# Families of memory pools

The kernel heap and the payload area of an address space are both made of several `memory_pool_c`,
side by side and each with blocks of its own size. A request is tried in one pool after the other, and
a block is given back to the pool its address lies in.

`Fits` says that the pools lie as a layout says; then a block of the layout is `Taken` or not, a
request takes one that was not (`Fits.allocateFirst`), and giving back an address of a block frees this
block and no other (`Fits.freeBlock`).
-/

namespace Dx.Memory

open Library

universe u

variable {ι : Type u}

namespace MemoryPool

/-- Try one pool after the other; with the pool the block comes from. -/
def allocateFirst [DecidableEq ι] :
    List ι → (ι → MemoryPool) → Option (ι × ℕ) × (ι → MemoryPool)
  | [], pools => (none, pools)
  | i :: l, pools =>
    match (pools i).allocateBlock with
    | (some block, pool) => (some (i, block), Function.update pools i pool)
    | (none, pool) => allocateFirst l (Function.update pools i pool)

/-- The pools lie as the layout says. -/
structure Fits (g : Slabs ι) (pools : ι → MemoryPool) : Prop where
  ok : ∀ i, 0 < g.count i → (pools i).Ok
  base : ∀ i, 0 < g.count i → (pools i).base = g.base i
  blockCount : ∀ i, 0 < g.count i → (pools i).blockCount = g.count i
  blockSize : ∀ i, 0 < g.count i → (pools i).blockSize = g.blockSize i

def Taken {g : Slabs ι} (pools : ι → MemoryPool) (b : g.Block) : Prop :=
  (pools b.pool).bitmap.isSet b.index = true
deriving Decidable

variable {g : Slabs ι} {pools : ι → MemoryPool} {b : g.Block} {v : ℕ}

theorem count_pos (b : g.Block) : 0 < g.count b.pool := Nat.zero_lt_of_lt b.lt

theorem Fits.index_lt (h : Fits g pools) (b : g.Block) :
    b.index < (pools b.pool).blockCount ∧ b.index < 1024 := by
  have hcount := (h.ok b.pool (count_pos b)).count
  rw [h.blockCount b.pool (count_pos b)] at hcount ⊢
  exact ⟨b.lt, b.lt.trans_le hcount⟩

variable [DecidableEq ι]

open Function

theorem Fits.update (h : Fits g pools) {i : ι} {bitmap : Bitmap1024}
    (hpool : ({ pools i with bitmap := bitmap } : MemoryPool).Ok) :
    Fits g (update pools i { pools i with bitmap := bitmap }) where
  ok j hj := update_intro (fun _ => hpool) fun _ => h.ok j hj
  base j hj := update_intro (P := fun pool : MemoryPool => pool.base = g.base j)
    (fun heq => heq ▸ h.base j hj) fun _ => h.base j hj
  blockCount j hj := update_intro (P := fun pool : MemoryPool => pool.blockCount = g.count j)
    (fun heq => heq ▸ h.blockCount j hj) fun _ => h.blockCount j hj
  blockSize j hj := update_intro (P := fun pool : MemoryPool => pool.blockSize = g.blockSize j)
    (fun heq => heq ▸ h.blockSize j hj) fun _ => h.blockSize j hj

theorem taken_set (h : Fits g pools) (b c : g.Block) :
    Taken (update pools b.pool
      { pools b.pool with bitmap := (pools b.pool).bitmap.set b.index }) c ↔
        c = b ∨ Taken pools c := by
  unfold Taken
  by_cases hpool : c.pool = b.pool
  · have heq : c = b ↔ c.index = b.index := Slabs.Block.ext_iff.trans (and_iff_right hpool)
    rw [hpool, update_self, heq]
    rw [MultilevelBitmap.isSet_set (h.index_lt b).2, Bool.or_eq_true, decide_eq_true_eq]
  · have hne : c ≠ b := fun heq => hpool (heq ▸ rfl)
    rw [update_of_ne hpool]
    simp [hne]

theorem taken_free (h : Fits g pools) (b c : g.Block) :
    Taken (update pools b.pool
      { pools b.pool with bitmap := (pools b.pool).bitmap.free b.index }) c ↔
        c ≠ b ∧ Taken pools c := by
  unfold Taken
  by_cases hpool : c.pool = b.pool
  · have heq : c = b ↔ c.index = b.index := Slabs.Block.ext_iff.trans (and_iff_right hpool)
    rw [hpool, update_self, ne_eq, heq]
    rw [MultilevelBitmap.isSet_free (h.index_lt b).2, Bool.and_eq_true, Bool.not_eq_true',
      decide_eq_false_iff_not]
  · have hne : c ≠ b := fun heq => hpool (heq ▸ rfl)
    rw [update_of_ne hpool]
    simp [hne]

/-- What trying the pools of a list can do: nothing, when all their blocks are taken, or take a block
of one of them. -/
inductive Allocates (g : Slabs ι) (l : List ι) (pools : ι → MemoryPool) :
    Option (ι × ℕ) × (ι → MemoryPool) → Prop
  | none : (∀ b : g.Block, b.pool ∈ l → Taken pools b) → Allocates g l pools (none, pools)
  | some {b : g.Block} {pools' : ι → MemoryPool} :
      b.pool ∈ l → ¬ Taken pools b → Fits g pools' → (∀ c, Taken pools' c ↔ c = b ∨ Taken pools c) →
      Allocates g l pools (some (b.pool, b.start), pools')

theorem Fits.allocateFirst (h : Fits g pools)
    (hend : ∀ i, 0 < g.count i → g.base i + g.count i * g.blockSize i ≤ 2 ^ 32) {l : List ι}
    (hl : ∀ i ∈ l, 0 < g.count i) : Allocates g l pools (allocateFirst l pools) := by
  induction l with
  | nil => exact .none fun b hb => absurd hb List.not_mem_nil
  | cons i l ih =>
    have hi := hl i List.mem_cons_self
    unfold MemoryPool.allocateFirst
    rcases (h.ok i hi).allocateBlock with ⟨heq, hall⟩ | ⟨k, hk, hclear, heq⟩
    · -- the pool is exhausted, and stays as it is
      rw [heq]
      dsimp only
      rw [update_eq_self]
      have hfull : ∀ b : g.Block, b.pool = i → Taken pools b := by
        rintro b rfl
        exact hall b.index (h.index_lt b).1
      have hnext := ih fun j hj => hl j (List.mem_cons_of_mem i hj)
      generalize MemoryPool.allocateFirst l pools = result at hnext ⊢
      cases hnext with
      | none hrest =>
        refine .none fun b hb => ?_
        rcases List.mem_cons.1 hb with hb | hb
        · exact hfull b hb
        · exact hrest b hb
      | some hmem hnot hfits htaken =>
        exact .some (List.mem_cons_of_mem i hmem) hnot hfits htaken
    · have hlt : k < g.count i := by rwa [h.blockCount i hi] at hk
      obtain ⟨b, rfl, rfl⟩ : ∃ b : g.Block, b.pool = i ∧ b.index = k := ⟨⟨i, k, hlt⟩, rfl, rfl⟩
      have hstart : ((pools b.pool).base + b.index * (pools b.pool).blockSize) % 2 ^ 32 = b.start := by
        rw [h.base _ hi, h.blockSize _ hi]
        refine Nat.mod_eq_of_lt ?_
        have hfinish := b.finish_le
        have hcovers := b.covers_start.2
        have hend := hend b.pool hi
        exact hcovers.trans_le (hfinish.trans hend)
      rw [heq, hstart]
      refine .some List.mem_cons_self ?_ (h.update ((h.ok _ hi).set hk)) (taken_set h b)
      rw [Taken, hclear]
      exact Bool.false_ne_true

/-- **Freeing.** Any address of a block gives it back. -/
theorem Fits.freeBlock (h : Fits g pools)
    (hend : ∀ i, 0 < g.count i → g.base i + g.count i * g.blockSize i ≤ 2 ^ 32) (hv : b.Covers v) :
    ((pools b.pool).freeBlock v).1 = .success ∧
      Fits g (Function.update pools b.pool ((pools b.pool).freeBlock v).2) ∧
      ∀ c : g.Block, Taken (Function.update pools b.pool ((pools b.pool).freeBlock v).2) c ↔
        c ≠ b ∧ Taken pools c := by
  have hpos := count_pos b
  have hindex : (pools b.pool).indexOf v = b.index := by
    have hbase := b.base_le_start
    have hfinish := b.finish_le
    have hend := hend b.pool hpos
    obtain ⟨hlow, hhigh⟩ := hv
    have hsub : (v + 2 ^ 32 - g.base b.pool) % 2 ^ 32 = v - g.base b.pool := by omega
    rw [indexOf, h.base _ hpos, h.blockSize _ hpos, hsub]
    exact Slabs.Block.index_eq ⟨hlow, hhigh⟩
  have hlt := (h.index_lt b).1
  have hfree : (pools b.pool).freeBlock v =
      (.success, { pools b.pool with bitmap := (pools b.pool).bitmap.free b.index }) := by
    rw [MemoryPool.freeBlock, hindex, (h.ok _ hpos).size, if_pos hlt]
  rw [hfree]
  exact ⟨rfl, h.update ((h.ok _ hpos).free hlt), taken_free h b⟩

end MemoryPool

end Dx.Memory
