import Mathlib.Data.List.Nodup

/-!
# Pools of blocks, side by side

Memory that is cut into pools, and each pool into blocks of one size. A block is a pool and an index in
it; different blocks have no address in common, so handing out blocks is safe as soon as no block is
handed out twice. `Tracks` says that a list has exactly the blocks that are out, each of them once.
-/

namespace Dx.Library

universe u

/-- Pools of blocks: pool `i` has `count i` blocks of `blockSize i` addresses, from `base i` on. -/
structure Slabs (ι : Type u) where
  base : ι → ℕ
  blockSize : ι → ℕ
  count : ι → ℕ
  pos : ∀ i, 0 < blockSize i
  apart : ∀ i j, i ≠ j →
    base i + count i * blockSize i ≤ base j ∨ base j + count j * blockSize j ≤ base i

namespace Slabs

variable {ι : Type u} {g : Slabs ι}

/-- A block of the pools. -/
@[ext]
structure Block (g : Slabs ι) where
  pool : ι
  index : ℕ
  lt : index < g.count pool
deriving DecidableEq

namespace Block

def start (b : g.Block) : ℕ := g.base b.pool + b.index * g.blockSize b.pool

def finish (b : g.Block) : ℕ := b.start + g.blockSize b.pool

def Covers (b : g.Block) (v : ℕ) : Prop := b.start ≤ v ∧ v < b.finish
deriving Decidable

variable {b b' : g.Block} {v : ℕ}

theorem covers_start (b : g.Block) : b.Covers b.start :=
  ⟨Nat.le_refl _, Nat.lt_add_of_pos_right (g.pos b.pool)⟩

theorem base_le_start (b : g.Block) : g.base b.pool ≤ b.start := Nat.le_add_right _ _

theorem finish_le (b : g.Block) :
    b.finish ≤ g.base b.pool + g.count b.pool * g.blockSize b.pool := by
  have hend := Nat.mul_le_mul_right (g.blockSize b.pool) b.lt
  rw [Nat.succ_mul] at hend
  unfold finish start
  omega

theorem index_eq (h : b.Covers v) : (v - g.base b.pool) / g.blockSize b.pool = b.index := by
  obtain ⟨hlow, hhigh⟩ := h
  have hpos := g.pos b.pool
  unfold finish at hhigh
  unfold start at hlow hhigh
  rw [Nat.div_eq_iff hpos]
  omega

theorem eq_of_covers (h : b.Covers v) (h' : b'.Covers v) : b = b' := by
  have hpool : b.pool = b'.pool := by
    by_contra hne
    have hbase := b.base_le_start
    have hbase' := b'.base_le_start
    have hend := b.finish_le
    have hend' := b'.finish_le
    obtain ⟨hlow, hhigh⟩ := h
    obtain ⟨hlow', hhigh'⟩ := h'
    rcases g.apart _ _ hne with hapart | hapart
    · omega
    · omega
  refine Block.ext hpool ?_
  have hindex' := index_eq h'
  rw [← hpool, index_eq h] at hindex'
  exact hindex'

theorem start_injective (h : b.start = b'.start) : b = b' :=
  eq_of_covers b.covers_start (h ▸ b'.covers_start)

end Block

/-! ### Blocks that are out -/

/-- The list has the blocks that are out, each of them once. -/
structure Tracks (out : g.Block → Prop) (live : List g.Block) : Prop where
  nodup : live.Nodup
  mem : ∀ b, b ∈ live ↔ out b

variable {out out' : g.Block → Prop} {live : List g.Block} {b : g.Block}

theorem Tracks.nil (h : ∀ b, ¬ out b) : Tracks out [] :=
  ⟨List.nodup_nil, fun b => ⟨fun hb => absurd hb List.not_mem_nil, fun hb => absurd hb (h b)⟩⟩

theorem Tracks.cons (h : Tracks out live) (hb : ¬ out b) (hout : ∀ c, out' c ↔ c = b ∨ out c) :
    Tracks out' (b :: live) where
  nodup := List.nodup_cons.2 ⟨fun hmem => hb ((h.mem b).1 hmem), h.nodup⟩
  mem c := by rw [List.mem_cons, h.mem, hout]

theorem Tracks.filter (h : Tracks out live) {keep : g.Block → Bool}
    (hout : ∀ c, out' c ↔ keep c = true ∧ out c) : Tracks out' (live.filter keep) where
  nodup := h.nodup.filter keep
  mem c := by
    rw [List.mem_filter, h.mem, hout]
    exact and_comm

/-- The blocks that are out have no address in common. -/
theorem Tracks.pairwise (h : Tracks out live) :
    live.Pairwise fun b c => ∀ v, ¬ (b.Covers v ∧ c.Covers v) := by
  refine List.Pairwise.imp ?_ h.nodup
  intro b c hne v hv
  exact hne (Block.eq_of_covers hv.1 hv.2)

end Slabs

end Dx.Library
