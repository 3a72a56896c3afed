import Dx.Memory.Region

/-!
# Joining the blocks of a region

`join` undoes `split`: a block that is freed is joined with its buddy, the result with its own buddy,
and so on. The buddy of a block is looked for under one index, and the block that two buddies make up
is kept under the index of the one that was freed last. When this is the upper one, the block is no
longer kept under the index of its first frame, where its own buddy will look for it.

So a region does not come back to its first state when everything is freed (`not_coalesced`). It does
exactly when the frame that is freed last is the first of its group of 64, and all other blocks are
kept where they should be: those of the other groups as in a new region, and those of this group where
`join` looks for them (`Completes`).
-/

namespace Dx.Memory

open Library List

namespace MultilevelBitmap

structure Same (b b' : Bitmap1024) : Prop where
  parent : b.parentBitmap = b'.parentBitmap
  child : ∀ p < 32, (b.childBitmap p).value = (b'.childBitmap p).value

variable {b b' : Bitmap1024}

/-- The words of a bitmap that is in order are determined by its bits. -/
theorem Ok.same (h : b.Ok) (h' : b'.Ok) (heq : ∀ i < 1024, b.isSet i = b'.isSet i) : b.Same b' := by
  have hbit : ∀ p < 32, ∀ i < 32, (b.childBitmap p).isSet i = (b'.childBitmap p).isSet i := by
    intro p hp i hi
    have hall := heq (p * 32 + i) (by omega)
    rwa [isSet_eq (by omega), isSet_eq (by omega), show (p * 32 + i) / 32 = p by omega,
      show (p * 32 + i) % 32 = i by omega] at hall
  have hchild : ∀ p < 32, (b.childBitmap p).value = (b'.childBitmap p).value := by
    intro p hp
    refine BitVec.eq_of_getLsbD_eq fun i hi => ?_
    have hall := hbit p hp i hi
    rwa [Bitmap32.isSet, Bitmap32.isSet, decide_eq_true hi, Bool.true_and, Bool.true_and] at hall
  refine ⟨BitVec.eq_of_getLsbD_eq fun p hp => ?_, hchild⟩
  rw [h.parent p hp, h'.parent p hp, Bitmap32.isFull, Bitmap32.isFull, hchild p hp]

end MultilevelBitmap

namespace Region

/-- The free blocks are those of a new region. -/
def Fresh (r : Region) : Prop :=
  ∀ l j, j < frameCountPerRegion → (r.block l j ↔ l = 6 ∧ j % maxBlockSize = 0)

/-- The free blocks that a block of order `m` at the frame `i` makes up a new region with. The frame is
the first of its group. There is one block of each order from `m` on, where `join` will look for it, and
one of the largest order for each other group; what is at `i` itself makes no difference. Outside of the
region, nothing is freed. -/
def Completes (r : Region) (m i : ℕ) : Prop :=
  (i < frameCountPerRegion → i % maxBlockSize = 0) ∧
    ∀ l j, j < frameCountPerRegion → ¬ (m ≤ l ∧ j = i) →
      (r.block l j ↔ (l = 6 ∧ j % maxBlockSize = 0) ∨ (m ≤ l ∧ l < 6) ∧ j = i ^^^ 2 ^ l)

variable {r : Region} {k i n base : ℕ}

theorem fresh_new (base : ℕ) : (new base).Fresh := by
  intro l j hj
  rw [(block_new base).2]
  have hj : j < 1024 := hj
  show l = 6 ∧ _ ↔ l = 6 ∧ j % 64 = 0
  refine and_congr_right fun _ => ⟨?_, fun h => ⟨j / 64, by omega, by omega⟩⟩
  rintro ⟨g, -, rfl⟩
  exact Nat.mul_mod_left g 64

theorem same_new_iff (h : r.Ok) :
    (∀ k < maxBlockOrder, (r.pool k).Same ((new base).pool k)) ↔ r.Fresh := by
  have hnew := fresh_new base
  constructor
  · intro hsame l j hj
    rw [← hnew l j hj]
    refine and_congr_right fun hl => and_congr_right fun _ => ?_
    rw [MultilevelBitmap.isSet_eq hj, MultilevelBitmap.isSet_eq hj, Bitmap32.isSet, Bitmap32.isSet,
      (hsame l hl).child _ (by have hj : j < 1024 := hj; omega)]
  · intro hfresh k hk
    refine (h k hk).same ((block_new base).1 k hk) fun i hi => ?_
    have hiff := (hfresh k i hi).trans (hnew k i hi).symm
    have hi : i < frameCountPerRegion := hi
    have hclear : (r.pool k).isSet i = false ↔ ((new base).pool k).isSet i = false := by
      simpa [block, hk, hi] using hiff
    cases hset : (r.pool k).isSet i with
    | false => exact (hclear.1 hset).symm
    | true =>
      refine (eq_true_of_ne_false fun hfalse => ?_).symm
      rw [hclear.2 hfalse] at hset
      cases hset

theorem fresh_iff_completes (hb : r.block 6 i) : r.Fresh ↔ r.Completes 6 i := by
  have hi : i < frameCountPerRegion := hb.2.1
  constructor
  · refine fun hfresh => ⟨fun _ => ((hfresh 6 i hi).1 hb).2, fun l j hj _ => ?_⟩
    exact (hfresh l j hj).trans ⟨.inl, fun h => h.resolve_right fun h => by omega⟩
  · rintro ⟨hfirst, hothers⟩ l j hj
    by_cases hsame : 6 ≤ l ∧ j = i
    · obtain ⟨hl, rfl⟩ := hsame
      by_cases hl' : l = 6
      · subst hl'
        exact iff_of_true hb ⟨rfl, hfirst hi⟩
      · refine iff_of_false (fun hb => ?_) fun h => hl' h.1
        have hlt : l < 7 := hb.1
        omega
    · exact (hothers l j hj hsame).trans ⟨fun h => h.resolve_right fun h => by omega, .inl⟩

/-- Two buddies are replaced by one block at `i`. -/
theorem completes_join_iff (hb : r.block k i) (hbuddy : r.block k (i ^^^ 2 ^ k))
    (hk : k + 1 < maxBlockOrder) :
    (((r.setBit k i).setBit k (calculateBuddyIndex i k)).freeBit (k + 1) i).Completes (k + 1) i ↔
      r.Completes k i := by
  have hlt : k + 1 < 7 := hk
  have hne := buddy_ne k i
  refine and_congr_right fun _ => forall_congr' fun l => forall_congr' fun j =>
    imp_congr_right fun hj => ?_
  rw [block_join hb hk]
  by_cases hl : l = k
  · subst hl
    by_cases hji : j = i
    · subst hji
      simp [show l ≠ 6 by omega]
    · by_cases hjb : j = i ^^^ 2 ^ l
      · subst hjb
        simp [hne, hbuddy, show l ≠ 6 by omega, show l < 6 by omega]
      · simp [hji, hjb]
  · have hle : k + 1 ≤ l ↔ k ≤ l := by omega
    by_cases hat : k ≤ l ∧ j = i
    · simp [hle, hat]
    · have hnot : ¬ (l = k + 1 ∧ j = i) := fun h => hat ⟨by omega, h.2⟩
      simp only [hle, hat, hnot, hl, false_and, not_false_eq_true, and_true, or_false]

/-- What the loop of `join` makes of the blocks. -/
theorem fresh_joinLoop_iff (hb : r.block k i) (hn : k + n = 6) :
    (r.joinLoop i n k).Fresh ↔ r.Completes k i := by
  induction n generalizing r k with
  | zero =>
    obtain rfl : k = 6 := hn
    exact fresh_iff_completes hb
  | succ n ih =>
    have hk : k + 1 < maxBlockOrder := by
      show _ < 7
      omega
    rw [joinLoop]
    split
    case isTrue hset =>
      have hjoined := (block_join hb hk).2 (.inr ⟨rfl, rfl⟩)
      exact (ih hjoined (by omega)).trans (completes_join_iff hb ((block_buddy hb).1 hset) hk)
    case isFalse hset =>
      -- no buddy, so the block at `i` is left
      refine iff_of_false (fun hfresh => ?_) fun hcompletes => hset ((block_buddy hb).2 ?_)
      · have := ((hfresh k i hb.2.1).1 hb).1
        omega
      · have hlt : i ^^^ 2 ^ k < frameCountPerRegion := by
          rw [← calculateBuddyIndex_eq]
          exact calculateBuddyIndex_lt hb.1 hb.2.1
        exact (hcompletes.2 k _ hlt fun h => buddy_ne k i h.2).2 (.inr ⟨by omega, rfl⟩)

/-- When freeing a block brings a region back to its first state. -/
theorem fresh_freeBlock_iff (hm : calculateOrder n < maxBlockOrder) :
    (r.freeBlock (r.base + i * pageSize) n).Fresh ↔ r.Completes (calculateOrder n) i := by
  have hm' : calculateOrder n < 7 := hm
  by_cases hi : i < frameCountPerRegion
  · rw [freeBlock, index_of_base, join,
      fresh_joinLoop_iff ((block_freeBit hm hi).2 (.inr ⟨rfl, rfl⟩)) (by show _ + (7 - 1 - _) = 6; omega)]
    refine and_congr_right fun _ => forall_congr' fun l => forall_congr' fun j =>
      imp_congr_right fun _ => imp_congr_right fun hne => ?_
    rw [block_freeBit hm hi, or_iff_left fun h => hne ⟨h.1.ge, h.2⟩]
  · have hnone : ∀ l j, j < frameCountPerRegion →
        ¬ ((calculateOrder n ≤ l ∧ l < 6) ∧ j = i ^^^ 2 ^ l) := by
      rintro l j hj ⟨⟨-, hl⟩, rfl⟩
      refine hi ?_
      have hback := calculateBuddyIndex_lt (k := l) (show l < 7 by omega) hj
      rwa [calculateBuddyIndex_eq, Nat.xor_assoc, Nat.xor_self, Nat.xor_zero] at hback
    rw [freeBlock_of_le (Nat.le_of_not_lt hi) hm]
    constructor
    · refine fun hfresh => ⟨fun hlt => absurd hlt hi, fun l j hj _ => ?_⟩
      rw [hfresh l j hj, or_iff_left (hnone l j hj)]
    · rintro ⟨-, hothers⟩ l j hj
      rw [hothers l j hj fun h => hi (h.2 ▸ hj), or_iff_left (hnone l j hj)]

end Region

theorem Lease.frames_ne_nil {l : Lease} (hl : l.freed = []) (hcount : 1 ≤ l.count) :
    l.frames ≠ [] := by
  refine ne_nil_of_mem (a := l.index) (Lease.mem_frames.2 ⟨by omega, ?_⟩)
  rw [hl]
  exact not_mem_nil

namespace Estate

open Region

/-- Two frames are freed one after the other, the upper one last, and all frames are free. The two are
joined to a block that is kept under the index 1, and its buddy under the index 2, where `join` does not
find it from there: no block of the largest order is free in the group. -/
theorem not_coalesced : ∃ s, Run step Always (initial regionSize) s ∧ s.leases = [] ∧
    ¬ (s.region.pool 6).Same ((Region.new regionSize).pool 6) := by
  have heval : ∃ s ∈ runActions step (initial regionSize) [.allocate 1, .allocate 1,
      .freeBlock ⟨0, 1, []⟩, .freeBlock ⟨1, 1, []⟩], s.leases = [] ∧
      ((s.region.pool 6).childBitmap 0).value ≠
        (((new regionSize).pool 6).childBitmap 0).value := by
    decide +kernel
  obtain ⟨s, hs, hleases, hne⟩ := heval
  exact ⟨s, run_of_runActions _ hs, hleases, fun h => hne (h.child 0 (by decide))⟩

/-- The action makes a new region of the free blocks. An allocation does not: when it is refused though
nothing is handed out, then frames have been lost. -/
def Restores (s : Estate) : RegionAction → Prop
  | .allocate _ => False
  | .freeBlock lease => s.region.Completes (calculateOrder lease.count) lease.index
  | .freeFrame _ frame => s.region.Completes 0 frame

theorem base_step {s t : Estate} {a : RegionAction} (hs : s.region.Ok) (ht : s.step a = some t) :
    t.region.base = s.region.base := by
  cases a with
  | allocate count =>
    rw [step] at ht
    obtain ⟨hcount, ht⟩ := Option.ite_none_right_eq_some.1 ht
    have hspec := allocateBlock_spec hs (calculateOrder_spec hcount.1 hcount.2).1
    generalize s.region.allocateBlock count = result at hspec ht
    have hbase : result.2.base = s.region.base := by
      cases hspec with
      | none _ => rfl
      | found _ hbase _ _ => exact hbase
    dsimp only at ht
    split at ht <;> cases ht <;> exact hbase
  | freeBlock l | freeFrame l frame =>
    rw [step] at ht
    split at ht <;> cases ht
    exact base_freeBlock _ _ _

/-- A step after which no frame is handed out. -/
theorem fresh_iff {s t : Estate} {a : RegionAction} (h : s.Placed) (hbase : s.region.base ≠ 0)
    (ht : s.step a = some t) (hfreed : ∀ l ∈ t.leases, l.frames = []) :
    t.region.Fresh ↔ s.Restores a := by
  cases a with
  | allocate count =>
    rw [step] at ht
    obtain ⟨hcount, ht⟩ := Option.ite_none_right_eq_some.1 ht
    have horder := (calculateOrder_spec hcount.1 hcount.2).1
    have hspec := allocateBlock_spec h.ok horder
    generalize s.region.allocateBlock count = result at hspec ht
    cases hspec with
    | none hnone =>
      cases ht
      refine iff_of_false (fun hfresh => ?_) not_false
      exact hnone 6 0 (Nat.le_of_lt_succ horder) ((hfresh 6 0 (by decide)).2 ⟨rfl, rfl⟩)
    | @found k i r' _ _ _ _ =>
      have haddress : s.region.base + i * pageSize ≠ invalidFrame := by
        rw [invalidFrame]
        omega
      rw [if_neg haddress] at ht
      cases ht
      exact absurd (hfreed _ mem_cons_self) (Lease.frames_ne_nil rfl hcount.1)
  | freeBlock l =>
    obtain ⟨hl, ht⟩ := Option.ite_none_right_eq_some.1 ht
    cases ht
    exact fresh_freeBlock_iff (h.order l hl.1)
  | freeFrame l frame =>
    obtain ⟨-, ht⟩ := Option.ite_none_right_eq_some.1 ht
    cases ht
    rw [Restores, ← calculateOrder_one]
    exact fresh_freeBlock_iff (by rw [calculateOrder_one]; decide)

/-- **Complete joining.** In a region that does not begin at address 0, the bitmaps are those of a new
region after a step that leaves no frame handed out exactly if the step restores them; and then a block
of the largest order is free in each group. -/
theorem coalescing_complete {base : ℕ} {s t : Estate} {a : RegionAction} (hbase : base ≠ 0)
    (h : Run step Always (initial base) s) (ht : s.step a = some t)
    (hfreed : ∀ l ∈ t.leases, l.frames = []) :
    ((∀ k < maxBlockOrder, (t.region.pool k).Same ((Region.new base).pool k)) ↔ s.Restores a) ∧
      (s.Restores a → ∀ g < 16, t.region.block 6 (g * 64)) := by
  have hinv : s.Placed ∧ s.region.base = base := by
    refine h.invariant (I := fun s => s.Placed ∧ s.region.base = base)
      ⟨.initial base, base_new base⟩ ?_
    rintro x y a ⟨hx, hxbase⟩ - hy
    exact ⟨hx.step hy, (base_step hx.ok hy).trans hxbase⟩
  obtain ⟨hplaced, hs⟩ := hinv
  have hfresh := fresh_iff hplaced (by rwa [hs]) ht hfreed
  refine ⟨(same_new_iff (hplaced.step ht).ok).trans hfresh, fun hrestores g hg => ?_⟩
  exact (hfresh.2 hrestores 6 (g * 64) (by show _ < 1024; omega)).2 ⟨rfl, Nat.mul_mod_left g 64⟩

/-- Frames 0 and 1 are freed in this order, which leaves their block under the index 1; they are
allocated again and freed in the other order, and the region is as it was in the beginning. -/
theorem coalescing_complete_mended : ∃ s t, Run step Always (initial regionSize) s ∧
    s.step (.freeBlock ⟨0, 1, []⟩) = some t ∧ t.leases = [] ∧
    s.Restores (.freeBlock ⟨0, 1, []⟩) ∧ ∀ g < 16, t.region.block 6 (g * 64) := by
  have heval : ∃ s ∈ runActions step (initial regionSize) [.allocate 1, .allocate 1,
      .freeBlock ⟨0, 1, []⟩, .freeBlock ⟨1, 1, []⟩, .allocate 1, .allocate 1,
      .freeBlock ⟨1, 1, []⟩], ∃ t ∈ s.step (.freeBlock ⟨0, 1, []⟩), t.leases = [] ∧
      ∀ k < maxBlockOrder, (t.region.pool k).parentBitmap = ((new regionSize).pool k).parentBitmap ∧
        ∀ p < 32, ((t.region.pool k).childBitmap p).value =
          (((new regionSize).pool k).childBitmap p).value := by
    decide +kernel
  obtain ⟨s, hs, t, ht, hleases, hwords⟩ := heval
  have hrun := run_of_runActions _ hs
  have hnil : ∀ l ∈ t.leases, l.frames = [] := fun l hl => by
    rw [hleases] at hl
    cases hl
  obtain ⟨hiff, hblocks⟩ := coalescing_complete (by decide) hrun ht hnil
  have hrestores := hiff.1 fun k hk => ⟨(hwords k hk).1, (hwords k hk).2⟩
  exact ⟨s, t, hrun, ht, hleases, hrestores, hblocks hrestores⟩

end Estate

end Dx.Memory
