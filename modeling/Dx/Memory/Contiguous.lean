import Dx.Memory.FrameManager

/-!
# Contiguous frames

`allocate_frames` with a flag for DMA: the frames are those of one block, from its index on. The block
is taken from a region as a whole, of the next power of two; what is handed out are only the frames
that were asked for, and only these are ever freed. A region without a block that is large enough stays
marked as in use, though it may have smaller ones, until a frame of it is freed. So contiguous requests
hide memory (`not_contiguous_requests_hide_nothing`), but for those that are served with the whole of
their block and that pass no region with free frames (`Clean`): as long as all of them are such, the
manager has exactly the frames that are not handed out; and after the first that is not, there is a
frame that no request for a single frame will be served with (`exists_exhausted`).
-/

namespace Dx.Memory

open Library List Region

namespace FrameManager

variable {m m' : FrameManager} {free : ℕ → Prop} {n x : ℕ}

/-- What `allocate_frames` can come to, with a flag for DMA. -/
inductive Granted (free : ℕ → Prop) (m : FrameManager) (n : ℕ) :
    Option (Bool × List ℕ × FrameManager) → Prop
  | null {i : ℕ} : m.Null i → Granted free m n none
  /-- No block is of that size. -/
  | refused {frames : List ℕ} : ¬ (0 < n ∧ n ≤ maxBlockSize) →
      Granted free m n (some (false, frames, m))
  /-- There is no block, and all regions are marked as in use. -/
  | failure {frames : List ℕ} {m' : FrameManager} : 0 < n → n ≤ maxBlockSize →
      (∀ i, ¬ m.Offers (calculateOrder n) i) → (∀ i < 1024, m'.regionMap.isSet i = true) →
      m.Same m' → m'.Stocked free → Granted free m n (some (false, frames, m'))
  /-- A block is taken, and its frames are handed out from its index on. -/
  | success {x : ℕ} {m' : FrameManager} : 0 < n → n ≤ maxBlockSize →
      m.Locates (calculateOrder n) x →
      (∀ i, m'.regionMap.isSet i = (decide (i < x / frameCountPerRegion) || m.regionMap.isSet i)) →
      m.Same m' → m'.Stocked (fun y => free y ∧ ¬ Cell (calculateOrder n) x y) →
      Granted free m n (some (true, (List.range' x n).map fun y => y * pageSize, m'))

theorem Stocked.allocateFrames (h : m.Stocked free) (n : ℕ) :
    Granted free m n (m.allocateFrames n true) := by
  unfold FrameManager.allocateFrames
  split
  case isFalse hn => exact .refused fun hcon => hn hcon.1
  case isTrue hn =>
    rw [if_pos rfl]
    unfold FrameManager.allocateContiguousFrames
    by_cases hmax : n ≤ maxBlockSize
    · have hspec := h.allocateBlock (calculateOrder_spec hn hmax).1
      rw [if_pos hmax]
      generalize m.allocateBlock n = result at hspec
      cases hspec with
      | null hi => exact .null hi
      | failure hno hall hsame hstock =>
        dsimp only
        rw [if_neg (not_not.2 rfl)]
        dsimp only
        rw [if_neg Bool.false_ne_true, nil_append, freeFrames_replicate]
        exact .failure hn hmax hno hall hsame hstock
      | @found x m' hx hbits hne hsame hstock =>
        have hframes : ((List.range n).map fun i => x * pageSize + i * pageSize) =
            (List.range' x n).map fun y => y * pageSize := by
          rw [List.range'_eq_map_range, map_map]
          exact map_congr_left fun i _ => (Nat.add_mul x i pageSize).symm
        dsimp only
        rw [if_pos hne, hframes]
        dsimp only
        rw [length_map, length_range', Nat.sub_self, replicate_zero, append_nil, if_pos rfl]
        exact .success hn hmax hx hbits hsame hstock
    · rw [if_neg hmax]
      dsimp only
      rw [if_neg Bool.false_ne_true, nil_append, freeFrames_replicate]
      exact .refused fun hcon => hmax hcon.2

theorem Sound.allocateFrame (h : m.Sound free) (dma : Bool) :
    Allocates free m 1 (m.allocateFrames 1 dma) := by
  cases dma with
  | false => exact h.allocateFrames Nat.one_pos
  | true =>
    unfold FrameManager.allocateFrames FrameManager.allocateContiguousFrames
    have hspec := h.allocateBlock
    rw [if_pos Nat.one_pos, if_pos rfl, if_pos (show 1 ≤ maxBlockSize by decide)]
    generalize m.allocateBlock 1 = result at hspec
    cases hspec with
    | null hi => exact .null hi
    | exhausted hnone hnull hsame hs =>
      dsimp only
      rw [if_neg (not_not.2 rfl)]
      dsimp only
      rw [if_neg Bool.false_ne_true, nil_append, freeFrames_replicate]
      have hlen : ([] : List ℕ).length < 1 := Nat.one_pos
      exact .failure hlen (fun x hx => absurd hx (hnone x)) hnull hsame hs
    | @found x m' hx hne hsame hs =>
      have hframes : ((List.range 1).map fun i => x * pageSize + i * pageSize) =
          [x].map fun y => y * pageSize := by
        simp
      dsimp only
      rw [if_pos hne, hframes]
      have hlen : [x].length = 1 := rfl
      refine .success hlen (nodup_singleton x) ?_ hsame ?_
      · intro y hy
        rwa [mem_singleton.1 hy]
      · have hfree : (fun y => free y ∧ y ∉ [x]) = fun y => free y ∧ y ≠ x := by
          funext y
          rw [mem_singleton]
        rw [hfree]
        exact hs

theorem allocateFrames_one {block : ℕ} (h : m.allocateBlock 1 = some (block, m')) :
    m.allocateFrames 1 false = some (decide (block ≠ invalidFrame), [block], m') := by
  have hframes : m.allocateDiscontiguousFrames 1 =
      if block = invalidFrame then some (false, [], m') else some (true, [block], m') := by
    rw [FrameManager.allocateDiscontiguousFrames, h]
    rfl
  unfold FrameManager.allocateFrames
  rw [if_pos Nat.one_pos, if_neg Bool.false_ne_true, hframes]
  by_cases hblock : block = invalidFrame
  · rw [if_pos hblock, hblock]
    rfl
  · rw [if_neg hblock, decide_eq_true hblock]
    rfl

theorem Supported.length_pos {highMemorySize : ℕ} (h : Supported highMemorySize) :
    0 < (FrameManager.managedFrames highMemorySize).length := by
  have htotal := h.total
  obtain ⟨h64, h4⟩ := h
  have hcount : pagedRegionCount highMemorySize =
      (totalMemorySize highMemorySize + 4294967296 - 12582912) % 4294967296 / 4194304 := rfl
  rw [FrameManager.managedFrames, length_map, length_range]
  show 0 < pagedRegionCount highMemorySize * 1024
  omega

theorem Stocked.exists_free {k i : ℕ} (h : m.Stocked free) (hi : m.Offers k i) :
    ∃ y, y / frameCountPerRegion = i ∧ free y := by
  obtain ⟨-, r, l, j, hr, -, hb⟩ := hi
  obtain ⟨hj, hfree⟩ := (h.tiling hr).free_of_block hb (cell_self l j)
  exact ⟨_, region_of_index i hj, hfree⟩

end FrameManager

/-! ### Requests with and without flags -/

inductive FrameRequest
  /-- `allocate_frames`; `dma` is whether one of the flags for DMA is given. -/
  | allocate (frameCount : ℕ) (dma : Bool)
  /-- `free_frames`. -/
  | free (frames : List ℕ)

namespace Inventory

open FrameManager

/-- The manager does what it is asked for; only frames that are handed out are freed. -/
def serve (s : Inventory) : FrameRequest → Option Inventory
  | .allocate frameCount dma =>
    match s.manager.allocateFrames frameCount dma with
    | none => none
    | some (true, frames, m) => some ⟨m, frames ++ s.allocated⟩
    | some (false, _, m) => some ⟨m, s.allocated⟩
  | .free frames => s.step (.free frames)

/-- No memory is hidden. A request for a single frame returns, and fails only if every managed frame
is handed out; and if none is, then all of them can be allocated. -/
def HidesNothing (highMemorySize : ℕ) (s : Inventory) : Prop :=
  (∀ dma, ∃ success frames m, s.manager.allocateFrames 1 dma = some (success, frames, m) ∧
    (success = false → ∀ frame ∈ managedFrames highMemorySize, frame ∈ s.allocated)) ∧
  (s.allocated = [] → ∃ frames m,
    s.manager.allocateFrames (managedFrames highMemorySize).length false = some (true, frames, m) ∧
      frames.Perm (managedFrames highMemorySize))

/-- A contiguous request that hides nothing: it passes no region with free frames on the way to its
block, its number of frames is not rounded up, and its block is kept under the first of its frames. -/
def Clean (s : Inventory) : FrameRequest → Prop
  | .allocate frameCount true => 0 < frameCount → frameCount ≤ maxBlockSize →
      (∀ i, s.manager.Offers 0 i → ∃ j ≤ i, s.manager.Offers (calculateOrder frameCount) j) ∧
      ∀ x, s.manager.Locates (calculateOrder frameCount) x →
        frameCount = 2 ^ calculateOrder frameCount ∧ x % frameCount = 0
  | _ => True

/-- Requests without flags. -/
def Plain (_ : Inventory) : FrameRequest → Prop
  | .allocate _ dma => dma = false
  | .free _ => True

/-- A frame that the regions do not have, or that is in one that is marked as in use: requests for a
single frame are served until there is nothing left for them, and never with that frame. -/
theorem exists_exhausted {s : Inventory} {free : ℕ → Prop} {y : ℕ} (xs : List ℕ)
    (h : s.manager.Stocked free) (hnull : ∀ i, ¬ s.manager.Null i) (hxs : ∀ x, free x → x ∈ xs)
    (hy : y * pageSize ∉ s.allocated)
    (hmark : free y → s.manager.regionMap.isSet (y / frameCountPerRegion) = true) :
    ∃ u, Run serve Plain s u ∧ y * pageSize ∉ u.allocated ∧
      ∃ frames m, u.manager.allocateFrames 1 false = some (false, frames, m) := by
  -- by induction on the number of frames that are free
  induction hlen : xs.length using Nat.strong_induction_on generalizing xs s free with
  | _ n ih =>
    have hspec := h.allocateBlock (n := 1) (by rw [calculateOrder_one]; decide)
    rw [calculateOrder_one] at hspec
    generalize hblock : s.manager.allocateBlock 1 = result at hspec
    cases hspec with
    | null hi => exact absurd hi (hnull _)
    | failure _ _ _ _ => exact ⟨s, .refl, hy, _, _, allocateFrames_one hblock⟩
    | @found x m hx hbits hne hsame hstock =>
      have hserve : s.serve (.allocate 1 false) = some ⟨m, [x * pageSize] ++ s.allocated⟩ := by
        rw [serve, allocateFrames_one hblock, decide_eq_true hne]
      have hplain : s.Plain (.allocate 1 false) := rfl
      have hfree := h.free_of_locates hx (cell_self 0 x)
      have hyx : y ≠ x := by
        rintro rfl
        have hset := hmark hfree
        rw [hx.clear] at hset
        cases hset
      have hmem := hxs x hfree
      have hlt : (xs.erase x).length < n := by
        rw [length_erase_of_mem hmem, ← hlen]
        exact Nat.pred_lt (length_pos_of_mem hmem).ne'
      have hout : y * pageSize ∉ [x * pageSize] ++ s.allocated := fun hin =>
        (mem_cons.1 hin).elim (fun heq => hyx (mul_pageSize_inj.1 heq)) hy
      obtain ⟨u, hu, hfail⟩ := ih _ hlt (xs.erase x) (s := ⟨m, [x * pageSize] ++ s.allocated⟩)
        hstock (fun i hi => hnull i ((hsame.null_iff i).1 hi))
        (fun z hz => (mem_erase_of_ne fun hzx => hz.2 (cell_zero.2 hzx)).2 (hxs z hz.1)) hout
        (fun hz => by rw [hbits, hmark hz.1, Bool.or_true]) rfl
      exact ⟨u, (Run.single hplain hserve).trans hu, hfail⟩

/-- A block has frames that are not handed out, unless it is handed out as a whole. -/
theorem exists_cell_not_mem {k n x : ℕ} (hle : n ≤ 2 ^ k) (hnot : ¬ (n = 2 ^ k ∧ x % n = 0)) :
    ∃ y, Cell k x y ∧ y ∉ List.range' x n := by
  have hdiv := Nat.div_add_mod' x (2 ^ k)
  have hpos := Nat.two_pow_pos k
  by_cases hx : x % 2 ^ k = 0
  · refine ⟨x + n, ?_, ?_⟩
    · have hlt : n < 2 ^ k := Nat.lt_of_le_of_ne hle fun heq => hnot ⟨heq, heq ▸ hx⟩
      rw [cell_iff_le]
      omega
    · rw [mem_range'_1]
      omega
  · refine ⟨x / 2 ^ k * 2 ^ k, ?_, ?_⟩
    · rw [cell_iff_le]
      omega
    · rw [mem_range'_1]
      omega

namespace Exact

variable {highMemorySize n : ℕ} {s t : Inventory} {a : FrameRequest}

theorem contiguous (h : s.Exact highMemorySize) (hclean : s.Clean (.allocate n true))
    (ht : s.serve (.allocate n true) = some t) : t.Exact highMemorySize := by
  have hspec := h.sound.stocked.allocateFrames n
  rw [serve] at ht
  generalize s.manager.allocateFrames n true = result at hspec ht
  cases hspec with
  | null _ => cases ht
  | refused _ =>
    cases ht
    exact h
  | failure hn hmax hno _ hsame hstock =>
    cases ht
    refine h.same hsame ⟨hstock, fun i x _ _ hx => ?_⟩ h.managed
    obtain ⟨j, -, hj⟩ := (hclean hn hmax).1 _ (h.sound.offers hx)
    exact hno j hj
  | @success x m hn hmax hx hbits hsame hstock =>
    cases ht
    obtain ⟨hoffers, hwhole⟩ := hclean hn hmax
    obtain ⟨hpow, hfirst⟩ := hwhole x hx
    have hcell : ∀ y, y ∈ List.range' x n ↔ Cell (calculateOrder n) x y := by
      intro y
      rw [cell_iff_le, ← hpow, Nat.div_mul_cancel (Nat.dvd_of_mod_eq_zero hfirst), mem_range'_1]
    refine h.same hsame ?_ fun frame hframe => ?_
    · have hs := h.sound.of_found hx hbits hoffers hstock fun _ hy => hy.1
      simpa only [← hcell, List.mem_append, not_or, mem_map, and_assoc, and_comm, and_left_comm]
        using hs
    · rcases List.mem_append.1 hframe with hframe | hframe
      · obtain ⟨y, hy, rfl⟩ := List.mem_map.1 hframe
        exact (h.sound.free_of_locates hx ((hcell y).1 hy)).1
      · exact h.managed frame hframe

/-- Without flags, a request is what it was in a run without flags; for no frames, nothing is done. -/
theorem discontiguous (h : s.Exact highMemorySize)
    (ht : s.serve (.allocate n false) = some t) : t.Exact highMemorySize := by
  rcases Nat.eq_zero_or_pos n with rfl | hn
  · cases ht
    exact h
  · refine h.allocate (n := n) ?_
    rw [Inventory.step, if_pos hn]
    exact ht

theorem serve (h : s.Exact highMemorySize) (hclean : s.Clean a) (ht : s.serve a = some t) :
    t.Exact highMemorySize := by
  cases a with
  | allocate n dma =>
    cases dma with
    | true => exact h.contiguous hclean ht
    | false => exact h.discontiguous ht
  | free frames => exact h.free ht

theorem of_plain (h : s.Exact highMemorySize) (hrun : Run Inventory.serve Plain s t) :
    t.Exact highMemorySize := by
  refine hrun.invariant h fun {x y a} hx hplain hy => hx.serve ?_ hy
  cases a with
  | allocate n dma =>
    cases hplain
    trivial
  | free frames => trivial

theorem subperm_of_managed (highMemorySize : ℕ) {xs : List ℕ} (hnodup : xs.Nodup)
    (hxs : ∀ x ∈ xs, x * pageSize ∈ managedFrames highMemorySize) :
    (xs.map fun x => x * pageSize).Subperm (managedFrames highMemorySize) := by
  refine List.Nodup.subperm (hnodup.map fun x y heq => mul_pageSize_inj.1 heq) fun frame hframe => ?_
  obtain ⟨x, hx, rfl⟩ := List.mem_map.1 hframe
  exact hxs x hx

section

variable (h : s.Exact highMemorySize)
include h

theorem allocates_of_nil (hnone : s.allocated = []) (hn : 0 < n)
    (hle : n ≤ (managedFrames highMemorySize).length) :
    ∃ (xs : List ℕ) (m : FrameManager),
      s.manager.allocateFrames n false = some (true, xs.map fun x => x * pageSize, m) ∧
      xs.length = n ∧ xs.Nodup ∧ ∀ x ∈ xs, x * pageSize ∈ managedFrames highMemorySize := by
  have hspec := h.sound.allocateFrames hn
  generalize s.manager.allocateFrames n false = result at hspec
  cases hspec with
  | null hi => exact absurd hi (h.null _)
  | @success xs m hlen hnodup hfree _ _ =>
    exact ⟨xs, m, rfl, hlen, hnodup, fun x hx => (hfree x hx).1⟩
  | @failure xs frames m hlen hall _ _ _ =>
    have hsub : managedFrames highMemorySize ⊆ xs.map fun x => x * pageSize := by
      intro frame hframe
      obtain ⟨x, rfl, -⟩ := mem_managedFrames.1 hframe
      refine mem_map.2 (hall x ⟨hframe, ?_⟩)
      rw [hnone]
      exact not_mem_nil
    have hlen' := (List.Nodup.subperm nodup_managedFrames hsub).length_le
    rw [length_map] at hlen'
    omega

theorem hidesNothing (hsupported : Supported highMemorySize) : s.HidesNothing highMemorySize := by
  constructor
  · intro dma
    have hspec := h.sound.allocateFrame dma
    generalize s.manager.allocateFrames 1 dma = result at hspec
    cases hspec with
    | null hi => exact absurd hi (h.null _)
    | success => exact ⟨true, _, _, rfl, fun hcon => absurd hcon Bool.noConfusion⟩
    | @failure xs frames m hlen hall _ _ _ =>
      refine ⟨false, _, _, rfl, fun _ frame hframe => ?_⟩
      obtain rfl : xs = [] := length_eq_zero_iff.1 (Nat.lt_one_iff.1 hlen)
      obtain ⟨x, rfl, -⟩ := mem_managedFrames.1 hframe
      by_contra hout
      exact not_mem_nil (hall x ⟨hframe, hout⟩)
  · intro hnone
    obtain ⟨xs, m, heq, hlen, hnodup, hxs⟩ :=
      h.allocates_of_nil hnone hsupported.length_pos (Nat.le_refl _)
    refine ⟨_, m, heq, (subperm_of_managed _ hnodup hxs).perm_of_length_le ?_⟩
    rw [length_map, hlen]

/-- A frame that is not handed out must be in a region that may be used, or else requests for a single
frame fail in the end without it. -/
theorem exists_hidden {free : ℕ → Prop} {y : ℕ} (hsame : s.manager.Same t.manager)
    (hstock : t.manager.Stocked free)
    (hfree : ∀ x, free x → x * pageSize ∈ managedFrames highMemorySize)
    (hout : y * pageSize ∉ t.allocated)
    (hmark : free y → t.manager.regionMap.isSet (y / frameCountPerRegion) = true) :
    ∃ u, Run Inventory.serve Plain t u ∧ y * pageSize ∉ u.allocated ∧
      ∃ frames m, u.manager.allocateFrames 1 false = some (false, frames, m) :=
  exists_exhausted ((managedFrames highMemorySize).map (· / pageSize)) hstock
    (fun i hi => h.null i ((hsame.null_iff i).1 hi))
    (fun x hx => List.mem_map.2 ⟨_, hfree x hx, Nat.mul_div_cancel x (by decide)⟩) hout hmark

/-- A contiguous request after which nothing will be hidden. -/
theorem clean_of_hidesNothing (ht : s.serve (.allocate n true) = some t)
    (hfuture : ∀ u, Run Inventory.serve Plain t u → u.HidesNothing highMemorySize) :
    s.Clean (.allocate n true) := by
  intro hn hmax
  have hseen : ∀ {y}, y * pageSize ∈ managedFrames highMemorySize →
      ¬ ∃ u, Run Inventory.serve Plain t u ∧ y * pageSize ∉ u.allocated ∧
        ∃ frames m, u.manager.allocateFrames 1 false = some (false, frames, m) := by
    rintro y hy ⟨u, hu, hnot, frames, m, heq⟩
    obtain ⟨success, frames', m', heq', hall⟩ := (hfuture u hu).1 false
    cases heq.symm.trans heq'
    exact hnot (hall rfl _ hy)
  have hspec := h.sound.stocked.allocateFrames n
  rw [Inventory.serve] at ht
  generalize s.manager.allocateFrames n true = result at hspec ht
  cases hspec with
  | null _ => cases ht
  | refused hcon => exact absurd ⟨hn, hmax⟩ hcon
  | @failure _ m _ _ hno hall hsame hstock =>
    cases ht
    refine ⟨fun i hi => ?_, fun x hx => absurd hx.offers (hno _)⟩
    -- all regions are marked, and this one has a free frame
    obtain ⟨y, rfl, hy⟩ := h.sound.exists_free hi
    obtain ⟨r, hr⟩ := Option.ne_none_iff_exists'.1 (h.sound.inside y hy)
    exact (hseen hy.1 (h.exists_hidden (t := ⟨m, s.allocated⟩) hsame hstock (fun x hx => hx.1) hy.2
      fun _ => hall _ (h.sound.region hr).2.1)).elim
  | @success x m _ _ hx hbits hsame hstock =>
    cases ht
    have hout : ∀ y, y * pageSize ∉ s.allocated → y ∉ List.range' x n →
        y * pageSize ∉ (List.range' x n).map (fun y => y * pageSize) ++ s.allocated := by
      intro y hy hy' hin
      exact (List.mem_append.1 hin).elim (fun hin => hy' (mem_map.1 hin)) hy
    constructor
    · intro i hi
      by_contra hno
      -- the region has been passed, so it is marked
      have hlt : i < x / frameCountPerRegion :=
        Nat.lt_of_not_le fun hle => hno ⟨_, hle, hx.offers⟩
      obtain ⟨y, rfl, hy⟩ := h.sound.exists_free hi
      refine hseen hy.1 (h.exists_hidden hsame hstock (fun x hx => hx.1.1) (hout y hy.2 fun hin => ?_)
        fun _ => by rw [hbits, decide_eq_true hlt, Bool.true_or])
      exact Nat.not_le_of_lt hlt (Nat.div_le_div_right (mem_range'_1.1 hin).1)
    · intro x' hx'
      obtain rfl := hx.unique hx'
      by_contra hnot
      -- a frame of the block is not handed out, and not free any more
      obtain ⟨y, hcell, hy⟩ := exists_cell_not_mem (calculateOrder_spec hn hmax).2 hnot
      obtain ⟨hmanaged, hfree⟩ := h.sound.free_of_locates hx hcell
      exact hseen hmanaged (h.exists_hidden hsame hstock (fun x hx => hx.1.1) (hout y hfree hy)
        fun hleft => absurd hcell hleft.2)

end

end Exact

/-- The first contiguous request for a power of two of frames. -/
theorem clean_initial {highMemorySize heap n : ℕ} (hn : n = 2 ^ calculateOrder n) :
    (initial highMemorySize heap).Clean (.allocate n true) := by
  have hblock : ∀ {i r l j}, (initial highMemorySize heap).manager.region i = some r → r.block l j →
      l = 6 ∧ ∃ g < 16, j = g * 64 := by
    intro i r l j hi hb
    obtain ⟨-, hi⟩ := Option.ite_none_right_eq_some.1 hi
    cases hi
    exact ((block_new _).2 l j).1 hb
  intro hpos hmax
  have horder : calculateOrder n ≤ 6 := Nat.le_of_lt_succ (calculateOrder_spec hpos hmax).1
  refine ⟨fun i hi => ⟨i, Nat.le_refl i, ?_⟩, fun x hx => ⟨hn, ?_⟩⟩
  · obtain ⟨hclear, r, l, j, hr, -, hb⟩ := hi
    exact ⟨hclear, r, l, j, hr, (hblock hr hb).1 ▸ horder, hb⟩
  · obtain ⟨r, l, hr, hpick⟩ := hx.pick
    obtain ⟨-, g, -, hg⟩ := hblock hr hpick.block
    have hdvd : n ∣ 64 := hn ▸ Nat.pow_dvd_pow 2 horder
    have hx : 64 ∣ x := by
      have hg : x % 1024 = g * 64 := hg
      omega
    exact Nat.mod_eq_zero_of_dvd (hdvd.trans hx)

/-- Contiguous requests do hide memory: on a machine with 64MB, three contiguous frames are handed out
of a block of four. The fourth is lost: single frames are handed out until a request for one fails,
and it is not among them. -/
theorem not_contiguous_requests_hide_nothing : ∃ s t,
    (initial 64512 kernelHeapBlockCount).serve (.allocate 3 true) = some s ∧ Run serve Plain s t ∧
    (0xC03000 ∈ managedFrames 64512 ∧ 0xC03000 ∉ t.allocated) ∧
    ∃ frames m, t.manager.allocateFrames 1 false = some (false, frames, m) := by
  have heval : ∃ s ∈ (initial 64512 kernelHeapBlockCount).serve (.allocate 3 true),
      s.allocated = [0xC00000, 0xC01000, 0xC02000] := by
    decide +kernel
  obtain ⟨s, hs, hallocated⟩ := heval
  have hexact : (initial 64512 kernelHeapBlockCount).Exact 64512 :=
    .initial (by decide) (by decide +kernel)
  have hspec := hexact.sound.stocked.allocateFrames 3
  have horder : calculateOrder 3 = 2 := by decide +kernel
  have hserve := hs
  rw [Option.mem_def, serve] at hserve
  generalize (initial 64512 kernelHeapBlockCount).manager.allocateFrames 3 true = result
    at hspec hserve
  cases hspec with
  | null _ => cases hserve
  | refused hcon => exact absurd (by decide) hcon
  | failure => cases hserve; cases hallocated
  | @success x m _ _ _ _ hsame hstock =>
    have hstate := Option.some.inj hserve
    obtain rfl : m = s.manager := congrArg Inventory.manager hstate
    have hfirst : x * pageSize = 3072 * pageSize :=
      (List.cons.inj ((congrArg Inventory.allocated hstate).trans hallocated)).1
    obtain rfl : x = 3072 := mul_pageSize_inj.1 hfirst
    have hcell : Cell (calculateOrder 3) 3072 3075 := by
      rw [horder]
      decide
    obtain ⟨t, ht, hout, hfail⟩ := hexact.exists_hidden (y := 3075) hsame hstock
      (fun x hx => hx.1.1) (by rw [hallocated]; decide) fun hleft => absurd hcell hleft.2
    have hmanaged : 3075 * pageSize ∈ managedFrames 64512 :=
      mul_pageSize_mem_managedFrames.2 (by decide +kernel)
    exact ⟨s, t, hs, ht, ⟨hmanaged, hout⟩, hfail⟩

/-- **Contiguous requests do not hide memory**, if each of them is clean: in every state that is
reached by requests with and without flags and by freeing frames, a request for a single frame fails
only if every managed frame is handed out, and if none is, then all can be allocated. And a step after
which this will be so as long as no more contiguous requests are made is a clean one. -/
theorem contiguous_requests_hide_nothing {highMemorySize heap : ℕ} {s : Inventory}
    (hsupported : Supported highMemorySize) (hheap : pagedRegionCount highMemorySize ≤ heap)
    (h : Run serve Clean (initial highMemorySize heap) s) :
    s.HidesNothing highMemorySize ∧ ∀ a t, s.serve a = some t →
      ((∀ u, Run serve Plain t u → u.HidesNothing highMemorySize) ↔ s.Clean a) := by
  have hexact : s.Exact highMemorySize :=
    h.invariant (.initial hsupported hheap) fun hx hclean ht => hx.serve hclean ht
  refine ⟨hexact.hidesNothing hsupported, fun a t ht => ⟨fun hfuture => ?_, fun hclean u hu => ?_⟩⟩
  · match a with
    | .allocate n true => exact hexact.clean_of_hidesNothing ht hfuture
    | .allocate _ false | .free _ => exact trivial
  · exact ((hexact.serve hclean ht).of_plain hu).hidesNothing hsupported

/-- On a machine with 64MB: a block of four frames, two single frames, one of the block freed, and a
request that is refused. -/
theorem contiguous_requests_hide_nothing_four :
    ∃ s, Run serve Clean (initial 64512 kernelHeapBlockCount) s ∧
      s.allocated = [0xC04000, 0xC05000, 0xC00000, 0xC01000, 0xC03000] ∧ s.HidesNothing 64512 := by
  have heval : ∃ s ∈ (initial 64512 kernelHeapBlockCount).serve (.allocate 4 true),
      ∃ t ∈ s.serve (.allocate 2 false), ∃ u ∈ t.serve (.free [0xC02000]),
      ∃ v ∈ u.serve (.allocate 65 true),
      v.allocated = [0xC04000, 0xC05000, 0xC00000, 0xC01000, 0xC03000] := by
    decide +kernel
  obtain ⟨s, hs, t, ht, u, hu, v, hv, hallocated⟩ := heval
  have hrefused : u.Clean (.allocate 65 true) := fun _ hmax => absurd hmax (by decide)
  have hrun : Run serve Clean (initial 64512 kernelHeapBlockCount) v :=
    (((Run.single (a := .allocate 4 true) (clean_initial (by decide +kernel)) hs).tail
      (a := .allocate 2 false) trivial ht).tail (a := .free _) trivial hu).tail hrefused hv
  exact ⟨v, hrun, hallocated,
    (contiguous_requests_hide_nothing (by decide) (by decide +kernel) hrun).1⟩

end Inventory

end Dx.Memory
