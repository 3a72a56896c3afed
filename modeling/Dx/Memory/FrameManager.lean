import Mathlib.Data.List.Nodup
import Mathlib.Data.List.Perm.Subperm
import Dx.Memory.Region

/-!
# The page frame manager

`page_frame_manager_c`: the memory above the kernel is carved into regions of 4MB, and a bitmap has
the regions that may have free frames. The bitmap is brought up to date only when it is used:
`allocate_block` takes the first region whose bit is clear, and if there is nothing to be had from
it, it leaves the bit set and goes on with the next; a frame that is freed clears the bit.

The regions themselves come from the kernel heap. A region takes one block of 4KB of the heap, and
the constructor does not look at whether there was one: the entry of a region the heap had no room
for is `NULL`, and its bit is clear all the same. The heap has at most `kernelHeapBlockCount` blocks
for that, less than the regions of a machine with nearly 4GB (`not_allocation_exact`).
-/

namespace Dx.Memory

open Library List Region

/-! ### The kernel heap -/

def kernelDataPage0Base : ℕ := 0x00800000
def kernelDataPage0End : ℕ := kernelDataPage0Base + 0x400000
def kernelPagedBoundary : ℕ := kernelDataPage0End
/-- `KERNEL_HEAP_DESCRIPTOR_BASE`: the context of the boot thread, the GDT, the IDT and the TSS come
before it. -/
def kernelHeapDescriptorBase : ℕ := kernelDataPage0Base + 4096 + 4096 + 4096 + (128 + 8192)
def kernelPool8192Base : ℕ := (kernelHeapDescriptorBase + 4096 + 8191) / 8192 * 8192
/-- `KERNEL_POOL4096_BASE`: the pools of the other sizes come before it. -/
def kernelPool4096Base : ℕ := kernelPool8192Base + 16 * 8192 + 64 * 1024 + 64 * 512 + 128 * 256 +
  256 * 128 + 512 * 64 + 1024 * 32 + 1024 * 16 + 1024 * 8
/-- The blocks of the heap that can hold a `page_frame_region_c`, which has 2832 bytes: those of the
pool of 4KB blocks, and the 16 of the pool of 8KB blocks. -/
def kernelHeapBlockCount : ℕ := (kernelDataPage0End - kernelPool4096Base) / 4096 + 16

/-! ### The manager -/

/-- `page_frame_manager_c`. -/
structure FrameManager where
  /-- `region`: `none` is `NULL`. -/
  region : ℕ → Option Region
  /-- `region_map`: the regions from which nothing can be allocated. -/
  regionMap : Bitmap1024

namespace FrameManager

def totalMemorySize (highMemorySize : ℕ) : ℕ := (highMemorySize * 1024 + 1024 * 1024) % 2 ^ 32

def pagedRegionCount (highMemorySize : ℕ) : ℕ :=
  (totalMemorySize highMemorySize + 2 ^ 32 - kernelPagedBoundary) % 2 ^ 32 / regionSize

def firstRegion : ℕ := kernelPagedBoundary / regionSize

def lastRegion (highMemorySize : ℕ) : ℕ := firstRegion + pagedRegionCount highMemorySize

/-- `page_frame_manager_c()`, on a machine with `highMemorySize` KB above the first MB, and with
`heap` blocks left in the kernel heap. -/
def new (highMemorySize heap : ℕ) : FrameManager where
  region := fun i =>
    if firstRegion ≤ i ∧ i < lastRegion highMemorySize ∧ i < firstRegion + heap then
      some (.new (kernelPagedBoundary + (i - firstRegion) * regionSize))
    else none
  regionMap := ((Bitmap1024.new 1024).setRange 0 firstRegion).setRange (lastRegion highMemorySize)
    (1024 - lastRegion highMemorySize)

/-- The loop of `allocate_block`, at most `fuel` times; `none` when a region is used that is not
there. -/
def allocateLoop (frameCount : ℕ) : ℕ → FrameManager → Option (ℕ × FrameManager)
  | 0, m => some (invalidFrame, m)
  | fuel + 1, m =>
    let found := m.regionMap.allocate
    if found.1 < m.regionMap.size then
      match m.region found.1 with
      | none => none
      | some region =>
        let result := region.allocateBlock frameCount
        let regions := Function.update m.region found.1 (some result.2)
        if result.1 ≠ invalidFrame then some (result.1, ⟨regions, found.2.free found.1⟩)
        else allocateLoop frameCount fuel ⟨regions, found.2⟩
    else some (invalidFrame, ⟨m.region, found.2⟩)

/-- `allocate_block`: each time, a bit is set, so the loop ends. -/
def allocateBlock (frameCount : ℕ) (m : FrameManager) : Option (ℕ × FrameManager) :=
  m.allocateLoop frameCount 1025

/-- `allocate_contiguous_frames`: whether it succeeds, and the frames. -/
def allocateContiguousFrames (frameCount : ℕ) (m : FrameManager) :
    Option (Bool × List ℕ × FrameManager) :=
  if frameCount ≤ maxBlockSize then
    match m.allocateBlock frameCount with
    | none => none
    | some (block, m) =>
      if block ≠ invalidFrame then
        some (true, (List.range frameCount).map fun i => block + i * pageSize, m)
      else some (false, [], m)
  else some (false, [], m)

/-- `allocate_discontiguous_frames`: whether it succeeds, and the frames that were allocated. -/
def allocateDiscontiguousFrames : ℕ → FrameManager → Option (Bool × List ℕ × FrameManager)
  | 0, m => some (true, [], m)
  | frameCount + 1, m =>
    match m.allocateBlock 1 with
    | none => none
    | some (block, m) =>
      if block = invalidFrame then some (false, [], m)
      else
        match allocateDiscontiguousFrames frameCount m with
        | none => none
        | some (success, frames, m) => some (success, block :: frames, m)

/-- `free_frames`, for one of the frames. -/
def freeFrame (frame : ℕ) (m : FrameManager) : FrameManager :=
  if frame = invalidFrame then m
  else
    match m.region (frame / regionSize) with
    | none => m
    | some region =>
      ⟨Function.update m.region (frame / regionSize) (some (region.freeBlock frame 1)),
        m.regionMap.free (frame / regionSize)⟩

def freeFrames (frames : List ℕ) (m : FrameManager) : FrameManager :=
  frames.foldl (fun m frame => m.freeFrame frame) m

/-- `allocate_frames`: whether it succeeds, and the frames; `dma` is whether one of the flags for DMA
is given. The rest of the array is `INVALID_FRAME`. -/
def allocateFrames (frameCount : ℕ) (dma : Bool) (m : FrameManager) :
    Option (Bool × List ℕ × FrameManager) :=
  if 0 < frameCount then
    match if dma then m.allocateContiguousFrames frameCount
      else m.allocateDiscontiguousFrames frameCount with
    | none => none
    | some (success, frames, m) =>
      let array := frames ++ List.replicate (frameCount - frames.length) invalidFrame
      some (success, array, if success then m else m.freeFrames array)
  else some (false, [], m)

/-! ### The free frames -/

/-- The regions have exactly the frames with `free`: frame `x` is that at address `x * 4096`. -/
structure Stocked (free : ℕ → Prop) (m : FrameManager) : Prop where
  map : m.regionMap.Ok
  size : m.regionMap.size = 1024
  /-- The regions are where they should be. -/
  region : ∀ {i r}, m.region i = some r → 0 < i ∧ i < 1024 ∧ r.base = i * regionSize ∧ r.Ok
  /-- Their free blocks hold the frames that are free. -/
  tiling : ∀ {i r}, m.region i = some r →
    Tiling r.block fun x => x < frameCountPerRegion ∧ free (i * frameCountPerRegion + x)
  inside : ∀ x, free x → m.region (x / frameCountPerRegion) ≠ none

/-- The manager has exactly the frames with `free`. -/
structure Sound (free : ℕ → Prop) (m : FrameManager) : Prop extends stocked : Stocked free m where
  /-- The regions whose bit is set have no free frames. -/
  full : ∀ i x, m.regionMap.isSet i = true → x / frameCountPerRegion = i → ¬ free x

/-- A region that is not there, and that is not marked as in use. -/
def Null (m : FrameManager) (i : ℕ) : Prop :=
  i < 1024 ∧ m.regionMap.isSet i = false ∧ m.region i = none

/-- The regions that are not there, and their bits, are the same. -/
structure Same (m m' : FrameManager) : Prop where
  region : ∀ i, m'.region i = none ↔ m.region i = none
  bits : ∀ i, m.region i = none → m'.regionMap.isSet i = m.regionMap.isSet i

/-- What `allocate_block` can come to, for a single frame. -/
inductive Allocated (free : ℕ → Prop) (m : FrameManager) : Option (ℕ × FrameManager) → Prop
  /-- A region is used that is not there. -/
  | null {i : ℕ} : m.Null i → Allocated free m none
  /-- There is no free frame. -/
  | exhausted {m' : FrameManager} : (∀ x, ¬ free x) → (∀ i, ¬ m.Null i) → m.Same m' →
      m'.Sound free → Allocated free m (some (invalidFrame, m'))
  /-- A free frame is handed out. -/
  | found {x : ℕ} {m' : FrameManager} : free x → x * pageSize ≠ invalidFrame → m.Same m' →
      m'.Sound (fun y => free y ∧ y ≠ x) → Allocated free m (some (x * pageSize, m'))

/-- The region may be used, and has a block of order `k` or more. -/
def Offers (m : FrameManager) (k i : ℕ) : Prop :=
  m.regionMap.isSet i = false ∧ ∃ r l j, m.region i = some r ∧ k ≤ l ∧ r.block l j

/-- Frame `x` is where the block of order `k` is taken from: the first region that has one takes it
there. -/
structure Locates (m : FrameManager) (k x : ℕ) : Prop where
  clear : m.regionMap.isSet (x / frameCountPerRegion) = false
  pick : ∃ r l, m.region (x / frameCountPerRegion) = some r ∧ r.Picks k l (x % frameCountPerRegion)
  first : ∀ i < x / frameCountPerRegion, ¬ m.Offers k i

/-- What `allocate_block` can come to, for a block of order `k`. -/
inductive Taken (k : ℕ) (free : ℕ → Prop) (m : FrameManager) : Option (ℕ × FrameManager) → Prop
  | null {i : ℕ} : m.Null i → Taken k free m none
  /-- There is no block, and all regions are marked as in use. -/
  | failure {m' : FrameManager} : (∀ i, ¬ m.Offers k i) → (∀ i < 1024, m'.regionMap.isSet i = true) →
      m.Same m' → m'.Stocked free → Taken k free m (some (invalidFrame, m'))
  /-- A block is taken, and the regions before it are marked as in use. -/
  | found {x : ℕ} {m' : FrameManager} : m.Locates k x →
      (∀ i, m'.regionMap.isSet i = (decide (i < x / frameCountPerRegion) || m.regionMap.isSet i)) →
      x * pageSize ≠ invalidFrame → m.Same m' → m'.Stocked (fun y => free y ∧ ¬ Cell k x y) →
      Taken k free m (some (x * pageSize, m'))

variable {m m' m'' : FrameManager} {r r' : Region} {free free' : ℕ → Prop} {i x : ℕ}
  {map : Bitmap1024} {k y n : ℕ}

theorem frame_eq (x : ℕ) :
    x / frameCountPerRegion * frameCountPerRegion + x % frameCountPerRegion = x :=
  Nat.div_add_mod' x frameCountPerRegion

theorem region_of_index (i : ℕ) (hx : x < frameCountPerRegion) :
    (i * frameCountPerRegion + x) / frameCountPerRegion = i := by
  have hx : x < 1024 := hx
  show (i * 1024 + x) / 1024 = i
  omega

theorem address_eq (i x : ℕ) :
    i * regionSize + x * pageSize = (i * frameCountPerRegion + x) * pageSize := by
  rw [regionSize, Nat.add_mul, Nat.mul_comm pageSize, Nat.mul_assoc]

open Function

theorem Stocked.update (h : m.Stocked free) (hi : m.region i = some r) (hbase : r'.base = r.base)
    (hok : r'.Ok)
    (ht : Tiling r'.block fun x =>
      x < frameCountPerRegion ∧ free' (i * frameCountPerRegion + x))
    (hother : ∀ x, x / frameCountPerRegion ≠ i → (free' x ↔ free x))
    (hmap : map.Ok) (hsize : map.size = 1024) :
    Stocked free' ⟨update m.region i (some r'), map⟩ where
  map := hmap
  size := hsize
  region := fun {j s} hj => by
    by_cases hji : j = i
    · subst hji
      obtain rfl := Option.some.inj ((update_self j _ m.region).symm.trans hj)
      obtain ⟨hpos, hlt, hb, -⟩ := h.region hi
      exact ⟨hpos, hlt, hbase.trans hb, hok⟩
    · exact h.region ((update_of_ne hji _ m.region).symm.trans hj)
  tiling := fun {j s} hj => by
    by_cases hji : j = i
    · subst hji
      obtain rfl := Option.some.inj ((update_self j _ m.region).symm.trans hj)
      exact ht
    · refine (h.tiling ((update_of_ne hji _ m.region).symm.trans hj)).congr
        (fun _ _ => Iff.rfl) fun x => and_congr_right fun hx => ?_
      exact hother _ (by rwa [region_of_index j hx])
  inside := fun x hx => update_intro (P := (· ≠ none)) (fun _ => Option.some_ne_none _)
    fun hxi => h.inside x ((hother x hxi).1 hx)

theorem Same.refl (m : FrameManager) : m.Same m := ⟨fun _ => Iff.rfl, fun _ _ => rfl⟩

theorem Same.trans (h : m.Same m') (h' : m'.Same m'') : m.Same m'' where
  region := fun i => (h'.region i).trans (h.region i)
  bits := fun i hi => (h'.bits i ((h.region i).2 hi)).trans (h.bits i hi)

theorem Same.null_iff (h : m.Same m') (i : ℕ) : m'.Null i ↔ m.Null i := by
  rw [Null, Null, h.region]
  by_cases hi : m.region i = none
  · rw [h.bits i hi]
  · simp [hi]

theorem same_update (hi : m.region i = some r)
    (hbits : ∀ j, j ≠ i → map.isSet j = m.regionMap.isSet j) :
    m.Same ⟨update m.region i (some r'), map⟩ where
  region := fun j => by
    show update m.region i (some r') j = none ↔ _
    by_cases hji : j = i
    · simp [hji, hi]
    · rw [update_of_ne hji]
  bits := fun j hj => hbits j fun hji => by
    rw [hji, hi] at hj
    cases hj

/-- A region whose bit is clear is there, or the manager fails on it. -/
theorem Sound.not_free (h : m.Sound free) (hset : ∀ i < 1024, m.regionMap.isSet i = true) :
    (∀ x, ¬ free x) ∧ ∀ i, ¬ m.Null i := by
  constructor
  · intro x hx
    obtain ⟨r, hr⟩ := Option.ne_none_iff_exists'.1 (h.inside x hx)
    exact h.full _ x (hset _ (h.region hr).2.1) rfl hx
  · rintro i ⟨hi, hclear, -⟩
    rw [hset i hi] at hclear
    cases hclear

theorem Stocked.address_ne (h : m.Stocked free) (hi : m.region i = some r) (x : ℕ) :
    r.base + x * pageSize ≠ invalidFrame := by
  obtain ⟨hpos, -, hb, -⟩ := h.region hi
  have hbase : 0 < r.base := by
    rw [hb]
    exact Nat.mul_pos hpos (by decide)
  exact (Nat.lt_of_lt_of_le hbase (Nat.le_add_right _ _)).ne'

theorem Stocked.mark (h : m.Stocked free) (hlt : i < 1024) :
    Stocked free ⟨m.region, m.regionMap.set i⟩ where
  map := h.map.set hlt
  size := by simp [h.size]
  region := h.region
  tiling := h.tiling
  inside := h.inside

open MultilevelBitmap

/-- A region without a block of order `k`, the first that may be used, is marked before the rest of
the search. -/
theorem Taken.of_mark {result : Option (ℕ × FrameManager)}
    (h : Taken k free ⟨m.region, m.regionMap.set i⟩ result) (hlt : i < 1024)
    (hi : m.region i = some r) (hlow : ∀ j < i, m.regionMap.isSet j = true)
    (hnone : ∀ l j, k ≤ l → ¬ r.block l j) : Taken k free m result := by
  have hbits : ∀ j, (m.regionMap.set i).isSet j = (decide (j = i) || m.regionMap.isSet j) :=
    fun j => isSet_set hlt
  have hsame : m.Same ⟨m.region, m.regionMap.set i⟩ := by
    refine ⟨fun _ => Iff.rfl, fun j hj => ?_⟩
    have hji : j ≠ i := fun hji => by rw [hji, hi] at hj; cases hj
    show (m.regionMap.set i).isSet j = _
    rw [hbits, decide_eq_false hji, Bool.false_or]
  have hoffers : ∀ j, m.Offers k j → Offers ⟨m.region, m.regionMap.set i⟩ k j := by
    rintro j ⟨hclear, s, l, y, hj, hl, hb⟩
    have hji : j ≠ i := by
      rintro rfl
      cases hi.symm.trans hj
      exact hnone l y hl hb
    refine ⟨?_, s, l, y, hj, hl, hb⟩
    show (m.regionMap.set i).isSet j = false
    rw [hbits, decide_eq_false hji, hclear, Bool.or_false]
  cases h with
  | null hi => exact .null ((hsame.null_iff _).1 hi)
  | failure hno hall hs hstock =>
    exact .failure (fun j hj => hno j (hoffers j hj)) hall (hsame.trans hs) hstock
  | @found x m' hx hbits' hne hs hstock =>
    obtain ⟨hclear, hpick, hfirst⟩ := hx
    have hclear : (m.regionMap.set i).isSet (x / frameCountPerRegion) = false := hclear
    rw [hbits, Bool.or_eq_false_iff, decide_eq_false_iff_not] at hclear
    have hafter : i < x / frameCountPerRegion := by
      by_contra hle
      rw [hlow _ (Nat.lt_of_le_of_ne (Nat.le_of_not_lt hle) hclear.1)] at hclear
      cases hclear.2
    refine .found ⟨hclear.2, hpick, fun j hj hoffer => hfirst j hj (hoffers j hoffer)⟩
      (fun j => ?_) hne (hsame.trans hs) hstock
    rw [hbits' j]
    show (_ || (m.regionMap.set i).isSet j) = _
    rw [hbits]
    by_cases hji : j = i
    · simp [hji, hafter]
    · rw [decide_eq_false hji, Bool.false_or]

/-- The cell around a frame of a region is that of its index there, if it is no larger than the
region. -/
theorem cell_of_index (i : ℕ) (hk : k < maxBlockOrder) :
    Cell k (i * frameCountPerRegion + x) (i * frameCountPerRegion + y) ↔ Cell k x y := by
  have hk : k < 7 := hk
  have hdvd : 2 ^ k ∣ frameCountPerRegion := Nat.pow_dvd_pow 2 (show k ≤ 10 by omega)
  exact cell_add (hdvd.mul_left i)

theorem region_of_cell (hk : k < maxBlockOrder) (h : Cell k x y) :
    y / frameCountPerRegion = x / frameCountPerRegion := by
  have hk : k < 7 := hk
  exact h.mono (show k ≤ 10 by omega)

theorem Locates.offers (h : m.Locates k x) : m.Offers k (x / frameCountPerRegion) := by
  obtain ⟨r, l, hi, hpick⟩ := h.pick
  exact ⟨h.clear, r, l, _, hi, hpick.order, hpick.block⟩

theorem Locates.unique (h : m.Locates k x) (h' : m.Locates k y) : x = y := by
  have hregion : x / frameCountPerRegion = y / frameCountPerRegion := Nat.le_antisymm
    (Nat.le_of_not_lt fun hlt => h.first _ hlt h'.offers)
    (Nat.le_of_not_lt fun hlt => h'.first _ hlt h.offers)
  obtain ⟨r, l, hi, hpick⟩ := h.pick
  obtain ⟨r', l', hi', hpick'⟩ := h'.pick
  rw [← hregion] at hi'
  cases hi.symm.trans hi'
  rw [← frame_eq x, ← frame_eq y, hregion, (hpick.unique hpick').2]

theorem Stocked.free_of_locates (h : m.Stocked free) (hx : m.Locates k x) (hy : Cell k x y) :
    free y := by
  obtain ⟨r, l, hi, hpick⟩ := hx.pick
  have horder : k < maxBlockOrder := Nat.lt_of_le_of_lt hpick.order hpick.block.1
  have hregion := region_of_cell horder hy
  have hcell : Cell k (x % frameCountPerRegion) (y % frameCountPerRegion) := by
    rw [← cell_of_index (x / frameCountPerRegion) horder, frame_eq, ← hregion, frame_eq]
    exact hy
  have hfree := (h.tiling hi).free_of_block hpick.block (hcell.mono hpick.order)
  rw [← hregion, frame_eq] at hfree
  exact hfree.2

theorem Stocked.take (h : m.Stocked free) (hi : m.region i = some r)
    (hclear : m.regionMap.isSet i = false) (hlow : ∀ j < i, m.regionMap.isSet j = true) {l : ℕ}
    (hpick : r.Picks k l x) (hbase : r'.base = r.base) (hok : r'.Ok)
    (ht : ∀ free, Tiling r.block free → Tiling r'.block fun y => free y ∧ ¬ Cell k x y) :
    Taken k free m (some (r.base + x * pageSize,
      ⟨Function.update m.region i (some r'), (m.regionMap.set i).free i⟩)) := by
  obtain ⟨-, hlt, hb, -⟩ := h.region hi
  have horder : k < maxBlockOrder := Nat.lt_of_le_of_lt hpick.order hpick.block.1
  have hx : x < frameCountPerRegion := hpick.block.2.1
  have hregion := region_of_index i hx
  have hindex : (i * frameCountPerRegion + x) % frameCountPerRegion = x := by
    rw [Nat.mul_add_mod', Nat.mod_eq_of_lt hx]
  have haddr : r.base + x * pageSize = (i * frameCountPerRegion + x) * pageSize := by
    rw [hb, address_eq]
  have hbits : ∀ j, ((m.regionMap.set i).free i).isSet j = m.regionMap.isSet j := by
    intro j
    rw [isSet_free hlt, isSet_set hlt]
    by_cases hji : j = i <;> simp [hji, hclear]
  have hne := h.address_ne hi x
  rw [haddr] at hne ⊢
  refine .found ⟨by rwa [hregion], ⟨r, l, by rwa [hregion], by rwa [hindex]⟩, fun j hj hoffer => ?_⟩
    (fun j => ?_) hne (same_update hi fun j _ => hbits j) ?_
  · have hset := hoffer.1
    rw [hlow j (by rwa [← hregion])] at hset
    cases hset
  · rw [hbits, hregion]
    by_cases hj : j < i
    · rw [hlow j hj, Bool.or_true]
    · rw [decide_eq_false hj, Bool.false_or]
  · refine h.update hi hbase hok ((ht _ (h.tiling hi)).congr (fun _ _ => Iff.rfl) fun y => ?_)
      (fun y hy => ?_) ((h.map.set hlt).free hlt) (by simp [h.size])
    · rw [cell_of_index i horder, and_assoc]
    · refine and_iff_left_of_imp fun _ hcell => hy ?_
      exact (region_of_cell horder hcell).trans hregion

/-- The loop of `allocate_block`: the bits before those that are left to try are set. -/
theorem Stocked.allocateLoop (h : m.Stocked free) {fuel : ℕ}
    (hn : calculateOrder n < maxBlockOrder)
    (hset : ∀ i < 1025 - fuel, i < 1024 → m.regionMap.isSet i = true) :
    Taken (calculateOrder n) free m (m.allocateLoop n fuel) := by
  have hfailure : ∀ {m : FrameManager}, m.Stocked free →
      (∀ i < 1024, m.regionMap.isSet i = true) →
      Taken (calculateOrder n) free m (some (invalidFrame, m)) := by
    refine fun {m} h hall => .failure (fun i hoffer => ?_) hall (.refl m) h
    obtain ⟨hclear, r, -, -, hi, -⟩ := hoffer
    rw [hall i (h.region hi).2.1] at hclear
    cases hclear
  induction fuel generalizing m with
  | zero => exact hfailure h fun i hi => hset i (by omega) hi
  | succ fuel ih =>
    unfold FrameManager.allocateLoop
    rcases allocate_spec h.map with ⟨hfull, hall⟩ | ⟨hlt, hclear, hlow, hbitmap⟩
    · rw [hfull, h.size]
      exact hfailure h hall
    · dsimp only
      rw [h.size, hbitmap]
      generalize m.regionMap.allocate.1 = i at *
      rw [if_pos hlt]
      cases hi : m.region i with
      | none => exact .null ⟨hlt, hclear, hi⟩
      | some r =>
        have hspec := allocateBlock_spec (h.region hi).2.2.2 hn
        dsimp only
        generalize r.allocateBlock n = result at hspec
        cases hspec with
        | none hnone =>
          have hregions : Function.update m.region i (some r) = m.region := by
            rw [← hi, update_eq_self]
          rw [if_neg (not_not.2 rfl), hregions]
          refine (ih (h.mark hlt) fun j hj hj' => ?_).of_mark hlt hi hlow hnone
          show (m.regionMap.set i).isSet j = true
          rw [isSet_set hlt]
          by_cases hji : j = i
          · simp [hji]
          · rw [decide_eq_false hji, Bool.false_or]
            by_cases hjlt : j < i
            · exact hlow j hjlt
            · -- the bits below are set, so the one that was found is not among them
              have hle : 1025 - (fuel + 1) ≤ i := by
                by_contra hcon
                rw [hset i (by omega) hlt] at hclear
                cases hclear
              omega
        | @found l x r' hpick hbase hok ht =>
          rw [if_pos (h.address_ne hi x)]
          exact h.take hi hclear hlow hpick hbase hok ht

/-- `allocate_block`, for a number of frames that fits in a block. -/
theorem Stocked.allocateBlock (h : m.Stocked free) (hn : calculateOrder n < maxBlockOrder) :
    Taken (calculateOrder n) free m (m.allocateBlock n) :=
  h.allocateLoop hn fun i hi _ => absurd hi (Nat.not_lt_zero i)

theorem Stocked.exists_block (h : m.Stocked free) (hx : free x) :
    ∃ r k j, m.region (x / frameCountPerRegion) = some r ∧ r.block k j ∧
      Cell k j (x % frameCountPerRegion) := by
  obtain ⟨r, hi⟩ := Option.ne_none_iff_exists'.1 (h.inside x hx)
  obtain ⟨k, j, hb, hcell⟩ :=
    ((h.tiling hi).cover _).1 ⟨Nat.mod_lt x (by decide), (frame_eq x).symm ▸ hx⟩
  exact ⟨r, k, j, hi, hb, hcell⟩

theorem Sound.offers (h : m.Sound free) (hx : free x) : m.Offers 0 (x / frameCountPerRegion) := by
  obtain ⟨r, k, j, hi, hb, -⟩ := h.exists_block hx
  exact ⟨Bool.eq_false_iff.2 fun hset => h.full _ x hset rfl hx, r, k, j, hi, Nat.zero_le k, hb⟩

/-- The regions that are marked on the way to a block have no free frames, if each region with a free
frame comes after one that has such a block. -/
theorem Sound.of_found (h : m.Sound free) (hx : m.Locates k x)
    (hbits : ∀ i, m'.regionMap.isSet i =
      (decide (i < x / frameCountPerRegion) || m.regionMap.isSet i))
    (hoffers : ∀ i, m.Offers 0 i → ∃ j ≤ i, m.Offers k j) (hstock : m'.Stocked free')
    (hfree : ∀ y, free' y → free y) : m'.Sound free' := by
  refine ⟨hstock, ?_⟩
  rintro i y hset rfl hy
  have hoffer := h.offers (hfree y hy)
  rw [hbits, hoffer.1, Bool.or_false, decide_eq_true_iff] at hset
  obtain ⟨j, hj, hoffer⟩ := hoffers _ hoffer
  exact hx.first j (Nat.lt_of_le_of_lt hj hset) hoffer

theorem Sound.allocateBlock (h : m.Sound free) : Allocated free m (m.allocateBlock 1) := by
  have hspec := h.stocked.allocateBlock (by rw [calculateOrder_one]; decide)
  rw [calculateOrder_one] at hspec
  generalize m.allocateBlock 1 = result at hspec
  cases hspec with
  | null hi => exact .null hi
  | @failure m' hno hall hsame hstock =>
    have hs : m'.Sound free := ⟨hstock, fun i x _ _ hx => hno _ (h.offers hx)⟩
    obtain ⟨hnone, hnull⟩ := hs.not_free hall
    exact .exhausted hnone (fun i hi => hnull i ((hsame.null_iff i).2 hi)) hsame hs
  | @found x m' hx hbits hne hsame hstock =>
    have hfree := h.free_of_locates hx (cell_self 0 x)
    simp only [cell_zero] at hstock
    refine .found hfree hne hsame (h.of_found hx hbits (fun i hi => ⟨i, Nat.le_refl i, hi⟩) hstock ?_)
    exact fun _ hy => hy.1

theorem Sound.freeFrame (h : m.Sound free) (hregion : m.region (x / frameCountPerRegion) ≠ none)
    (hx : ¬ free x) :
    m.Same (m.freeFrame (x * pageSize)) ∧
      (m.freeFrame (x * pageSize)).Sound fun y => free y ∨ y = x := by
  obtain ⟨r, hi⟩ := Option.ne_none_iff_exists'.1 hregion
  obtain ⟨-, hlt, hb, hok⟩ := h.region hi
  have hin : x % frameCountPerRegion < frameCountPerRegion := Nat.mod_lt _ (by decide)
  have haddr : x * pageSize = r.base + x % frameCountPerRegion * pageSize := by
    rw [hb, address_eq, frame_eq]
  have hindex : x * pageSize / regionSize = x / frameCountPerRegion := by
    rw [regionSize, Nat.mul_comm x, Nat.mul_div_mul_left _ _ (by decide)]
  have hbits : ∀ j, j ≠ x / frameCountPerRegion →
      (m.regionMap.free (x / frameCountPerRegion)).isSet j = m.regionMap.isSet j := by
    intro j hj
    rw [isSet_free hlt, decide_eq_false hj, Bool.not_false, Bool.true_and]
  have hcell : ∀ {y}, Cell (calculateOrder 1) (x % frameCountPerRegion) y ↔
      y = x % frameCountPerRegion := fun {y} => by
    rw [calculateOrder_one, cell_zero]
  obtain ⟨hok', ht⟩ := freeBlock_spec hok (h.tiling hi) hin
    (by rw [calculateOrder_one]; decide) fun y hy hfree => hx <| by
      rw [hcell.1 hy, frame_eq] at hfree
      exact hfree.2
  have heq : m.freeFrame (x * pageSize) = ⟨update m.region (x / frameCountPerRegion)
      (some (r.freeBlock (r.base + x % frameCountPerRegion * pageSize) 1)),
      m.regionMap.free (x / frameCountPerRegion)⟩ := by
    have hne : x * pageSize ≠ invalidFrame := haddr ▸ h.stocked.address_ne hi _
    unfold FrameManager.freeFrame
    rw [if_neg hne, hindex, hi, ← haddr]
  rw [heq]
  refine ⟨same_update hi hbits, h.stocked.update hi (base_freeBlock _ _ _) hok'
    (ht.congr (fun _ _ => Iff.rfl) fun y => ?_) (fun y hy => ?_) (h.map.free hlt)
    (by simp [h.size]), fun j y hset hy => ?_⟩
  · rw [hcell, and_or_left]
    refine or_congr_right ?_
    constructor
    · rintro ⟨hy, heq⟩
      have hy : y < 1024 := hy
      have heq : x / 1024 * 1024 + y = x := heq
      show y = x % 1024
      omega
    · rintro rfl
      exact ⟨hin, frame_eq x⟩
  · refine or_iff_left fun heq => hy ?_
    rw [heq]
  · have hset : (m.regionMap.free (x / frameCountPerRegion)).isSet j = true := hset
    by_cases hji : j = x / frameCountPerRegion
    · rw [isSet_free hlt, decide_eq_true hji] at hset
      cases hset
    · rw [hbits j hji] at hset
      rintro (hfree | rfl)
      · exact h.full j y hset hy hfree
      · exact hji hy.symm

theorem Sound.freeFrames (xs : List ℕ) (h : m.Sound free)
    (hregion : ∀ x ∈ xs, m.region (x / frameCountPerRegion) ≠ none) (hxs : ∀ x ∈ xs, ¬ free x)
    (hnodup : xs.Nodup) :
    m.Same (m.freeFrames (xs.map fun x => x * pageSize)) ∧
      (m.freeFrames (xs.map fun x => x * pageSize)).Sound fun y => free y ∨ y ∈ xs := by
  induction xs generalizing m free with
  | nil => exact ⟨.refl m, by simpa [FrameManager.freeFrames] using h⟩
  | cons x xs ih =>
    obtain ⟨hx, hnodup⟩ := nodup_cons.1 hnodup
    obtain ⟨hsame, hs⟩ := h.freeFrame (hregion x mem_cons_self) (hxs x mem_cons_self)
    obtain ⟨hsame', hs'⟩ := ih hs
      (fun y hy => (not_congr (hsame.region _)).2 (hregion y (mem_cons_of_mem _ hy)))
      (fun y hy hfree => hfree.elim (hxs y (mem_cons_of_mem _ hy)) fun heq => hx (heq ▸ hy))
      hnodup
    refine ⟨hsame.trans hsame', ?_⟩
    have hiff : (fun y => free y ∨ y ∈ x :: xs) = fun y => (free y ∨ y = x) ∨ y ∈ xs := by
      funext y
      rw [mem_cons, or_assoc]
    rw [hiff]
    exact hs'

/-- What `allocate_frames` can come to, without flags. -/
inductive Allocates (free : ℕ → Prop) (m : FrameManager) (n : ℕ) :
    Option (Bool × List ℕ × FrameManager) → Prop
  | null {i : ℕ} : m.Null i → Allocates free m n none
  /-- Free frames are handed out. -/
  | success {xs : List ℕ} {m' : FrameManager} : xs.length = n → xs.Nodup → (∀ x ∈ xs, free x) →
      m.Same m' → m'.Sound (fun y => free y ∧ y ∉ xs) →
      Allocates free m n (some (true, xs.map fun x => x * pageSize, m'))
  /-- There are too few free frames, and nothing changes. -/
  | failure {xs frames : List ℕ} {m' : FrameManager} : xs.length < n → (∀ x, free x → x ∈ xs) →
      (∀ i, ¬ m.Null i) → m.Same m' → m'.Sound free → Allocates free m n (some (false, frames, m'))

/-- The frames that were allocated before there were none left. -/
theorem Sound.allocateDiscontiguousFrames (h : m.Sound free) (n : ℕ) :
    (m.allocateDiscontiguousFrames n = none ∧ ∃ i, m.Null i) ∨
      ∃ (success : Bool) (xs : List ℕ) (m' : FrameManager), m.allocateDiscontiguousFrames n =
          some (success, xs.map fun x => x * pageSize, m') ∧
        xs.Nodup ∧ (∀ x ∈ xs, free x) ∧ m.Same m' ∧ m'.Sound (fun y => free y ∧ y ∉ xs) ∧
        if success then xs.length = n
        else xs.length < n ∧ (∀ x, free x → x ∈ xs) ∧ ∀ i, ¬ m.Null i := by
  induction n generalizing m free with
  | zero =>
    refine .inr ⟨true, [], m, rfl, .nil, fun x hx => absurd hx not_mem_nil, .refl m, ?_, rfl⟩
    simpa using h
  | succ n ih =>
    unfold FrameManager.allocateDiscontiguousFrames
    have hblock := h.allocateBlock
    generalize m.allocateBlock 1 = result at hblock
    cases hblock with
    | null hi => exact .inl ⟨rfl, _, hi⟩
    | @exhausted m' hnone hnull hsame hs =>
      refine .inr ⟨false, [], m', by simp, .nil, fun x hx => absurd hx not_mem_nil, hsame,
        by simpa using hs, ?_⟩
      exact ⟨Nat.succ_pos n, fun x hx => absurd hx (hnone x), hnull⟩
    | @found x m' hx hne hsame hs =>
      dsimp only
      rw [if_neg hne]
      rcases ih hs with ⟨heq, i, hi⟩ | ⟨success, xs, m'', heq, hnodup, hxs, hsame', hs', hout⟩
      · rw [heq]
        exact .inl ⟨rfl, i, (hsame.null_iff i).1 hi⟩
      · rw [heq]
        have hfree : (fun y => free y ∧ y ∉ x :: xs) = fun y => (free y ∧ y ≠ x) ∧ y ∉ xs := by
          funext y
          rw [mem_cons, not_or, and_assoc]
        refine .inr ⟨success, x :: xs, m'', rfl, ?_, ?_, hsame.trans hsame', hfree ▸ hs', ?_⟩
        · exact nodup_cons.2 ⟨fun hmem => (hxs x hmem).2 rfl, hnodup⟩
        · intro y hy
          rcases mem_cons.1 hy with rfl | hy
          · exact hx
          · exact (hxs y hy).1
        · cases success with
          | true => exact congrArg (· + 1) hout
          | false =>
            obtain ⟨hlen, hall, hnull⟩ := hout
            refine ⟨Nat.succ_lt_succ hlen, fun y hy => ?_, fun i hi => ?_⟩
            · by_cases hyx : y = x
              · exact hyx ▸ mem_cons_self
              · exact mem_cons_of_mem _ (hall y ⟨hy, hyx⟩)
            · exact hnull i ((hsame.null_iff i).2 hi)

theorem freeFrames_append (frames frames' : List ℕ) (m : FrameManager) :
    m.freeFrames (frames ++ frames') = (m.freeFrames frames).freeFrames frames' :=
  foldl_append

theorem freeFrames_replicate (n : ℕ) (m : FrameManager) :
    m.freeFrames (List.replicate n invalidFrame) = m := by
  induction n with
  | zero => rfl
  | succ n ih => exact ih

theorem Sound.allocateFrames (h : m.Sound free) (hn : 0 < n) :
    Allocates free m n (m.allocateFrames n false) := by
  unfold FrameManager.allocateFrames
  rw [if_pos hn, if_neg Bool.false_ne_true]
  rcases h.allocateDiscontiguousFrames n with
    ⟨heq, i, hi⟩ | ⟨success, xs, m', heq, hnodup, hxs, hsame, hs, hout⟩
  · rw [heq]
    exact .null hi
  · rw [heq]
    dsimp only
    cases success with
    | true =>
      have hlen : xs.length = n := hout
      rw [length_map, hlen, Nat.sub_self, replicate_zero, append_nil]
      exact .success hlen hnodup hxs hsame hs
    | false =>
      obtain ⟨hlen, hall, hnull⟩ := hout
      rw [if_neg Bool.false_ne_true, freeFrames_append, freeFrames_replicate]
      obtain ⟨hsame', hs'⟩ := hs.freeFrames xs
        (fun x hx => (not_congr (hsame.region _)).2 (h.inside x (hxs x hx)))
        (fun x hx hout => hout.2 hx) hnodup
      refine .failure hlen hall hnull (hsame.trans hsame') ?_
      have hfree : (fun y => (free y ∧ y ∉ xs) ∨ y ∈ xs) = free := by
        funext y
        by_cases hy : y ∈ xs
        · simp [hy, hxs y hy]
        · simp [hy]
      rwa [hfree] at hs'

/-! ### A new manager -/

/-- The frames the manager is there for: all that are in a region. -/
def managedFrames (highMemorySize : ℕ) : List ℕ :=
  (List.range (pagedRegionCount highMemorySize * frameCountPerRegion)).map fun i =>
    kernelPagedBoundary + i * pageSize

/-- A machine with at least 64MB, and less than 4GB. -/
def Supported (highMemorySize : ℕ) : Prop :=
  64 * 1024 * 1024 ≤ highMemorySize * 1024 + 1024 * 1024 ∧
    highMemorySize * 1024 + 1024 * 1024 < 2 ^ 32
deriving Decidable

variable {highMemorySize heap frame : ℕ}

theorem Supported.total (h : Supported highMemorySize) :
    totalMemorySize highMemorySize = highMemorySize * 1024 + 1024 * 1024 :=
  Nat.mod_eq_of_lt h.2

theorem Supported.lastRegion_lt (h : Supported highMemorySize) :
    lastRegion highMemorySize < 1024 ∧ lastRegion highMemorySize * regionSize ≤
      totalMemorySize highMemorySize := by
  have htotal := h.total
  obtain ⟨h64, h4⟩ := h
  have hlast : lastRegion highMemorySize = 3 +
      (totalMemorySize highMemorySize + 4294967296 - 12582912) % 4294967296 / 4194304 := rfl
  show _ ∧ _ * 4194304 ≤ _
  omega

/-- The bits that are clear are those of the regions above the kernel. -/
theorem new_bits (h : Supported highMemorySize) (heap : ℕ) :
    (new highMemorySize heap).regionMap.Ok ∧ ∀ i < 1024,
      ((new highMemorySize heap).regionMap.isSet i = true ↔
        i < firstRegion ∨ lastRegion highMemorySize ≤ i) := by
  have hlast := h.lastRegion_lt.1
  have hnew := Bitmap1024.new_spec (n := 1024) (by decide)
  have h₁ := setRange_spec hnew.1 (i := 0) (n := firstRegion) (by decide)
  have h₂ := setRange_spec h₁.1 (i := lastRegion highMemorySize)
    (n := 1024 - lastRegion highMemorySize) (by omega)
  refine ⟨h₂.1, fun i hi => ?_⟩
  show (((Bitmap1024.new 1024).setRange 0 firstRegion).setRange (lastRegion highMemorySize)
    (1024 - lastRegion highMemorySize)).isSet i = true ↔ _
  rw [h₂.2, h₁.2, hnew.2 _ hi]
  simp only [Bool.or_eq_true, decide_eq_true_eq]
  omega

/-- The frames of a new manager: those of the regions that are there. -/
theorem new_sound (h : Supported highMemorySize) (heap : ℕ) :
    (new highMemorySize heap).Sound fun x =>
      (new highMemorySize heap).region (x / frameCountPerRegion) ≠ none := by
  have hlast := h.lastRegion_lt.1
  have hfirst : firstRegion = 3 := rfl
  have hregion : ∀ {i r}, (new highMemorySize heap).region i = some r →
      (firstRegion ≤ i ∧ i < lastRegion highMemorySize) ∧ r = .new (i * regionSize) := by
    intro i r hi
    unfold new at hi
    obtain ⟨hin, hi⟩ := Option.ite_none_right_eq_some.1 hi
    have haddr : kernelPagedBoundary + (i - firstRegion) * regionSize = i * regionSize := by
      show 12582912 + (i - 3) * 4194304 = i * 4194304
      omega
    rw [haddr] at hi
    exact ⟨⟨hin.1, hin.2.1⟩, (Option.some.inj hi).symm⟩
  refine ⟨⟨(new_bits h heap).1, by simp [new, Bitmap1024.new, new]; rfl, fun {i r} hi => ?_,
    fun {i r} hi => ?_, fun x hx => hx⟩, ?_⟩
  · obtain ⟨hin, rfl⟩ := hregion hi
    exact ⟨by omega, by omega, base_new _, (new_spec _).1⟩
  · obtain ⟨hin, rfl⟩ := hregion hi
    refine (new_spec _).2.congr (fun _ _ => Iff.rfl) fun x => ?_
    refine and_iff_left_of_imp fun hx => ?_
    rw [region_of_index i hx, hi]
    exact Option.some_ne_none _
  · rintro i x hset rfl hx
    obtain ⟨r, hr⟩ := Option.ne_none_iff_exists'.1 hx
    obtain ⟨hin, -⟩ := hregion hr
    rw [(new_bits h heap).2 _ (by omega)] at hset
    omega

theorem mem_managedFrames : frame ∈ managedFrames highMemorySize ↔
    ∃ x, frame = x * pageSize ∧ firstRegion ≤ x / frameCountPerRegion ∧
      x / frameCountPerRegion < lastRegion highMemorySize := by
  show frame ∈ List.map (fun i => 12582912 + i * 4096) (List.range (_ * 1024)) ↔
    ∃ x, frame = x * 4096 ∧ 3 ≤ x / 1024 ∧ x / 1024 < 3 + pagedRegionCount highMemorySize
  rw [mem_map]
  constructor
  · rintro ⟨i, hi, rfl⟩
    have hi := mem_range.1 hi
    exact ⟨3072 + i, by omega, by omega, by omega⟩
  · rintro ⟨x, rfl, hfirst, hlast⟩
    exact ⟨x - 3072, mem_range.2 (by omega), by omega⟩

theorem mul_pageSize_inj {x : ℕ} : x * pageSize = y * pageSize ↔ x = y :=
  Nat.mul_left_inj (by decide)

theorem mul_pageSize_mem_managedFrames : x * pageSize ∈ managedFrames highMemorySize ↔
    firstRegion ≤ x / frameCountPerRegion ∧
      x / frameCountPerRegion < lastRegion highMemorySize := by
  rw [mem_managedFrames]
  constructor
  · rintro ⟨y, heq, hy⟩
    rwa [mul_pageSize_inj.1 heq]
  · exact fun hx => ⟨x, rfl, hx⟩

theorem nodup_managedFrames : (managedFrames highMemorySize).Nodup := by
  refine List.Nodup.map (fun i j hij => ?_) nodup_range
  exact mul_pageSize_inj.1 (Nat.add_left_cancel hij)

/-- The frames are above the kernel, and inside of the memory. -/
theorem Supported.managedFrames (h : Supported highMemorySize)
    (hframe : frame ∈ managedFrames highMemorySize) :
    kernelPagedBoundary ≤ frame ∧ frame + pageSize ≤ totalMemorySize highMemorySize := by
  obtain ⟨x, rfl, hfirst, hlast⟩ := mem_managedFrames.1 hframe
  have hend : lastRegion highMemorySize * 4194304 ≤ totalMemorySize highMemorySize :=
    h.lastRegion_lt.2
  have hfirst : 3 ≤ x / 1024 := hfirst
  have hlast : x / 1024 < lastRegion highMemorySize := hlast
  show 12582912 ≤ x * 4096 ∧ x * 4096 + 4096 ≤ _
  omega

theorem new_region_ne_none : (new highMemorySize heap).region i ≠ none ↔
    firstRegion ≤ i ∧ i < lastRegion highMemorySize ∧ i < firstRegion + heap := by
  unfold new
  dsimp only
  split <;> simp [*]

/-- There is a region for each of the bits that are clear, if the heap had room for all of them. -/
theorem new_not_null (h : Supported highMemorySize) (hheap : pagedRegionCount highMemorySize ≤ heap)
    (i : ℕ) : ¬ (new highMemorySize heap).Null i := by
  rintro ⟨hi, hclear, hnone⟩
  have hbits := ((new_bits h heap).2 i hi).not.1 (Bool.eq_false_iff.1 hclear)
  have hin : lastRegion highMemorySize = firstRegion + pagedRegionCount highMemorySize := rfl
  exact new_region_ne_none.2 ⟨by omega, by omega, by omega⟩ hnone

def isFree (m : FrameManager) (frame : ℕ) : Prop :=
  ∃ i r k j x, m.region i = some r ∧ r.block k j ∧ Cell k j x ∧ frame = r.base + x * pageSize

theorem Sound.isFree_iff (h : m.Sound free) :
    m.isFree frame ↔ ∃ x, free x ∧ frame = x * pageSize := by
  constructor
  · rintro ⟨i, r, k, j, x, hi, hb, hx, rfl⟩
    have hfree := (h.tiling hi).free_of_block hb hx
    refine ⟨i * frameCountPerRegion + x, hfree.2, ?_⟩
    rw [(h.region hi).2.2.1, address_eq]
  · rintro ⟨x, hx, rfl⟩
    obtain ⟨r, k, j, hi, hb, hcell⟩ := h.exists_block hx
    refine ⟨_, r, k, j, _, hi, hb, hcell, ?_⟩
    rw [(h.region hi).2.2.1, address_eq, frame_eq]

end FrameManager

/-! ### Allocating and freeing frames -/

/-- The manager, with the frames that are allocated. -/
structure Inventory where
  manager : FrameManager
  /-- The frames that have been handed out and not been freed. -/
  allocated : List ℕ

inductive FrameAction
  /-- `allocate_frames`, without flags. -/
  | allocate (frameCount : ℕ)
  /-- `free_frames`. -/
  | free (frames : List ℕ)

namespace Inventory

open FrameManager

/-- The manager does what it is asked for; only frames that are allocated are freed. -/
def step (s : Inventory) : FrameAction → Option Inventory
  | .allocate frameCount =>
    if 0 < frameCount then
      match s.manager.allocateFrames frameCount false with
      | none => none
      | some (true, frames, m) => some ⟨m, frames ++ s.allocated⟩
      | some (false, _, m) => some ⟨m, s.allocated⟩
    else none
  | .free frames =>
    if frames.Nodup ∧ ∀ frame ∈ frames, frame ∈ s.allocated then
      some ⟨s.manager.freeFrames frames, s.allocated.filter fun frame => frame ∉ frames⟩
    else none

def initial (highMemorySize heap : ℕ) : Inventory := ⟨.new highMemorySize heap, []⟩

def freeList (highMemorySize : ℕ) (s : Inventory) : List ℕ :=
  (managedFrames highMemorySize).filter fun frame => frame ∉ s.allocated

/-- A request for `n` frames returns, and does what it should: it succeeds when there are `n` free
frames, and then hands out `n` different ones, which are no longer free; otherwise the free frames
are what they were. -/
def AllocatesExactly (highMemorySize : ℕ) (s : Inventory) (n : ℕ) : Prop :=
  ∃ success frames m, s.manager.allocateFrames n false = some (success, frames, m) ∧
    (success = true ↔ n ≤ (s.freeList highMemorySize).length) ∧
    (success = true → frames.length = n ∧ frames.Nodup ∧
      (∀ frame ∈ frames, frame ∉ s.allocated ∧ kernelPagedBoundary ≤ frame ∧
        frame + pageSize ≤ totalMemorySize highMemorySize) ∧
      ∀ frame, m.isFree frame ↔ s.manager.isFree frame ∧ frame ∉ frames) ∧
    (success = false → ∀ frame, m.isFree frame ↔ s.manager.isFree frame)

/-- The manager has the frames that are not allocated, and all of its regions. -/
structure Exact (highMemorySize : ℕ) (s : Inventory) : Prop where
  /-- The free frames are the managed frames that are not allocated. -/
  sound : s.manager.Sound fun x =>
    x * pageSize ∈ managedFrames highMemorySize ∧ x * pageSize ∉ s.allocated
  /-- The regions of the managed frames are there. -/
  region : ∀ x, x * pageSize ∈ managedFrames highMemorySize →
    s.manager.region (x / frameCountPerRegion) ≠ none
  null : ∀ i, ¬ s.manager.Null i
  managed : ∀ frame ∈ s.allocated, frame ∈ managedFrames highMemorySize

namespace Exact

variable {highMemorySize heap n : ℕ} {s t : Inventory} {a : FrameAction} {m : FrameManager}
  {xs : List ℕ} {frames : List ℕ}

theorem initial (h : Supported highMemorySize) (hheap : pagedRegionCount highMemorySize ≤ heap) :
    (initial highMemorySize heap).Exact highMemorySize := by
  have hregion : ∀ x, (FrameManager.new highMemorySize heap).region (x / frameCountPerRegion) ≠ none ↔
      x * pageSize ∈ managedFrames highMemorySize := by
    intro x
    have hlast : lastRegion highMemorySize = firstRegion + pagedRegionCount highMemorySize := rfl
    rw [new_region_ne_none, mul_pageSize_mem_managedFrames]
    exact ⟨fun hx => ⟨hx.1, hx.2.1⟩, fun hx => ⟨hx.1, hx.2, by omega⟩⟩
  refine ⟨?_, fun x hx => (hregion x).2 hx, new_not_null h hheap,
    fun frame hframe => absurd hframe not_mem_nil⟩
  have hsound := new_sound h heap
  simp only [hregion] at hsound
  simpa [Inventory.initial] using hsound

theorem mem_map {x : ℕ} : x * pageSize ∈ xs.map (fun x => x * pageSize) ↔ x ∈ xs := by
  constructor
  · intro h
    obtain ⟨y, hy, heq⟩ := List.mem_map.1 h
    exact mul_pageSize_inj.1 heq ▸ hy
  · exact fun h => List.mem_map.2 ⟨x, h, rfl⟩

section

variable (h : s.Exact highMemorySize)
include h

theorem same (hsame : s.manager.Same m) (hs : m.Sound fun x =>
      x * pageSize ∈ managedFrames highMemorySize ∧ x * pageSize ∉ frames)
    (hframes : ∀ frame ∈ frames, frame ∈ managedFrames highMemorySize) :
    Exact highMemorySize ⟨m, frames⟩ where
  sound := hs
  region x hx := (not_congr (hsame.region _)).2 (h.region x hx)
  null i hi := h.null i ((hsame.null_iff i).1 hi)
  managed := hframes

theorem allocate (ht : s.step (.allocate n) = some t) : t.Exact highMemorySize := by
  rw [Inventory.step] at ht
  obtain ⟨hn, ht⟩ := Option.ite_none_right_eq_some.1 ht
  have hspec := h.sound.allocateFrames hn
  generalize s.manager.allocateFrames n false = result at hspec ht
  cases hspec with
  | null _ => cases ht
  | @success xs m hlen hnodup hxs hsame hs =>
    cases ht
    refine h.same hsame ?_ fun frame hframe => ?_
    · simpa only [List.mem_append, not_or, mem_map, and_assoc, and_comm, and_left_comm] using hs
    · rcases List.mem_append.1 hframe with hframe | hframe
      · obtain ⟨x, hx, rfl⟩ := List.mem_map.1 hframe
        exact (hxs x hx).1
      · exact h.managed frame hframe
  | failure _ _ _ hsame hs =>
    cases ht
    exact h.same hsame hs h.managed

theorem exists_map (hframes : ∀ frame ∈ frames, frame ∈ s.allocated) :
    ∃ xs : List ℕ, frames = xs.map fun x => x * pageSize := by
  refine ⟨frames.map fun frame => frame / pageSize, ?_⟩
  rw [map_map]
  refine (map_congr_left fun frame hframe => ?_).symm.trans (map_id' _) |>.symm
  obtain ⟨x, rfl, -⟩ := mem_managedFrames.1 (h.managed frame (hframes frame hframe))
  show x * 4096 = x * 4096 / 4096 * 4096
  omega

theorem free (ht : s.step (.free frames) = some t) : t.Exact highMemorySize := by
  rw [Inventory.step] at ht
  obtain ⟨hframes, ht⟩ := Option.ite_none_right_eq_some.1 ht
  cases ht
  obtain ⟨hnodup, hframes⟩ := hframes
  obtain ⟨xs, rfl⟩ := h.exists_map hframes
  have hin : ∀ x ∈ xs, x * pageSize ∈ s.allocated := fun x hx => hframes _ (mem_map.2 hx)
  obtain ⟨hsame, hs⟩ := h.sound.freeFrames xs
    (fun x hx => h.region x (h.managed _ (hin x hx))) (fun x hx hfree => hfree.2 (hin x hx))
    (List.Nodup.of_map _ hnodup)
  refine h.same hsame ?_ fun frame hframe => h.managed frame (mem_filter.1 hframe |>.1)
  have hiff : (fun x => x * pageSize ∈ managedFrames highMemorySize ∧ x * pageSize ∉
      s.allocated.filter fun frame => frame ∉ xs.map fun x => x * pageSize) =
      fun x => (x * pageSize ∈ managedFrames highMemorySize ∧ x * pageSize ∉ s.allocated) ∨
        x ∈ xs := by
    funext x
    have hmanaged : x ∈ xs → x * pageSize ∈ managedFrames highMemorySize := fun hx =>
      h.managed _ (hin x hx)
    rw [mem_filter, decide_eq_true_iff, mem_map]
    simp only [eq_iff_iff]
    tauto
  rw [hiff]
  exact hs

theorem step (ht : s.step a = some t) : t.Exact highMemorySize := by
  cases a with
  | allocate n => exact h.allocate ht
  | free frames => exact h.free ht

theorem mem_freeList {frame : ℕ} : frame ∈ s.freeList highMemorySize ↔ s.manager.isFree frame := by
  rw [freeList, mem_filter, decide_eq_true_iff, h.sound.isFree_iff]
  constructor
  · rintro ⟨hmem, hnot⟩
    obtain ⟨x, rfl, -⟩ := mem_managedFrames.1 hmem
    exact ⟨x, ⟨hmem, hnot⟩, rfl⟩
  · rintro ⟨x, hx, rfl⟩
    exact hx

theorem allocatesExactly (hsupported : Supported highMemorySize) (hn : 0 < n) :
    s.AllocatesExactly highMemorySize n := by
  have hspec := h.sound.allocateFrames hn
  unfold AllocatesExactly
  generalize s.manager.allocateFrames n false = result at hspec
  cases hspec with
  | null hi => exact absurd hi (h.null _)
  | @success xs m hlen hnodup hxs hsame hs =>
    have hsub : (xs.map fun x => x * pageSize) ⊆ s.freeList highMemorySize := by
      intro frame hframe
      obtain ⟨x, hx, rfl⟩ := List.mem_map.1 hframe
      exact h.mem_freeList.2 (h.sound.isFree_iff.2 ⟨x, hxs x hx, rfl⟩)
    have hnodup' : (xs.map fun x => x * pageSize).Nodup :=
      List.Nodup.map (fun x y heq => mul_pageSize_inj.1 heq) hnodup
    have hle := (List.Nodup.subperm hnodup' hsub).length_le
    rw [List.length_map, hlen] at hle
    refine ⟨true, _, m, rfl, iff_of_true rfl hle, fun _ => ⟨?_, hnodup', ?_, ?_⟩,
      fun hf => absurd hf Bool.noConfusion⟩
    · rw [List.length_map, hlen]
    · intro frame hframe
      obtain ⟨hmem, hnot⟩ := List.mem_filter.1 (hsub hframe)
      exact ⟨of_decide_eq_true hnot, hsupported.managedFrames hmem⟩
    · intro frame
      rw [hs.isFree_iff, h.sound.isFree_iff]
      constructor
      · rintro ⟨x, ⟨hx, hout⟩, rfl⟩
        exact ⟨⟨x, hx, rfl⟩, fun hmem => hout (mem_map.1 hmem)⟩
      · rintro ⟨⟨x, hx, rfl⟩, hout⟩
        exact ⟨x, ⟨hx, fun hmem => hout (mem_map.2 hmem)⟩, rfl⟩
  | @failure xs frames m hlen hall _ _ hs =>
    have hsub : s.freeList highMemorySize ⊆ xs.map fun x => x * pageSize := by
      intro frame hframe
      obtain ⟨x, hx, rfl⟩ := h.sound.isFree_iff.1 (h.mem_freeList.1 hframe)
      exact mem_map.2 (hall x hx)
    have hle := (List.Nodup.subperm (nodup_managedFrames.filter _) hsub).length_le
    rw [List.length_map] at hle
    refine ⟨false, frames, m, rfl, iff_of_false Bool.noConfusion (by
      have hle : (s.freeList highMemorySize).length ≤ xs.length := hle
      omega), fun hf => absurd hf Bool.noConfusion, fun _ frame => ?_⟩
    rw [hs.isFree_iff, h.sound.isFree_iff]

end

end Exact

/-- On a machine with nearly 4GB, there is no heap for all of the regions: even with the whole heap
left for them, the manager ends up at one that is not there, while tens of thousands of the frames
it should manage are free. -/
theorem not_allocation_exact : Supported 4193279 ∧
    960513 ≤ ((initial 4193279 kernelHeapBlockCount).freeList 4193279).length ∧
    (initial 4193279 kernelHeapBlockCount).manager.allocateFrames 960513 false = none := by
  have hsupported : Supported 4193279 := by decide
  have hnull : (FrameManager.new 4193279 kernelHeapBlockCount).Null 1000 := by
    refine ⟨by decide, by decide +kernel, ?_⟩
    by_contra hne
    have hlt : 1000 < 3 + 938 := (new_region_ne_none.1 hne).2.2
    omega
  refine ⟨hsupported, ?_, ?_⟩
  · have hlist : (initial 4193279 kernelHeapBlockCount).freeList 4193279 = managedFrames 4193279 :=
      filter_eq_self.2 fun frame _ => rfl
    rw [hlist, managedFrames, length_map, length_range]
    decide +kernel
  · have hspec := (new_sound hsupported kernelHeapBlockCount).allocateFrames (n := 960513) (by decide)
    show (FrameManager.new 4193279 kernelHeapBlockCount).allocateFrames 960513 false = none
    generalize (FrameManager.new 4193279 kernelHeapBlockCount).allocateFrames 960513 false =
      result at hspec
    cases hspec with
    | null _ => rfl
    | @success xs m hlen hnodup hxs _ _ =>
      -- there are not as many frames in the regions that are there
      have hsub : xs ⊆ List.range' 3072 960512 := by
        intro x hx
        have hin : 3 ≤ x / 1024 ∧ _ ∧ x / 1024 < 3 + 938 := new_region_ne_none.1 (hxs x hx)
        rw [mem_range'_1]
        omega
      have hle := (List.Nodup.subperm hnodup hsub).length_le
      rw [length_range'] at hle
      omega
    | failure _ _ hnot _ _ => exact absurd hnull (hnot 1000)

/-- **Frames are allocated exactly.** If the kernel heap had room for all regions, then the manager's
free frames are always the managed frames that are not allocated, and a request succeeds exactly when
there are enough of them. -/
theorem allocation_exact {highMemorySize heap n : ℕ} {s : Inventory}
    (hsupported : Supported highMemorySize) (hheap : pagedRegionCount highMemorySize ≤ heap)
    (h : Run step Always (initial highMemorySize heap) s) (hn : 0 < n) :
    (∀ frame, frame ∈ s.freeList highMemorySize ↔ s.manager.isFree frame) ∧
      s.AllocatesExactly highMemorySize n := by
  have hexact : s.Exact highMemorySize := h.invariant (.initial hsupported hheap) fun hx _ => hx.step
  exact ⟨fun frame => hexact.mem_freeList, hexact.allocatesExactly hsupported hn⟩

/-- On a machine with 64MB, two frames are allocated and one is freed. -/
theorem allocation_exact_freed : ∃ s, Run step Always (initial 64512 kernelHeapBlockCount) s ∧
    s.allocated = [0xC01000] ∧
    (∀ frame, frame ∈ s.freeList 64512 ↔ s.manager.isFree frame) ∧
    s.AllocatesExactly 64512 20000 := by
  have heval : ∃ s ∈ runActions step (initial 64512 kernelHeapBlockCount)
      [.allocate 2, .free [0xC00000]], s.allocated = [0xC01000] := by
    decide +kernel
  obtain ⟨s, hs, hallocated⟩ := heval
  have hrun := run_of_runActions _ hs
  have hexact := allocation_exact (n := 20000) (by decide) (by decide +kernel) hrun (by decide)
  exact ⟨s, hrun, hallocated, hexact⟩

end Inventory

end Dx.Memory
