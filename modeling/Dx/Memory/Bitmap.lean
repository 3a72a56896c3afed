import Mathlib.Data.Nat.Bitwise

/-!
# Bits and bitmaps

`bits.hpp`, `bits.asm` and `bitmap.hpp`: the routines that find and make bits in a 32-bit word, the
bitmap of one word, and the template that builds a larger bitmap from 32 smaller ones and a word
that says which of these are full.

A two-level bitmap is meant to behave as a flat one: `isSet` is the flat view, and every operation
is described by what it does to it (`MultilevelBitmap.isSet_set` and so on). This rests on the parent
word being right about its children, which is the invariant `MultilevelBitmap.Ok`.
-/

namespace Dx.Memory

open Function Nat BitVec

/-! ### Words -/

/-- `find_one_bit32`: the lowest bit that is set. -/
def findOneBit32 (value : BitVec 32) : ℕ :=
  ((List.range 32).find? fun i => value.getLsbD i).getD 0xFFFFFFFF

/-- `find_zero_bit32`: the lowest bit that is clear. -/
def findZeroBit32 (value : BitVec 32) : ℕ := findOneBit32 (~~~value)

def bit (index : ℕ) : BitVec 32 := 1#32 <<< index

def makeMask32 (bit count : ℕ) : BitVec 32 :=
  if bit + count < 32 then (0xFFFFFFFF#32 <<< bit) &&& ~~~(0xFFFFFFFF#32 <<< (bit + count))
  else if bit < 32 then 0xFFFFFFFF#32 <<< bit
  else 0

def roundUp2n (value : BitVec 32) : BitVec 32 :=
  let value := value - 1
  let value := value ||| (value >>> 1)
  let value := value ||| (value >>> 2)
  let value := value ||| (value >>> 4)
  let value := value ||| (value >>> 8)
  let value := value ||| (value >>> 16)
  value + 1

/-- Either no bit is set, or the result is the lowest one. -/
theorem findOneBit32_cases (value : BitVec 32) :
    (findOneBit32 value = 0xFFFFFFFF ∧ ∀ i < 32, value.getLsbD i = false) ∨
      (findOneBit32 value < 32 ∧ value.getLsbD (findOneBit32 value) = true ∧
        ∀ i < findOneBit32 value, value.getLsbD i = false) := by
  rw [findOneBit32]
  cases hfind : (List.range 32).find? fun i => value.getLsbD i with
  | none =>
    rw [List.find?_eq_none] at hfind
    refine .inl ⟨rfl, fun i hi => ?_⟩
    simpa using hfind i (List.mem_range.2 hi)
  | some i =>
    obtain ⟨hi, hmem, hbefore⟩ := List.find?_range_eq_some.1 hfind
    exact .inr ⟨List.mem_range.1 hmem, hi, fun j hj => by simpa using hbefore j hj⟩

/-- Either every bit is set, or the result is the lowest one that is clear. -/
theorem findZeroBit32_cases (value : BitVec 32) :
    (findZeroBit32 value = 0xFFFFFFFF ∧ ∀ i < 32, value.getLsbD i = true) ∨
      (findZeroBit32 value < 32 ∧ value.getLsbD (findZeroBit32 value) = false ∧
        ∀ i < findZeroBit32 value, value.getLsbD i = true) := by
  rw [findZeroBit32]
  rcases findOneBit32_cases (~~~value) with ⟨hnone, hall⟩ | ⟨hlt, hbit, hbefore⟩
  · refine .inl ⟨hnone, fun i hi => ?_⟩
    have h := hall i hi
    simpa [hi] using h
  · refine .inr ⟨hlt, ?_, fun i hi => ?_⟩
    · simpa [hlt] using hbit
    · have h := hbefore i hi
      simpa [lt_trans hi hlt] using h

theorem getLsbD_bit {i j : ℕ} (hi : i < 32) : (bit i).getLsbD j = decide (j = i) := by
  rw [bit, getLsbD_shiftLeft, getLsbD_one]
  by_cases hj : j = i
  · simp [hj, hi]
  · have hne : ¬ (j < 32 ∧ i ≤ j ∧ j - i = 0) := fun h => hj (by omega)
    simp only [hj, decide_false, Bool.and_eq_false_imp, Bool.and_eq_true, decide_eq_true_eq,
      Bool.not_eq_true', decide_eq_false_iff_not, not_lt]
    intro h h'
    omega

theorem getLsbD_ones (i : ℕ) : (0xFFFFFFFF#32).getLsbD i = decide (i < 32) := by
  rw [show (0xFFFFFFFF#32) = BitVec.allOnes 32 by decide, getLsbD_allOnes]

theorem getLsbD_makeMask32 {i n j : ℕ} (hn : i + n ≤ 32) :
    (makeMask32 i n).getLsbD j = decide (i ≤ j ∧ j < i + n) := by
  rw [makeMask32]
  split
  case isTrue hlt =>
    rw [getLsbD_and, getLsbD_not, getLsbD_shiftLeft, getLsbD_shiftLeft,
      getLsbD_ones, getLsbD_ones, Bool.eq_iff_iff]
    simp only [Bool.and_eq_true, decide_eq_true_eq, Bool.not_eq_true', decide_eq_false_iff_not,
      Bool.and_eq_false_imp]
    omega
  case isFalse hge =>
    split
    case isTrue hi =>
      rw [getLsbD_shiftLeft, getLsbD_ones, Bool.eq_iff_iff]
      simp only [Bool.and_eq_true, decide_eq_true_eq, Bool.not_eq_true', decide_eq_false_iff_not]
      omega
    case isFalse hi =>
      rw [ofNat_eq_ofNat, getLsbD_zero, eq_comm, decide_eq_false_iff_not]
      omega

/-! ### One word -/

/-- `bitmap_c`: the interface of all bitmaps. -/
class Bitmap (β : Type) where
  /-- `size`: the width of the bitmap, in bits. -/
  size : β → ℕ
  /-- `allocate()`: the index of the bit, and the bitmap with the bit set. -/
  allocate : β → ℕ × β
  free : β → ℕ → β
  isFull : β → Bool
  isSet : β → ℕ → Bool
  set : β → ℕ → β
  /-- `set(index, count)`. -/
  setRange : β → ℕ → ℕ → β
  /-- `clear(index, count)`. -/
  clearRange : β → ℕ → ℕ → β

/-- `bitmap32_c`. -/
structure Bitmap32 where
  size : ℕ
  value : BitVec 32
deriving DecidableEq

namespace Bitmap32

def isFull (b : Bitmap32) : Bool := b.value == 0xFFFFFFFF#32

def isSet (b : Bitmap32) (index : ℕ) : Bool := decide (index < 32) && b.value.getLsbD index

def set (b : Bitmap32) (index : ℕ) : Bitmap32 :=
  if index < 32 then { b with value := b.value ||| bit index } else b

/-- `set(index, count)`. -/
def setRange (b : Bitmap32) (index count : ℕ) : Bitmap32 :=
  { b with value := b.value ||| makeMask32 index count }

/-- `clear(index, count)`. -/
def clearRange (b : Bitmap32) (index count : ℕ) : Bitmap32 :=
  { b with value := b.value &&& ~~~(makeMask32 index count) }

def free (b : Bitmap32) (index : ℕ) : Bitmap32 := { b with value := b.value &&& ~~~(bit index) }

/-- `bitmap32_c(max_bits)`. -/
def new (maxBits : ℕ) : Bitmap32 :=
  if maxBits < 32 then (Bitmap32.mk maxBits 0).setRange maxBits (32 - maxBits)
  else ⟨maxBits, 0⟩

def allocate (b : Bitmap32) : ℕ × Bitmap32 :=
  let index := findZeroBit32 b.value
  (index, if index < b.size then b.set index else b)

instance : Bitmap Bitmap32 := ⟨size, allocate, free, isFull, isSet, set, setRange, clearRange⟩

variable {b : Bitmap32} {i j n : ℕ}

theorem isFull_iff : b.isFull = true ↔ ∀ i < 32, b.isSet i = true := by
  simp only [isFull, isSet, beq_iff_eq]
  constructor
  · rintro h i hi
    rw [h, getLsbD_ones]
    simp [hi]
  · intro h
    refine eq_of_getLsbD_eq fun i hi => ?_
    have hbit := h i hi
    rw [getLsbD_ones]
    simpa [hi] using hbit

theorem isSet_set (hi : i < 32) : (b.set i).isSet j = (decide (j = i) || b.isSet j) := by
  simp only [isSet, set, if_pos hi, getLsbD_or, getLsbD_bit hi]
  by_cases hj : j = i <;> simp [hj, hi]

theorem isSet_free (hi : i < 32) : (b.free i).isSet j = (!decide (j = i) && b.isSet j) := by
  simp only [isSet, free, getLsbD_and, getLsbD_not, getLsbD_bit hi]
  by_cases hj : j = i <;> by_cases hlt : j < 32 <;> simp [hj, hlt]

theorem isSet_setRange (hn : i + n ≤ 32) :
    (b.setRange i n).isSet j = (decide (i ≤ j ∧ j < i + n) || b.isSet j) := by
  simp only [isSet, setRange, getLsbD_or, getLsbD_makeMask32 hn]
  by_cases hlt : j < 32
  · simp [hlt, Bool.or_comm]
  · have hout : ¬ (i ≤ j ∧ j < i + n) := by omega
    simp [hlt, hout]

@[simp] theorem size_set : (b.set i).size = b.size := by
  rw [set]
  split <;> rfl

@[simp] theorem size_setRange : (b.setRange i n).size = b.size := rfl

@[simp] theorem size_free : (b.free i).size = b.size := rfl

/-- A bitmap that is not full allocates its lowest clear bit. -/
theorem allocate_spec (hsize : b.size = 32) (hfull : b.isFull = false) :
    b.allocate.1 < 32 ∧ b.isSet b.allocate.1 = false ∧ (∀ j < b.allocate.1, b.isSet j = true) ∧
      b.allocate.2 = b.set b.allocate.1 := by
  rcases findZeroBit32_cases b.value with ⟨-, hall⟩ | ⟨hlt, hbit, hbefore⟩
  · have hset : b.isFull = true := isFull_iff.2 fun i hi => by simp [isSet, hi, hall i hi]
    rw [hset] at hfull
    cases hfull
  · refine ⟨hlt, ?_, fun j hj => ?_, ?_⟩
    · show (decide _ && b.value.getLsbD (findZeroBit32 b.value)) = false
      rw [hbit, Bool.and_false]
    · have hj : j < findZeroBit32 b.value := hj
      simp [isSet, lt_trans hj hlt, hbefore j hj]
    · show (if findZeroBit32 b.value < b.size then _ else _) = _
      rw [if_pos (hsize ▸ hlt)]
      rfl

end Bitmap32

/-! ### Several levels -/

/-- `multilevel_bitmap_m<CHILDTYPE>`: the children are those below 32. -/
structure MultilevelBitmap (β : Type) where
  size : ℕ
  childBitmapSize : ℕ
  childBitmap : ℕ → β
  /-- `parent_bitmap`: the children that are full. -/
  parentBitmap : BitVec 32

namespace MultilevelBitmap

variable {β : Type} [Bitmap β]

/-- One child gets more bits, and the parent is told when it is full. -/
def setChild (b : MultilevelBitmap β) (parentIndex : ℕ) (child : β) : MultilevelBitmap β :=
  { b with
    childBitmap := update b.childBitmap parentIndex child
    parentBitmap :=
      if Bitmap.isFull child then b.parentBitmap ||| bit parentIndex else b.parentBitmap }

def allocate (b : MultilevelBitmap β) : ℕ × MultilevelBitmap β :=
  let parentIndex := findZeroBit32 b.parentBitmap
  if parentIndex < 32 then
    let child := Bitmap.allocate (b.childBitmap parentIndex)
    ((parentIndex * 32 + child.1) % 2 ^ 32, b.setChild parentIndex child.2)
  else (0xFFFFFFFF, b)

def free (b : MultilevelBitmap β) (index : ℕ) : MultilevelBitmap β :=
  if index / 32 < 32 then
    { b with
      childBitmap := update b.childBitmap (index / 32)
        (Bitmap.free (b.childBitmap (index / 32)) (index % 32))
      parentBitmap := b.parentBitmap &&& ~~~(bit (index / 32)) }
  else b

def isFull (b : MultilevelBitmap β) : Bool := b.parentBitmap == 0xFFFFFFFF#32

def isSet (b : MultilevelBitmap β) (index : ℕ) : Bool :=
  decide (index / 32 < 32) && Bitmap.isSet (b.childBitmap (index / 32)) (index % 32)

def set (b : MultilevelBitmap β) (index : ℕ) : MultilevelBitmap β :=
  if index / 32 < 32 then
    b.setChild (index / 32) (Bitmap.set (b.childBitmap (index / 32)) (index % 32))
  else b

/-- The loop of `set(index, count)` over the children it fills completely, at most `fuel` of them;
with the child and the count it ends with. -/
def fillChildren (b : MultilevelBitmap β) (parentIndex count : ℕ) :
    ℕ → MultilevelBitmap β × ℕ × ℕ
  | 0 => (b, parentIndex, count)
  | fuel + 1 =>
    if b.childBitmapSize ≤ count ∧ parentIndex < 32 then
      fillChildren
        { b with
          childBitmap := update b.childBitmap parentIndex
            (Bitmap.setRange (b.childBitmap parentIndex) 0 b.childBitmapSize)
          parentBitmap := b.parentBitmap ||| bit parentIndex }
        (parentIndex + 1) (count - b.childBitmapSize) fuel
    else (b, parentIndex, count)

/-- The last part of `set(index, count)`: the child that is filled from its first bit on. -/
def fillLast (b : MultilevelBitmap β) (parentIndex count : ℕ) : MultilevelBitmap β :=
  if count ≠ 0 ∧ parentIndex < 32 then
    b.setChild parentIndex (Bitmap.setRange (b.childBitmap parentIndex) 0 count)
  else b

/-- The parts of `set(index, count)` after the first child. -/
def fillFrom (b : MultilevelBitmap β) (parentIndex count : ℕ) : MultilevelBitmap β :=
  let filled := b.fillChildren parentIndex count 32
  filled.1.fillLast filled.2.1 filled.2.2

/-- `set(index, count)`. -/
def setRange (b : MultilevelBitmap β) (index count : ℕ) : MultilevelBitmap β :=
  let childIndex := index % 32
  let parentIndex := index / 32
  if childIndex ≠ 0 ∧ parentIndex < 32 then
    let partialCount := min count (b.childBitmapSize - childIndex)
    (b.setChild parentIndex
      (Bitmap.setRange (b.childBitmap parentIndex) childIndex partialCount)).fillFrom
        (parentIndex + 1) (count - partialCount)
  else b.fillFrom parentIndex count

/-- One child gets fewer bits, so it is not full. -/
def clearChild (b : MultilevelBitmap β) (parentIndex : ℕ) (child : β) : MultilevelBitmap β :=
  { b with
    childBitmap := update b.childBitmap parentIndex child
    parentBitmap := b.parentBitmap &&& ~~~(bit parentIndex) }

/-- `count` bits of one child are cleared, from `childIndex` on. -/
def clearPart (b : MultilevelBitmap β) (parentIndex childIndex count : ℕ) : MultilevelBitmap β :=
  b.clearChild parentIndex (Bitmap.clearRange (b.childBitmap parentIndex) childIndex count)

/-- The loop of `clear(index, count)` over the children it clears completely, at most `fuel` of them;
with the child and the count it ends with. -/
def clearChildren (b : MultilevelBitmap β) (parentIndex count : ℕ) :
    ℕ → MultilevelBitmap β × ℕ × ℕ
  | 0 => (b, parentIndex, count)
  | fuel + 1 =>
    if b.childBitmapSize ≤ count ∧ parentIndex < 32 then
      clearChildren (b.clearPart parentIndex 0 b.childBitmapSize) (parentIndex + 1)
        (count - b.childBitmapSize) fuel
    else (b, parentIndex, count)

/-- The parts of `clear(index, count)` after the first child. -/
def clearFrom (b : MultilevelBitmap β) (parentIndex count : ℕ) : MultilevelBitmap β :=
  let cleared := b.clearChildren parentIndex count 32
  if cleared.2.2 ≠ 0 ∧ cleared.2.1 < 32 then cleared.1.clearPart cleared.2.1 0 cleared.2.2
  else cleared.1

/-- `clear(index, count)`. -/
def clearRange (b : MultilevelBitmap β) (index count : ℕ) : MultilevelBitmap β :=
  let childIndex := index % 32
  let parentIndex := index / 32
  if childIndex ≠ 0 ∧ parentIndex < 32 then
    let partialCount := min count (b.childBitmapSize - childIndex)
    (b.clearPart parentIndex childIndex partialCount).clearFrom (parentIndex + 1)
      (count - partialCount)
  else b.clearFrom parentIndex count

@[simp]
theorem size_setChild (b : MultilevelBitmap β) (i : ℕ) (child : β) :
    (b.setChild i child).size = b.size := rfl

@[simp]
theorem size_set (b : MultilevelBitmap β) (i : ℕ) : (b.set i).size = b.size := by
  unfold set
  split <;> rfl

@[simp]
theorem size_free (b : MultilevelBitmap β) (i : ℕ) : (b.free i).size = b.size := by
  unfold free
  split <;> rfl

@[simp]
theorem size_fillChildren (b : MultilevelBitmap β) (i n fuel : ℕ) :
    (b.fillChildren i n fuel).1.size = b.size := by
  induction fuel generalizing b i n with
  | zero => rfl
  | succ fuel ih =>
    unfold fillChildren
    split
    · exact ih _ _ _
    · rfl

@[simp]
theorem size_fillFrom (b : MultilevelBitmap β) (i n : ℕ) : (b.fillFrom i n).size = b.size := by
  unfold fillFrom fillLast
  dsimp only
  split <;> simp

@[simp]
theorem size_setRange (b : MultilevelBitmap β) (i n : ℕ) : (b.setRange i n).size = b.size := by
  unfold setRange
  dsimp only
  split <;> simp

instance : Bitmap (MultilevelBitmap β) :=
  ⟨size, allocate, free, isFull, isSet, set, setRange, clearRange⟩

/-- `multilevel_bitmap_m(max_bits)`, where `child` is what the children are constructed as. -/
def new (child : β) (maxBits : ℕ) : MultilevelBitmap β :=
  let b : MultilevelBitmap β := ⟨maxBits, Bitmap.size child, fun _ => child, 0⟩
  let trueSize := 32 * Bitmap.size child
  if maxBits < trueSize then b.setRange maxBits (trueSize - maxBits) else b

end MultilevelBitmap

/-! ### Two levels -/

/-- `bitmap1024_c`. -/
abbrev Bitmap1024 := MultilevelBitmap Bitmap32

/-- `bitmap1024_c(max_bits)`. -/
def Bitmap1024.new (maxBits : ℕ) : Bitmap1024 := MultilevelBitmap.new (Bitmap32.new 32) maxBits

namespace MultilevelBitmap

/-- The parent is right about its children. -/
structure Ok (b : Bitmap1024) : Prop where
  childSize : b.childBitmapSize = 32
  size : ∀ p < 32, (b.childBitmap p).size = 32
  /-- The parent has the bits of the children that are full. -/
  parent : ∀ p < 32, b.parentBitmap.getLsbD p = (b.childBitmap p).isFull

variable {b : Bitmap1024} {i j n p : ℕ} {c : Bitmap32}

theorem isSet_eq (hi : i < 1024) : b.isSet i = (b.childBitmap (i / 32)).isSet (i % 32) := by
  have hp : i / 32 < 32 := by omega
  show (decide (i / 32 < 32) && (b.childBitmap (i / 32)).isSet (i % 32)) = _
  simp [hp]

theorem isSet_of_ge (hi : 1024 ≤ i) : b.isSet i = false := by
  have hp : ¬ i / 32 < 32 := by omega
  simp [isSet, hp]

theorem isSet_setChild (hp : p < 32) : (b.setChild p c).isSet i =
    if i / 32 = p then c.isSet (i % 32) else b.isSet i := by
  show (decide (i / 32 < 32) && (update b.childBitmap p c (i / 32)).isSet (i % 32)) = _
  split
  case isTrue h => simp [h, hp]
  case isFalse h => rw [update_of_ne h]; rfl

theorem Ok.setChild (h : b.Ok) (hp : p < 32) (hsize : c.size = 32)
    (hmono : ∀ i < 32, (b.childBitmap p).isSet i = true → c.isSet i = true) :
    (b.setChild p c).Ok where
  childSize := h.childSize
  size := fun q hq => by
    show (update b.childBitmap p c q).size = 32
    by_cases hqp : q = p
    · rw [hqp, update_self, hsize]
    · rw [update_of_ne hqp, h.size q hq]
  parent := fun q hq => by
    show (if c.isFull then b.parentBitmap ||| bit p else b.parentBitmap).getLsbD q =
      (update b.childBitmap p c q).isFull
    by_cases hqp : q = p
    · subst hqp
      rw [update_self]
      cases hfull : c.isFull with
      | true =>
        rw [if_pos rfl, getLsbD_or, getLsbD_bit hq]
        simp
      | false =>
        rw [if_neg (by simp), h.parent q hq]
        cases hold : (b.childBitmap q).isFull with
        | false => rfl
        | true =>
          rw [Bitmap32.isFull_iff.2 fun i hi => hmono i hi (Bitmap32.isFull_iff.1 hold i hi)] at hfull
          cases hfull
    · rw [update_of_ne hqp, ← h.parent q hq]
      split
      · rw [getLsbD_or, getLsbD_bit hp]
        simp [hqp]
      · rfl

theorem set_eq (hi : i < 1024) :
    b.set i = b.setChild (i / 32) ((b.childBitmap (i / 32)).set (i % 32)) := if_pos (by omega)

theorem isSet_set (hi : i < 1024) : (b.set i).isSet j = (decide (j = i) || b.isSet j) := by
  rw [set_eq hi, isSet_setChild (by omega)]
  split
  case isTrue h =>
    have hj : j < 1024 := by omega
    have heq : j % 32 = i % 32 ↔ j = i := by omega
    rw [Bitmap32.isSet_set (mod_lt _ (by decide)), isSet_eq hj, h]
    simp [heq]
  case isFalse h =>
    have hne : j ≠ i := fun e => h (by rw [e])
    simp [hne]

theorem Ok.set (h : b.Ok) (hi : i < 1024) : (b.set i).Ok := by
  have hp : i / 32 < 32 := by omega
  rw [set_eq hi]
  refine h.setChild hp (by rw [Bitmap32.size_set, h.size _ hp]) fun j _ hj => ?_
  rw [Bitmap32.isSet_set (mod_lt _ (by decide)), hj, Bool.or_true]

theorem isSet_free (hi : i < 1024) : (b.free i).isSet j = (!decide (j = i) && b.isSet j) := by
  have hp : i / 32 < 32 := by omega
  rw [free, if_pos hp]
  show (decide (j / 32 < 32) && (update b.childBitmap (i / 32)
    ((b.childBitmap (i / 32)).free (i % 32)) (j / 32)).isSet (j % 32)) =
      (!decide (j = i) && (decide (j / 32 < 32) && (b.childBitmap (j / 32)).isSet (j % 32)))
  by_cases h : j / 32 = i / 32
  · have heq : j % 32 = i % 32 ↔ j = i := by omega
    simp only [h, update_self, Bitmap32.isSet_free (mod_lt i (by decide)), heq]
    cases decide (j = i) <;> simp
  · have hne : j ≠ i := fun e => h (by rw [e])
    simp [update_of_ne h, hne]

theorem Ok.free (h : b.Ok) (hi : i < 1024) : (b.free i).Ok := by
  have hp : i / 32 < 32 := by omega
  rw [MultilevelBitmap.free, if_pos hp]
  refine ⟨h.childSize, fun q hq => ?_, fun q hq => ?_⟩
  · show (update b.childBitmap (i / 32) ((b.childBitmap (i / 32)).free (i % 32)) q).size = 32
    by_cases hqp : q = i / 32
    · rw [hqp, update_self, Bitmap32.size_free, h.size _ hp]
    · rw [update_of_ne hqp, h.size q hq]
  · show (b.parentBitmap &&& ~~~(bit (i / 32))).getLsbD q =
      (update b.childBitmap (i / 32) ((b.childBitmap (i / 32)).free (i % 32)) q).isFull
    rw [getLsbD_and, getLsbD_not, getLsbD_bit hp]
    by_cases hqp : q = i / 32
    · -- the child has a clear bit now
      have hclear : ((b.childBitmap (i / 32)).free (i % 32)).isFull = false := by
        rw [← Bool.not_eq_true, Bitmap32.isFull_iff]
        intro hall
        have hbit := hall (i % 32) (mod_lt _ (by decide))
        rw [Bitmap32.isSet_free (mod_lt _ (by decide))] at hbit
        simp at hbit
      rw [hqp, update_self, hclear]
      simp
    · rw [update_of_ne hqp, ← h.parent q hq]
      simp [hqp, hq]

/-- A bitmap with a clear bit allocates the lowest one; a full bitmap allocates none. -/
theorem allocate_spec (h : b.Ok) :
    (b.allocate = (0xFFFFFFFF, b) ∧ ∀ i < 1024, b.isSet i = true) ∨
      (b.allocate.1 < 1024 ∧ b.isSet b.allocate.1 = false ∧
        (∀ j < b.allocate.1, b.isSet j = true) ∧ b.allocate.2 = b.set b.allocate.1) := by
  rcases findZeroBit32_cases b.parentBitmap with ⟨hnone, hall⟩ | ⟨hlt, hbit, hbefore⟩
  · refine .inl ⟨?_, fun i hi => ?_⟩
    · rw [allocate, hnone]
      rfl
    · have hp : i / 32 < 32 := by omega
      rw [isSet_eq hi]
      exact Bitmap32.isFull_iff.1 ((h.parent _ hp).symm.trans (hall _ hp)) _
        (mod_lt _ (by decide))
  · have hfull : (b.childBitmap (findZeroBit32 b.parentBitmap)).isFull = false :=
      (h.parent _ hlt).symm.trans hbit
    obtain ⟨hclt, hcbit, hcbefore, hcset⟩ := Bitmap32.allocate_spec (h.size _ hlt) hfull
    have halloc : b.allocate =
        (findZeroBit32 b.parentBitmap * 32 +
          (b.childBitmap (findZeroBit32 b.parentBitmap)).allocate.1,
        b.setChild (findZeroBit32 b.parentBitmap)
          ((b.childBitmap (findZeroBit32 b.parentBitmap)).set
            (b.childBitmap (findZeroBit32 b.parentBitmap)).allocate.1)) := by
      have hmod := mod_eq_of_lt (a := findZeroBit32 b.parentBitmap * 32 +
        (b.childBitmap (findZeroBit32 b.parentBitmap)).allocate.1) (b := 2 ^ 32) (by omega)
      rw [← hcset, ← hmod]
      exact if_pos hlt
    generalize findZeroBit32 b.parentBitmap = p at *
    generalize (b.childBitmap p).allocate.1 = c at *
    have hdiv : (p * 32 + c) / 32 = p := by omega
    have hmod : (p * 32 + c) % 32 = c := by omega
    rw [halloc]
    refine .inr ⟨by dsimp only; omega, ?_, fun j hj => ?_, ?_⟩
    · rw [isSet_eq (by omega), hdiv, hmod]
      exact hcbit
    · have hj : j < p * 32 + c := hj
      rw [isSet_eq (by omega)]
      rcases lt_or_ge (j / 32) p with hlow | hhigh
      · exact Bitmap32.isFull_iff.1 ((h.parent _ (by omega)).symm.trans (hbefore _ hlow)) _
          (mod_lt _ (by decide))
      · have heq : j / 32 = p := by omega
        rw [heq]
        exact hcbefore _ (by omega)
    · show _ = b.set (p * 32 + c)
      rw [MultilevelBitmap.set, hdiv, hmod, if_pos hlt]
      rfl

theorem isSet_setChild_setRange (hp : p < 32) (hn : i + n ≤ 32) :
    (b.setChild p ((b.childBitmap p).setRange i n)).isSet j =
      (decide (p * 32 + i ≤ j ∧ j < p * 32 + i + n) || b.isSet j) := by
  rw [isSet_setChild hp]
  split
  case isTrue h =>
    have hj : j < 1024 := by omega
    have heq : (i ≤ j % 32 ∧ j % 32 < i + n) ↔ p * 32 + i ≤ j ∧ j < p * 32 + i + n := by omega
    rw [Bitmap32.isSet_setRange hn, isSet_eq hj, h, decide_eq_decide.2 heq]
  case isFalse h =>
    have hout : ¬ (p * 32 + i ≤ j ∧ j < p * 32 + i + n) := fun hin => h (by omega)
    rw [decide_eq_false hout, Bool.false_or]

theorem Ok.setChild_setRange (h : b.Ok) (hp : p < 32) (hn : i + n ≤ 32) :
    (b.setChild p ((b.childBitmap p).setRange i n)).Ok := by
  refine h.setChild hp (by rw [Bitmap32.size_setRange, h.size _ hp]) fun k _ hk => ?_
  rw [Bitmap32.isSet_setRange hn, hk, Bool.or_true]

/-- The loop fills whole children, until less than one is left to fill. -/
theorem fillChildren_spec (h : b.Ok) (hn : p * 32 + n ≤ 1024) (fuel : ℕ) (hfuel : 32 ≤ p + fuel) :
    (b.fillChildren p n fuel).1.Ok ∧
      (∀ j, (b.fillChildren p n fuel).1.isSet j =
        (decide (p * 32 ≤ j ∧ j < (b.fillChildren p n fuel).2.1 * 32) || b.isSet j)) ∧
      (b.fillChildren p n fuel).2.1 * 32 + (b.fillChildren p n fuel).2.2 = p * 32 + n ∧
      (b.fillChildren p n fuel).2.2 < 32 := by
  have hnone : ∀ {b : Bitmap1024} {p : ℕ} j,
      b.isSet j = (decide (p * 32 ≤ j ∧ j < p * 32) || b.isSet j) := by
    intro b p j
    rw [decide_eq_false (by omega), Bool.false_or]
  induction fuel generalizing b p n with
  | zero =>
    refine ⟨h, hnone, rfl, ?_⟩
    show n < 32
    omega
  | succ fuel ih =>
    rw [fillChildren]
    split
    case isTrue hcond =>
      have hset : ({ b with
          childBitmap := update b.childBitmap p
            (Bitmap.setRange (b.childBitmap p) 0 b.childBitmapSize)
          parentBitmap := b.parentBitmap ||| bit p } : Bitmap1024) =
            b.setChild p ((b.childBitmap p).setRange 0 32) := by
        have hfull : ((b.childBitmap p).setRange 0 32).isFull = true := Bitmap32.isFull_iff.2
          fun i hi => by rw [Bitmap32.isSet_setRange (by omega)]; simp [hi]
        obtain ⟨size, childBitmapSize, childBitmap, parentBitmap⟩ := b
        obtain rfl : childBitmapSize = 32 := h.childSize
        exact congrArg (MultilevelBitmap.mk size 32 _) (if_pos hfull).symm
      rw [hset, h.childSize]
      rw [h.childSize] at hcond
      obtain ⟨hok, hbits, hsum, hlt⟩ := ih (h.setChild_setRange (i := 0) (n := 32) hcond.2 (by omega))
        (p := p + 1) (n := n - 32) (by omega) (by omega)
      refine ⟨hok, fun j => ?_, by omega, hlt⟩
      rw [hbits, isSet_setChild_setRange hcond.2 (by omega), ← Bool.or_assoc]
      congr 1
      rw [← Bool.decide_or, decide_eq_decide]
      omega
    case isFalse hcond =>
      rw [h.childSize] at hcond
      refine ⟨h, hnone, rfl, ?_⟩
      show n < 32
      omega

theorem fillFrom_spec (h : b.Ok) (hn : p * 32 + n ≤ 1024) :
    (b.fillFrom p n).Ok ∧
      ∀ j, (b.fillFrom p n).isSet j = (decide (p * 32 ≤ j ∧ j < p * 32 + n) || b.isSet j) := by
  obtain ⟨hok, hbits, hsum, hlt⟩ := fillChildren_spec h hn 32 (by omega)
  rw [fillFrom, fillLast]
  generalize b.fillChildren p n 32 = r at *
  obtain ⟨b', p', n'⟩ := r
  dsimp only at *
  split
  case isTrue hcond =>
    refine ⟨hok.setChild_setRange hcond.2 (by omega), fun j => ?_⟩
    refine (isSet_setChild_setRange hcond.2 (by omega)).trans ?_
    rw [hbits, ← Bool.or_assoc]
    congr 1
    rw [← Bool.decide_or, decide_eq_decide]
    omega
  case isFalse hcond =>
    refine ⟨hok, fun j => ?_⟩
    rw [hbits]
    congr 1
    rw [decide_eq_decide]
    omega

/-- `set(index, count)` sets the bits of the range. -/
theorem setRange_spec (h : b.Ok) (hn : i + n ≤ 1024) :
    (b.setRange i n).Ok ∧
      ∀ j, (b.setRange i n).isSet j = (decide (i ≤ j ∧ j < i + n) || b.isSet j) := by
  rw [setRange]
  split
  case isTrue hcond =>
    rw [h.childSize]
    have hok := h.setChild_setRange (i := i % 32) (n := min n (32 - i % 32)) hcond.2 (by omega)
    obtain ⟨hok', hbits⟩ := fillFrom_spec (p := i / 32 + 1) (n := n - min n (32 - i % 32)) hok
      (by omega)
    refine ⟨hok', fun j => (hbits j).trans ?_⟩
    rw [isSet_setChild_setRange hcond.2 (by omega), ← Bool.or_assoc]
    congr 1
    rw [← Bool.decide_or, decide_eq_decide]
    omega
  case isFalse hcond =>
    obtain ⟨hok, hbits⟩ := fillFrom_spec (p := i / 32) (n := n) h (by omega)
    refine ⟨hok, fun j => (hbits j).trans ?_⟩
    congr 1
    rw [decide_eq_decide]
    omega

end MultilevelBitmap

/-- A new bitmap is empty, but for the bits beyond its width. -/
theorem Bitmap1024.new_spec {n : ℕ} (hn : n ≤ 1024) :
    (Bitmap1024.new n).Ok ∧ ∀ j < 1024, (Bitmap1024.new n).isSet j = decide (n ≤ j) := by
  have hbits : ∀ j, (⟨n, 32, fun _ => .new 32, 0⟩ : Bitmap1024).isSet j = false := fun j => by
    show (_ && (_ && (0#32).getLsbD (j % 32))) = false
    rw [getLsbD_zero, Bool.and_false, Bool.and_false]
  have hok : (⟨n, 32, fun _ => .new 32, 0⟩ : Bitmap1024).Ok := by
    refine ⟨rfl, fun p _ => rfl, fun p _ => ?_⟩
    show (0#32).getLsbD p = _
    rw [getLsbD_zero]
    rfl
  rw [Bitmap1024.new, MultilevelBitmap.new]
  show (if n < 1024 then _ else _ : Bitmap1024).Ok ∧ ∀ j < 1024, (if n < 1024 then _ else _ :
    Bitmap1024).isSet j = _
  split
  case isTrue hlt =>
    obtain ⟨hok', hset⟩ := MultilevelBitmap.setRange_spec (i := n) (n := 1024 - n) hok (by omega)
    refine ⟨hok', fun j hj => (hset j).trans ?_⟩
    rw [hbits, Bool.or_false, decide_eq_decide]
    omega
  case isFalse hge =>
    refine ⟨hok, fun j hj => (hbits j).trans ?_⟩
    rw [decide_eq_false (by omega)]

end Dx.Memory
