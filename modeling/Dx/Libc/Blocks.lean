import Dx.Library.Walk
import Mathlib.Data.BitVec

/-!
# Blocks of memory

`memcpy`, `memmove` and `memset` of a 32-bit address space, where pointers wrap around. `memmove` copies
from the first byte to the last or the other way round, whichever does not overwrite what is still to be
read, so that the ranges may overlap (`memmove_simultaneous`). `memset` fills single bytes up to an
aligned address, then words, then single bytes again; the three loops share their pointer and their
count, and together they go through the buffer byte by byte (`memset_fills`).
-/

namespace Dx.Libc

open Library Function List

/-- The bytes of an address space. -/
abbrev ByteMemory : Type := BitVec 32 → BitVec 8

variable {m : ByteMemory} {d s x a : BitVec 32} {n k i j : ℕ}

/-! ### Copying -/

/-- `memcpy`: the pointer it returns, and the memory afterwards. -/
def memcpy (destination source count : BitVec 32) (m : ByteMemory) : BitVec 32 × ByteMemory :=
  (destination,
    if destination ≠ 0 ∧ source ≠ 0 then copy 1 count.toNat destination source m else m)

/-- `memmove`: the pointer it returns, and the memory afterwards. -/
def memmove (destination source count : BitVec 32) (m : ByteMemory) : BitVec 32 × ByteMemory :=
  (destination,
    if destination ≠ 0 ∧ source ≠ 0 then
      if destination < source then copy 1 count.toNat destination source m
      else if source < destination then
        copy (-1) count.toNat (destination + count - 1) (source + count - 1) m
      else m
    else m)

theorem add_nsmul_one (a : BitVec 32) (i : ℕ) : a + i • (1 : BitVec 32) = a + BitVec.ofNat 32 i := by
  rw [nsmul_one, BitVec.natCast_eq_ofNat]

theorem nsmul_toNat_one (count : BitVec 32) : count.toNat • (1 : BitVec 32) = count := by
  simp

theorem toNat_add_nsmul_one (h : a.toNat + i < 2 ^ 32) :
    (a + i • (1 : BitVec 32)).toNat = a.toNat + i := by
  rw [add_nsmul_one, BitVec.toNat_add, BitVec.toNat_ofNat]
  omega

theorem add_nsmul_one_ne (hd : d.toNat + i < 2 ^ 32) (hs : s.toNat + j < 2 ^ 32)
    (hne : d.toNat + i ≠ s.toNat + j) : d + i • (1 : BitVec 32) ≠ s + j • 1 := by
  intro heq
  have := congrArg BitVec.toNat heq
  rw [toNat_add_nsmul_one hd, toNat_add_nsmul_one hs] at this
  exact hne this

/-- `memcpy` of ranges where no byte is written before it is read. -/
theorem memcpy_apply {count : BitVec 32} (hd : d ≠ 0) (hs : s ≠ 0)
    (h : ∀ i j, i < j → j < count.toNat → d + BitVec.ofNat 32 i ≠ s + BitVec.ofNat 32 j)
    (hi : i < count.toNat) :
    (memcpy d s count m).2 (d + BitVec.ofNat 32 i) = m (s + BitVec.ofNat 32 i) := by
  simp only [← add_nsmul_one] at *
  rw [memcpy, if_pos ⟨hd, hs⟩]
  exact copy_of_passed h hi

theorem memmove_apply {count : BitVec 32} (hd : d ≠ 0) (hs : s ≠ 0)
    (hdest : d.toNat + count.toNat ≤ 2 ^ 32) (hsource : s.toNat + count.toNat ≤ 2 ^ 32) :
    (∀ i < count.toNat, (memmove d s count m).2 (d + i • 1) = m (s + i • 1)) ∧
      (¬ Passed 1 count.toNat d x → (memmove d s count m).2 x = m x) := by
  rw [memmove, if_pos ⟨hd, hs⟩]
  rcases Nat.lt_trichotomy d.toNat s.toNat with hlt | heq | hgt
  · rw [if_pos (BitVec.lt_def.2 hlt)]
    refine ⟨fun i => copy_of_passed ?_, copy_of_not_passed⟩
    intro i j hij hj
    exact add_nsmul_one_ne (by omega) (by omega) (by omega)
  · obtain rfl := BitVec.eq_of_toNat_eq heq
    rw [if_neg (BitVec.lt_irrefl d), if_neg (BitVec.lt_irrefl d)]
    exact ⟨fun _ _ => rfl, fun _ => rfl⟩
  · have hlast : ∀ a, a + count - 1 = a + count.toNat • 1 - 1 := fun a => by rw [nsmul_toNat_one]
    rw [if_neg (fun h => Nat.lt_asymm hgt (BitVec.lt_def.1 h)), if_pos (BitVec.lt_def.2 hgt),
      hlast, hlast]
    refine ⟨fun i => copy_back_of_passed ?_, fun hx => copy_of_not_passed (passed_back.not.2 hx)⟩
    intro i j hij hj
    exact add_nsmul_one_ne (by omega) (by omega) (by omega)

/-- **`memmove`.** However the ranges overlap, the bytes are copied as if all at once, and no other
byte changes. -/
theorem memmove_simultaneous (m : ByteMemory) (destination source count : BitVec 32)
    (hd : destination ≠ 0) (hs : source ≠ 0) (hdest : destination.toNat + count.toNat ≤ 2 ^ 32)
    (hsource : source.toNat + count.toNat ≤ 2 ^ 32) :
    (∀ i < count.toNat, (memmove destination source count m).2 (destination + BitVec.ofNat 32 i) =
      m (source + BitVec.ofNat 32 i)) ∧
    ∀ x : BitVec 32, x.toNat < destination.toNat ∨ destination.toNat + count.toNat ≤ x.toNat →
      (memmove destination source count m).2 x = m x := by
  constructor
  · intro i hi
    rw [← add_nsmul_one, ← add_nsmul_one]
    exact (memmove_apply (x := 0) hd hs hdest hsource).1 i hi
  · intro x hx
    apply (memmove_apply hd hs hdest hsource).2
    rintro ⟨i, hi, rfl⟩
    rw [toNat_add_nsmul_one (by omega)] at hx
    omega

/-- Three bytes are moved up by one. -/
theorem memmove_simultaneous_up : (∀ i < 3, (memmove 2 1 3 fun x => x.setWidth 8).2
      (2 + BitVec.ofNat 32 i) = BitVec.setWidth 8 (1 + BitVec.ofNat 32 i)) ∧
    ∀ x : BitVec 32, x.toNat < 2 ∨ 5 ≤ x.toNat →
      (memmove 2 1 3 fun x => x.setWidth 8).2 x = x.setWidth 8 :=
  memmove_simultaneous _ 2 1 3 (by decide) (by decide) (by decide) (by decide)

/-! ### Filling -/

/-- The addresses of the `n` bytes from `a` on. -/
def byteRange (a : BitVec 32) (n : ℕ) : List (BitVec 32) :=
  (List.range n).map (a + BitVec.ofNat 32 ·)

/-- `*((uintptr_t*)a) = word`: the lowest byte is stored first. -/
def storeWord (m : ByteMemory) (a word : BitVec 32) : ByteMemory :=
  (List.range 4).foldl
    (fun m i => update m (a + BitVec.ofNat 32 i) ((word >>> (8 * i)).setWidth 8)) m

/-- The variable `c` of `memset`, and what has been stored. -/
structure Filling where
  c : BitVec 32
  memory : ByteMemory
  /-- The address and the number of bytes of each store. -/
  stores : List (BitVec 32 × ℕ)

namespace Filling

/-- `*c = (unsigned char)character; c++`. -/
def putByte (value : BitVec 8) (f : Filling) : Filling :=
  { c := f.c + 1, memory := update f.memory f.c value, stores := f.stores ++ [(f.c, 1)] }

/-- `*((uintptr_t*)c) = word; c += sizeof(word)`. -/
def putWord (word : BitVec 32) (f : Filling) : Filling :=
  { c := f.c + 4, memory := storeWord f.memory f.c word, stores := f.stores ++ [(f.c, 4)] }

/-- The bytes that have been stored to, in order. -/
def touched (f : Filling) : List (BitVec 32) := f.stores.flatMap fun p => byteRange p.1 p.2

/-- Every store is one of a byte, or of a word at an aligned address. -/
def Aligned (f : Filling) : Prop := ∀ p ∈ f.stores, p.2 = 1 ∨ p.2 = 4 ∧ p.1.toNat % 4 = 0

end Filling

def fillWord (value : BitVec 8) : BitVec 32 :=
  (List.range 4).foldl (fun word _ => (word <<< 8) ||| value.setWidth 32) 0

/-- The partial word at the head of the buffer, and the count that is left. -/
def fillHead (value : BitVec 8) : ℕ → Filling → ℕ × Filling
  | 0, f => (0, f)
  | count + 1, f =>
    if f.c.toNat % 4 ≠ 0 then fillHead value count (f.putByte value) else (count + 1, f)

/-- The words in the middle of the buffer, and the count that is left. -/
def fillWords (word : BitVec 32) : ℕ → Filling → ℕ × Filling
  | count + 4, f => fillWords word count (f.putWord word)
  | count, f => (count, f)

def fillTail (value : BitVec 8) : ℕ → Filling → Filling
  | 0, f => f
  | count + 1, f => fillTail value count (f.putByte value)

/-- `memset`: the pointer it returns, and what was stored. -/
def memset (buffer character count : BitVec 32) (m : ByteMemory) : BitVec 32 × Filling :=
  let value := character.setWidth 8
  let head := fillHead value count.toNat ⟨buffer, m, []⟩
  let words := fillWords (fillWord value) head.1 head.2
  (buffer, fillTail value words.1 words.2)

theorem byteRange_add (a : BitVec 32) (k n : ℕ) :
    byteRange a (k + n) = byteRange a k ++ byteRange (a + BitVec.ofNat 32 k) n := by
  rw [byteRange, range_add, map_append, map_map]
  refine congrArg (byteRange a k ++ ·) (map_congr_left fun i _ => ?_)
  rw [comp_apply, BitVec.ofNat_add, BitVec.add_assoc]

theorem mem_byteRange (hn : n ≤ 2 ^ 32) : x ∈ byteRange a n ↔ (x - a).toNat < n := by
  rw [byteRange, mem_map]
  constructor
  · rintro ⟨i, hi, rfl⟩
    rw [add_sub_cancel_left, BitVec.toNat_ofNat]
    rw [mem_range] at hi
    omega
  · intro h
    refine ⟨(x - a).toNat, mem_range.2 h, ?_⟩
    rw [BitVec.ofNat_toNat, BitVec.setWidth_eq, add_sub_cancel]

theorem fillWord_byte (value : BitVec 8) (hi : i < 4) :
    (fillWord value >>> (8 * i)).setWidth 8 = value := by
  refine BitVec.eq_of_getLsbD_eq fun j hj => ?_
  simp [fillWord, range_succ, hj]
  grind

/-- The `n` bytes at `c` have been filled, one after the other. -/
structure Filled (value : BitVec 8) (n : ℕ) (f g : Filling) : Prop where
  c : g.c = f.c + BitVec.ofNat 32 n
  memory : g.memory = fill value (byteRange f.c n) f.memory
  touched : g.touched = f.touched ++ byteRange f.c n
  aligned : f.Aligned → g.Aligned

variable {value : BitVec 8} {f g h : Filling}

theorem Filled.refl : Filled value 0 f f := ⟨(BitVec.add_zero _).symm, rfl, (append_nil _).symm, id⟩

theorem Filled.trans (hfg : Filled value k f g) (hgh : Filled value n g h) :
    Filled value (k + n) f h where
  c := by rw [hgh.c, hfg.c, BitVec.ofNat_add, BitVec.add_assoc]
  memory := by
    rw [hgh.memory, hfg.memory, hfg.c, byteRange_add, fill, fill, fill, foldl_append]
  touched := by rw [hgh.touched, hfg.touched, hfg.c, byteRange_add, append_assoc]
  aligned := hgh.aligned ∘ hfg.aligned

theorem filled_putByte : Filled value 1 f (f.putByte value) where
  c := rfl
  memory := by simp [Filling.putByte, byteRange, fill]
  touched := by simp [Filling.touched, Filling.putByte]
  aligned ha := forall_mem_append.2 ⟨ha, forall_mem_singleton.2 (.inl rfl)⟩

theorem filled_putWord (haligned : f.c.toNat % 4 = 0) :
    Filled value 4 f (f.putWord (fillWord value)) where
  c := rfl
  memory := by
    rw [Filling.putWord, storeWord, fill, byteRange, foldl_map]
    refine foldl_ext _ _ _ fun m i hi => ?_
    rw [fillWord_byte value (mem_range.1 hi)]
  touched := by simp [Filling.touched, Filling.putWord]
  aligned ha := forall_mem_append.2 ⟨ha, forall_mem_singleton.2 (.inr ⟨rfl, haligned⟩)⟩

theorem filled_fillHead (value : BitVec 8) (n : ℕ) (f : Filling) : ∃ k,
    Filled value k f (fillHead value n f).2 ∧ k + (fillHead value n f).1 = n ∧
      ((fillHead value n f).1 = 0 ∨ (fillHead value n f).2.c.toNat % 4 = 0) := by
  induction n generalizing f with
  | zero => exact ⟨0, .refl, rfl, .inl rfl⟩
  | succ n ih =>
    rw [fillHead]
    split
    case isTrue =>
      obtain ⟨k, hfilled, hk, hend⟩ := ih (f.putByte value)
      exact ⟨1 + k, filled_putByte.trans hfilled, by omega, hend⟩
    case isFalse h => exact ⟨0, .refl, Nat.zero_add _, .inr (not_not.1 h)⟩

theorem filled_fillWords (value : BitVec 8) (n : ℕ) (f : Filling)
    (h : n = 0 ∨ f.c.toNat % 4 = 0) : ∃ k,
    Filled value k f (fillWords (fillWord value) n f).2 ∧
      k + (fillWords (fillWord value) n f).1 = n := by
  fun_induction fillWords (fillWord value) n f with
  | case1 count f ih =>
    have hc : f.c.toNat % 4 = 0 := h.resolve_left (by omega)
    have hnext : (f.putWord (fillWord value)).c.toNat % 4 = 0 := by
      simp [Filling.putWord]
      omega
    obtain ⟨k, hfilled, hk⟩ := ih (.inr hnext)
    exact ⟨4 + k, (filled_putWord hc).trans hfilled, by omega⟩
  | case2 count f => exact ⟨0, .refl, Nat.zero_add _⟩

theorem filled_fillTail (value : BitVec 8) (n : ℕ) (f : Filling) :
    Filled value n f (fillTail value n f) := by
  induction n generalizing f with
  | zero => exact .refl
  | succ n ih =>
    rw [fillTail, Nat.add_comm]
    exact filled_putByte.trans (ih _)

/-- The three loops share the buffer out among them. -/
theorem filled_memset (buffer character count : BitVec 32) (m : ByteMemory) :
    Filled (character.setWidth 8) count.toNat ⟨buffer, m, []⟩
      (memset buffer character count m).2 := by
  obtain ⟨k, hhead, hk, haligned⟩ :=
    filled_fillHead (character.setWidth 8) count.toNat ⟨buffer, m, []⟩
  obtain ⟨k', hwords, hk'⟩ := filled_fillWords (character.setWidth 8) _ _ haligned
  rw [← hk, ← hk', ← Nat.add_assoc]
  exact (hhead.trans hwords).trans (filled_fillTail _ _ _)

/-- **`memset`** is the fill byte by byte: as many bytes as are asked for are set, from the start of the
buffer to its end, each once and no other, and every word is stored at an aligned address. -/
theorem memset_fills (buffer character count : BitVec 32) (m : ByteMemory) :
    (memset buffer character count m).2.memory =
      fill (character.setWidth 8) (byteRange buffer count.toNat) m ∧
    (∀ x, (memset buffer character count m).2.memory x =
      if (x - buffer).toNat < count.toNat then character.setWidth 8 else m x) ∧
    (memset buffer character count m).2.touched = byteRange buffer count.toNat ∧
    (memset buffer character count m).2.Aligned := by
  have hfilled := filled_memset buffer character count m
  refine ⟨hfilled.memory, fun x => ?_, hfilled.touched, hfilled.aligned ?_⟩
  · rw [hfilled.memory, fill_apply]
    simp only [mem_byteRange count.isLt.le]
  · simp [Filling.Aligned]

end Dx.Libc
