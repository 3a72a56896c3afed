import Dx.Memory.Bitmap

/-!
# Ranges of bits

`set(index, count)` and `clear(index, count)` of a two-level bitmap work on whole words where they
can: a part of the first word, the words that the range covers, and a part of the last one. Both must
leave what setting or freeing the bits one by one leaves, the parent word included.

A range with at least one bit does (`setRange_eq`, `clearRange_eq`). An empty range that begins within
a word does not: the parent word is told about the child all the same, and `clear` tells it that the
child is not full, whatever it is.
-/

namespace Dx.Memory

open Function Nat BitVec Bitmap32

/-! ### One word -/

theorem makeMask32_zero {i : ℕ} (h : i ≤ 32) : makeMask32 i 0 = 0#32 := by
  refine eq_of_getLsbD_eq fun j _ => ?_
  rw [getLsbD_makeMask32 (by omega), getLsbD_zero, decide_eq_false_iff_not]
  omega

theorem makeMask32_succ {i n : ℕ} (h : i + n < 32) :
    makeMask32 i (n + 1) = makeMask32 i n ||| bit (i + n) := by
  refine eq_of_getLsbD_eq fun j _ => ?_
  rw [getLsbD_or, getLsbD_makeMask32 (by omega), getLsbD_makeMask32 (by omega),
    getLsbD_bit h, ← Bool.decide_or, decide_eq_decide]
  omega

namespace Bitmap32

variable {b : Bitmap32} {i n : ℕ}

theorem setRange_zero (h : i ≤ 32) : b.setRange i 0 = b := by
  rw [setRange, makeMask32_zero h, BitVec.or_zero]

theorem setRange_succ (h : i + n < 32) : b.setRange i (n + 1) = (b.setRange i n).set (i + n) := by
  rw [set, if_pos h, setRange, makeMask32_succ h, setRange, BitVec.or_assoc]

theorem clearRange_zero (h : i ≤ 32) : b.clearRange i 0 = b := by
  rw [clearRange, makeMask32_zero h, not_zero, and_allOnes]

theorem clearRange_succ (h : i + n < 32) :
    b.clearRange i (n + 1) = (b.clearRange i n).free (i + n) := by
  rw [clearRange, makeMask32_succ h, free, clearRange, BitVec.not_or, BitVec.and_assoc]

theorem isFull_set (hi : i < 32) (h : b.isFull = true) : (b.set i).isFull = true := by
  rw [isFull_iff] at h ⊢
  intro j hj
  rw [isSet_set hi, h j hj, Bool.or_true]

end Bitmap32

namespace MultilevelBitmap

variable {b : Bitmap1024} {i n p c : ℕ}

/-! ### The bits one by one -/

def each (one : Bitmap1024 → ℕ → Bitmap1024) (b : Bitmap1024) (i n : ℕ) : Bitmap1024 :=
  (List.range' i n).foldl one b

/-- `set(i)`, …, `set(i + n - 1)`. -/
def setEach (b : Bitmap1024) (i n : ℕ) : Bitmap1024 := each set b i n

/-- `free(i)`, …, `free(i + n - 1)`. -/
def freeEach (b : Bitmap1024) (i n : ℕ) : Bitmap1024 := each free b i n

section

variable {one : Bitmap1024 → ℕ → Bitmap1024}

theorem each_zero : each one b i 0 = b := rfl

theorem each_succ : each one b i (n + 1) = one (each one b i n) (i + n) := by
  rw [each, List.range'_1_concat, List.foldl_append]
  rfl

theorem each_each {m : ℕ} : each one (each one b i m) (i + m) n = each one b i (m + n) := by
  rw [each, each, ← List.foldl_append, List.range'_append_1]
  rfl

end

/-! ### One child -/

theorem childBitmap_setChild (c : Bitmap32) : (b.setChild p c).childBitmap p = c := update_self ..

theorem setChild_setChild {c c' : Bitmap32} (h : c.isFull = true → c'.isFull = true) :
    (b.setChild p c).setChild p c' = b.setChild p c' := by
  have hchild : update (update b.childBitmap p c) p c' =
      update b.childBitmap p c' := update_idem ..
  have hparent : (if c'.isFull then
        (if c.isFull then b.parentBitmap ||| bit p else b.parentBitmap) ||| bit p
      else if c.isFull then b.parentBitmap ||| bit p else b.parentBitmap) =
      if c'.isFull then b.parentBitmap ||| bit p else b.parentBitmap := by
    cases hc : c.isFull with
    | false => rfl
    | true =>
      rw [h hc, if_pos rfl, if_pos rfl, BitVec.or_assoc, BitVec.or_self]
  exact congrArg₂ (MultilevelBitmap.mk b.size b.childBitmapSize) hchild hparent

theorem set_eq_setChild (hp : p < 32) (hc : c < 32) :
    b.set (p * 32 + c) = b.setChild p ((b.childBitmap p).set c) := by
  rw [set, show (p * 32 + c) / 32 = p by omega, show (p * 32 + c) % 32 = c by omega, if_pos hp]
  rfl

theorem setEach_word (hp : p < 32) (hn : c + n + 1 ≤ 32) :
    b.setEach (p * 32 + c) (n + 1) = b.setChild p ((b.childBitmap p).setRange c (n + 1)) := by
  induction n with
  | zero =>
    rw [setEach, each_succ, each_zero, setRange_succ (by omega),
      setRange_zero (by omega), add_zero, add_zero]
    exact set_eq_setChild hp (by omega)
  | succ n ih =>
    have hlast : c + (n + 1) < 32 := by omega
    rw [setEach, each_succ, ← setEach, ih (by omega), add_assoc (p * 32),
      set_eq_setChild hp hlast, childBitmap_setChild, ← setRange_succ hlast,
      setChild_setChild]
    intro hfull
    rw [setRange_succ hlast]
    exact isFull_set hlast hfull

theorem clearChild_clearChild {c c' : Bitmap32} :
    (b.clearChild p c).clearChild p c' = b.clearChild p c' := by
  have hchild : update (update b.childBitmap p c) p c' =
      update b.childBitmap p c' := update_idem ..
  have hparent : b.parentBitmap &&& ~~~(bit p) &&& ~~~(bit p) = b.parentBitmap &&& ~~~(bit p) := by
    rw [BitVec.and_assoc, BitVec.and_self]
  exact congrArg₂ (MultilevelBitmap.mk b.size b.childBitmapSize) hchild hparent

theorem free_eq_clearChild (hp : p < 32) (hc : c < 32) :
    b.free (p * 32 + c) = b.clearChild p ((b.childBitmap p).free c) := by
  rw [free, show (p * 32 + c) / 32 = p by omega, show (p * 32 + c) % 32 = c by omega, if_pos hp]
  rfl

theorem freeEach_word (hp : p < 32) (hn : c + n + 1 ≤ 32) :
    b.freeEach (p * 32 + c) (n + 1) = b.clearPart p c (n + 1) := by
  induction n with
  | zero =>
    have hzero : b.clearPart p c 1 = b.clearChild p (((b.childBitmap p).clearRange c 0).free (c + 0)) :=
      congrArg (b.clearChild p) (clearRange_succ (by omega))
    rw [freeEach, each_succ, each_zero, hzero, clearRange_zero (by omega), add_zero, add_zero]
    exact free_eq_clearChild hp (by omega)
  | succ n ih =>
    have hlast : c + (n + 1) < 32 := by omega
    have hchild : (b.clearPart p c (n + 1)).childBitmap p = (b.childBitmap p).clearRange c (n + 1) :=
      update_self ..
    rw [freeEach, each_succ, ← freeEach, ih (by omega), add_assoc (p * 32),
      free_eq_clearChild hp hlast, hchild, ← clearRange_succ hlast]
    exact clearChild_clearChild

/-! ### The three stages -/

/-- `count` bits of one child are set, from `childIndex` on. -/
def setPart (b : Bitmap1024) (parentIndex childIndex count : ℕ) : Bitmap1024 :=
  b.setChild parentIndex ((b.childBitmap parentIndex).setRange childIndex count)

section

variable (part : Bitmap1024 → ℕ → ℕ → ℕ → Bitmap1024)

/-- The loop over the children that the range covers. -/
def coverChildren (b : Bitmap1024) (p n : ℕ) : ℕ → Bitmap1024 × ℕ × ℕ
  | 0 => (b, p, n)
  | fuel + 1 =>
    if 32 ≤ n ∧ p < 32 then coverChildren (part b p 0 32) (p + 1) (n - 32) fuel else (b, p, n)

/-- The children after the first one. -/
def coverFrom (b : Bitmap1024) (p n : ℕ) : Bitmap1024 :=
  let covered := coverChildren part b p n 32
  if covered.2.2 ≠ 0 ∧ covered.2.1 < 32 then part covered.1 covered.2.1 0 covered.2.2 else covered.1

/-- The range, by an operation on a part of a child. -/
def cover (b : Bitmap1024) (i n : ℕ) : Bitmap1024 :=
  if i % 32 ≠ 0 ∧ i / 32 < 32 then
    coverFrom part (part b (i / 32) (i % 32) (min n (32 - i % 32))) (i / 32 + 1)
      (n - min n (32 - i % 32))
  else coverFrom part b (i / 32) n

variable {part} {one : Bitmap1024 → ℕ → Bitmap1024}

/-- The operation on a part of a child is that on its bits one by one. -/
def PartOf (one : Bitmap1024 → ℕ → Bitmap1024) (part : Bitmap1024 → ℕ → ℕ → ℕ → Bitmap1024) : Prop :=
  ∀ {b p c n}, p < 32 → c + n + 1 ≤ 32 → each one b (p * 32 + c) (n + 1) = part b p c (n + 1)

/-- The loop covers `m` children, and less than one is left. -/
theorem coverChildren_eq (h : PartOf one part) (hn : p * 32 + n ≤ 1024) (fuel : ℕ)
    (hfuel : 32 ≤ p + fuel) :
    ∃ m, m * 32 ≤ n ∧ n < m * 32 + 32 ∧
      coverChildren part b p n fuel = (each one b (p * 32) (m * 32), p + m, n - m * 32) := by
  induction fuel generalizing b p n with
  | zero =>
    refine ⟨0, by omega, by omega, ?_⟩
    rw [coverChildren, Nat.zero_mul, each_zero]
    rfl
  | succ fuel ih =>
    rw [coverChildren]
    by_cases hcover : 32 ≤ n ∧ p < 32
    · rw [if_pos hcover]
      obtain ⟨m, hle, hlt, heq⟩ := ih (p := p + 1) (n := n - 32) (by omega)
        (by omega)
      refine ⟨m + 1, by omega, by omega, ?_⟩
      have hfirst : part b p 0 32 = each one b (p * 32) 32 := (h hcover.2 (by omega)).symm
      have hall : each one (each one b (p * 32) 32) ((p + 1) * 32) (m * 32) =
          each one b (p * 32) ((m + 1) * 32) := by
        rw [Nat.succ_mul p, each_each, Nat.succ_mul m, Nat.add_comm 32]
      rw [heq, hfirst, hall, Nat.add_right_comm, Nat.add_assoc, Nat.succ_mul m, Nat.sub_sub,
        Nat.add_comm 32]
    · rw [if_neg hcover]
      refine ⟨0, by omega, by omega, ?_⟩
      rw [Nat.zero_mul, each_zero]
      rfl

theorem coverFrom_eq (h : PartOf one part) (hn : p * 32 + n ≤ 1024) :
    coverFrom part b p n = each one b (p * 32) n := by
  obtain ⟨m, hle, hlt, heq⟩ := coverChildren_eq h hn 32 (by omega)
  rw [coverFrom, heq]
  dsimp only
  split
  case isTrue hlast =>
    obtain ⟨k, hk⟩ : ∃ k, n - m * 32 = k + 1 := ⟨n - m * 32 - 1, by omega⟩
    rw [hk, ← h hlast.2 (by omega), Nat.add_zero, Nat.add_mul, each_each, ← hk,
      Nat.add_sub_cancel' hle]
  case isFalse hlast =>
    rw [show m * 32 = n by omega]

/-- A range of at least one bit is covered bit by bit. -/
theorem cover_eq (h : PartOf one part) (hn : i + n ≤ 1024) (hpos : 0 < n) :
    cover part b i n = each one b i n := by
  rw [cover]
  split
  case isTrue hpart =>
    obtain ⟨k, hk⟩ : ∃ k, min n (32 - i % 32) = k + 1 := ⟨min n (32 - i % 32) - 1, by omega⟩
    rw [hk, ← h hpart.2 (by omega), show i / 32 * 32 + i % 32 = i by omega]
    by_cases hrest : n - (k + 1) = 0
    · -- the range ends in the first child
      have hzero : coverFrom part (each one b i (k + 1)) (i / 32 + 1) 0 = each one b i (k + 1) := by
        rw [coverFrom_eq h (by omega), each_zero]
      rw [hrest, hzero, show n = k + 1 by omega]
    · rw [coverFrom_eq h (by omega), show (i / 32 + 1) * 32 = i + (k + 1) by omega, each_each,
        show k + 1 + (n - (k + 1)) = n by omega]
  case isFalse hpart =>
    rw [coverFrom_eq h (by omega), show i / 32 * 32 = i by omega]

end

/-! ### `set` and `clear` -/

section

variable (hchild : b.childBitmapSize = 32)
include hchild

theorem setPart_whole :
    ({ b with
      childBitmap := update b.childBitmap p
        (Bitmap.setRange (b.childBitmap p) 0 b.childBitmapSize)
      parentBitmap := b.parentBitmap ||| bit p } : Bitmap1024) = b.setPart p 0 32 := by
  have hfull : ((b.childBitmap p).setRange 0 32).isFull = true := by
    rw [isFull_iff]
    intro i hi
    rw [isSet_setRange (by omega)]
    simp [hi]
  obtain ⟨size, childBitmapSize, childBitmap, parentBitmap⟩ := b
  obtain rfl : childBitmapSize = 32 := hchild
  exact congrArg (MultilevelBitmap.mk size 32 _) (if_pos hfull).symm

theorem fillChildren_eq (fuel : ℕ) :
    b.fillChildren p n fuel = coverChildren setPart b p n fuel := by
  induction fuel generalizing b p n with
  | zero => rfl
  | succ fuel ih =>
    rw [fillChildren, coverChildren, hchild]
    split
    case isTrue =>
      have hwhole := setPart_whole (p := p) hchild
      rw [hchild] at hwhole
      rw [hwhole]
      exact ih hchild
    case isFalse => rfl

theorem setRange_eq_cover : b.setRange i n = cover setPart b i n := by
  have hfrom : ∀ {b : Bitmap1024} {p n}, b.childBitmapSize = 32 →
      b.fillFrom p n = coverFrom setPart b p n := by
    intro b p n hchild
    rw [fillFrom, coverFrom, fillChildren_eq hchild]
    rfl
  rw [setRange, cover, hchild]
  split
  case isTrue => exact hfrom hchild
  case isFalse => exact hfrom hchild

theorem clearChildren_eq (fuel : ℕ) :
    b.clearChildren p n fuel = coverChildren clearPart b p n fuel := by
  induction fuel generalizing b p n with
  | zero => rfl
  | succ fuel ih =>
    rw [clearChildren, coverChildren, hchild]
    split
    case isTrue => exact ih hchild
    case isFalse => rfl

theorem clearRange_eq_cover : b.clearRange i n = cover clearPart b i n := by
  have hfrom : ∀ {b : Bitmap1024} {p n}, b.childBitmapSize = 32 →
      b.clearFrom p n = coverFrom clearPart b p n := by
    intro b p n hchild
    rw [clearFrom, coverFrom, clearChildren_eq hchild]
  rw [clearRange, cover, hchild]
  split
  case isTrue => exact hfrom hchild
  case isFalse => exact hfrom hchild

theorem setRange_eq (hn : i + n ≤ 1024) (hpos : 0 < n) : b.setRange i n = b.setEach i n := by
  rw [setRange_eq_cover hchild]
  exact cover_eq (fun hp hn => setEach_word hp hn) hn hpos

theorem clearRange_eq (hn : i + n ≤ 1024) (hpos : 0 < n) : b.clearRange i n = b.freeEach i n := by
  rw [clearRange_eq_cover hchild]
  exact cover_eq (fun hp hn => freeEach_word hp hn) hn hpos

end

/-! ### No bits at all -/

/-- An empty range is passed over, unless it begins within a child. -/
theorem cover_zero {part : Bitmap1024 → ℕ → ℕ → ℕ → Bitmap1024} :
    cover part b i 0 = if i % 32 ≠ 0 ∧ i / 32 < 32 then part b (i / 32) (i % 32) 0 else b := by
  have hfrom : ∀ {b : Bitmap1024} {p}, coverFrom part b p 0 = b := by
    intro b p
    rw [coverFrom, coverChildren]
    simp
  rw [cover, Nat.zero_min, Nat.zero_sub, hfrom, hfrom]

theorem or_bit_eq_iff {value : BitVec 32} (hp : p < 32) :
    value ||| bit p = value ↔ value.getLsbD p = true := by
  constructor
  · intro h
    rw [← h, getLsbD_or, getLsbD_bit hp, decide_eq_true rfl, Bool.or_true]
  · intro h
    refine eq_of_getLsbD_eq fun j _ => ?_
    rw [getLsbD_or, getLsbD_bit hp]
    by_cases hj : j = p
    · rw [hj, h, Bool.true_or]
    · rw [decide_eq_false hj, Bool.or_false]

theorem and_not_bit_eq_iff {value : BitVec 32} (hp : p < 32) :
    value &&& ~~~(bit p) = value ↔ value.getLsbD p = false := by
  constructor
  · intro h
    rw [← h, getLsbD_and, getLsbD_not, getLsbD_bit hp, decide_eq_true rfl, Bool.not_true,
      Bool.and_false, Bool.and_false]
  · intro h
    refine eq_of_getLsbD_eq fun j hj => ?_
    rw [getLsbD_and, getLsbD_not, getLsbD_bit hp, decide_eq_true hj, Bool.true_and]
    by_cases hjp : j = p
    · rw [hjp, h, Bool.false_and]
    · rw [decide_eq_false hjp, Bool.not_false, Bool.and_true]

/-- The parent is told that a child is full, which has not changed. -/
theorem setPart_zero_eq_iff (hp : p < 32) (hc : c ≤ 32) :
    b.setPart p c 0 = b ↔
      ((b.childBitmap p).isFull = true → b.parentBitmap.getLsbD p = true) := by
  have hset : b.setPart p c 0 = { b with
      parentBitmap :=
        if (b.childBitmap p).isFull then b.parentBitmap ||| bit p else b.parentBitmap } := by
    rw [setPart, setRange_zero hc, setChild, update_eq_self]
    rfl
  rw [hset]
  constructor
  · intro h hfull
    rw [hfull, if_pos rfl] at h
    exact (or_bit_eq_iff hp).1 (congrArg parentBitmap h)
  · intro h
    cases hfull : (b.childBitmap p).isFull with
    | false => rfl
    | true =>
      rw [if_pos rfl, (or_bit_eq_iff hp).2 (h hfull)]

/-- The parent is told that a child is not full, which has not changed. -/
theorem clearPart_zero_eq_iff (hp : p < 32) (hc : c ≤ 32) :
    b.clearPart p c 0 = b ↔ b.parentBitmap.getLsbD p = false := by
  have hclear : b.clearPart p c 0 = { b with parentBitmap := b.parentBitmap &&& ~~~(bit p) } := by
    have hchild : Bitmap.clearRange (b.childBitmap p) c 0 = b.childBitmap p := clearRange_zero hc
    rw [clearPart, hchild, clearChild, update_eq_self]
  rw [hclear]
  constructor
  · intro h
    exact (and_not_bit_eq_iff hp).1 (congrArg parentBitmap h)
  · intro h
    rw [(and_not_bit_eq_iff hp).2 h]

/-- A range of no bits that begins within a child. -/
def EmptyWithin (i n : ℕ) : Prop := n = 0 ∧ i % 32 ≠ 0

/-- **Ranges and single bits.** `set(i, n)` leaves what setting the bits one by one leaves, unless the
range is empty and begins within a child that is full without its parent knowing it; and
`clear(i, n)` leaves what freeing them one by one leaves, unless the range is empty and begins within
a child that its parent has as full. -/
theorem ranges_agree_iff (b : Bitmap1024) (i n : ℕ) (hchild : b.childBitmapSize = 32)
    (hsize : b.size ≤ 1024) (hn : i + n ≤ b.size) :
    (b.setRange i n = b.setEach i n ↔
      ¬ (EmptyWithin i n ∧ (b.childBitmap (i / 32)).isFull = true ∧
        b.parentBitmap.getLsbD (i / 32) = false)) ∧
    (b.clearRange i n = b.freeEach i n ↔
      ¬ (EmptyWithin i n ∧ b.parentBitmap.getLsbD (i / 32) = true)) := by
  rcases Nat.eq_zero_or_pos n with rfl | hpos
  · rw [setRange_eq_cover hchild, clearRange_eq_cover hchild, cover_zero, cover_zero, setEach, freeEach,
      each_zero, each_zero]
    by_cases hwithin : i % 32 ≠ 0
    · have hp : i / 32 < 32 := by omega
      have hc : i % 32 ≤ 32 := by omega
      rw [if_pos ⟨hwithin, hp⟩, if_pos ⟨hwithin, hp⟩, setPart_zero_eq_iff hp hc,
        clearPart_zero_eq_iff hp hc]
      simp [EmptyWithin, hwithin]
    · have hno : ¬ (i % 32 ≠ 0 ∧ i / 32 < 32) := fun h => hwithin h.1
      rw [if_neg hno, if_neg hno]
      simp [EmptyWithin, hwithin]
  · have hne : ¬ EmptyWithin i n := fun h => absurd h.1 (ne_of_gt hpos)
    rw [setRange_eq hchild (by omega) hpos, clearRange_eq hchild (by omega) hpos]
    simp [hne]

/-- The range of forty bits from 20 on, of a new bitmap. -/
theorem ranges_agree_forty :
    (Bitmap1024.new 1000).setRange 20 40 = (Bitmap1024.new 1000).setEach 20 40 ∧
      (Bitmap1024.new 1000).clearRange 20 40 = (Bitmap1024.new 1000).freeEach 20 40 := by
  have hagree := ranges_agree_iff (Bitmap1024.new 1000) 20 40 rfl (by decide) (by decide)
  exact ⟨hagree.1.2 (fun h => absurd h.1.1 (by decide)), hagree.2.2 (fun h => absurd h.1.1 (by decide))⟩

/-- The first word is full, and no bits are cleared from bit 1 on: the parent takes the word for one
that is not full, and allocating fails with 992 bits to be had. Setting no bits makes up for it. -/
theorem ranges_disagree :
    let b := (Bitmap1024.new 1024).setRange 0 32
    let b' := b.clearRange 1 0
    b'.parentBitmap.getLsbD 0 = false ∧ (b.freeEach 1 0).parentBitmap.getLsbD 0 = true ∧
    b'.allocate.1 = 0xFFFFFFFF ∧ (b.freeEach 1 0).allocate.1 = 32 ∧
    (b'.setRange 1 0).parentBitmap.getLsbD 0 = true ∧
    (b'.setEach 1 0).parentBitmap.getLsbD 0 = false := by
  decide +kernel

end MultilevelBitmap

end Dx.Memory
