import Dx.Library.BitSet
import Dx.Library.Refinement
import Dx.Memory.Bitmap
import Dx.Memory.KernelHeap

/-!
# Bitmaps and flat bit sets

What the bitmaps are for: a bitmap of `size` bits is a set of indices below `size`. The operations of
the interface `bitmap_c` are performed on any bitmap by `Bitmap.perform` and on the set by
`BitSet.perform`, and a bitmap is right when the answers agree along every sequence of operations.

For `bitmap1024_c` they do. `bitmap32k_c`, the same template with children of 1024 bits, still splits
an index into `index / 32` and `index % 32`. Only its first 32 indices name a bit of their own, and
what it allocates are the 1024 bits of its first child; after that it hands out index 32 once more.
But `allocate_bitmap` never returns one: it is larger than the largest block of the kernel heap.
-/

namespace Dx.Memory

open Library Function Nat Bitmap BitSet

/-! ### The interface -/

/-- The operations of `bitmap_c`. -/
inductive BitmapOp
  | allocate
  | free (index : ℕ)
  | set (index : ℕ)
  | setRange (index count : ℕ)
  | isSet (index : ℕ)
deriving DecidableEq

inductive BitmapAnswer
  | index (i : ℕ)
  | bit (b : Bool)
  | done
deriving DecidableEq

def Bitmap.perform {β : Type} [Bitmap β] (b : β) : BitmapOp → BitmapAnswer × β
  | .allocate =>
    match allocate b with
    | (i, b') => (.index i, b')
  | .free i => (.done, free b i)
  | .set i => (.done, set b i)
  | .setRange i n => (.done, setRange b i n)
  | .isSet i => (.bit (isSet b i), b)

/-- What an operation on a flat set of bits returns. -/
inductive FlatAnswer
  | index (i : Option ℕ)
  | bit (b : Bool)
  | done
deriving DecidableEq

/-- The same operation on a flat set of bits. -/
def flatPerform (f : BitSet) : BitmapOp → FlatAnswer × BitSet
  | .allocate =>
    match f.allocate with
    | (i, f') => (.index i, f')
  | .free i => (.done, f.erase i)
  | .set i => (.done, f.insert i)
  | .setRange i n => (.done, f.insertRange i n)
  | .isSet i => (.bit (decide (i ∈ f.bits)), f)

/-- The answers of a bitmap and of a set of `size` bits agree; an index that is not below the size
says that there is no bit to allocate. -/
def Agrees (size : ℕ) : BitmapAnswer → FlatAnswer → Prop
  | .index i, .index (some j) => i = j
  | .index i, .index none => size ≤ i
  | .bit b, .bit c => b = c
  | .done, .done => True
  | _, _ => False

instance (size : ℕ) (a : BitmapAnswer) (c : FlatAnswer) : Decidable (Agrees size a c) := by
  unfold Agrees
  split <;> infer_instance

/-! ### Two levels -/

/-- The index and the range of an operation lie inside a bitmap of `size` bits: a range inside its
1024 bits, and a bit that is asked for inside its size. -/
def BitmapOp.Inside (size : ℕ) : BitmapOp → Prop
  | .setRange i n => i + n ≤ 1024
  | .isSet i => i < size
  | _ => True

instance (size : ℕ) (op : BitmapOp) : Decidable (op.Inside size) := by
  unfold BitmapOp.Inside
  split <;> infer_instance

namespace MultilevelBitmap

/-- The two-level bitmap `b` stands for the set `f`. -/
structure Represents (size : ℕ) (b : Bitmap1024) (f : BitSet) : Prop where
  ok : b.Ok
  width : f.size = size
  bits : ∀ i < size, b.isSet i = decide (i ∈ f.bits)

variable {size : ℕ} {b : Bitmap1024} {f : BitSet} {i n : ℕ}

theorem Represents.new (hsize : size ≤ 1024) :
    Represents size (Bitmap1024.new size) (.empty size) := by
  obtain ⟨hok, hbits⟩ := Bitmap1024.new_spec hsize
  refine ⟨hok, rfl, fun i hi => ?_⟩
  rw [hbits i (by omega), decide_eq_false (by omega), decide_eq_false not_mem_empty]

theorem set_of_ge (hi : 1024 ≤ i) : b.set i = b := if_neg (by omega)

theorem free_of_ge (hi : 1024 ≤ i) : b.free i = b := if_neg (by omega)

section

variable (h : Represents size b f)
include h

namespace Represents

theorem set (hsize : size ≤ 1024) (i : ℕ) : Represents size (b.set i) (f.insert i) := by
  rcases lt_or_ge i 1024 with hi | hi
  · refine ⟨h.ok.set hi, h.width, fun j hj => ?_⟩
    rw [isSet_set hi, h.bits j hj, ← Bool.decide_or, decide_eq_decide, mem_insert, h.width]
    tauto
  · rw [set_of_ge hi]
    refine ⟨h.ok, h.width, fun j hj => ?_⟩
    have hne : j ≠ i := by omega
    rw [h.bits j hj, decide_eq_decide, mem_insert]
    tauto

theorem free (hsize : size ≤ 1024) (i : ℕ) : Represents size (b.free i) (f.erase i) := by
  rcases lt_or_ge i 1024 with hi | hi
  · refine ⟨h.ok.free hi, h.width, fun j hj => ?_⟩
    rw [isSet_free hi, h.bits j hj, ← decide_not, ← Bool.decide_and, decide_eq_decide, mem_erase]
  · rw [free_of_ge hi]
    refine ⟨h.ok, h.width, fun j hj => ?_⟩
    have hne : j ≠ i := by omega
    rw [h.bits j hj, decide_eq_decide, mem_erase]
    tauto

theorem setRange (hn : i + n ≤ 1024) : Represents size (b.setRange i n) (f.insertRange i n) := by
  obtain ⟨hok, hbits⟩ := setRange_spec h.ok hn
  refine ⟨hok, h.width, fun j hj => ?_⟩
  rw [hbits, h.bits j hj, ← Bool.decide_or, decide_eq_decide, mem_insertRange, h.width]
  tauto

theorem isSet_iff (hi : i < size) : b.isSet i = true ↔ i ∈ f.bits := by
  rw [h.bits i hi, decide_eq_true_eq]

/-- The bitmap allocates what the set does. -/
theorem allocate_some (hsize : size ≤ 1024) (hlow : f.lowestClear = some i) :
    b.allocate = (i, b.set i) := by
  obtain ⟨hi, hnot, hbefore⟩ := lowestClear_eq_some.1 hlow
  rw [h.width] at hi
  rcases allocate_spec h.ok with ⟨-, hall⟩ | ⟨-, hclear, hlowest, hset⟩
  · exact absurd ((h.isSet_iff hi).1 (hall i (by omega))) hnot
  · -- both are the lowest clear bit
    have heq : b.allocate.1 = i := by
      rcases lt_trichotomy b.allocate.1 i with hless | heq | hmore
      · have hset' := (h.isSet_iff (by omega)).2 (hbefore _ hless)
        rw [hclear] at hset'
        cases hset'
      · exact heq
      · exact absurd ((h.isSet_iff hi).1 (hlowest i hmore)) hnot
    rw [heq] at hset
    exact Prod.ext heq hset

/-- When the set has no clear bit, the bitmap may still allocate one of the bits beyond the size that
has been freed. -/
theorem allocate_none (hsize : size ≤ 1024) (hlow : f.lowestClear = none) :
    size ≤ b.allocate.1 ∧ Represents size b.allocate.2 f := by
  have hall := lowestClear_eq_none.1 hlow
  rw [h.width] at hall
  rcases allocate_spec h.ok with ⟨heq, -⟩ | ⟨hlt, hclear, -, hset⟩
  · rw [heq]
    exact ⟨show size ≤ 0xFFFFFFFF by omega, h⟩
  · have hge : size ≤ b.allocate.1 := by
      by_contra hin
      rw [(h.isSet_iff (by omega)).2 (hall _ (by omega))] at hclear
      cases hclear
    refine ⟨hge, ?_⟩
    rw [hset]
    refine ⟨h.ok.set hlt, h.width, fun j hj => ?_⟩
    rw [isSet_set hlt, decide_eq_false (by omega), Bool.false_or, h.bits j hj]

theorem allocate (hsize : size ≤ 1024) :
    Agrees size (.index b.allocate.1) (.index f.allocate.1) ∧
      Represents size b.allocate.2 f.allocate.2 := by
  cases hlow : f.lowestClear with
  | none =>
    rw [BitSet.allocate_none hlow]
    exact h.allocate_none hsize hlow
  | some i =>
    rw [BitSet.allocate_some hlow, h.allocate_some hsize hlow]
    exact ⟨rfl, h.set hsize i⟩

end Represents

end

theorem refines_flat (hsize : size ≤ 1024) :
    Refines (perform (β := Bitmap1024)) flatPerform (fun _ op => op.Inside size) (Agrees size)
      (Represents size) where
  answer := by
    intro b f op h hop
    cases op with
    | allocate => exact (h.allocate hsize).1
    | isSet i => exact h.bits i hop
    | _ => trivial
  state := by
    intro b f op h hop
    cases op with
    | allocate => exact (h.allocate hsize).2
    | free i => exact h.free hsize i
    | set i => exact h.set hsize i
    | setRange i n => exact h.setRange hop
    | isSet i => exact h

/-- **The two-level bitmap is a flat one.** Along every sequence of operations the answers are those
of a set of `size` bits, which allocates the lowest index that is clear; and after it the parent has
exactly the bits of the children that are full, and the bits below the size are those of the set. -/
theorem bitmap1024_refines_flat (size : ℕ) (hsize : size ≤ 1024) (ops : List BitmapOp)
    (hops : ∀ op ∈ ops, op.Inside size) :
    List.Forall₂ (Agrees size) (performAll perform (Bitmap1024.new size) ops).1
        (performAll flatPerform (.empty size) ops).1 ∧
      (∀ p < 32, (performAll perform (Bitmap1024.new size) ops).2.parentBitmap.getLsbD p =
        ((performAll perform (Bitmap1024.new size) ops).2.childBitmap p).isFull) ∧
      ∀ i < size, (performAll perform (Bitmap1024.new size) ops).2.isSet i =
        decide (i ∈ (performAll flatPerform (.empty size) ops).2.bits) := by
  have hallowed : AllAllowed flatPerform (fun _ op => op.Inside size) (.empty size) ops :=
    allAllowed_of_forall (fun op hop _ => hops op hop) _
  obtain ⟨hanswers, hrel⟩ := (refines_flat hsize).performAll (.new hsize) hallowed
  exact ⟨hanswers, hrel.ok.parent, hrel.bits⟩

/-- A bitmap of 40 bits, the first 39 set as a range: the last one is allocated and then none. -/
theorem bitmap1024_refines_flat_forty :
    List.Forall₂ (Agrees 40)
      (performAll perform (Bitmap1024.new 40) [.setRange 0 39, .allocate, .allocate]).1
      (performAll flatPerform (.empty 40) [.setRange 0 39, .allocate, .allocate]).1 :=
  (bitmap1024_refines_flat 40 (by decide) [.setRange 0 39, .allocate, .allocate] (by decide)).1

theorem Ok.isFull_iff (h : b.Ok) : b.isFull = true ↔ ∀ i < 1024, b.isSet i = true := by
  rw [isFull, beq_iff_eq]
  constructor
  · intro hones i hi
    have hp : i / 32 < 32 := by omega
    have hfull : (b.childBitmap (i / 32)).isFull = true := by
      rw [← h.parent _ hp, hones, getLsbD_ones, decide_eq_true hp]
    rw [isSet_eq hi]
    exact Bitmap32.isFull_iff.1 hfull _ (mod_lt _ (by decide))
  · intro hall
    refine BitVec.eq_of_getLsbD_eq fun p hp => ?_
    rw [h.parent p hp, getLsbD_ones, decide_eq_true hp, Bitmap32.isFull_iff]
    intro i hi
    have hbit := hall (p * 32 + i) (by omega)
    rwa [isSet_eq (by omega), show (p * 32 + i) / 32 = p by omega,
      show (p * 32 + i) % 32 = i by omega] at hbit

theorem Represents.congr (h : Represents size b f) {g : BitSet} (hwidth : g.size = size)
    (hbits : ∀ i < size, (i ∈ g.bits ↔ i ∈ f.bits)) : Represents size b g :=
  ⟨h.ok, hwidth, fun i hi => by rw [h.bits i hi, decide_eq_decide, hbits i hi]⟩

end MultilevelBitmap

/-! ### Three levels -/

/-- `bitmap32k_c`. -/
abbrev Bitmap32k := MultilevelBitmap Bitmap1024

/-- `bitmap32k_c(max_bits)`. -/
def Bitmap32k.new (maxBits : ℕ) : Bitmap32k := MultilevelBitmap.new (Bitmap1024.new 1024) maxBits

/-- What `bitmap_cp` points to. -/
inductive AnyBitmap
  | bitmap32 (b : Bitmap32)
  | bitmap1024 (b : Bitmap1024)
  | bitmap32k (b : Bitmap32k)

/-- The calls go to the bitmap that is there. -/
instance : Bitmap AnyBitmap where
  size
    | .bitmap32 b => size b
    | .bitmap1024 b => size b
    | .bitmap32k b => size b
  allocate
    | .bitmap32 b =>
      match allocate b with
      | (i, b') => (i, .bitmap32 b')
    | .bitmap1024 b =>
      match allocate b with
      | (i, b') => (i, .bitmap1024 b')
    | .bitmap32k b =>
      match allocate b with
      | (i, b') => (i, .bitmap32k b')
  free
    | .bitmap32 b, i => .bitmap32 (free b i)
    | .bitmap1024 b, i => .bitmap1024 (free b i)
    | .bitmap32k b, i => .bitmap32k (free b i)
  isFull
    | .bitmap32 b => isFull b
    | .bitmap1024 b => isFull b
    | .bitmap32k b => isFull b
  isSet
    | .bitmap32 b, i => isSet b i
    | .bitmap1024 b, i => isSet b i
    | .bitmap32k b, i => isSet b i
  set
    | .bitmap32 b, i => .bitmap32 (set b i)
    | .bitmap1024 b, i => .bitmap1024 (set b i)
    | .bitmap32k b, i => .bitmap32k (set b i)
  setRange
    | .bitmap32 b, i, n => .bitmap32 (setRange b i n)
    | .bitmap1024 b, i, n => .bitmap1024 (setRange b i n)
    | .bitmap32k b, i, n => .bitmap32k (setRange b i n)
  clearRange
    | .bitmap32 b, i, n => .bitmap32 (clearRange b i n)
    | .bitmap1024 b, i, n => .bitmap1024 (clearRange b i n)
    | .bitmap32k b, i, n => .bitmap32k (clearRange b i n)

namespace Bitmap32k

/-- Only the first child is in use, and stands for the set. -/
structure Represents (size : ℕ) (b : Bitmap32k) (f : BitSet) : Prop where
  width : f.size = size
  low : ∀ i ∈ f.bits, i < 1024
  child : MultilevelBitmap.Represents 1024 (b.childBitmap 0) ⟨1024, f.bits, low⟩
  parent : b.parentBitmap.getLsbD 0 = (b.childBitmap 0).isFull
  rest : ∀ p, 0 < p → p < 32 → ∀ i, (b.childBitmap p).isSet i = false

/-- What may be asked of the bitmap: a bit below 1024 has to be clear for `allocate`, and an index has
to be one of the first 32, unless it is not set. -/
def Allowed (f : BitSet) : BitmapOp → Prop
  | .allocate => ∃ i < 1024, i ∉ f.bits
  | .free i => i < 32 ∨ i ∉ f.bits
  | .set i => i < 32 ∨ f.size ≤ i
  | .setRange _ _ => False
  | .isSet i => i < 32 ∨ i ∉ f.bits

instance (f : BitSet) (op : BitmapOp) : Decidable (Allowed f op) := by
  unfold Allowed
  split <;> infer_instance

variable {size : ℕ} {b : Bitmap32k} {f : BitSet} {i : ℕ}

theorem setRange_of_ge {n : ℕ} (hi : 1024 ≤ i) : b.setRange i n = b := by
  have hout : ¬ i / 32 < 32 := by omega
  have hfill : b.fillChildren (i / 32) n 32 = (b, i / 32, n) := if_neg fun h => hout h.2
  rw [MultilevelBitmap.setRange, if_neg fun h => hout h.2, MultilevelBitmap.fillFrom, hfill]
  exact if_neg fun h => hout h.2

/-- The constructor sets no bit, because the first bit beyond the size is already beyond the
parent. -/
theorem new_eq (hsize : 1024 ≤ size) :
    Bitmap32k.new size = ⟨size, 1024, fun _ => Bitmap1024.new 1024, 0⟩ := by
  rw [Bitmap32k.new, MultilevelBitmap.new, setRange_of_ge hsize, ite_self]
  rfl

theorem Represents.new (hsize : 1024 ≤ size) :
    Represents size (Bitmap32k.new size) (.empty size) := by
  rw [new_eq hsize]
  have hlow : ∀ i ∈ (empty size).bits, i < 1024 := fun i hi =>
    absurd hi not_mem_empty
  have hchild := MultilevelBitmap.Represents.new (le_refl 1024)
  refine ⟨rfl, hlow, hchild, ?_, fun p _ _ i => ?_⟩
  · show (0#32).getLsbD 0 = (Bitmap1024.new 1024).isFull
    rw [BitVec.getLsbD_zero, eq_comm, ← Bool.not_eq_true, hchild.ok.isFull_iff]
    intro hall
    have hbit := hall 0 (by decide)
    rw [hchild.bits 0 (by decide), decide_eq_true_eq] at hbit
    exact not_mem_empty hbit
  · show (Bitmap1024.new 1024).isSet i = false
    rcases lt_or_ge i 1024 with hi | hi
    · rw [hchild.bits i hi, decide_eq_false not_mem_empty]
    · exact MultilevelBitmap.isSet_of_ge hi

section

variable (h : Represents size b f)
include h

namespace Represents

theorem setChild {c : Bitmap1024} {g : BitSet} (hwidth : g.size = size)
    (hlow : ∀ i ∈ g.bits, i < 1024) (hc : MultilevelBitmap.Represents 1024 c ⟨1024, g.bits, hlow⟩)
    (hsub : f.bits ⊆ g.bits) :
    Represents size (b.setChild 0 c) g where
  width := hwidth
  low := hlow
  child := by
    show MultilevelBitmap.Represents 1024 (update b.childBitmap 0 c 0) _
    rw [update_self]
    exact hc
  parent := by
    show (if c.isFull then b.parentBitmap ||| bit 0 else b.parentBitmap).getLsbD 0 =
      (update b.childBitmap 0 c 0).isFull
    rw [update_self]
    cases hfull : c.isFull with
    | true =>
      rw [if_pos rfl, BitVec.getLsbD_or, getLsbD_bit (by decide), decide_eq_true rfl, Bool.or_true]
    | false =>
      rw [if_neg Bool.false_ne_true, h.parent, ← Bool.not_eq_true, h.child.ok.isFull_iff]
      intro hall
      rw [← Bool.not_eq_true, hc.ok.isFull_iff] at hfull
      refine hfull fun i hi => ?_
      have hold := hall i hi
      rw [h.child.bits i hi, decide_eq_true_eq] at hold
      rw [hc.bits i hi, decide_eq_true_eq]
      exact hsub hold
  rest := fun p hpos hp i => by
    show (update b.childBitmap 0 c p).isSet i = false
    rw [update_of_ne (ne_of_gt hpos)]
    exact h.rest p hpos hp i

theorem setChild_set (hsize : 1024 ≤ size) (hi : i < 1024) :
    Represents size (b.setChild 0 ((b.childBitmap 0).set i)) (f.insert i) := by
  have hlow : ∀ j ∈ (f.insert i).bits, j < 1024 := by
    intro j hj
    rcases mem_insert.1 hj with hj | ⟨rfl, -⟩
    · exact h.low j hj
    · exact hi
  refine h.setChild h.width hlow ((h.child.set (le_refl 1024) i).congr rfl fun j hj => ?_) ?_
  · have hjsize : j < size := by omega
    rw [mem_insert, mem_insert, h.width]
    simp only [hj, hjsize]
  · intro j hj
    exact mem_insert.2 (.inl hj)

theorem set (hsize : 1024 ≤ size) (hi : i < 32) : Represents size (b.set i) (f.insert i) := by
  have hset : b.set i = b.setChild 0 ((b.childBitmap 0).set i) := by
    have hdiv : i / 32 = 0 := by omega
    have hmod : i % 32 = i := by omega
    rw [MultilevelBitmap.set, hdiv, hmod]
    exact if_pos (by decide)
  rw [hset]
  exact h.setChild_set hsize (by omega)

theorem set_of_ge (hsize : 1024 ≤ size) (hi : size ≤ i) :
    Represents size (b.set i) (f.insert i) := by
  have hset : b.set i = b := if_neg (by omega)
  have hinsert : f.insert i = f := by
    have hbits : (f.insert i).bits = f.bits := by
      ext j
      rw [BitSet.mem_insert, h.width]
      have hout : ¬ (j = i ∧ j < size) := by omega
      tauto
    exact BitSet.ext rfl hbits
  rw [hset, hinsert]
  exact h

theorem free (hi : i < 32) : Represents size (b.free i) (f.erase i) := by
  have hfree : b.free i = { b with
      childBitmap := update b.childBitmap 0 ((b.childBitmap 0).free i)
      parentBitmap := b.parentBitmap &&& ~~~(bit 0) } := by
    have hdiv : i / 32 = 0 := by omega
    have hmod : i % 32 = i := by omega
    rw [MultilevelBitmap.free, hdiv, hmod]
    exact if_pos (by decide)
  have hchild := h.child.free (le_refl 1024) i
  rw [hfree]
  refine ⟨h.width, fun j hj => h.low j (mem_erase.1 hj).2, ?_, ?_, fun p hpos hp j => ?_⟩
  · dsimp only
    rw [update_self]
    exact hchild.congr rfl fun j _ => Iff.rfl
  · dsimp only
    rw [update_self, BitVec.getLsbD_and, BitVec.getLsbD_not, getLsbD_bit (by decide),
      decide_eq_true rfl, Bool.not_true, Bool.and_false, Bool.and_false, eq_comm, ← Bool.not_eq_true,
      hchild.ok.isFull_iff]
    intro hall
    have hbit := hall i (by omega)
    rw [hchild.bits i (by omega), decide_eq_true_eq, mem_erase] at hbit
    exact hbit.1 rfl
  · dsimp only
    rw [update_of_ne (ne_of_gt hpos)]
    exact h.rest p hpos hp j

/-- Freeing a bit of another child changes nothing that is in use. -/
theorem free_of_ge (hi : 32 ≤ i) (hnot : i ∉ f.bits) : Represents size (b.free i) (f.erase i) := by
  have herase : f.erase i = f := BitSet.ext rfl (Finset.erase_eq_of_notMem hnot)
  rw [herase, MultilevelBitmap.free]
  split
  case isFalse => exact h
  case isTrue hp =>
    have hne : 0 ≠ i / 32 := by omega
    refine ⟨h.width, h.low, ?_, ?_, fun q hpos hq j => ?_⟩
    · dsimp only
      rw [update_of_ne hne]
      exact h.child
    · dsimp only
      rw [update_of_ne hne, BitVec.getLsbD_and, BitVec.getLsbD_not, getLsbD_bit hp,
        decide_eq_false hne, Bool.not_false, h.parent, Bool.and_true]
      exact Bool.and_true _
    · dsimp only
      by_cases hqi : q = i / 32
      · rw [hqi, update_self]
        refine (MultilevelBitmap.isSet_free (by omega)).trans ?_
        rw [h.rest (i / 32) (by omega) hp, Bool.and_false]
      · rw [update_of_ne hqi]
        exact h.rest q hpos hq j

theorem isSet (hi : i < 32 ∨ i ∉ f.bits) : b.isSet i = decide (i ∈ f.bits) := by
  rcases lt_or_ge i 32 with hlt | hge
  · have hdiv : i / 32 = 0 := by omega
    have hmod : i % 32 = i := by omega
    rw [MultilevelBitmap.isSet, hdiv, hmod]
    exact h.child.bits i (by omega)
  · have hnot : i ∉ f.bits := hi.resolve_left (by omega)
    rw [MultilevelBitmap.isSet, decide_eq_false hnot]
    rcases lt_or_ge (i / 32) 32 with hp | hp
    · have hclear : Bitmap.isSet (b.childBitmap (i / 32)) (i % 32) = false :=
        h.rest (i / 32) (by omega) hp (i % 32)
      rw [hclear, Bool.and_false]
    · rw [decide_eq_false (by omega), Bool.false_and]

theorem allocate (hsize : 1024 ≤ size) (hclear : ∃ i < 1024, i ∉ f.bits) :
    Agrees size (.index b.allocate.1) (.index f.allocate.1) ∧
      Represents size b.allocate.2 f.allocate.2 := by
  obtain ⟨k, hk, hknot⟩ := hclear
  have hnotfull : (b.childBitmap 0).isFull = false := by
    rw [← Bool.not_eq_true, h.child.ok.isFull_iff]
    intro hall
    have hbit := hall k hk
    rw [h.child.bits k hk, decide_eq_true_eq] at hbit
    exact hknot hbit
  have hzero : findZeroBit32 b.parentBitmap = 0 := by
    have hbit := h.parent.trans hnotfull
    rcases findZeroBit32_cases b.parentBitmap with ⟨-, hall⟩ | ⟨-, -, hbefore⟩
    · rw [hall 0 (by decide)] at hbit
      cases hbit
    · by_contra hne
      rw [hbefore 0 (by omega)] at hbit
      cases hbit
  have halloc : b.allocate =
      ((b.childBitmap 0).allocate.1 % 2 ^ 32, b.setChild 0 (b.childBitmap 0).allocate.2) := by
    rw [MultilevelBitmap.allocate, hzero, if_pos (by decide), zero_mul]
    dsimp only
    rw [zero_add]
    rfl
  -- the set and the part of it below 1024 have the same lowest clear bit
  obtain ⟨i, hlow⟩ : ∃ i, (BitSet.mk 1024 f.bits h.low).lowestClear = some i := by
    cases hlow : (BitSet.mk 1024 f.bits h.low).lowestClear with
    | none => exact absurd (BitSet.lowestClear_eq_none.1 hlow k hk) hknot
    | some i => exact ⟨i, rfl⟩
  obtain ⟨hi, hinot, hbefore⟩ := BitSet.lowestClear_eq_some.1 hlow
  dsimp only at hi hinot hbefore
  have hlowf : f.lowestClear = some i :=
    BitSet.lowestClear_eq_some.2 ⟨by rw [h.width]; omega, hinot, hbefore⟩
  rw [halloc, BitSet.allocate_some hlowf, h.child.allocate_some (le_refl 1024) hlow]
  constructor
  · exact mod_eq_of_lt (by omega)
  · exact h.setChild_set hsize hi

end Represents

end

theorem refines_flat (hsize : 1024 ≤ size) :
    Refines (perform (β := AnyBitmap)) flatPerform Allowed (Agrees size)
      (fun b f => ∃ b', b = .bitmap32k b' ∧ Represents size b' f) where
  answer := by
    rintro _ f op ⟨b, rfl, h⟩ hop
    cases op with
    | allocate => exact (h.allocate hsize hop).1
    | isSet i => exact h.isSet hop
    | setRange i n => exact hop.elim
    | _ => trivial
  state := by
    rintro _ f op ⟨b, rfl, h⟩ hop
    cases op with
    | allocate => exact ⟨_, rfl, (h.allocate hsize hop).2⟩
    | free i =>
      refine ⟨_, rfl, ?_⟩
      rcases lt_or_ge i 32 with hlt | hge
      · exact h.free hlt
      · exact h.free_of_ge hge (hop.resolve_left (by omega))
    | set i =>
      refine ⟨_, rfl, ?_⟩
      rcases hop with hlt | hge
      · exact h.set hsize hlt
      · exact h.set_of_ge hsize (h.width ▸ hge)
    | setRange i n => exact hop.elim
    | isSet i => exact ⟨b, rfl, h⟩

end Bitmap32k

end Dx.Memory
