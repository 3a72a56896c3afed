import Mathlib.Order.Interval.Finset.Nat

/-!
# Flat bit sets

A set of indices below a size. Besides the operations on one index and on a range of them there is
`allocate`, which puts in the lowest index that is not there yet.
-/

namespace Dx.Library

/-- A set of indices below `size`. -/
@[ext]
structure BitSet where
  size : ℕ
  bits : Finset ℕ
  lt_size : ∀ i ∈ bits, i < size
deriving DecidableEq

namespace BitSet

def empty (size : ℕ) : BitSet := ⟨size, ∅, fun i hi => absurd hi (Finset.notMem_empty i)⟩

def insertRange (f : BitSet) (i n : ℕ) : BitSet :=
  ⟨f.size, f.bits ∪ (Finset.Ico i (i + n)).filter (· < f.size), fun j hj => by
    rcases Finset.mem_union.1 hj with hj | hj
    · exact f.lt_size j hj
    · exact (Finset.mem_filter.1 hj).2⟩

def insert (f : BitSet) (i : ℕ) : BitSet := f.insertRange i 1

def erase (f : BitSet) (i : ℕ) : BitSet :=
  ⟨f.size, f.bits.erase i, fun j hj => f.lt_size j (Finset.mem_of_mem_erase hj)⟩

def lowestClear (f : BitSet) : Option ℕ := (List.range f.size).find? fun i => decide (i ∉ f.bits)

/-- The lowest index that is not in the set is put in. -/
def allocate (f : BitSet) : Option ℕ × BitSet :=
  match f.lowestClear with
  | some i => (some i, f.insert i)
  | none => (none, f)

variable {f : BitSet} {i j n : ℕ}

@[simp] theorem not_mem_empty : i ∉ (empty n).bits := Finset.notMem_empty i

@[simp]
theorem mem_insertRange : j ∈ (f.insertRange i n).bits ↔ j ∈ f.bits ∨ (i ≤ j ∧ j < i + n) ∧ j < f.size := by
  rw [insertRange, Finset.mem_union, Finset.mem_filter, Finset.mem_Ico]

@[simp]
theorem mem_insert : j ∈ (f.insert i).bits ↔ j ∈ f.bits ∨ j = i ∧ j < f.size := by
  have heq : i ≤ j ∧ j < i + 1 ↔ j = i := by omega
  rw [insert, mem_insertRange, heq]

@[simp]
theorem mem_erase : j ∈ (f.erase i).bits ↔ j ≠ i ∧ j ∈ f.bits := Finset.mem_erase

theorem lowestClear_eq_some :
    f.lowestClear = some i ↔ i < f.size ∧ i ∉ f.bits ∧ ∀ j < i, j ∈ f.bits := by
  rw [lowestClear, List.find?_range_eq_some, List.mem_range]
  simp only [decide_eq_true_eq, Bool.not_eq_true', decide_eq_false_iff_not, not_not]
  constructor
  · rintro ⟨hclear, hlt, hbefore⟩
    exact ⟨hlt, hclear, hbefore⟩
  · rintro ⟨hlt, hclear, hbefore⟩
    exact ⟨hclear, hlt, hbefore⟩

theorem lowestClear_eq_none : f.lowestClear = none ↔ ∀ i < f.size, i ∈ f.bits := by
  rw [lowestClear, List.find?_eq_none]
  simp only [List.mem_range, decide_eq_true_eq, not_not]

theorem allocate_some (h : f.lowestClear = some i) : f.allocate = (some i, f.insert i) := by
  rw [allocate, h]

theorem allocate_none (h : f.lowestClear = none) : f.allocate = (none, f) := by
  rw [allocate, h]

end BitSet

end Dx.Library
