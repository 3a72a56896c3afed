import Mathlib.Data.List.Nodup

/-!
# A packed pool

An unordered collection kept at the front of an array, each item remembering the slot it is in:
an item is added after the last one, and removed by moving the last one into its slot. The
order of the items is of no interest, only which items there are and that each knows its slot
(`Pool.Packed`).
-/

namespace Dx.Library

open Function

universe u

variable {α : Type u}

/-- A pool: the items, packed from slot `0`, and the slot each item remembers. -/
structure Pool (α : Type u) where
  /-- The items, in the order of their slots. -/
  items : List α
  /-- The slot an item remembers; what it is for an item that is not in the pool is left over. -/
  slot : α → ℕ

namespace Pool

def empty (slot : α → ℕ) : Pool α := ⟨[], slot⟩

/-- Every item is there once, and remembers its slot. -/
structure Packed (p : Pool α) : Prop where
  nodup : p.items.Nodup
  slot : ∀ {i : ℕ} {a : α}, p.items[i]? = some a → p.slot a = i

theorem packed_empty (slot : α → ℕ) : (empty slot).Packed := ⟨List.nodup_nil, by simp [empty]⟩

theorem Packed.getElem?_slot {p : Pool α} {a : α} (h : p.Packed) (ha : a ∈ p.items) :
    p.items[p.slot a]? = some a := by
  obtain ⟨i, hi⟩ := List.getElem?_of_mem ha
  rwa [h.slot hi]

theorem Packed.slot_inj {p : Pool α} {i j : ℕ} {a : α} (h : p.Packed)
    (hi : p.items[i]? = some a) (hj : p.items[j]? = some a) : i = j :=
  (h.slot hi).symm.trans (h.slot hj)

theorem getElem?_last {p : Pool α} {last : α} (h : p.items.getLast? = some last) :
    p.items[p.items.length - 1]? = some last := by
  rwa [← List.getLast?_eq_getElem?]

variable [DecidableEq α]

def add (p : Pool α) (a : α) : Pool α :=
  ⟨p.items ++ [a], update p.slot a p.items.length⟩

/-- Remove an item: the last one takes its slot. -/
def remove (p : Pool α) (a : α) : Pool α :=
  match p.items.getLast? with
  | none => p
  | some last =>
    ⟨(p.items.set (p.slot a) last).dropLast,
      if p.items.length = 1 then p.slot else update p.slot last (p.slot a)⟩

def removeAll (p : Pool α) (l : List α) : Pool α := l.foldl remove p

@[simp] theorem mem_add {p : Pool α} {a x : α} : x ∈ (p.add a).items ↔ x ∈ p.items ∨ x = a := by
  simp [add]

theorem Packed.add {p : Pool α} {a : α} (h : p.Packed) (ha : a ∉ p.items) : (p.add a).Packed := by
  refine ⟨?_, ?_⟩
  · simpa [Pool.add, List.nodup_append] using ⟨h.nodup, fun x hx => fun e => ha (e ▸ hx)⟩
  · intro i x hx
    simp only [Pool.add] at hx ⊢
    rcases Nat.lt_trichotomy i p.items.length with hi | hi | hi
    · rw [List.getElem?_append_left hi] at hx
      have hxa : x ≠ a := fun e => ha (e ▸ List.mem_of_getElem? hx)
      rw [update_of_ne hxa, h.slot hx]
    · subst hi
      simp only [List.getElem?_concat_length, Option.some.injEq] at hx
      simp [← hx]
    · rw [List.getElem?_eq_none (by simp; omega)] at hx
      cases hx

/-- What is in slot `j` after a removal: what was there before, or the last item. -/
theorem getElem?_remove {p : Pool α} {a last : α} {j : ℕ} (hlast : p.items.getLast? = some last) :
    (p.remove a).items[j]? =
      if j + 1 < p.items.length then
        if p.slot a = j then some last else p.items[j]?
      else none := by
  simp only [remove, hlast, List.dropLast_eq_take, List.length_set]
  rw [List.getElem?_take]
  by_cases hj : j + 1 < p.items.length
  · rw [if_pos (by omega), if_pos hj, List.getElem?_set]
    by_cases hs : p.slot a = j
    · rw [if_pos hs, if_pos hs, if_pos (by omega)]
    · rw [if_neg hs, if_neg hs]
  · rw [if_neg (by omega), if_neg hj]

theorem Packed.mem_remove {p : Pool α} {a x : α} (h : p.Packed) (ha : a ∈ p.items) :
    x ∈ (p.remove a).items ↔ x ∈ p.items ∧ x ≠ a := by
  obtain ⟨last, hlast⟩ : ∃ last, p.items.getLast? = some last :=
    ⟨_, List.getLast?_eq_some_getLast (List.ne_nil_of_mem ha)⟩
  have hl := getElem?_last hlast
  have hs := h.getElem?_slot ha
  simp only [List.mem_iff_getElem?, getElem?_remove hlast]
  constructor
  · rintro ⟨j, hj⟩
    split_ifs at hj with hlt hsj
    · cases hj
      refine ⟨⟨_, hl⟩, ?_⟩
      rintro rfl
      have := h.slot_inj hs hl
      omega
    · refine ⟨⟨j, hj⟩, ?_⟩
      rintro rfl
      exact hsj (h.slot hj)
  · rintro ⟨⟨j, hj⟩, hne⟩
    have hjl : j < p.items.length := (List.getElem?_eq_some_iff.1 hj).1
    by_cases hjlast : j + 1 < p.items.length
    · refine ⟨j, ?_⟩
      rw [if_pos hjlast, if_neg, hj]
      rintro rfl
      rw [hs] at hj
      cases hj
      exact hne rfl
    · -- the last item has moved into the slot of the removed one
      obtain rfl : j = p.items.length - 1 := by omega
      rw [hl] at hj
      cases hj
      refine ⟨p.slot a, ?_⟩
      have hsl := (List.getElem?_eq_some_iff.1 hs).1
      rw [if_pos, if_pos rfl]
      by_contra hcon
      have : p.slot a = p.items.length - 1 := by omega
      rw [this, hl] at hs
      cases hs
      exact hne rfl

theorem Packed.remove {p : Pool α} {a : α} (h : p.Packed) (ha : a ∈ p.items) :
    (p.remove a).Packed := by
  obtain ⟨last, hlast⟩ : ∃ last, p.items.getLast? = some last :=
    ⟨_, List.getLast?_eq_some_getLast (List.ne_nil_of_mem ha)⟩
  have hl := getElem?_last hlast
  have hslot : ∀ {i x}, (p.remove a).items[i]? = some x → (p.remove a).slot x = i := by
    intro i x hx
    rw [getElem?_remove hlast] at hx
    split_ifs at hx with hlt hsi
    · cases hx
      have hlen : p.items.length ≠ 1 := by omega
      simp [Pool.remove, hlast, hlen, hsi]
    · have hxl : x ≠ last := by
        rintro rfl
        have := h.slot_inj hx hl
        omega
      have hlen : p.items.length ≠ 1 := by omega
      simpa [Pool.remove, hlast, hlen, update_of_ne hxl] using h.slot hx
  refine ⟨?_, hslot⟩
  rw [List.nodup_iff_getElem?_ne_getElem?]
  intro i j hij hj heq
  obtain ⟨x, hx⟩ : ∃ x, (p.remove a).items[j]? = some x := ⟨_, List.getElem?_eq_getElem hj⟩
  have := (hslot hx).symm.trans (hslot (heq.trans hx))
  omega

theorem Packed.removeAll {p : Pool α} {l : List α} (h : p.Packed) (hl : l.Nodup)
    (hsub : ∀ a ∈ l, a ∈ p.items) :
    (p.removeAll l).Packed ∧ ∀ x, x ∈ (p.removeAll l).items ↔ x ∈ p.items ∧ x ∉ l := by
  induction l generalizing p with
  | nil => exact ⟨h, by simp [Pool.removeAll]⟩
  | cons a l ih =>
    obtain ⟨hal, hl⟩ := List.nodup_cons.1 hl
    have ha := hsub a (by simp)
    obtain ⟨hp, hm⟩ := ih (h.remove ha) hl fun b hb =>
      (h.mem_remove ha).2 ⟨hsub b (by simp [hb]), fun e => hal (e ▸ hb)⟩
    refine ⟨hp, fun x => (hm x).trans ?_⟩
    rw [h.mem_remove ha, List.mem_cons, not_or, and_assoc]

end Pool

end Dx.Library
