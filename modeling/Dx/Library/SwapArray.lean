import Dx.Library.Update
import Mathlib.Algebra.BigOperators.Group.Finset.Basic

/-!
# Arrays that are packed at the front

An array `f : ℕ → Option α` of which the first `n` entries are in use. What it holds is `items f n`; an
item is added behind the last one, and taken out by swapping it with the last one. The order of the
items changes, but not which items there are (`perm_items_swap`).

Several such lists side by side are a table, and what they hold together is a sum; `sum_range_add` is
the rule for changing one of them.
-/

namespace Dx.Library

open Function List

universe u

variable {α : Type u}

/-- The first `n` entries. -/
def items (f : ℕ → Option α) (n : ℕ) : List α := (List.range n).filterMap f

def swapAt (f : ℕ → Option α) (i j : ℕ) : ℕ → Option α :=
  Function.update (Function.update f i (f j)) j (f i)

variable {f g : ℕ → Option α} {i n : ℕ} {x : α}

theorem items_succ (h : f n = some x) : items f (n + 1) = items f n ++ [x] := by
  rw [items, items, range_succ, filterMap_append, filterMap_cons_some h, filterMap_nil]

theorem items_congr (h : ∀ i < n, f i = g i) : items f n = items g n :=
  filterMap_congr fun i hi => h i (mem_range.1 hi)

theorem items_update (hi : n ≤ i) (y : Option α) : items (update f i y) n = items f n :=
  items_congr fun j hj => update_of_ne (by omega) _ _

theorem mem_items : x ∈ items f n ↔ ∃ i < n, f i = some x := by
  simp only [items, mem_filterMap, mem_range]

theorem length_items (h : ∀ i < n, (f i).isSome = true) : (items f n).length = n := by
  induction n with
  | zero => rfl
  | succ n ih =>
    obtain ⟨x, hx⟩ := Option.isSome_iff_exists.1 (h n (Nat.lt_succ_self n))
    rw [items_succ hx, length_append, ih fun i hi => h i (Nat.lt_succ_of_lt hi), length_singleton]

theorem getElem?_items (h : ∀ i < n, (f i).isSome = true) (i : ℕ) :
    (items f n)[i]? = if i < n then f i else none := by
  induction n with
  | zero => rfl
  | succ n ih =>
    have hlast := Nat.lt_succ_self n
    have hbelow : ∀ i < n, (f i).isSome = true := fun i hi => h i (Nat.lt_succ_of_lt hi)
    obtain ⟨x, hx⟩ := Option.isSome_iff_exists.1 (h n hlast)
    have hlength := length_items hbelow
    rw [items_succ hx]
    rcases Nat.lt_trichotomy i n with hi | rfl | hi
    · rw [List.getElem?_append_left (by omega), ih hbelow, if_pos hi, if_pos (by omega)]
    · rw [List.getElem?_append_right (by omega), hlength, Nat.sub_self, if_pos hlast, hx]
      rfl
    · rw [List.getElem?_eq_none, if_neg (by omega)]
      rw [length_append, hlength, length_singleton]
      omega

theorem perm_map_swap {j : ℕ} (hi : i < n) (hj : j < n) :
    ((List.range n).map (Equiv.swap i j)).Perm (List.range n) := by
  have hlt : ∀ k < n, Equiv.swap i j k < n := by
    intro k hk
    rw [Equiv.swap_apply_def]
    split
    · exact hj
    · split
      · exact hi
      · exact hk
  rw [perm_ext_iff_of_nodup (nodup_range.map (Equiv.swap i j).injective) nodup_range]
  intro k
  rw [mem_map]
  constructor
  · rintro ⟨m, hm, rfl⟩
    exact mem_range.2 (hlt m (mem_range.1 hm))
  · intro hk
    exact ⟨Equiv.swap i j k, mem_range.2 (hlt k (mem_range.1 hk)), Equiv.swap_apply_self i j k⟩

/-- **Taking an item out.** It is swapped with the last one, which is no longer in use. -/
theorem perm_items_swap (hi : i < n + 1) (hx : f i = some x) :
    (items f (n + 1)).Perm (x :: items (swapAt f i n) n) := by
  have hcomp : swapAt f i n = f ∘ Equiv.swap n i := (Equiv.comp_swap_eq_update n i f).symm
  have hlast : swapAt f i n n = some x := by
    rw [hcomp, comp_apply, Equiv.swap_apply_left, hx]
  have hswap := (perm_map_swap (Nat.lt_succ_self n) hi).filterMap f
  rw [filterMap_map, ← hcomp] at hswap
  have hitems : items (swapAt f i n) (n + 1) = items (swapAt f i n) n ++ [x] := items_succ hlast
  refine hswap.symm.trans (List.Perm.trans (List.Perm.of_eq hitems) ?_)
  exact perm_append_singleton x _

theorem isSome_swapAt (h : ∀ i < n + 1, (f i).isSome = true) :
    ∀ j < n, (swapAt f i n j).isSome = true := by
  intro j hj
  rw [swapAt, update_of_ne (by omega)]
  exact update_intro (P := (Option.isSome · = true)) (fun _ => h n (Nat.lt_succ_self n))
    fun _ => h j (by omega)

theorem sum_range_add {M : Type u} [AddCommMonoid M] {terms terms' : ℕ → M} {j n : ℕ} {x : M}
    (hj : j < n) (hterm : terms' j = terms j + x) (hrest : ∀ i, i ≠ j → terms' i = terms i) :
    ∑ i ∈ Finset.range n, terms' i = ∑ i ∈ Finset.range n, terms i + x := by
  have hmem : j ∈ Finset.range n := Finset.mem_range.2 hj
  have hothers : ∑ i ∈ (Finset.range n).erase j, terms' i = ∑ i ∈ (Finset.range n).erase j, terms i :=
    Finset.sum_congr rfl fun i hi => hrest i (Finset.ne_of_mem_erase hi)
  rw [← Finset.add_sum_erase _ _ hmem, ← Finset.add_sum_erase _ _ hmem, hothers, hterm]
  exact add_right_comm _ _ _

end Dx.Library
