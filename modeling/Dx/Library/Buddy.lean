import Mathlib.Data.Nat.Bitwise

/-!
# Buddy blocks

The natural numbers are divided into cells: the cell of order `k` around `i` holds the `2 ^ k`
numbers whose bits from `k` on are those of `i`. A cell of order `k + 1` is the union of two
disjoint cells of order `k`, buddies of each other, which differ in bit `k`.

A buddy allocator keeps a set of blocks, each an order and the index of some number in its cell;
any index of the cell will do, and it need not be the first. `Tiling block free` says that the
cells of these blocks are disjoint and that together they hold exactly the numbers with `free`.
What an allocator does to its blocks are the four operations here: it takes a block (`take`), gives
one back (`give`), replaces two buddies by the block they make up (`join`), and gives back what is
left of a block after a smaller one has been cut from it (`giveBuddy`).
-/

namespace Dx.Library

open Nat

/-- `x` is in the cell of order `k` around `i`. -/
def Cell (k i x : ℕ) : Prop := x / 2 ^ k = i / 2 ^ k
deriving Decidable

section Cell

variable {k l i x n : ℕ}

theorem cell_self (k i : ℕ) : Cell k i i := rfl

theorem Cell.mono (h : Cell k i x) (hkl : k ≤ l) : Cell l i x := by
  obtain ⟨d, rfl⟩ := Nat.exists_eq_add_of_le hkl
  show x / 2 ^ (k + d) = i / 2 ^ (k + d)
  rw [Nat.pow_add, ← Nat.div_div_eq_div_mul, ← Nat.div_div_eq_div_mul, h]

theorem Cell.cell_iff {y : ℕ} (h : Cell k i x) : Cell k i y ↔ Cell k x y := by
  rw [Cell, Cell, h]

theorem cell_zero : Cell 0 i x ↔ x = i := by
  rw [Cell, Nat.pow_zero, Nat.div_one, Nat.div_one]

theorem cell_add {a : ℕ} (ha : 2 ^ k ∣ a) : Cell k (a + i) (a + x) ↔ Cell k i x := by
  obtain ⟨c, rfl⟩ := ha
  have hpos := Nat.two_pow_pos k
  rw [Cell, Cell, Nat.mul_add_div hpos, Nat.mul_add_div hpos, Nat.add_left_cancel_iff]

theorem Cell.lt (h : Cell k i x) (hi : i < 2 ^ n) (hk : k ≤ n) : x < 2 ^ n := by
  have hn : x / 2 ^ n = i / 2 ^ n := h.mono hk
  rw [Nat.div_eq_of_lt hi] at hn
  exact (Nat.div_eq_zero_iff_lt (Nat.two_pow_pos n)).1 hn

theorem cell_iff_le : Cell k i x ↔ i / 2 ^ k * 2 ^ k ≤ x ∧ x < i / 2 ^ k * 2 ^ k + 2 ^ k := by
  rw [Cell, Nat.div_eq_iff (Nat.two_pow_pos k)]
  have hpos := Nat.two_pow_pos k
  omega

/-- The buddy has another number at order `k`, and the same at every larger order. -/
theorem buddy_div (k i : ℕ) : (i ^^^ 2 ^ k) / 2 ^ k = (i / 2 ^ k) ^^^ 1 := by
  rw [← Nat.shiftRight_eq_div_pow, ← Nat.shiftRight_eq_div_pow, Nat.shiftRight_xor_distrib,
    Nat.shiftRight_eq_div_pow (2 ^ k), Nat.div_self (Nat.two_pow_pos k)]

theorem xor_one_div_two (a : ℕ) : (a ^^^ 1) / 2 = a / 2 := by
  rw [← shiftRight_one, ← shiftRight_one, shiftRight_xor_distrib]
  simp

theorem xor_one_ne (a : ℕ) : a ^^^ 1 ≠ a := by
  intro h
  have hbit := congrArg (fun n => n.testBit 0) h
  simp only [testBit_zero, xor_mod_two_eq, decide_eq_decide] at hbit
  omega

theorem div_two_eq_iff {a b : ℕ} : a / 2 = b / 2 ↔ a = b ∨ a = b ^^^ 1 := by
  constructor
  · intro h
    have hx : (b ^^^ 1) / 2 = b / 2 := xor_one_div_two b
    have hne := xor_one_ne b
    omega
  · rintro (rfl | rfl)
    · rfl
    · exact xor_one_div_two b

theorem cell_succ : Cell (k + 1) i x ↔ Cell k i x ∨ Cell k (i ^^^ 2 ^ k) x := by
  rw [Cell, Cell, Cell, buddy_div, Nat.pow_succ, ← Nat.div_div_eq_div_mul,
    ← Nat.div_div_eq_div_mul, div_two_eq_iff]

theorem Cell.not_buddy (h : Cell k i x) : ¬ Cell k (i ^^^ 2 ^ k) x := by
  intro h'
  have h' : x / 2 ^ k = _ := h'
  rw [buddy_div, h] at h'
  exact xor_one_ne _ h'.symm

theorem buddy_lt (hi : i < 2 ^ n) (hk : k < n) : i ^^^ 2 ^ k < 2 ^ n :=
  Nat.xor_lt_two_pow hi (Nat.pow_lt_pow_right (by decide) hk)

theorem buddy_ne (k i : ℕ) : i ^^^ 2 ^ k ≠ i := by
  intro h
  have hcell := cell_self k i
  rw [← h] at hcell
  exact (cell_self k i).not_buddy (by rw [h]; exact cell_self k i)

end Cell

/-- The cells of the blocks are disjoint, and hold exactly the numbers that are free. -/
structure Tiling (block : ℕ → ℕ → Prop) (free : ℕ → Prop) : Prop where
  /-- The free numbers are those of the cells. -/
  cover : ∀ x, free x ↔ ∃ k i, block k i ∧ Cell k i x
  unique : ∀ {k i l j x}, block k i → block l j → Cell k i x → Cell l j x → k = l ∧ i = j

namespace Tiling

variable {block block' : ℕ → ℕ → Prop} {free free' : ℕ → Prop} {k i : ℕ}

section

variable (h : Tiling block free)
include h

theorem congr (hb : ∀ k i, block' k i ↔ block k i) (hf : ∀ x, free' x ↔ free x) :
    Tiling block' free' := by
  have hb : block' = block := funext fun k => funext fun i => propext (hb k i)
  have hf : free' = free := funext fun x => propext (hf x)
  rw [hb, hf]
  exact h

theorem free_of_block {x : ℕ} (hb : block k i) (hx : Cell k i x) : free x :=
  (h.cover x).2 ⟨k, i, hb, hx⟩

theorem take (hb : block k i) :
    Tiling (fun l j => block l j ∧ ¬ (l = k ∧ j = i)) (fun x => free x ∧ ¬ Cell k i x) where
  cover := fun x => by
    constructor
    · rintro ⟨hx, hout⟩
      obtain ⟨l, j, hblock, hcell⟩ := (h.cover x).1 hx
      refine ⟨l, j, ⟨hblock, ?_⟩, hcell⟩
      rintro ⟨rfl, rfl⟩
      exact hout hcell
    · rintro ⟨l, j, ⟨hblock, hne⟩, hcell⟩
      exact ⟨h.free_of_block hblock hcell, fun hin => hne (h.unique hblock hb hcell hin)⟩
  unique := fun hb₁ hb₂ => h.unique hb₁.1 hb₂.1

theorem give (hnot : ∀ x, Cell k i x → ¬ free x) :
    Tiling (fun l j => block l j ∨ l = k ∧ j = i) (fun x => free x ∨ Cell k i x) where
  cover := fun x => by
    constructor
    · rintro (hx | hx)
      · obtain ⟨l, j, hblock, hcell⟩ := (h.cover x).1 hx
        exact ⟨l, j, .inl hblock, hcell⟩
      · exact ⟨k, i, .inr ⟨rfl, rfl⟩, hx⟩
    · rintro ⟨l, j, hblock | ⟨rfl, rfl⟩, hcell⟩
      · exact .inl (h.free_of_block hblock hcell)
      · exact .inr hcell
  unique := fun {l j l' j' x} hb₁ hb₂ hx₁ hx₂ => by
    rcases hb₁ with hb₁ | ⟨rfl, rfl⟩
    · rcases hb₂ with hb₂ | ⟨rfl, rfl⟩
      · exact h.unique hb₁ hb₂ hx₁ hx₂
      · exact absurd (h.free_of_block hb₁ hx₁) (hnot x hx₂)
    · rcases hb₂ with hb₂ | ⟨rfl, rfl⟩
      · exact absurd (h.free_of_block hb₂ hx₂) (hnot x hx₁)
      · exact ⟨rfl, rfl⟩

theorem join (hb : block k i) (hb' : block k (i ^^^ 2 ^ k)) :
    Tiling (fun l j => (block l j ∧ ¬ (l = k ∧ (j = i ∨ j = i ^^^ 2 ^ k))) ∨ l = k + 1 ∧ j = i)
      free := by
  have hne := buddy_ne k i
  have htake := (h.take hb).take ⟨hb', fun e => hne e.2⟩
  have hgive := htake.give fun x hx hfree =>
    (cell_succ.1 hx).elim hfree.1.2 hfree.2
  refine hgive.congr (fun l j => ?_) fun x => ?_
  · have hsplit : ¬ (l = k ∧ (j = i ∨ j = i ^^^ 2 ^ k)) ↔
        ¬ (l = k ∧ j = i) ∧ ¬ (l = k ∧ j = i ^^^ 2 ^ k) := by
      rw [← not_or, ← and_or_left]
    rw [hsplit, and_assoc]
  · constructor
    · intro hx
      by_cases hc : Cell (k + 1) i x
      · exact .inr hc
      · rw [cell_succ, not_or] at hc
        exact .inl ⟨⟨hx, hc.1⟩, hc.2⟩
    · rintro (hx | hx)
      · exact hx.1.1
      · rcases cell_succ.1 hx with hx | hx
        · exact h.free_of_block hb hx
        · exact h.free_of_block hb' hx

end

/-- A block of order `k + 1` has been cut in half, and the buddy of the half that is kept is given
back. -/
theorem giveBuddy (h : Tiling block fun x => free x ∧ ¬ Cell (k + 1) i x)
    (hfree : ∀ x, Cell (k + 1) i x → free x) :
    Tiling (fun l j => block l j ∨ l = k ∧ j = i ^^^ 2 ^ k) fun x => free x ∧ ¬ Cell k i x := by
  have hgive := h.give fun x hx hout =>
    hout.2 (cell_succ.2 (.inr hx))
  refine hgive.congr (fun _ _ => Iff.rfl) fun x => ?_
  constructor
  · rintro ⟨hx, hout⟩
    by_cases hb : Cell k (i ^^^ 2 ^ k) x
    · exact .inr hb
    · refine .inl ⟨hx, ?_⟩
      rw [cell_succ, not_or]
      exact ⟨hout, hb⟩
  · rintro (hx | hx)
    · exact ⟨hx.1, fun hc => hx.2 (cell_succ.2 (.inl hc))⟩
    · exact ⟨hfree x (cell_succ.2 (.inr hx)), fun hc => hc.not_buddy hx⟩

end Tiling

end Dx.Library
