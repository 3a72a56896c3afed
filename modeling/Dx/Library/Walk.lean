import Mathlib.Tactic.Abel

/-!
# Loops that walk over a memory

A memory is a function from addresses, which can be added, to bytes of any type. `copy` is the loop that
copies one byte after the other, with two pointers that go on by the same step each time, forwards or
backwards; `fill` sets the bytes of a list. A copy of ranges that overlap is what a copy of all bytes at
once would be, as long as no byte is written before it is read.
-/

namespace Dx.Library

open Function

universe u v

variable {G : Type u} {α : Type v} {step d s x : G} {n i : ℕ} {m : G → α}

section

variable [AddCancelCommMonoid G]

/-- `x` is one of the `n` addresses that are passed from `a` on. -/
def Passed (step : G) (n : ℕ) (a x : G) : Prop := ∃ i < n, x = a + i • step

theorem passed_succ : Passed step (n + 1) d x ↔ x = d ∨ Passed step n (d + step) x := by
  constructor
  · rintro ⟨i, hi, rfl⟩
    cases i with
    | zero => simp
    | succ i => exact .inr ⟨i, by omega, by rw [succ_nsmul', add_assoc]⟩
  · rintro (rfl | ⟨i, hi, rfl⟩)
    · exact ⟨0, by omega, by simp⟩
    · exact ⟨i + 1, by omega, by rw [succ_nsmul', add_assoc]⟩

variable [DecidableEq G]

/-- `n` times, the byte at `s` is copied to `d`, and both go on by a step. -/
def copy (step : G) : ℕ → G → G → (G → α) → G → α
  | 0, _, _, m => m
  | n + 1, d, s, m => copy step n (d + step) (s + step) (update m d (m s))

theorem copy_of_not_passed (h : ¬ Passed step n d x) : copy step n d s m x = m x := by
  induction n generalizing d s m with
  | zero => rfl
  | succ n ih =>
    rw [passed_succ, not_or] at h
    rw [copy, ih h.2, update_of_ne h.1]

/-- **Copying.** If no byte is written before it is read, the bytes that are passed are the original
ones. -/
theorem copy_of_passed (h : ∀ i j, i < j → j < n → d + i • step ≠ s + j • step) (hi : i < n) :
    copy step n d s m (d + i • step) = m (s + i • step) := by
  induction n generalizing d s m i with
  | zero => omega
  | succ n ih =>
    rw [copy]
    by_cases hlater : Passed step n (d + step) (d + i • step)
    · obtain ⟨k, hk, heq⟩ := hlater
      have hstep : i • step = (k + 1) • step := by
        rwa [add_assoc, add_left_cancel_iff, ← succ_nsmul'] at heq
      -- what is read later is not what is written now
      have hne : s + (k + 1) • step ≠ d := fun hs =>
        h 0 (k + 1) (by omega) (by omega) (by rw [zero_nsmul, add_zero, hs])
      rw [heq, ih ?_ hk, add_assoc, ← succ_nsmul', update_of_ne hne, hstep]
      intro i j hij hj
      have := h (i + 1) (j + 1) (by omega) (by omega)
      rwa [succ_nsmul', succ_nsmul', ← add_assoc, ← add_assoc] at this
    · obtain rfl : i = 0 := by
        by_contra hpos
        refine hlater ⟨i - 1, by omega, ?_⟩
        rw [add_assoc, ← succ_nsmul', Nat.sub_add_cancel (by omega)]
      rw [copy_of_not_passed hlater, zero_nsmul, add_zero, add_zero, update_self]

end

section

variable [AddCommGroup G]

theorem back_step {j : ℕ} (h : n = i + j + 1) :
    d + n • step - step + i • -step = d + j • step := by
  rw [h, add_nsmul, add_nsmul, one_nsmul, neg_nsmul]
  abel

theorem passed_back : Passed (-step) n (d + n • step - step) x ↔ Passed step n d x := by
  constructor
  · rintro ⟨i, hi, rfl⟩
    exact ⟨n - 1 - i, by omega, back_step (by omega)⟩
  · rintro ⟨i, hi, rfl⟩
    exact ⟨n - 1 - i, by omega, (back_step (by omega)).symm⟩

variable [DecidableEq G]

theorem copy_back_of_passed (h : ∀ i j, j < i → i < n → d + i • step ≠ s + j • step) (hi : i < n) :
    copy (-step) n (d + n • step - step) (s + n • step - step) m (d + i • step) =
      m (s + i • step) := by
  have hback : n = n - 1 - i + i + 1 := by omega
  rw [← back_step hback, copy_of_passed ?_ (by omega), back_step hback]
  intro i j hij hj
  rw [back_step (j := n - 1 - i) (by omega), back_step (j := n - 1 - j) (by omega)]
  exact h _ _ (by omega) (by omega)

end

variable [DecidableEq G]

def fill (value : α) (l : List G) (m : G → α) : G → α := l.foldl (fun m a => update m a value) m

theorem fill_apply {value : α} {l : List G} : fill value l m x = if x ∈ l then value else m x := by
  induction l generalizing m with
  | nil => rfl
  | cons a l ih =>
    rw [fill, List.foldl_cons, ← fill, ih]
    by_cases hx : x = a <;> simp [hx]

end Dx.Library
