import Mathlib.Logic.Function.Basic

/-!
# Updated functions

A property of a function that has been changed in one place is looked at in that place and in the
others.
-/

namespace Dx.Library

open Function

variable {α β : Type*} [DecidableEq α] {P : β → Prop} {f : α → β} {a b : α} {v : β}

/-- What holds of an updated function, in the place of the update and elsewhere. -/
theorem update_cases (h : P (update f a v b)) : b = a ∧ P v ∨ b ≠ a ∧ P (f b) :=
  (pred_update (fun _ => P) f a v b).1 h

theorem update_intro (hv : b = a → P v) (hf : b ≠ a → P (f b)) : P (update f a v b) := by
  by_cases hb : b = a
  · rw [hb, update_self]
    exact hv hb
  · rw [update_of_ne hb]
    exact hf hb

end Dx.Library
