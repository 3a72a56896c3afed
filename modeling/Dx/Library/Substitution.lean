import Mathlib.Algebra.Order.BigOperators.Group.List
import Mathlib.Algebra.Order.Ring.Nat

/-!
# Two substitutions of a word

Two substitutions give a word the same text although they differ on its letters only if the differences
make up for each other. They do not if every difference goes in one direction: in the number of
occurrences of a symbol, or in the length.
-/

namespace Dx.Library

variable {α β : Type} {f g : α → List β} {l : List α}

theorem eq_of_sum_eq {u v : α → ℕ} (hsum : (l.map u).sum = (l.map v).sum) (hle : ∀ x ∈ l, u x ≤ v x) :
    ∀ x ∈ l, u x = v x := by
  intro x hx
  by_contra hne
  have hlt := List.sum_lt_sum u v hle ⟨x, hx, lt_of_le_of_ne (hle x hx) hne⟩
  omega

/-- If no letter becomes longer, the two substitutions agree on every letter. -/
theorem eq_of_flatMap_eq (h : l.flatMap f = l.flatMap g)
    (hle : ∀ x ∈ l, (f x).length ≤ (g x).length) : ∀ x ∈ l, f x = g x := by
  have hlength : ∀ x ∈ l, (f x).length = (g x).length := by
    refine eq_of_sum_eq ?_ hle
    rw [← List.length_flatMap, ← List.length_flatMap, h]
  clear hle
  induction l with
  | nil => simp
  | cons x l ih =>
    rw [List.flatMap_cons, List.flatMap_cons] at h
    obtain ⟨hx, hl⟩ := List.append_inj h (hlength x (List.mem_cons_self ..))
    rw [List.forall_mem_cons]
    exact ⟨hx, ih hl fun y hy => hlength y (List.mem_cons_of_mem _ hy)⟩

variable [DecidableEq β]

/-- If no letter gets more occurrences of a symbol, every letter has as many of them as before. -/
theorem count_eq_of_flatMap_eq (h : l.flatMap f = l.flatMap g) (a : β)
    (hle : ∀ x ∈ l, (f x).count a ≤ (g x).count a) : ∀ x ∈ l, (f x).count a = (g x).count a := by
  refine eq_of_sum_eq ?_ hle
  have hcount : (l.flatMap f).count a = (l.flatMap g).count a := by rw [h]
  rwa [List.count_flatMap, List.count_flatMap] at hcount

/-- **Two substitutions of a word agree if and only if they agree on every letter**, if the letters
differ in one direction in the number of occurrences of a symbol, and those that do not differ in it
differ in one direction in the length. -/
theorem flatMap_eq_iff (a : β)
    (hcount : (∀ x ∈ l, (f x).count a ≤ (g x).count a) ∨ ∀ x ∈ l, (g x).count a ≤ (f x).count a)
    (hlength : (∀ x ∈ l, (f x).count a = (g x).count a → (f x).length ≤ (g x).length) ∨
      ∀ x ∈ l, (f x).count a = (g x).count a → (g x).length ≤ (f x).length) :
    l.flatMap f = l.flatMap g ↔ ∀ x ∈ l, f x = g x := by
  refine ⟨fun h => ?_, List.flatMap_congr⟩
  have hsame : ∀ x ∈ l, (f x).count a = (g x).count a := by
    rcases hcount with hcount | hcount
    · exact count_eq_of_flatMap_eq h a hcount
    · intro x hx
      exact (count_eq_of_flatMap_eq h.symm a hcount x hx).symm
  rcases hlength with hlength | hlength
  · exact eq_of_flatMap_eq h fun x hx => hlength x hx (hsame x hx)
  · intro x hx
    exact (eq_of_flatMap_eq h.symm (fun x hx => hlength x hx (hsame x hx)) x hx).symm

end Dx.Library
