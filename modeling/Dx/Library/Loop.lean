import Mathlib.Data.Nat.Notation
import Mathlib.Logic.Relation

/-!
# Loops

The body of a loop is a function `body : σ → Except ε (Pass σ ρ)`: from the values of the loop's
variables, a pass through the body fails, leaves the loop with a result, or goes on to the next pass
with other values. `iterate body n` takes at most `n` passes.

A loop whose passes all make a measure smaller is not cut off by a number of passes above it
(`iterate_ne_again`), so that it has a result unless a pass that it comes to fails
(`iterate_done_iff`). Everything that is shown of its result is shown by an invariant of the passes
(`Reaches`, an instance of the reflexive and transitive closure) and of the last one
(`reaches_of_iterate_eq_done`).
-/

namespace Dx.Library

universe u v w

variable {ε : Type u} {σ : Type v} {ρ : Type w}

/-- What a pass through the body of a loop leads to, unless it fails. -/
inductive Pass (σ : Type v) (ρ : Type w) where
  /-- The loop is left, with a result. -/
  | done (r : ρ)
  /-- The next pass starts with these values. -/
  | again (s : σ)
  deriving DecidableEq

/-- The result, if the loop is left. -/
def Pass.result : Pass σ ρ → Option ρ
  | .done r => some r
  | .again _ => none

def iterate (body : σ → Except ε (Pass σ ρ)) : ℕ → σ → Except ε (Pass σ ρ)
  | 0, s => .ok (.again s)
  | n + 1, s =>
    match body s with
    | .ok (.again t) => iterate body n t
    | .ok (.done r) => .ok (.done r)
    | .error e => .error e

/-- The values `t` are those at the start of some pass of the loop that is started with `s`. -/
def Reaches (body : σ → Except ε (Pass σ ρ)) : σ → σ → Prop :=
  Relation.ReflTransGen fun s t => body s = .ok (.again t)

def Shrinks (body : σ → Except ε (Pass σ ρ)) (size : σ → ℕ) : Prop :=
  ∀ s t, body s = .ok (.again t) → size t < size s

section

variable {body : σ → Except ε (Pass σ ρ)} {s t : σ} {n : ℕ}

theorem iterate_succ_again (h : body s = .ok (.again t)) :
    iterate body (n + 1) s = iterate body n t := by
  rw [iterate, h]

theorem iterate_succ_done {r : ρ} (h : body s = .ok (.done r)) :
    iterate body (n + 1) s = .ok (.done r) := by
  rw [iterate, h]

theorem iterate_succ_error {e : ε} (h : body s = .error e) : iterate body (n + 1) s = .error e := by
  rw [iterate, h]

theorem iterate_ne_again {size : σ → ℕ} (hsize : Shrinks body size) (h : size s < n) :
    iterate body n s ≠ .ok (.again t) := by
  induction n generalizing s with
  | zero => omega
  | succ n ih =>
    intro heq
    cases hb : body s with
    | error e => rw [iterate_succ_error hb] at heq; cases heq
    | ok p =>
      cases p with
      | done r => rw [iterate_succ_done hb] at heq; cases heq
      | again u =>
        rw [iterate_succ_again hb] at heq
        have hu := hsize s u hb
        exact ih (by omega) heq

/-- The result of a loop is that of some pass that it comes to. -/
theorem reaches_of_iterate_eq_done {r : ρ} (h : iterate body n s = .ok (.done r)) :
    ∃ t, Reaches body s t ∧ body t = .ok (.done r) := by
  induction n generalizing s with
  | zero => cases h
  | succ n ih =>
    cases hb : body s with
    | error e => rw [iterate_succ_error hb] at h; cases h
    | ok p =>
      cases p with
      | done r' =>
        rw [iterate_succ_done hb] at h
        cases h
        exact ⟨s, .refl, hb⟩
      | again u =>
        rw [iterate_succ_again hb] at h
        obtain ⟨t, hut, ht⟩ := ih h
        exact ⟨t, .head hb hut, ht⟩

theorem iterate_eq_done {size : σ → ℕ} {r : ρ} (hsize : Shrinks body size) (h : size s < n)
    (hst : Reaches body s t) (ht : body t = .ok (.done r)) : iterate body n s = .ok (.done r) := by
  induction n generalizing s with
  | zero => omega
  | succ n ih =>
    rcases hst.cases_head with rfl | ⟨u, hu, hut⟩
    · exact iterate_succ_done ht
    · have hlt := hsize s u hu
      rw [iterate_succ_again hu]
      exact ih (by omega) hut

/-- A loop fails when a pass that it comes to does. -/
theorem iterate_eq_error_iff {size : σ → ℕ} {e : ε} (hsize : Shrinks body size) (h : size s < n) :
    iterate body n s = .error e ↔ ∃ t, Reaches body s t ∧ body t = .error e := by
  induction n generalizing s with
  | zero => omega
  | succ n ih =>
    cases hb : body s with
    | error e' =>
      rw [iterate_succ_error hb]
      constructor
      · rintro ⟨⟩
        exact ⟨s, .refl, hb⟩
      · rintro ⟨t, hst, ht⟩
        -- no pass follows the one that fails, so it is the one that the loop comes to
        rcases hst.cases_head with rfl | ⟨u, hu, -⟩
        · rw [← ht, hb]
        · rw [hb] at hu; cases hu
    | ok p =>
      cases p with
      | done r =>
        rw [iterate_succ_done hb]
        constructor
        · rintro ⟨⟩
        · rintro ⟨t, hst, ht⟩
          rcases hst.cases_head with rfl | ⟨u, hu, -⟩
          · rw [hb] at ht; cases ht
          · rw [hb] at hu; cases hu
      | again u =>
        have hu := hsize s u hb
        rw [iterate_succ_again hb, ih (by omega)]
        constructor
        · rintro ⟨t, hut, ht⟩
          exact ⟨t, .head hb hut, ht⟩
        · rintro ⟨t, hst, ht⟩
          rcases hst.cases_head with rfl | ⟨v, hv, hvt⟩
          · rw [hb] at ht; cases ht
          · rw [hb] at hv; cases hv
            exact ⟨t, hvt, ht⟩

/-- Every pass that a loop comes to is on the way to the last one. -/
theorem Reaches.to_done {u : σ} {r : ρ} (h : Reaches body s t) (hu : Reaches body s u)
    (hdone : body u = .ok (.done r)) : Reaches body t u := by
  induction h with
  | refl => exact hu
  | tail _ hstep ih =>
    rcases ih.cases_head with rfl | ⟨v, hv, hvu⟩
    · rw [hdone] at hstep
      cases hstep
    · rw [hstep] at hv
      cases hv
      exact hvu

/-- A loop has a result when no pass that it comes to fails. -/
theorem iterate_done_iff {size : σ → ℕ} (hsize : Shrinks body size) (h : size s < n) :
    (∃ r, iterate body n s = .ok (.done r)) ↔ ∀ t, Reaches body s t → ∀ e, body t ≠ .error e := by
  constructor
  · rintro ⟨r, hr⟩ t hst e he
    have := (iterate_eq_error_iff hsize h).2 ⟨t, hst, he⟩
    rw [hr] at this
    cases this
  · intro hall
    cases hi : iterate body n s with
    | error e =>
      obtain ⟨t, hst, ht⟩ := (iterate_eq_error_iff hsize h).1 hi
      exact absurd ht (hall t hst e)
    | ok p =>
      cases p with
      | done r => exact ⟨r, rfl⟩
      | again t => exact absurd hi (iterate_ne_again hsize h)

end

end Dx.Library
