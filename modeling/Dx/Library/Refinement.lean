import Mathlib.Data.List.Forall2

/-!
# Operations with answers, and refinement

An implementation is a function `perform : σ → α → ρ × σ`: the operation `a` in the state `s` gives an
answer and a new state. A specification is another such function, `spec : τ → α → ρ' × τ`, on states
that say what the component is for, with a condition `allowed` on the operations a caller may ask for.

`Refines` says that the implementation does what the specification does, one operation at a time, for
related states; `Refines.performAll` is the rule for whole sequences of operations: all the answers
agree, and the states they leave are related again.
-/

namespace Dx.Library

universe u v w x y

variable {σ : Type u} {τ : Type v} {α : Type w} {ρ : Type x} {ρ' : Type y}

/-- The answers to a sequence of operations, and the state it leaves. -/
def performAll (perform : σ → α → ρ × σ) (s : σ) : List α → List ρ × σ
  | [] => ([], s)
  | a :: l =>
    match perform s a with
    | (answer, t) =>
      match performAll perform t l with
      | (answers, u) => (answer :: answers, u)

@[simp]
theorem performAll_cons (perform : σ → α → ρ × σ) (s : σ) (a : α) (l : List α) :
    performAll perform s (a :: l) =
      ((perform s a).1 :: (performAll perform (perform s a).2 l).1,
        (performAll perform (perform s a).2 l).2) := rfl

/-- Every operation of the sequence is allowed when its turn comes. -/
def AllAllowed (spec : τ → α → ρ' × τ) (allowed : τ → α → Prop) (t : τ) : List α → Prop
  | [] => True
  | a :: l => allowed t a ∧ AllAllowed spec allowed (spec t a).2 l

instance AllAllowed.decidable (spec : τ → α → ρ' × τ) (allowed : τ → α → Prop)
    [∀ t a, Decidable (allowed t a)] (t : τ) (l : List α) :
    Decidable (AllAllowed spec allowed t l) :=
  match l with
  | [] => inferInstanceAs (Decidable True)
  | a :: l =>
    have := AllAllowed.decidable spec allowed (spec t a).2 l
    inferInstanceAs (Decidable (_ ∧ _))

/-- A condition on the operations alone. -/
theorem allAllowed_of_forall {spec : τ → α → ρ' × τ} {allowed : τ → α → Prop} {l : List α}
    (h : ∀ a ∈ l, ∀ t, allowed t a) (t : τ) : AllAllowed spec allowed t l := by
  induction l generalizing t with
  | nil => trivial
  | cons a l ih =>
    constructor
    · exact h a List.mem_cons_self t
    · exact ih (fun b hb => h b (List.mem_cons_of_mem a hb)) _

/-- In related states, an operation that is allowed gets answers that agree and leaves related
states. -/
structure Refines (perform : σ → α → ρ × σ) (spec : τ → α → ρ' × τ) (allowed : τ → α → Prop)
    (agrees : ρ → ρ' → Prop) (rel : σ → τ → Prop) : Prop where
  answer : ∀ {s : σ} {t : τ} {a : α}, rel s t → allowed t a → agrees (perform s a).1 (spec t a).1
  state : ∀ {s : σ} {t : τ} {a : α}, rel s t → allowed t a → rel (perform s a).2 (spec t a).2

/-- **The refinement rule.** -/
theorem Refines.performAll {perform : σ → α → ρ × σ} {spec : τ → α → ρ' × τ}
    {allowed : τ → α → Prop} {agrees : ρ → ρ' → Prop} {rel : σ → τ → Prop}
    (h : Refines perform spec allowed agrees rel) {s : σ} {t : τ} (hs : rel s t) {l : List α}
    (hl : AllAllowed spec allowed t l) :
    List.Forall₂ agrees (performAll perform s l).1 (performAll spec t l).1 ∧
      rel (performAll perform s l).2 (performAll spec t l).2 := by
  induction l generalizing s t with
  | nil => exact ⟨.nil, hs⟩
  | cons a l ih =>
    obtain ⟨ha, hrest⟩ := hl
    obtain ⟨hanswers, hstate⟩ := ih (h.state hs ha) hrest
    rw [performAll_cons, performAll_cons]
    exact ⟨.cons (h.answer hs ha) hanswers, hstate⟩

end Dx.Library
