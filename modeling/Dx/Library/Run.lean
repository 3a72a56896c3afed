
/-!
# Runs of a transition function

A system is a transition function `step : σ → α → Option σ`: the action `a` is possible in `s`
when `step s a` is `some s'`, and `s'` is the next state. A run is a finite sequence of steps,
each of which meets a condition `ok` on the state it starts from and the action it takes; the
condition `fun _ _ => True` allows every step.

Everything that is shown of a whole run is shown by `Run.invariant`: what holds in the first
state and is kept by every step that meets the condition holds in the last.
-/

namespace Dx.Library

universe u v

variable {σ : Type u} {α : Type v}

/-- A run from `s` to `t` in which every step meets the condition `ok`. -/
inductive Run (step : σ → α → Option σ) (ok : σ → α → Prop) (s : σ) : σ → Prop
  /-- The run that takes no step. -/
  | refl : Run step ok s s
  /-- One more step at the end. -/
  | tail {t u : σ} {a : α} : Run step ok s t → ok t a → step t a = some u → Run step ok s u

def Always (_ : σ) (_ : α) : Prop := True

namespace Run

variable {step : σ → α → Option σ} {ok ok' : σ → α → Prop} {s t u : σ}

/-- **The invariant rule.** What holds at the start of a run and is kept by each of its steps
holds at its end. -/
theorem invariant {I : σ → Prop} (h : Run step ok s t) (hs : I s)
    (hstep : ∀ {x y : σ} {a : α}, I x → ok x a → step x a = some y → I y) : I t := by
  induction h with
  | refl => exact hs
  | tail _ ha hu ih => exact hstep ih ha hu

theorem single {a : α} (ha : ok s a) (h : step s a = some t) : Run step ok s t := .tail .refl ha h

theorem trans (h : Run step ok s t) (h' : Run step ok t u) : Run step ok s u := by
  induction h' with
  | refl => exact h
  | tail _ ha hu ih => exact .tail ih ha hu

end Run

/-- Take the given actions one after another; `none` when one of them is not possible. -/
def runActions (step : σ → α → Option σ) (s : σ) : List α → Option σ
  | [] => some s
  | a :: l => (step s a).bind fun t => runActions step t l

theorem run_of_runActions {step : σ → α → Option σ} {s t : σ} (l : List α)
    (h : runActions step s l = some t) : Run step Always s t := by
  induction l generalizing s with
  | nil =>
    cases h
    exact .refl
  | cons a l ih =>
    obtain ⟨u, hu, ht⟩ := Option.bind_eq_some_iff.1 h
    exact (Run.single trivial hu).trans (ih ht)

/-- What holds after the given actions holds at the end of a run. -/
theorem exists_run {step : σ → α → Option σ} {s : σ} {P : σ → Prop} (l : List α)
    (h : ∃ t ∈ runActions step s l, P t) : ∃ t, Run step Always s t ∧ P t := by
  obtain ⟨t, ht, hP⟩ := h
  exact ⟨t, run_of_runActions l ht, hP⟩

/-- The steps of a system that meet a condition. -/
def restrict (step : σ → α → Option σ) (ok : σ → α → Prop) [∀ s a, Decidable (ok s a)] (s : σ)
    (a : α) : Option σ :=
  if ok s a then step s a else none

/-- Taking a list of actions that all meet the condition is a run under the condition. -/
theorem run_of_runActions_restrict {step : σ → α → Option σ} {ok : σ → α → Prop}
    [∀ s a, Decidable (ok s a)] {s t : σ} (l : List α)
    (h : runActions (restrict step ok) s l = some t) : Run step ok s t := by
  induction l generalizing s with
  | nil =>
    cases h
    exact .refl
  | cons a l ih =>
    obtain ⟨u, hu, ht⟩ := Option.bind_eq_some_iff.1 h
    rw [restrict] at hu
    split at hu
    case isTrue ha => exact (Run.single ha hu).trans (ih ht)
    case isFalse => cases hu

end Dx.Library
