import Mathlib.Data.Nat.Notation
import Mathlib.Logic.Function.Basic

/-!
# Memories that hold lists

A memory is a function from addresses to bytes, of any type. `Holds m a l` says that the list `l` is
in the memory from address `a` on, and `store m a l` puts it there, byte by byte.

A list of strings is kept back to back, each followed by a terminator that none of them has in it
(`packed`). The length of a string is found by a search for its terminator (`scan`), which gives the
string back.
-/

namespace Dx.Library

universe u

variable {α : Type u} {m m' : ℕ → α} {a x : ℕ} {l l' : List α}

/-- The list is in the memory, from address `a` on. -/
def Holds (m : ℕ → α) : ℕ → List α → Prop
  | _, [] => True
  | a, x :: l => m a = x ∧ Holds m (a + 1) l

theorem holds_append : Holds m a (l ++ l') ↔ Holds m a l ∧ Holds m (a + l.length) l' := by
  induction l generalizing a with
  | nil => simp [Holds]
  | cons x l ih =>
    rw [List.cons_append, Holds, Holds, ih, and_assoc, List.length_cons,
      show a + 1 + l.length = a + (l.length + 1) by omega]

theorem Holds.congr (h : Holds m a l) (heq : ∀ x, a ≤ x → x < a + l.length → m' x = m x) :
    Holds m' a l := by
  induction l generalizing a with
  | nil => trivial
  | cons x l ih =>
    rw [List.length_cons] at heq
    exact ⟨(heq a (by omega) (by omega)).trans h.1, ih h.2 fun y hy hy' => heq y (by omega) (by omega)⟩

theorem Holds.map_range (h : Holds m a l) : (List.range l.length).map (fun i => m (a + i)) = l := by
  induction l generalizing a with
  | nil => rfl
  | cons x l ih =>
    rw [List.length_cons, List.range_succ_eq_map, List.map_cons, List.map_map, Nat.add_zero, h.1]
    refine congrArg (x :: ·) (Eq.trans (List.map_congr_left fun i _ => ?_) (ih h.2))
    exact congrArg m (by omega)

/-- Copy the list to address `a`. -/
def store (m : ℕ → α) : ℕ → List α → ℕ → α
  | _, [] => m
  | a, x :: l => store (Function.update m a x) (a + 1) l

theorem store_of_outside (h : x < a ∨ a + l.length ≤ x) : store m a l x = m x := by
  induction l generalizing m a with
  | nil => rfl
  | cons y l ih =>
    rw [List.length_cons] at h
    rw [store, ih (by omega), Function.update_of_ne (by omega)]

theorem holds_store (m : ℕ → α) (a : ℕ) (l : List α) : Holds (store m a l) a l := by
  induction l generalizing m a with
  | nil => trivial
  | cons x l ih =>
    refine ⟨?_, ih _ _⟩
    rw [store, store_of_outside (by omega), Function.update_self]

section Strings

variable (terminator : α)

/-- Strings, back to back, each with its terminator. -/
def packed (strings : List (List α)) : List α := strings.flatMap fun s => s ++ [terminator]

theorem packed_cons (s : List α) (strings : List (List α)) :
    packed terminator (s :: strings) = (s ++ [terminator]) ++ packed terminator strings :=
  List.flatMap_cons

variable [DecidableEq α]

/-- The number of bytes before the next terminator, of which there must be one among the next `n`
bytes. -/
def scan (m : ℕ → α) : ℕ → ℕ → Option ℕ
  | 0, _ => none
  | n + 1, a => if m a = terminator then some 0 else (scan m n (a + 1)).map (· + 1)

theorem scan_of_holds {n : ℕ} (h : Holds m a (l ++ [terminator])) (hl : terminator ∉ l)
    (hn : l.length < n) : scan terminator m n a = some l.length := by
  induction l generalizing a n with
  | nil =>
    cases n with
    | zero => exact absurd hn (Nat.not_lt_zero _)
    | succ n => rw [scan, if_pos h.1, List.length_nil]
  | cons x l ih =>
    rw [List.mem_cons, not_or] at hl
    cases n with
    | zero => exact absurd hn (Nat.not_lt_zero _)
    | succ n =>
      rw [scan, if_neg (fun heq => hl.1 (heq.symm.trans h.1)), ih h.2 hl.2 (Nat.lt_of_succ_lt_succ hn)]
      rfl

end Strings

end Dx.Library
