import Mathlib.Data.List.Basic

/-!
# Ledgers

The holders of a resource are spread over accounts: account `u` holds the list `g (f u)`, where
`f` is a field of the accounts and `g` says what a value of the field holds. The whole ledger is
the concatenation over a list of accounts, and how often a resource occurs in it is what a
reference count is to be compared with. The lemmas say how the count changes when one account
changes, when an account is opened, and when one is closed.
-/

namespace Dx.Library

open Function

universe u v w

variable {α : Type u} {β : Type v} {γ : Type w} [DecidableEq α]

theorem flatMap_update_of_not_mem {l : List α} {a : α} (ha : a ∉ l) (g : γ → List β)
    (f : α → γ) (v : γ) :
    (l.flatMap fun u => g (update f a v u)) = l.flatMap fun u => g (f u) := by
  refine List.flatMap_congr fun u hu => ?_
  have hne : u ≠ a := fun e => ha (e ▸ hu)
  rw [update_of_ne hne]

variable [DecidableEq β]

theorem count_flatMap_update {l : List α} {a : α} (hnd : l.Nodup) (ha : a ∈ l)
    (g : γ → List β) (f : α → γ) (v : γ) (x : β) :
    (l.flatMap fun u => g (update f a v u)).count x + (g (f a)).count x =
      (l.flatMap fun u => g (f u)).count x + (g v).count x := by
  induction l with
  | nil => cases ha
  | cons b l ih =>
    obtain ⟨hb, hnd⟩ := List.nodup_cons.1 hnd
    simp only [List.flatMap_cons, List.count_append]
    by_cases hab : b = a
    · subst hab
      rw [flatMap_update_of_not_mem hb, update_self]
      omega
    · have := ih hnd ((List.mem_cons.1 ha).resolve_left (Ne.symm hab))
      rw [update_of_ne hab]
      omega

theorem count_flatMap_erase {l : List α} {a : α} (ha : a ∈ l) (f : α → List β) (x : β) :
    ((l.erase a).flatMap f).count x + (f a).count x = (l.flatMap f).count x := by
  have hp := (List.perm_cons_erase ha).flatMap_right f
  rw [hp.count_eq, List.flatMap_cons, List.count_append, Nat.add_comm]

end Dx.Library
