import Mathlib.Data.List.Perm.Subperm

/-!
# Pointer chains

A field `next : α → Option α` links each node to at most one other. Following the field from a
node either ends, at a node whose field is empty, or goes on for ever; it ends from every node
exactly when the links have no cycle and every chain is finite (`Grounded`).

`chase` is the loop that follows the field with a bound on the number of links, so that it is a
total function; `chase_of_endsAt` says how large a bound is large enough. The two changes a
program makes to such a field are to link a node that was an end (`Grounded.link`) and to clear
a node's field (`Grounded.clear`).
-/

namespace Dx.Library

universe u

variable {α : Type u}

/-- Follow `next` from `a`, for at most `fuel` nodes: the first node whose field is empty. -/
def chase (next : α → Option α) : ℕ → α → Option α
  | 0, _ => none
  | fuel + 1, a =>
    match next a with
    | none => some a
    | some b => chase next fuel b

/-- Following `next` from `a` ends in `e`. -/
inductive EndsAt (next : α → Option α) : α → α → Prop
  /-- The field of `a` is empty. -/
  | here {a : α} : next a = none → EndsAt next a a
  /-- The field of `a` is `b`, and following from `b` ends in `e`. -/
  | link {a b e : α} : next a = some b → EndsAt next b e → EndsAt next a e

/-- `b` is linked from `a`. -/
def Linked (next : α → Option α) (a b : α) : Prop := next a = some b

def Grounded (next : α → Option α) : Prop := ∀ a, ∃ e, EndsAt next a e

section

variable {next : α → Option α} {a b e e' : α}

theorem EndsAt.next_eq_none (h : EndsAt next a e) : next e = none := by
  induction h with
  | here h => exact h
  | link _ _ ih => exact ih

theorem EndsAt.eq_of_next_eq_none (h : EndsAt next a e) (ha : next a = none) : e = a := by
  cases h with
  | here => rfl
  | link hb => rw [ha] at hb; cases hb

theorem EndsAt.of_linked (h : EndsAt next a e) (hb : next a = some b) : EndsAt next b e := by
  cases h with
  | here h => rw [h] at hb; cases hb
  | link hb' h =>
    rw [hb] at hb'
    cases hb'
    exact h

theorem EndsAt.not_cycle (h : EndsAt next a e) : ¬ Relation.TransGen (Linked next) a a := by
  induction h with
  | here ha =>
    intro hc
    obtain ⟨b, hb, -⟩ := Relation.TransGen.head'_iff.1 hc
    rw [Linked, ha] at hb
    cases hb
  | link hb _ ih =>
    -- a cycle through `a` goes through the only node linked from `a`, and so turns round there
    intro hc
    obtain ⟨b', hb', hback⟩ := Relation.TransGen.head'_iff.1 hc
    rw [Linked, hb] at hb'
    cases hb'
    exact ih (Relation.TransGen.tail' hback hb)

theorem Grounded.acyclic (h : Grounded next) (a : α) : ¬ Relation.TransGen (Linked next) a a :=
  (h a).elim fun _ he => he.not_cycle

/-! ### The bounded loop -/

theorem endsAt_of_chase {fuel : ℕ} (h : chase next fuel a = some e) : EndsAt next a e := by
  induction fuel generalizing a with
  | zero => cases h
  | succ fuel ih =>
    rw [chase] at h
    split at h
    case h_1 ha =>
      cases h
      exact .here ha
    case h_2 b hb => exact .link hb (ih h)

theorem chase_mono {fuel fuel' : ℕ} (h : chase next fuel a = some e) (hle : fuel ≤ fuel') :
    chase next fuel' a = some e := by
  induction fuel generalizing a fuel' with
  | zero => cases h
  | succ fuel ih =>
    obtain ⟨n, rfl⟩ : ∃ n, fuel' = n + 1 := ⟨fuel' - 1, by omega⟩
    rw [chase] at h ⊢
    split at h
    case h_1 => exact h
    case h_2 => exact ih h (by omega)

/-- The nodes a chain goes through before its end are distinct, and as many as the links the
loop follows. -/
theorem EndsAt.path (h : EndsAt next a e) :
    ∃ p : List α, p.Nodup ∧ (∀ x ∈ p, next x ≠ none ∧ Relation.ReflTransGen (Linked next) a x) ∧
      chase next (p.length + 1) a = some e := by
  induction h with
  | here ha => exact ⟨[], List.nodup_nil, by simp, by simp [chase, ha]⟩
  | @link a b e hb hend ih =>
    obtain ⟨p, hnd, hp, hc⟩ := ih
    refine ⟨a :: p, List.nodup_cons.2 ⟨fun ha => ?_, hnd⟩, ?_, ?_⟩
    · exact (EndsAt.link hb hend).not_cycle (Relation.TransGen.head' hb (hp a ha).2)
    · intro x hx
      rcases List.mem_cons.1 hx with rfl | hx
      · exact ⟨by simp [hb], .refl⟩
      · exact ⟨(hp x hx).1, .head hb (hp x hx).2⟩
    · simp [chase, hb, hc]

/-- A bound larger than the number of nodes that are linked at all is large enough. -/
theorem chase_of_endsAt {nodes : List α} (h : EndsAt next a e)
    (hnodes : ∀ x, next x ≠ none → x ∈ nodes) : chase next (nodes.length + 1) a = some e := by
  obtain ⟨p, hnd, hp, hc⟩ := h.path
  have hlen : p.length ≤ nodes.length :=
    (List.subperm_of_subset hnd fun x hx => hnodes x (hp x hx).1).length_le
  exact chase_mono hc (by omega)

end

/-! ### Changing a link -/

section

variable [DecidableEq α] {next : α → Option α} {a b e : α}

open Function

/-- Linking `a` leaves a chain that does not end in `a`, from a node that does not lead to `a`,
as it was. -/
theorem EndsAt.update_of_ne {x : α} {v : Option α} (h : EndsAt next x e) (hne : e ≠ a)
    (ha : next a = none) : EndsAt (update next a v) x e := by
  induction h with
  | here hx => exact .here (by rwa [Function.update_of_ne hne])
  | @link x y e hy _ ih =>
    have hxa : x ≠ a := by rintro rfl; rw [ha] at hy; cases hy
    exact .link (by rwa [Function.update_of_ne hxa]) (ih hne)

/-- **Linking an end.** When `a` is an end and the chain from `b` ends elsewhere, linking `a` to
`b` leaves every chain finite. -/
theorem Grounded.link (h : Grounded next) (ha : next a = none) (hb : EndsAt next b e)
    (hne : e ≠ a) : Grounded (update next a (some b)) := by
  have hb' : EndsAt (update next a (some b)) b e := hb.update_of_ne hne ha
  have haa : EndsAt (update next a (some b)) a e := .link (by simp) hb'
  intro x
  obtain ⟨ex, hx⟩ := h x
  induction hx with
  | @here x hx =>
    by_cases hxa : x = a
    · exact ⟨e, hxa ▸ haa⟩
    · exact ⟨x, .here (by rwa [update_of_ne hxa])⟩
  | @link x y ex hy _ ih =>
    obtain ⟨e', he'⟩ := ih
    have hxa : x ≠ a := by rintro rfl; rw [ha] at hy; cases hy
    exact ⟨e', .link (by rwa [update_of_ne hxa]) he'⟩

/-- **Clearing a link** leaves every chain finite. -/
theorem Grounded.clear (h : Grounded next) (a : α) : Grounded (update next a none) := by
  intro x
  obtain ⟨ex, hx⟩ := h x
  induction hx with
  | @here x hx =>
    refine ⟨x, .here ?_⟩
    by_cases hxa : x = a
    · simp [hxa]
    · rwa [update_of_ne hxa]
  | @link x y ex hy _ ih =>
    obtain ⟨e', he'⟩ := ih
    by_cases hxa : x = a
    · exact ⟨x, .here (by simp [hxa])⟩
    · exact ⟨e', .link (by rwa [update_of_ne hxa]) he'⟩

end

end Dx.Library
