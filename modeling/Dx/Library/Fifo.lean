import Mathlib.Data.List.Nodup

/-!
# Queues that keep the order of what is put

A queue takes elements at its tail (`puts`); it may also be given elements at its head, which
jump the queue. Elements leave it at its head (`takes`), until what is left is thrown away
(`drops`). `Fifo` says that no element is put twice, and that of the elements put at the tail,
those that were taken, those that were thrown away and those that are still there are all of
them, in the order they were put. The elements that jumped the queue are in the other three
lists too, and do not count.
-/

namespace Dx.Library

open List

universe u

variable {α : Type u} [DecidableEq α]

/-- The queue has kept the order of the elements put at its tail. -/
structure Fifo (puts takes drops queue : List α) : Prop where
  nodup : puts.Nodup
  /-- What was put was taken, was thrown away or is there, in that order. -/
  order : puts = takes.filter (· ∈ puts) ++ drops.filter (· ∈ puts) ++ queue.filter (· ∈ puts)

variable {puts takes drops queue : List α} {a : α}

theorem filter_mem_concat {l : List α} (ha : a ∉ l) :
    l.filter (· ∈ puts ++ [a]) = l.filter (· ∈ puts) := by
  refine filter_congr fun x hx => ?_
  have hne : x ≠ a := fun e => ha (e ▸ hx)
  simp [hne]

theorem Fifo.put (h : Fifo puts takes drops queue) (hp : a ∉ puts) (ht : a ∉ takes)
    (hd : a ∉ drops) (hq : a ∉ queue) : Fifo (puts ++ [a]) takes drops (queue ++ [a]) where
  nodup := nodup_append'.2 ⟨h.nodup, nodup_singleton a, by simpa using hp⟩
  order := by
    rw [filter_append, filter_mem_concat ht, filter_mem_concat hd, filter_mem_concat hq]
    have hlast : [a].filter (· ∈ puts ++ [a]) = [a] := by simp
    rw [hlast, ← append_assoc, ← h.order]

theorem Fifo.jump (h : Fifo puts takes drops queue) (hp : a ∉ puts) :
    Fifo puts takes drops (a :: queue) := by
  refine ⟨h.nodup, ?_⟩
  rw [filter_cons_of_neg (by simpa using hp)]
  exact h.order

theorem Fifo.take (h : Fifo puts takes [] (a :: queue)) : Fifo puts (takes ++ [a]) [] queue := by
  refine ⟨h.nodup, ?_⟩
  have horder := h.order
  rw [filter_nil, append_nil, filter_cons] at horder
  rw [filter_append, filter_nil, append_nil, filter_cons]
  split
  · rw [if_pos (by assumption)] at horder
    rw [filter_nil, append_assoc]
    exact horder
  · rw [if_neg (by assumption)] at horder
    rw [filter_nil, append_nil]
    exact horder

/-- What is left is thrown away, with other elements that were not put. -/
theorem Fifo.drain {l : List α} (h : Fifo puts takes drops queue) (hl : ∀ x ∈ l, x ∉ puts) :
    Fifo puts takes (drops ++ (queue ++ l)) [] := by
  refine ⟨h.nodup, ?_⟩
  have hnil : l.filter (· ∈ puts) = [] := by
    rw [filter_eq_nil_iff]
    simpa using hl
  rw [filter_append, filter_append, hnil, append_nil, filter_nil, append_nil, ← append_assoc]
  exact h.order

/-- The elements of one kind. -/
theorem Fifo.filter (h : Fifo puts takes drops queue) (p : α → Bool) :
    Fifo (puts.filter p) (takes.filter p) (drops.filter p) (queue.filter p) := by
  refine ⟨h.nodup.filter p, ?_⟩
  have hcomm : ∀ l : List α, (l.filter p).filter (· ∈ puts.filter p) =
      (l.filter (· ∈ puts)).filter p := by
    intro l
    rw [filter_filter, filter_filter]
    refine filter_congr fun x _ => ?_
    cases hx : p x <;> simp [hx]
  rw [hcomm, hcomm, hcomm, ← filter_append, ← filter_append, ← h.order]

end Dx.Library
