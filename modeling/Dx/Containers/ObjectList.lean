import Dx.Library.SwapArray

/-!
# Dynamic arrays and lists

`dynamic_array.hpp` and `list.hpp`: an array of pointers that doubles when it is full, and a list of
objects at the front of such an array. The array is a block of the kernel heap, which is given back
when a larger one has been allocated; `held` are the blocks that the owner of the array has, and the
operations say how it changes. When there is no memory for a larger array the kernel panics, which is
`none` here.
-/

namespace Dx.Containers

open Library Function

universe u

variable {α : Type u}

/-- `delete[]`, of a pointer that may be `NULL`. -/
def release (block : Option ℕ) (held : List ℕ) : List ℕ :=
  match block with
  | some b => held.erase b
  | none => held

/-! ### Arrays -/

/-- `dynamic_array_m`. -/
structure DynamicArray (α : Type u) where
  /-- The block that holds the array; `none` is `NULL`. -/
  block : Option ℕ
  slotCount : ℕ
  object : ℕ → Option α

namespace DynamicArray

def new : DynamicArray α := ⟨none, 0, fun _ => none⟩

/-- `expand()`, where `new` has returned `block`. -/
def expand (a : DynamicArray α) (block : ℕ) : DynamicArray α :=
  ⟨some block, if a.slotCount = 0 then 8 else a.slotCount * 2,
    fun i => if i < a.slotCount then a.object i else none⟩

def read (a : DynamicArray α) (index : ℕ) : Option α := a.object index

def swap (a : DynamicArray α) (index0 index1 : ℕ) : DynamicArray α :=
  { a with object := swapAt a.object index0 index1 }

/-- `write(index, new_object)`; `block` is what `new` returns if the array has to grow. -/
def write (a : DynamicArray α) (index : ℕ) (x : α) (block : Option ℕ) (held : List ℕ) :
    Option (DynamicArray α × List ℕ) :=
  if a.slotCount ≤ index then
    match block with
    | some b =>
      some ({ a.expand b with object := Function.update (a.expand b).object index (some x) },
        release a.block (b :: held))
    | none => none
  else some ({ a with object := Function.update a.object index (some x) }, held)

end DynamicArray

/-! ### Lists -/

/-- `list_m`. -/
structure ObjectList (α : Type u) where
  array : DynamicArray α
  count : ℕ

namespace ObjectList

def new : ObjectList α := ⟨.new, 0⟩

def reset (l : ObjectList α) : ObjectList α := { l with count := 0 }

/-- `operator+=`. -/
def add (l : ObjectList α) (x : α) (block : Option ℕ) (held : List ℕ) :
    Option (ObjectList α × List ℕ) :=
  match l.array.write l.count x block held with
  | some (array, held) => some (⟨array, l.count + 1⟩, held)
  | none => none

/-- The loops of the list and of the table: the first index below the count with such an object. -/
def indexOf (l : ObjectList α) (p : α → Bool) : Option ℕ :=
  (List.range l.count).find? fun i => (l.array.read i).any p

/-- `operator-=`, where `same` is `operator==` of the objects. -/
def remove (same : α → α → Bool) (l : ObjectList α) (victim : α) : ObjectList α :=
  match l.indexOf fun x => same x victim with
  | some i => ⟨l.array.swap i (l.count - 1), l.count - 1⟩
  | none => l

def items (l : ObjectList α) : List α := Library.items l.array.object l.count

/-- There is an object at each index below the count. -/
structure Ok (l : ObjectList α) : Prop where
  count : l.count ≤ l.array.slotCount
  object : ∀ i < l.count, (l.array.object i).isSome = true

variable {l l' : ObjectList α} {x : α} {block : Option ℕ} {held held' : List ℕ}

theorem ok_new : (new : ObjectList α).Ok :=
  ⟨Nat.le_refl 0, fun _ hi => absurd hi (Nat.not_lt_zero _)⟩

theorem ok_reset : l.reset.Ok := ⟨Nat.zero_le _, fun _ hi => absurd hi (Nat.not_lt_zero _)⟩

theorem Ok.length_items (h : l.Ok) : l.items.length = l.count := Library.length_items h.object

/-- What adding an object can do: the array has room, or it is replaced by a larger one. -/
inductive Adds (l : ObjectList α) (x : α) (block : Option ℕ) (held : List ℕ) :
    ObjectList α → List ℕ → Prop
  | room {l' : ObjectList α} : l'.Ok → l'.items = l.items ++ [x] → l'.array.block = l.array.block →
      Adds l x block held l' held
  | grown {l' : ObjectList α} {b : ℕ} : l'.Ok → l'.items = l.items ++ [x] → block = some b →
      l'.array.block = some b → Adds l x block held l' (release l.array.block (b :: held))

theorem items_put (object : ℕ → Option α) (n : ℕ) (x : α) :
    Library.items (update object n (some x)) (n + 1) = Library.items object n ++ [x] := by
  rw [items_succ (update_self ..), items_update (Nat.le_refl n)]

theorem isSome_put {object : ℕ → Option α} {n : ℕ} (h : ∀ i < n, (object i).isSome = true) (x : α) :
    ∀ i < n + 1, (update object n (some x) i).isSome = true := by
  intro i hi
  exact update_intro (P := (Option.isSome · = true)) (fun _ => rfl) fun _ => h i (by omega)

theorem Ok.add (h : l.Ok) (hadd : l.add x block held = some (l', held')) :
    Adds l x block held l' held' := by
  unfold ObjectList.add DynamicArray.write at hadd
  by_cases hfull : l.array.slotCount ≤ l.count
  · rw [if_pos hfull] at hadd
    cases block with
    | none => cases hadd
    | some b =>
      obtain ⟨rfl, rfl⟩ := Prod.mk.inj (Option.some.inj hadd)
      have heq : l.count = l.array.slotCount := Nat.le_antisymm h.count hfull
      have hsame : ∀ i < l.count, (l.array.expand b).object i = l.array.object i := by
        intro i hi
        exact if_pos (by omega)
      refine .grown ⟨?_, ?_⟩ ?_ rfl rfl
      · show l.count + 1 ≤ if l.array.slotCount = 0 then 8 else l.array.slotCount * 2
        split <;> omega
      · refine isSome_put (fun i hi => ?_) x
        rw [hsame i hi]
        exact h.object i hi
      · refine (items_put _ _ _).trans ?_
        rw [items_congr hsame]
        rfl
  · rw [if_neg hfull] at hadd
    obtain ⟨rfl, rfl⟩ := Prod.mk.inj (Option.some.inj hadd)
    refine .room ⟨?_, isSome_put h.object x⟩ (items_put _ _ _) rfl
    show l.count + 1 ≤ l.array.slotCount
    omega

theorem Adds.ok (h : Adds l x block held l' held') : l'.Ok := by
  cases h with
  | room hok | grown hok => exact hok

theorem Adds.items_eq (h : Adds l x block held l' held') : l'.items = l.items ++ [x] := by
  cases h with
  | room _ hitems | grown _ hitems => exact hitems

theorem exists_add (l : ObjectList α) (x : α) (b : ℕ) (held : List ℕ) :
    ∃ l' held', l.add x (some b) held = some (l', held') := by
  unfold ObjectList.add DynamicArray.write
  split
  case h_1 array held' heq => exact ⟨_, _, rfl⟩
  case h_2 heq =>
    split at heq
    · cases heq
    · cases heq

theorem bind_indexOf (l : ObjectList α) (p : α → Bool) :
    (l.indexOf p).bind l.array.read = l.items.find? p := by
  rw [items, Library.items, List.find?_filterMap]
  rfl

theorem indexOf_some {p : α → Bool} {i : ℕ} (h : l.indexOf p = some i) :
    i < l.count ∧ ∃ y, l.array.object i = some y ∧ p y = true := by
  have hlt := List.mem_range.1 (List.mem_of_find?_eq_some h)
  have hany := List.find?_some h
  rw [DynamicArray.read] at hany
  cases hread : l.array.object i with
  | none =>
    rw [hread] at hany
    cases hany
  | some y =>
    rw [hread] at hany
    exact ⟨hlt, y, rfl, hany⟩

theorem remove_eq_self {same : α → α → Bool} (h : ∀ y ∈ l.items, same y x = false) :
    l.remove same x = l := by
  unfold ObjectList.remove
  cases hindex : l.indexOf fun y => same y x with
  | none => rfl
  | some i =>
    obtain ⟨hi, y, hy, hp⟩ := indexOf_some hindex
    have hdiffers := h y (mem_items.2 ⟨i, hi, hy⟩)
    rw [hp] at hdiffers
    cases hdiffers

/-- **Removing an object.** The others are still there. -/
theorem Ok.remove {same : α → α → Bool} (h : l.Ok) (hx : x ∈ l.items)
    (hsame : ∀ y ∈ l.items, same y x = true ↔ y = x) :
    (l.remove same x).Ok ∧ l.items.Perm (x :: (l.remove same x).items) ∧
      (l.remove same x).array.block = l.array.block := by
  unfold ObjectList.remove
  cases hindex : l.indexOf fun y => same y x with
  | none =>
    -- the object itself would have been found
    have hnone : l.items.find? (fun y => same y x) = none := by
      rw [← bind_indexOf, hindex]
      rfl
    have hfind := List.find?_eq_none.1 hnone x hx
    exact absurd ((hsame x hx).2 rfl) hfind
  | some i =>
    obtain ⟨hi, y, hy, hp⟩ := indexOf_some hindex
    obtain rfl : y = x := (hsame y (mem_items.2 ⟨i, hi, hy⟩)).1 hp
    obtain ⟨n, hn⟩ : ∃ n, l.count = n + 1 := ⟨l.count - 1, by omega⟩
    have hlast : l.count - 1 = n := by omega
    rw [hlast]
    refine ⟨⟨?_, fun j hj => ?_⟩, ?_, rfl⟩
    · have hcount := h.count
      show n ≤ l.array.slotCount
      omega
    · exact isSome_swapAt (hn ▸ h.object) j hj
    · rw [items, hn]
      exact perm_items_swap (by omega) hy

end ObjectList

end Dx.Containers
