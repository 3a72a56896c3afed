import Dx.Containers.HashTable
import Dx.Library.Run

/-!
# What hash tables hold

A table should hold its slots, their arrays, and the key and the node of every entry. `add` allocates
two blocks for an entry, but `remove` and `pop` free only the node, `reset` frees neither, and an `add`
that gets only one of the two blocks keeps it. So the property is kept by the operations that do none of
this, and by no others.
-/

namespace Dx.Containers

open Library Memory Multiset

universe u v

variable {K : Type u} {D : Type v}

namespace HashTable

def HoldsItsOwn (t : HashTable K D) : Prop := (t.held : Multiset ℕ) = t.owned
deriving Decidable

variable {t : HashTable K D} {lost : Multiset ℕ}

theorem Accounts.holdsItsOwn_iff (h : t.Accounts lost) : t.HoldsItsOwn ↔ lost = 0 := by
  rw [HoldsItsOwn, h.sum]
  exact add_eq_left

variable [HashKey K] [DecidableEq K]

def Clean (t : HashTable K D) : HashAction K D → Prop
  | .add _ _ newKey node _ => newKey.isSome = node.isSome
  | .remove key => t.isValid key = false
  | .pop => t.readCount = 0
  | .reset => t.readCount = 0

instance (t : HashTable K D) (a : HashAction K D) : Decidable (t.Clean a) := by
  unfold Clean
  split <;> infer_instance

theorem leak_eq_zero_iff (h : t.Ok) (a : HashAction K D) : t.leak a = 0 ↔ t.Clean a := by
  have hcount : t.nodes = 0 ↔ t.readCount = 0 := by
    rw [readCount, h.count, card_eq_zero]
  cases a with
  | add key data newKey node array =>
    cases newKey with
    | none | some keyBlock => cases node <;> simp [leak, Clean]
  | remove key =>
    rw [leak, Clean, isValid]
    cases t.findNode key <;> simp
  | pop =>
    rw [leak, Clean, ← hcount]
    cases hfirst : t.firstNode with
    | none => simp [h.firstNode_none hfirst]
    | some first =>
      obtain ⟨i, n⟩ := first
      obtain ⟨hlt, hn⟩ := firstNode_some hfirst
      have hmem := mem_nodes.2 ⟨_, hlt, hn⟩
      have hne : t.nodes ≠ 0 := fun hzero => absurd (hzero ▸ hmem) (notMem_zero n)
      simp [hne]
  | reset =>
    rw [leak, Clean, ← hcount, ← card_eq_zero, card_add, card_map, card_map, ← card_eq_zero]
    omega

theorem accounts_of_run {ok : HashTable K D → HashAction K D → Prop} {initialSlotCount : BitVec 32}
    {block : ℕ} (hslots : 2 ≤ (roundUp2n initialSlotCount).toNat)
    (h : Run step ok (new initialSlotCount block) t) : t.Ok ∧ ∃ lost, t.Accounts lost := by
  refine h.invariant (I := fun t => t.Ok ∧ ∃ lost, t.Accounts lost)
    ⟨ok_new hslots block, 0, accounts_new initialSlotCount block⟩ ?_
  rintro t t' a ⟨hok, lost, ha⟩ - hstep
  obtain ⟨hok', ha'⟩ := hok.step ha hstep
  exact ⟨hok', _, ha'⟩

/-- **The blocks of a table.** A run whose operations are all clean ends in a table that holds its own
blocks and no others; and an operation on such a table, in whatever run it is reached, leaves such a
table if and only if it is clean. -/
theorem blocks_held_iff {initialSlotCount : BitVec 32} {block : ℕ}
    (hslots : 2 ≤ (roundUp2n initialSlotCount).toNat) (t : HashTable K D) :
    (Run step Clean (new initialSlotCount block) t → t.HoldsItsOwn) ∧
    (Run step Always (new initialSlotCount block) t → t.HoldsItsOwn →
      ∀ a t', t.step a = some t' → (t'.HoldsItsOwn ↔ t.Clean a)) := by
  constructor
  · intro h
    have hinv : t.Ok ∧ t.Accounts 0 := by
      refine h.invariant (I := fun t => t.Ok ∧ t.Accounts 0)
        ⟨ok_new hslots block, accounts_new initialSlotCount block⟩ ?_
      rintro t t' a ⟨hok, ha⟩ hclean hstep
      have hnext := hok.step ha hstep
      rwa [(leak_eq_zero_iff hok a).2 hclean, add_zero] at hnext
    exact hinv.2.holdsItsOwn_iff.2 rfl
  · intro h hown a t' hstep
    obtain ⟨hok, lost, ha⟩ := accounts_of_run hslots h
    obtain rfl := ha.holdsItsOwn_iff.1 hown
    obtain ⟨-, ha'⟩ := hok.step ha hstep
    rw [ha'.holdsItsOwn_iff, zero_add, leak_eq_zero_iff hok a]

/-- Two pages are added, the second one without memory for it. -/
theorem blocks_held_two : ∃ t ∈ runActions (restrict step Clean) (new 128 0 : HashTable (BitVec 32) ℕ)
      [.add 0x1000 10 (some 1) (some 2) (some 3), .add 0x2000 20 none none none],
    t.readCount = 1 ∧ t.HoldsItsOwn := by
  have heval : ∃ t ∈ runActions (restrict step Clean) (new 128 0 : HashTable (BitVec 32) ℕ)
      [.add 0x1000 10 (some 1) (some 2) (some 3), .add 0x2000 20 none none none],
      t.readCount = 1 := by
    decide +kernel
  obtain ⟨t, ht, hcount⟩ := heval
  have hslots : 2 ≤ (roundUp2n 128).toNat := by decide
  exact ⟨t, ht, hcount, (blocks_held_iff hslots t).1 (run_of_runActions_restrict _ ht)⟩

/-- A page is added and removed: the table is empty and still holds the block of the key. The second
time it holds two. -/
theorem not_blocks_held :
    (∃ t ∈ runActions step (new 128 0 : HashTable (BitVec 32) ℕ)
        [.add 0x1000 10 (some 1) (some 2) (some 3), .remove 0x1000],
      t.readCount = 0 ∧ ¬ t.HoldsItsOwn ∧ t.held = [3, 1, 0]) ∧
    (∃ t ∈ runActions step (new 128 0 : HashTable (BitVec 32) ℕ)
        [.add 0x1000 10 (some 1) (some 2) (some 3), .remove 0x1000,
          .add 0x1000 10 (some 4) (some 2) (some 5), .remove 0x1000],
      t.readCount = 0 ∧ ¬ t.HoldsItsOwn ∧ t.held = [4, 3, 1, 0]) ∧
    (∃ t ∈ runActions step (new 128 0 : HashTable (BitVec 32) ℕ)
        [.add 0x1000 10 (some 1) (some 2) (some 3), .reset],
      t.readCount = 0 ∧ ¬ t.HoldsItsOwn ∧ t.held = [3, 2, 1, 0]) ∧
    ∃ t ∈ runActions step (new 128 0 : HashTable (BitVec 32) ℕ) [.add 0x1000 10 (some 1) none none],
      t.readCount = 0 ∧ ¬ t.HoldsItsOwn ∧ t.held = [1, 0] := by
  decide +kernel

end HashTable

end Dx.Containers
