import Mathlib.Tactic.Abel
import Dx.Containers.ObjectList
import Dx.Memory.RoundUp

/-!
# Hash tables

`hash_table.hpp`: a table of lists of nodes. A node has a pointer to the data and a pointer to a copy
of the key, both it and the copy being blocks of the kernel heap. Nodes are compared by their key
pointers, keys by `operator==`.

What is shown of the tables rests on two invariants. `Ok` says that the lists are sound, that every
node is in the slot of its key, and that the count is right. `Accounts` says which blocks the table
holds: its own, as `owned` has them, and those it has lost. The second one is also what makes the
first one work, since two nodes are told apart by the blocks of their keys.
-/

namespace Dx.Containers

open Library Memory Function List Option

universe u v

/-- The `uint32_t()` operator of a key. -/
class HashKey (K : Type u) where
  hashCode : K → BitVec 32

/-- Addresses and identifiers are their own hash codes. -/
instance : HashKey (BitVec 32) := ⟨fun key => key⟩

/-- `hash_node_s`. -/
structure HashNode (K : Type u) (D : Type v) where
  /-- The block of the node. -/
  block : ℕ
  /-- `key`: the block of the key. -/
  keyBlock : ℕ
  key : K
  data : D
deriving DecidableEq

variable {K : Type u} {D : Type v}

/-- `operator==` of the nodes. -/
def HashNode.same (m n : HashNode K D) : Bool := m.keyBlock == n.keyBlock

/-- `hash_table_m`. -/
structure HashTable (K : Type u) (D : Type v) where
  elementCount : ℕ
  slot : ℕ → ObjectList (HashNode K D)
  /-- The block of the slots. -/
  slotBlock : ℕ
  slotCount : ℕ
  slotCountShift : ℕ
  /-- The blocks of the heap that the table has allocated and not freed. -/
  held : List ℕ

namespace HashTable

/-- The constructor; `block` is what `new` returns. -/
def new (initialSlotCount : BitVec 32) (block : ℕ) : HashTable K D where
  elementCount := 0
  slot _ := .new
  slotBlock := block
  slotCount := (roundUp2n initialSlotCount).toNat
  slotCountShift := (32 + 2 ^ 32 - findOneBit32 (roundUp2n initialSlotCount)) % 2 ^ 32
  held := [block]

section

variable [HashKey K]

/-- The index of `find_slot(key)`. -/
def findSlot (t : HashTable K D) (key : K) : ℕ :=
  ((2654435769#32 * HashKey.hashCode key) >>> (t.slotCountShift % 32)).toNat

variable [DecidableEq K]

def findNode (t : HashTable K D) (key : K) : Option (HashNode K D) :=
  let hashSlot := t.slot (t.findSlot key)
  (hashSlot.indexOf fun n => n.key = key).bind hashSlot.array.read

/-- `find(key)`; `none` is `NULL`. -/
def find (t : HashTable K D) (key : K) : Option D := (t.findNode key).map HashNode.data

def isValid (t : HashTable K D) (key : K) : Bool := (t.findNode key).isSome

def readCount (t : HashTable K D) : ℕ := t.elementCount

/-- `add(key, data)`, where the allocations return `newKey`, `node` and, if the array of the slot has
to grow, `array`; a table with no memory for that panics. -/
def add (t : HashTable K D) (key : K) (data : D) (newKey node array : Option ℕ) :
    Option (HashTable K D) :=
  match newKey, node with
  | some keyBlock, some block =>
    match (t.slot (t.findSlot key)).add ⟨block, keyBlock, key, data⟩ array
        (block :: keyBlock :: t.held) with
    | some (hashSlot, held) =>
      some { t with
        elementCount := t.elementCount + 1
        slot := Function.update t.slot (t.findSlot key) hashSlot
        held := held }
    | none => none
  | _, _ => some { t with held := node.toList ++ newKey.toList ++ t.held }

/-- The end of `remove` and `pop`: a node leaves its slot and is deleted. -/
def takeOut (t : HashTable K D) (index : ℕ) (node : HashNode K D) : HashTable K D :=
  { t with
    elementCount := t.elementCount - 1
    slot := Function.update t.slot index ((t.slot index).remove HashNode.same node)
    held := t.held.erase node.block }

/-- `remove(key)`; a table without the key panics. -/
def remove (t : HashTable K D) (key : K) : Option (D × HashTable K D) :=
  match t.findNode key with
  | some node => some (node.data, t.takeOut (t.findSlot key) node)
  | none => none

/-- The first node of the first slot that has one, and the slot. -/
def firstNode (t : HashTable K D) : Option (ℕ × HashNode K D) :=
  match (List.range t.slotCount).find? fun i => decide (0 < (t.slot i).count) with
  | some i => ((t.slot i).array.read 0).map (i, ·)
  | none => none

/-- `pop()`; `none` is `NULL`. -/
def pop (t : HashTable K D) : Option D × HashTable K D :=
  match t.firstNode with
  | some (i, node) => (some node.data, t.takeOut i node)
  | none => (none, t)

def reset (t : HashTable K D) : HashTable K D :=
  { t with
    elementCount := 0
    slot := fun i => if i < t.slotCount then (t.slot i).reset else t.slot i }

end

/-! ### Slots -/

def nodes (t : HashTable K D) : Multiset (HashNode K D) :=
  ∑ i ∈ Finset.range t.slotCount, ((t.slot i).items : Multiset (HashNode K D))

def arrays (t : HashTable K D) : Multiset ℕ :=
  ∑ i ∈ Finset.range t.slotCount, ((t.slot i).array.block.toList : Multiset ℕ)

/-- The blocks that belong to the table: its slots, their arrays, and the keys and nodes that are
present. -/
def owned (t : HashTable K D) : Multiset ℕ :=
  {t.slotBlock} + t.arrays + t.nodes.map HashNode.keyBlock + t.nodes.map HashNode.block

variable {t t' : HashTable K D} {i : ℕ} {key : K} {n : HashNode K D} {array : Option ℕ}

theorem mem_nodes : n ∈ t.nodes ↔ ∃ i < t.slotCount, n ∈ (t.slot i).items := by
  rw [nodes, Multiset.mem_sum]
  simp only [Finset.mem_range, Multiset.mem_coe]

theorem nodes_new (initialSlotCount : BitVec 32) (block : ℕ) :
    (new initialSlotCount block : HashTable K D).nodes = 0 :=
  Finset.sum_eq_zero fun _ _ => rfl

theorem arrays_new (initialSlotCount : BitVec 32) (block : ℕ) :
    (new initialSlotCount block : HashTable K D).arrays = 0 :=
  Finset.sum_eq_zero fun _ _ => rfl

theorem firstNode_some (hn : t.firstNode = some (i, n)) :
    i < t.slotCount ∧ n ∈ (t.slot i).items := by
  unfold firstNode at hn
  split at hn
  case h_2 => cases hn
  case h_1 j hj =>
    obtain ⟨m, hm, heq⟩ := map_eq_some_iff.1 hn
    obtain ⟨rfl, rfl⟩ := Prod.mk.inj heq
    have hpos := List.find?_some hj
    rw [decide_eq_true_eq] at hpos
    exact ⟨mem_range.1 (mem_of_find?_eq_some hj), mem_items.2 ⟨0, hpos, hm⟩⟩

variable [HashKey K]

/-- The lists are sound, each node is in the slot of its key, and the count is right. -/
structure Ok (t : HashTable K D) : Prop where
  shift : 1 ≤ t.slotCountShift ∧ t.slotCountShift < 32 ∧ 2 ^ (32 - t.slotCountShift) ≤ t.slotCount
  lists : ∀ i, (t.slot i).Ok
  placed : ∀ i < t.slotCount, ∀ n ∈ (t.slot i).items, t.findSlot n.key = i
  count : t.elementCount = t.nodes.card

theorem Ok.findSlot_lt (h : t.Ok) (key : K) : t.findSlot key < t.slotCount := by
  obtain ⟨hlow, hhigh, hcount⟩ := h.shift
  refine Nat.lt_of_lt_of_le ?_ hcount
  rw [findSlot, BitVec.toNat_ushiftRight, Nat.mod_eq_of_lt hhigh, Nat.shiftRight_eq_div_pow]
  refine Nat.div_lt_of_lt_mul ?_
  rw [← Nat.pow_add, Nat.add_sub_cancel' (by omega)]
  exact BitVec.isLt _

theorem ok_new {initialSlotCount : BitVec 32} (h : 2 ≤ (roundUp2n initialSlotCount).toNat) (block : ℕ) :
    (new initialSlotCount block : HashTable K D).Ok := by
  obtain ⟨hlow, hhigh, hpow⟩ := findOneBit32_roundUp2n h
  have hshift : (32 + 2 ^ 32 - findOneBit32 (roundUp2n initialSlotCount)) % 2 ^ 32 =
      32 - findOneBit32 (roundUp2n initialSlotCount) := by omega
  refine ⟨?_, fun _ => ObjectList.ok_new, fun _ _ n hn => absurd hn not_mem_nil, ?_⟩
  · unfold new
    dsimp only
    rw [hshift, Nat.sub_sub_self (Nat.le_of_lt hhigh)]
    exact ⟨by omega, by omega, hpow⟩
  · rw [nodes_new]
    rfl

/-! ### The operations -/

theorem Ok.firstNode_none (h : t.Ok) (hn : t.firstNode = none) : t.nodes = 0 := by
  unfold firstNode at hn
  split at hn
  case h_1 j hj =>
    -- a slot with a count has a node at index 0
    have hpos := List.find?_some hj
    rw [decide_eq_true_eq] at hpos
    obtain ⟨m, hm⟩ := isSome_iff_exists.1 ((h.lists j).object 0 hpos)
    rw [DynamicArray.read, hm] at hn
    cases hn
  case h_2 hj =>
    refine Finset.sum_eq_zero fun i hi => ?_
    have hzero := List.find?_eq_none.1 hj i (mem_range.2 (Finset.mem_range.1 hi))
    have hcount : (t.slot i).count = 0 := by
      rw [decide_eq_true_eq] at hzero
      omega
    rw [ObjectList.items, hcount]
    rfl

theorem Ok.takeOut (h : t.Ok) (hi : i < t.slotCount) (hn : n ∈ (t.slot i).items)
    (hinj : ∀ m ∈ t.nodes, m.keyBlock = n.keyBlock → m = n) :
    (t.takeOut i n).Ok ∧ t.nodes = (t.takeOut i n).nodes + {n} ∧
      (t.takeOut i n).arrays = t.arrays := by
  have hsame : ∀ m ∈ (t.slot i).items, m.same n = true ↔ m = n := by
    intro m hm
    rw [HashNode.same, beq_iff_eq]
    exact ⟨hinj m (mem_nodes.2 ⟨i, hi, hm⟩), fun heq => heq ▸ rfl⟩
  obtain ⟨hok, hperm, hblock⟩ := (h.lists i).remove hn hsame
  have hself : (t.takeOut i n).slot i = (t.slot i).remove HashNode.same n := update_self ..
  have hrest : ∀ j, j ≠ i → (t.takeOut i n).slot j = t.slot j := fun j hj =>
    update_of_ne hj _ _
  have hitems : ((t.slot i).items : Multiset (HashNode K D)) =
      ((t.takeOut i n).slot i).items + {n} := by
    rw [hself, Multiset.coe_eq_coe.2 hperm, ← Multiset.cons_coe, ← Multiset.singleton_add, add_comm]
  have hnodes : t.nodes = (t.takeOut i n).nodes + {n} :=
    sum_range_add hi hitems fun j hj => by rw [hrest j hj]
  have harrays : (t.takeOut i n).arrays = t.arrays := by
    refine Finset.sum_congr rfl fun j _ => ?_
    by_cases hj : j = i
    · rw [hj, hself, hblock]
    · rw [hrest j hj]
  refine ⟨⟨h.shift, fun j => ?_, fun j hj m hm => ?_, ?_⟩, hnodes, harrays⟩
  · by_cases hj : j = i
    · rw [hj, hself]
      exact hok
    · rw [hrest j hj]
      exact h.lists j
  · by_cases hji : j = i
    · subst hji
      rw [hself] at hm
      exact h.placed j hj m (hperm.symm.subset (mem_cons_of_mem n hm))
    · rw [hrest j hji] at hm
      exact h.placed j hj m hm
  · have hcount := h.count
    rw [hnodes, Multiset.card_add, Multiset.card_singleton] at hcount
    show t.elementCount - 1 = _
    omega

/-- What adding can do when both blocks are there: the array of the slot has room, or it is replaced by
a larger one. -/
inductive Adds (t : HashTable K D) (n : HashNode K D) (array : Option ℕ) : HashTable K D → Prop
  | room {t' : HashTable K D} : t'.Ok → t'.nodes = t.nodes + {n} → t'.slotBlock = t.slotBlock →
      t'.arrays = t.arrays → t'.held = n.block :: n.keyBlock :: t.held → Adds t n array t'
  | grown {t' : HashTable K D} {b : ℕ} {old : Option ℕ} {rest : Multiset ℕ} : t'.Ok →
      t'.nodes = t.nodes + {n} → t'.slotBlock = t.slotBlock → array = some b →
      t.arrays = rest + old.toList → t'.arrays = rest + {b} →
      t'.held = release old (b :: n.block :: n.keyBlock :: t.held) → Adds t n array t'

theorem Adds.nodes (h : Adds t n array t') : t'.nodes = t.nodes + {n} := by
  cases h with
  | room _ hnodes | grown _ hnodes => exact hnodes

theorem Adds.ok (h : Adds t n array t') : t'.Ok := by
  cases h with
  | room hok | grown hok => exact hok

theorem Ok.put (h : t.Ok) {l : ObjectList (HashNode K D)} (hl : l.Ok)
    (hitems : l.items = (t.slot (t.findSlot n.key)).items ++ [n]) (held : List ℕ) :
    Ok { t with
      elementCount := t.elementCount + 1
      slot := update t.slot (t.findSlot n.key) l
      held := held } ∧
    nodes { t with
      elementCount := t.elementCount + 1
      slot := update t.slot (t.findSlot n.key) l
      held := held } = t.nodes + {n} := by
  generalize ht' : ({ t with
    elementCount := t.elementCount + 1
    slot := update t.slot (t.findSlot n.key) l
    held := held } : HashTable K D) = t'
  have hslot : t'.slot = update t.slot (t.findSlot n.key) l := ht' ▸ rfl
  have hcount : t'.slotCount = t.slotCount := ht' ▸ rfl
  have hfind : t'.findSlot = t.findSlot := ht' ▸ rfl
  have hself : t'.slot (t.findSlot n.key) = l := by rw [hslot, update_self]
  have hrest : ∀ j, j ≠ t.findSlot n.key → t'.slot j = t.slot j := fun j hj => by
    rw [hslot, update_of_ne hj]
  have hnodes : t'.nodes = t.nodes + {n} := by
    rw [nodes, hcount]
    refine sum_range_add (h.findSlot_lt n.key) ?_ fun j hj => by rw [hrest j hj]
    rw [hself, hitems, ← Multiset.coe_add]
    rfl
  refine ⟨⟨?_, fun j => ?_, fun j hj m hm => ?_, ?_⟩, hnodes⟩
  · rw [hcount, show t'.slotCountShift = t.slotCountShift from ht' ▸ rfl]
    exact h.shift
  · by_cases hj : j = t.findSlot n.key
    · rw [hj, hself]
      exact hl
    · rw [hrest j hj]
      exact h.lists j
  · rw [hcount] at hj
    rw [hfind]
    by_cases hjn : j = t.findSlot n.key
    · subst hjn
      rw [hself, hitems] at hm
      rcases mem_append.1 hm with hm | hm
      · exact h.placed _ hj m hm
      · rw [mem_singleton.1 hm]
    · rw [hrest j hjn] at hm
      exact h.placed j hj m hm
  · rw [hnodes, Multiset.card_add, Multiset.card_singleton, ← h.count]
    exact ht' ▸ rfl

theorem Ok.add {data : D} {keyBlock block : ℕ} (h : t.Ok)
    (hadd : t.add key data (some keyBlock) (some block) array = some t') :
    Adds t ⟨block, keyBlock, key, data⟩ array t' := by
  unfold HashTable.add at hadd
  dsimp only at hadd
  split at hadd
  case h_2 => cases hadd
  case h_1 l held hlist =>
    obtain rfl := Option.some.inj hadd
    have hlt := Finset.mem_range.2 (h.findSlot_lt key)
    cases (h.lists _).add hlist with
    | room hl hitems hblock =>
      obtain ⟨hok, hnodes⟩ := h.put (n := ⟨block, keyBlock, key, data⟩) hl hitems
        (block :: keyBlock :: t.held)
      refine .room hok hnodes rfl ?_ rfl
      refine Finset.sum_congr rfl fun j _ => ?_
      dsimp only
      by_cases hj : j = t.findSlot key
      · rw [hj, update_self, hblock]
      · rw [update_of_ne hj]
    | grown hl hitems harray hblock =>
      obtain ⟨hok, hnodes⟩ := h.put (n := ⟨block, keyBlock, key, data⟩) hl hitems _
      refine .grown hok hnodes rfl harray (Finset.sum_erase_add _ _ hlt).symm ?_ rfl
      rw [arrays, ← Finset.sum_erase_add _ _ hlt]
      dsimp only
      rw [update_self, hblock]
      refine congrArg (· + _) (Finset.sum_congr rfl fun j hj => ?_)
      rw [update_of_ne (Finset.ne_of_mem_erase hj)]

theorem ok_reset (h : t.Ok) : t.reset.Ok ∧ t.reset.nodes = 0 ∧ t.reset.arrays = t.arrays := by
  have hslot : ∀ i < t.slotCount, t.reset.slot i = (t.slot i).reset := fun i hi => if_pos hi
  have hnodes : t.reset.nodes = 0 := by
    refine Finset.sum_eq_zero fun i hi => ?_
    rw [hslot i (Finset.mem_range.1 hi)]
    rfl
  have harrays : t.reset.arrays = t.arrays := by
    refine Finset.sum_congr rfl fun i hi => ?_
    rw [hslot i (Finset.mem_range.1 hi)]
    rfl
  refine ⟨⟨h.shift, fun i => ?_, fun i hi n hn => ?_, ?_⟩, hnodes, harrays⟩
  · show (if i < t.slotCount then (t.slot i).reset else t.slot i).Ok
    split
    · exact ObjectList.ok_reset
    · exact h.lists i
  · rw [hslot i hi] at hn
    exact absurd hn not_mem_nil
  · rw [hnodes]
    rfl

section

variable [DecidableEq K]

theorem findNode_eq (t : HashTable K D) (key : K) :
    t.findNode key = (t.slot (t.findSlot key)).items.find? fun n => n.key = key :=
  ObjectList.bind_indexOf _ _

theorem findNode_some (hn : t.findNode key = some n) :
    n ∈ (t.slot (t.findSlot key)).items ∧ n.key = key := by
  rw [findNode_eq] at hn
  have hkey := List.find?_some hn
  rw [decide_eq_true_eq] at hkey
  exact ⟨mem_of_find?_eq_some hn, hkey⟩

theorem Ok.findNode_none (h : t.Ok) (hn : t.findNode key = none) (hmem : n ∈ t.nodes) :
    n.key ≠ key := by
  rintro rfl
  obtain ⟨i, hi, hitem⟩ := mem_nodes.1 hmem
  rw [findNode_eq, h.placed i hi n hitem] at hn
  exact List.find?_eq_none.1 hn n hitem (decide_eq_true rfl)

end

end HashTable

/-! ### Runs -/

/-- The operations that change a table, with what the allocations of `add` return. -/
inductive HashAction (K : Type u) (D : Type v)
  | add (key : K) (data : D) (newKey node array : Option ℕ)
  | remove (key : K)
  | pop
  | reset

/-- What `new` returns is not in use. -/
def Fresh (blocks held : List ℕ) : Prop := blocks.Nodup ∧ ∀ b ∈ blocks, b ∉ held
deriving Decidable

theorem Fresh.nodup {blocks held taken : List ℕ} (h : Fresh blocks held) (hheld : held.Nodup)
    (htaken : taken.Subperm blocks) : (taken ++ held).Nodup := by
  obtain ⟨l, hperm, hsub⟩ := htaken
  have hnodup : taken.Nodup := hperm.nodup_iff.1 (h.1.sublist hsub)
  rw [nodup_append']
  refine ⟨hnodup, hheld, fun b hb hmem => ?_⟩
  exact h.2 b (hsub.subset (hperm.symm.subset hb)) hmem

namespace HashTable

/-- The table holds its own blocks and those that it has lost. -/
structure Accounts (t : HashTable K D) (lost : Multiset ℕ) : Prop where
  nodup : t.held.Nodup
  sum : (t.held : Multiset ℕ) = t.owned + lost

variable {t t' : HashTable K D} {lost : Multiset ℕ} {i : ℕ} {n : HashNode K D}

theorem accounts_new (initialSlotCount : BitVec 32) (block : ℕ) :
    (new initialSlotCount block : HashTable K D).Accounts 0 := by
  refine ⟨nodup_singleton block, ?_⟩
  rw [owned, nodes_new, arrays_new]
  rfl

/-- Two nodes have different keys' blocks. -/
theorem Accounts.keyBlock_injective (h : t.Accounts lost) :
    ∀ m ∈ t.nodes, ∀ n ∈ t.nodes, m.keyBlock = n.keyBlock → m = n := by
  have hnodup : (t.owned + lost).Nodup := h.sum ▸ Multiset.coe_nodup.2 h.nodup
  have hle : t.nodes.map HashNode.keyBlock ≤ t.owned + lost := by
    refine le_trans ?_ (Multiset.le_add_right t.owned lost)
    rw [owned, add_right_comm]
    exact Multiset.le_add_left _ _
  exact Multiset.inj_on_of_nodup_map (Multiset.nodup_of_le hle hnodup)

/-- A node that leaves the table is freed, the block of its key is lost. -/
theorem Accounts.takeOut (h : t.Accounts lost) (hnodes : t.nodes = (t.takeOut i n).nodes + {n})
    (harrays : (t.takeOut i n).arrays = t.arrays) :
    (t.takeOut i n).Accounts (lost + {n.keyBlock}) := by
  have howned : t.owned = {n.block} + ((t.takeOut i n).owned + {n.keyBlock}) := by
    rw [owned, owned, hnodes, harrays, Multiset.map_add, Multiset.map_add, Multiset.map_singleton,
      Multiset.map_singleton]
    show {t.slotBlock} + _ + _ + _ = {n.block} + ({t.slotBlock} + _ + _ + _ + _)
    abel
  refine ⟨h.nodup.erase _, ?_⟩
  show ((t.held.erase n.block : List ℕ) : Multiset ℕ) = _
  rw [← Multiset.coe_erase, h.sum, howned, add_assoc, Multiset.singleton_add, Multiset.erase_cons_head]
  abel

theorem Accounts.reset (h : t.Accounts lost) (hnodes : t.reset.nodes = 0)
    (harrays : t.reset.arrays = t.arrays) :
    t.reset.Accounts (lost + (t.nodes.map HashNode.keyBlock + t.nodes.map HashNode.block)) := by
  refine ⟨h.nodup, ?_⟩
  show (t.held : Multiset ℕ) = _
  rw [h.sum, owned, owned, hnodes, harrays, Multiset.map_zero, Multiset.map_zero]
  show {t.slotBlock} + _ + _ + _ + _ = {t.slotBlock} + _ + _ + _ + _
  abel

theorem owned_add (hnodes : t'.nodes = t.nodes + {n}) (hslot : t'.slotBlock = t.slotBlock) :
    t'.owned = {t.slotBlock} + t'.arrays + t.nodes.map HashNode.keyBlock +
      t.nodes.map HashNode.block + ({n.block} + {n.keyBlock}) := by
  rw [owned, hnodes, hslot, Multiset.map_add, Multiset.map_add, Multiset.map_singleton,
    Multiset.map_singleton]
  abel

theorem Accounts.lose (h : t.Accounts lost) {blocks taken : List ℕ} (hfresh : Fresh blocks t.held)
    (htaken : taken.Subperm blocks) :
    Accounts { t with held := taken ++ t.held } (lost + (taken : Multiset ℕ)) := by
  refine ⟨hfresh.nodup h.nodup htaken, ?_⟩
  show ((taken ++ t.held : List ℕ) : Multiset ℕ) = t.owned + _
  rw [← Multiset.coe_add, h.sum]
  abel

variable [HashKey K]

/-- A node that is added takes two blocks, and possibly a new array. -/
theorem Accounts.add {array : Option ℕ} (h : t.Accounts lost) (hadd : Adds t n array t')
    (hfresh : Fresh ([n.keyBlock] ++ [n.block] ++ array.toList) t.held) : t'.Accounts lost := by
  have hsum := h.sum
  cases hadd with
  | room _ hnodes hslot harrays hheld =>
    constructor
    · have hsub : [n.block, n.keyBlock].Subperm ([n.keyBlock] ++ [n.block] ++ array.toList) :=
        (List.Perm.swap _ _ _).subperm.trans (sublist_append_left _ _).subperm
      rw [hheld]
      exact hfresh.nodup h.nodup hsub
    · rw [hheld, owned_add hnodes hslot, harrays, ← Multiset.cons_coe, ← Multiset.cons_coe, hsum, owned,
        ← Multiset.singleton_add, ← Multiset.singleton_add]
      abel
  | @grown b old rest _ hnodes hslot harray hbefore hafter hheld =>
    subst harray
    have hnodup : (b :: n.block :: n.keyBlock :: t.held).Nodup := by
      have hsub : [b, n.block, n.keyBlock].Subperm ([n.keyBlock] ++ [n.block] ++ [b]) :=
        (reverse_perm [n.keyBlock, n.block, b]).subperm
      exact hfresh.nodup h.nodup hsub
    have hall : ((b :: n.block :: n.keyBlock :: t.held : List ℕ) : Multiset ℕ) =
        old.toList + (t'.owned + lost) := by
      rw [owned_add hnodes hslot, hafter, ← Multiset.cons_coe, ← Multiset.cons_coe, ← Multiset.cons_coe,
        hsum, owned, hbefore, ← Multiset.singleton_add, ← Multiset.singleton_add,
        ← Multiset.singleton_add]
      abel
    cases old with
    | none =>
      rw [release] at hheld
      refine ⟨hheld ▸ hnodup, ?_⟩
      rw [hheld, hall]
      exact zero_add _
    | some o =>
      rw [release] at hheld
      refine ⟨hheld ▸ hnodup.erase o, ?_⟩
      rw [hheld, ← Multiset.coe_erase, hall]
      exact Multiset.erase_cons_head _ _

variable [DecidableEq K]

/-- One operation; `none` when the kernel panics. -/
def step (t : HashTable K D) : HashAction K D → Option (HashTable K D)
  | .add key data newKey node array =>
    if Fresh (newKey.toList ++ node.toList ++ array.toList) t.held then
      t.add key data newKey node array
    else none
  | .remove key => (t.remove key).map Prod.snd
  | .pop => some t.pop.2
  | .reset => some t.reset

/-- The blocks that an operation loses: it neither frees them nor keeps them in the table. -/
def leak (t : HashTable K D) : HashAction K D → Multiset ℕ
  | .add _ _ (some _) (some _) _ => 0
  | .add _ _ newKey node _ => newKey.toList ++ node.toList
  | .remove key => ((t.findNode key).map HashNode.keyBlock).toList
  | .pop => (t.firstNode.map fun first => first.2.keyBlock).toList
  | .reset => t.nodes.map HashNode.keyBlock + t.nodes.map HashNode.block

variable {a : HashAction K D}

/-- **One operation.** The table stays sound, and holds what it held up to what the operation loses. -/
theorem Ok.step (h : t.Ok) (ha : t.Accounts lost) (hstep : t.step a = some t') :
    t'.Ok ∧ t'.Accounts (lost + t.leak a) := by
  cases a with
  | add key data newKey node array =>
    rw [HashTable.step] at hstep
    obtain ⟨hfresh, hstep⟩ := ite_none_right_eq_some.1 hstep
    -- with both blocks the node is added, otherwise the one that was allocated is lost
    cases newKey with
    | none =>
      obtain rfl := Option.some.inj hstep
      refine ⟨⟨h.shift, h.lists, h.placed, h.count⟩, ?_⟩
      rw [toList_none, append_nil]
      exact ha.lose hfresh (sublist_append_left _ _).subperm
    | some keyBlock =>
      cases node with
      | none =>
        obtain rfl := Option.some.inj hstep
        refine ⟨⟨h.shift, h.lists, h.placed, h.count⟩, ?_⟩
        exact ha.lose hfresh (sublist_append_left [keyBlock] _).subperm
      | some block =>
        have hadd := h.add hstep
        exact ⟨hadd.ok, (add_zero lost).symm ▸ ha.add hadd hfresh⟩
  | remove key =>
    obtain ⟨⟨data, u⟩, hremove, rfl⟩ := map_eq_some_iff.1 hstep
    unfold HashTable.remove at hremove
    cases hfind : t.findNode key with
    | none =>
      rw [hfind] at hremove
      cases hremove
    | some n =>
      rw [hfind] at hremove
      obtain ⟨-, rfl⟩ := Prod.mk.inj (Option.some.inj hremove)
      have hn := (findNode_some hfind).1
      have hlt := h.findSlot_lt key
      obtain ⟨hok, hnodes, harrays⟩ := h.takeOut hlt hn fun m hm =>
        ha.keyBlock_injective m hm n (mem_nodes.2 ⟨_, hlt, hn⟩)
      rw [leak, hfind]
      exact ⟨hok, ha.takeOut hnodes harrays⟩
  | pop =>
    obtain rfl := Option.some.inj hstep
    unfold pop
    cases hfirst : t.firstNode with
    | none =>
      rw [leak, hfirst]
      exact ⟨h, (add_zero lost).symm ▸ ha⟩
    | some first =>
      obtain ⟨i, n⟩ := first
      obtain ⟨hlt, hn⟩ := firstNode_some hfirst
      obtain ⟨hok, hnodes, harrays⟩ := h.takeOut hlt hn fun m hm =>
        ha.keyBlock_injective m hm n (mem_nodes.2 ⟨_, hlt, hn⟩)
      rw [leak, hfirst]
      exact ⟨hok, ha.takeOut hnodes harrays⟩
  | reset =>
    obtain rfl := Option.some.inj hstep
    obtain ⟨hok, hnodes, harrays⟩ := ok_reset h
    exact ⟨hok, ha.reset hnodes harrays⟩

end HashTable

end Dx.Containers
