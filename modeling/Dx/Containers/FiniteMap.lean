import Mathlib.Data.Finmap
import Dx.Containers.HashTable
import Dx.Library.Refinement
import Dx.Library.Run

/-!
# Hash tables are finite maps

What a hash table is for: a map from keys to data. `Represents` says that the nodes of a table are the
entries of a finite map, in whatever slots and in whatever order they are, and each operation is shown
to do to the table what it should do to the map.
-/

namespace Dx.Containers

open Library Memory Option Multiset HashTable

universe u v

variable {K : Type u} {D : Type v}

def HashNode.entry (n : HashNode K D) : Sigma fun _ : K => D := ⟨n.key, n.data⟩

namespace HashTable

/-- The nodes of the table are the entries of the map. -/
def Represents (t : HashTable K D) (m : Finmap fun _ : K => D) : Prop :=
  t.nodes.map HashNode.entry = m.entries

variable {t t' : HashTable K D} {m : Finmap fun _ : K => D} {n : HashNode K D} {key : K} {data : D}
  {lost : Multiset ℕ}

theorem represents_empty (h : t.nodes = 0) : t.Represents ∅ := by
  rw [Represents, h]
  rfl

theorem Represents.card (h : t.Represents m) : t.nodes.card = m.keys.card := by
  have hcard : (t.nodes.map HashNode.entry).card = m.keys.card := by
    rw [h]
    exact (card_map Sigma.fst m.entries).symm
  rwa [card_map] at hcard

variable [DecidableEq K]

theorem Represents.lookup (h : t.Represents m) (hn : n ∈ t.nodes) : m.lookup n.key = some n.data := by
  refine Finmap.mem_lookup_iff.2 ?_
  rw [← h]
  exact mem_map_of_mem HashNode.entry hn

theorem Represents.exists_node (h : t.Represents m) (hlookup : m.lookup key = some data) :
    ∃ n ∈ t.nodes, n.key = key ∧ n.data = data := by
  have hmem := Finmap.mem_lookup_iff.1 hlookup
  rw [← h] at hmem
  obtain ⟨n, hn, hentry⟩ := mem_map.1 hmem
  cases hentry
  exact ⟨n, hn, rfl, rfl⟩

theorem Represents.insert (h : t.Represents m) (hnodes : t'.nodes = t.nodes + {n}) (hkey : n.key ∉ m) :
    t'.Represents (m.insert n.key n.data) := by
  rw [Represents, hnodes, map_add, h, Finmap.entries_insert_of_notMem hkey, map_singleton, add_comm]
  rfl

theorem Represents.erase (h : t.Represents m) (hnodes : t.nodes = t'.nodes + {n}) :
    t'.Represents (m.erase n.key) := by
  -- putting the entry back gives the map again
  have hback : (m.erase n.key).insert n.key n.data = m := by
    refine Finmap.ext_lookup fun key => ?_
    by_cases hkey : key = n.key
    · subst hkey
      rw [Finmap.lookup_insert, h.lookup (hnodes ▸ mem_add.2 (.inr (mem_singleton_self n)))]
    · rw [Finmap.lookup_insert_of_ne _ hkey, Finmap.lookup_erase_ne hkey]
  have hentries : m.entries = n.entry ::ₘ (m.erase n.key).entries := by
    conv_lhs => rw [← hback]
    exact Finmap.entries_insert_of_notMem Finmap.notMem_erase_self
  have hall : t.nodes.map HashNode.entry = n.entry ::ₘ t'.nodes.map HashNode.entry := by
    rw [hnodes, add_comm, singleton_add, map_cons]
  rw [h, hentries] at hall
  exact ((cons_inj_right n.entry).1 hall).symm

variable [HashKey K]

/-- `find` and `is_valid` are those of the map. -/
theorem Represents.find_eq (h : t.Represents m) (hok : t.Ok) (key : K) :
    t.find key = m.lookup key ∧ (t.isValid key = true ↔ key ∈ m) := by
  unfold find isValid
  cases hfind : t.findNode key with
  | none =>
    have hnot : key ∉ m := by
      intro hmem
      obtain ⟨data, hdata⟩ := Finmap.mem_iff.1 hmem
      obtain ⟨n, hn, hkey, -⟩ := h.exists_node hdata
      exact hok.findNode_none hfind hn hkey
    rw [Finmap.lookup_eq_none.2 hnot]
    exact ⟨rfl, fun hfalse => absurd hfalse Bool.false_ne_true, fun hmem => absurd hmem hnot⟩
  | some n =>
    obtain ⟨hn, rfl⟩ := findNode_some hfind
    have hlookup := h.lookup (mem_nodes.2 ⟨_, hok.findSlot_lt n.key, hn⟩)
    rw [hlookup]
    exact ⟨rfl, fun _ => Finmap.mem_of_lookup_eq_some hlookup, fun _ => rfl⟩

theorem remove_eq (hfind : t.findNode key = some n) :
    t.remove key = some (n.data, t.takeOut (t.findSlot key) n) := by
  rw [remove, hfind]

/-- `remove` finds a key of the map, returns its data and takes it out. -/
theorem Represents.remove (h : t.Represents m) (hok : t.Ok) (ha : t.Accounts lost)
    (hkey : key ∈ m) :
    ∃ data t', t.remove key = some (data, t') ∧ m.lookup key = some data ∧
      t'.Represents (m.erase key) := by
  obtain ⟨n, hfind⟩ := isSome_iff_exists.1 ((h.find_eq hok key).2.2 hkey)
  obtain ⟨hn, rfl⟩ := findNode_some hfind
  have hlt := hok.findSlot_lt n.key
  have hmem := mem_nodes.2 ⟨_, hlt, hn⟩
  obtain ⟨-, hnodes, -⟩ := hok.takeOut hlt hn fun m hm => ha.keyBlock_injective m hm n hmem
  exact ⟨n.data, _, remove_eq hfind, h.lookup hmem, h.erase hnodes⟩

/-- `pop` takes some entry out of the map, or finds it empty. -/
theorem Represents.pop (h : t.Represents m) (hok : t.Ok) (ha : t.Accounts lost) :
    (t.firstNode = none ∧ t.pop = (none, t) ∧ m = ∅) ∨
      ∃ i n, t.firstNode = some (i, n) ∧ t.pop = (some n.data, t.takeOut i n) ∧
        m.lookup n.key = some n.data ∧ t.nodes = (t.takeOut i n).nodes + {n} ∧
        (t.takeOut i n).Represents (m.erase n.key) := by
  cases hfirst : t.firstNode with
  | none =>
    have hentries : m.entries = 0 := by
      rw [← h, hok.firstNode_none hfirst]
      rfl
    refine .inl ⟨rfl, ?_, Finmap.ext hentries⟩
    rw [HashTable.pop, hfirst]
  | some first =>
    obtain ⟨i, n⟩ := first
    obtain ⟨hlt, hn⟩ := firstNode_some hfirst
    have hmem := mem_nodes.2 ⟨_, hlt, hn⟩
    obtain ⟨-, hnodes, -⟩ := hok.takeOut hlt hn fun m hm => ha.keyBlock_injective m hm n hmem
    refine .inr ⟨i, n, rfl, ?_, h.lookup hmem, hnodes, h.erase hnodes⟩
    rw [HashTable.pop, hfirst]

end HashTable

/-! ### Runs -/

/-- A table, and the map it is to be. -/
structure MapState (K : Type u) (D : Type v) where
  table : HashTable K D
  map : Finmap fun _ : K => D

namespace MapState

variable [HashKey K] {initialSlotCount : BitVec 32}

def initial (initialSlotCount : BitVec 32) (block : ℕ) : MapState K D :=
  ⟨.new initialSlotCount block, ∅⟩

/-- The table is sound and represents the map. -/
structure Sound (s : MapState K D) : Prop where
  ok : s.table.Ok
  accounts : ∃ lost, s.table.Accounts lost
  represents : s.table.Represents s.map

theorem sound_initial (h : 2 ≤ (roundUp2n initialSlotCount).toNat) (block : ℕ) :
    (initial initialSlotCount block : MapState K D).Sound :=
  ⟨ok_new h block, ⟨0, accounts_new initialSlotCount block⟩,
    represents_empty (nodes_new initialSlotCount block)⟩

variable [DecidableEq K]

/-- The key that `pop` takes out. -/
def popped (t : HashTable K D) (m : Finmap fun _ : K => D) : Finmap fun _ : K => D :=
  match t.firstNode with
  | some (_, n) => m.erase n.key
  | none => m

/-- One operation on both: a key is added only if it is absent, and removed only if it is present, and
the allocations succeed. -/
def step (s : MapState K D) (a : HashAction K D) : Option (MapState K D) :=
  match a with
  | .add key data (some newKey) (some node) (some array) =>
    if key ∉ s.map then
      (s.table.step (.add key data (some newKey) (some node) (some array))).map
        (⟨·, s.map.insert key data⟩)
    else none
  | .add _ _ _ _ _ => none
  | .remove key =>
    if key ∈ s.map then (s.table.step (.remove key)).map (⟨·, s.map.erase key⟩) else none
  | .pop => (s.table.step .pop).map (⟨·, popped s.table s.map⟩)
  | .reset => (s.table.step .reset).map (⟨·, ∅⟩)

variable {s t : MapState K D} {a : HashAction K D}

theorem Sound.of_step {table : HashTable K D} {map : Finmap fun _ : K => D} (h : s.Sound)
    (hstep : s.table.step a = some table) (hmap : table.Represents map) :
    Sound ⟨table, map⟩ := by
  obtain ⟨lost, ha⟩ := h.accounts
  obtain ⟨hok, ha'⟩ := h.ok.step ha hstep
  exact ⟨hok, ⟨_, ha'⟩, hmap⟩

theorem Sound.step (h : s.Sound) (hstep : s.step a = some t) : t.Sound := by
  obtain ⟨lost, ha⟩ := h.accounts
  unfold MapState.step at hstep
  split at hstep
  case h_1 key data newKey node array =>
    obtain ⟨hkey, hstep⟩ := ite_none_right_eq_some.1 hstep
    obtain ⟨table, htable, rfl⟩ := map_eq_some_iff.1 hstep
    refine h.of_step htable ?_
    rw [HashTable.step] at htable
    obtain ⟨-, htable⟩ := ite_none_right_eq_some.1 htable
    have hnodes := (h.ok.add htable).nodes
    exact h.represents.insert hnodes hkey
  case h_2 => cases hstep
  case h_3 key =>
    obtain ⟨hkey, hstep⟩ := ite_none_right_eq_some.1 hstep
    obtain ⟨table, htable, rfl⟩ := map_eq_some_iff.1 hstep
    refine h.of_step htable ?_
    obtain ⟨data, table', hremove, -, hmap⟩ := h.represents.remove h.ok ha hkey
    rw [HashTable.step, hremove] at htable
    obtain rfl := Option.some.inj htable
    exact hmap
  case h_4 =>
    obtain ⟨table, htable, rfl⟩ := map_eq_some_iff.1 hstep
    refine h.of_step htable ?_
    obtain rfl := Option.some.inj htable
    unfold popped
    rcases h.represents.pop h.ok ha with ⟨hfirst, hpop, -⟩ | ⟨i, n, hfirst, hpop, -, -, hmap⟩
    · rw [hpop, hfirst]
      exact h.represents
    · rw [hpop, hfirst]
      exact hmap
  obtain ⟨table, htable, rfl⟩ := map_eq_some_iff.1 hstep
  refine h.of_step htable ?_
  obtain rfl := Option.some.inj htable
  exact HashTable.represents_empty (HashTable.ok_reset h.ok).2.1

theorem sound_of_run (hslots : 2 ≤ (roundUp2n initialSlotCount).toNat) {block : ℕ}
    (h : Run step Always (initial initialSlotCount block) s) : s.Sound :=
  h.invariant (sound_initial hslots block) fun hs _ hstep => hs.step hstep

end MapState

namespace HashTable

variable {t : HashTable K D} {lost : Multiset ℕ}

/-- The answers of `pop`, called `n` times. -/
def pops (t : HashTable K D) (n : ℕ) : List (Option D) :=
  (performAll (fun (t : HashTable K D) (_ : Unit) => t.pop) t (List.replicate n ())).1

theorem pops_succ (t : HashTable K D) (n : ℕ) : t.pops (n + 1) = t.pop.1 :: t.pop.2.pops n := rfl

theorem pops_empty (hnodes : t.nodes = 0) (n : ℕ) : t.pops n = List.replicate n none := by
  have hpop : t.pop = (none, t) := by
    rw [pop]
    cases hfirst : t.firstNode with
    | none => rfl
    | some first =>
      obtain ⟨i, node⟩ := first
      obtain ⟨hlt, hn⟩ := firstNode_some hfirst
      have hmem := mem_nodes.2 ⟨_, hlt, hn⟩
      rw [hnodes] at hmem
      exact absurd hmem (notMem_zero node)
  induction n with
  | zero => rfl
  | succ n ih =>
    rw [pops_succ, hpop, List.replicate_succ]
    exact congrArg (none :: ·) ih

variable [HashKey K]

/-- Each node is popped once, and then there is nothing left. -/
theorem Ok.pops (h : t.Ok) (ha : t.Accounts lost) (k : ℕ) :
    ∃ values : List D, t.pops (t.nodes.card + k) = values.map some ++ List.replicate k none ∧
      (values : Multiset D) = t.nodes.map HashNode.data := by
  -- by induction on the number of nodes
  generalize hc : t.nodes.card = c
  induction c generalizing t lost with
  | zero =>
    have hnodes := card_eq_zero.1 hc
    refine ⟨[], ?_, ?_⟩
    · rw [Nat.zero_add]
      exact pops_empty hnodes k
    · rw [hnodes]
      rfl
  | succ c ih =>
    cases hfirst : t.firstNode with
    | none =>
      rw [h.firstNode_none hfirst] at hc
      cases hc
    | some first =>
      obtain ⟨i, n⟩ := first
      obtain ⟨hlt, hn⟩ := firstNode_some hfirst
      have hmem := mem_nodes.2 ⟨_, hlt, hn⟩
      obtain ⟨hok, hnodes, harrays⟩ := h.takeOut hlt hn fun m hm => ha.keyBlock_injective m hm n hmem
      have hcard : (t.takeOut i n).nodes.card = c := by
        rw [hnodes, card_add, card_singleton] at hc
        omega
      obtain ⟨values, hpops, hvalues⟩ := ih hok (ha.takeOut hnodes harrays) hcard
      have hpop : t.pop = (some n.data, t.takeOut i n) := by
        rw [pop, hfirst]
      refine ⟨n.data :: values, ?_, ?_⟩
      · rw [Nat.add_right_comm, pops_succ, hpop, hpops]
        rfl
      · rw [hnodes, map_add, map_singleton, ← hvalues, ← cons_coe, ← singleton_add, add_comm]

end HashTable

namespace MapState

variable [HashKey K] [DecidableEq K] {s : MapState K D}

/-- **A hash table is a finite map.** In every state that is reached, `find`, `is_valid` and
`read_count` are those of the map; a key that is absent can be added and one that is present can be
removed; and popping again and again returns each value of the map once, and then nothing. -/
theorem hash_table_refines_map {initialSlotCount : BitVec 32} {block : ℕ}
    (hslots : 2 ≤ (roundUp2n initialSlotCount).toNat)
    (h : Run step Always (initial initialSlotCount block) s) :
    (∀ key, s.table.find key = s.map.lookup key ∧ (s.table.isValid key = true ↔ key ∈ s.map)) ∧
    s.table.readCount = s.map.keys.card ∧
    (∀ key ∉ s.map, ∀ data newKey node array, Fresh [newKey, node, array] s.table.held →
      ∃ t, s.step (.add key data (some newKey) (some node) (some array)) = some t) ∧
    (∀ key ∈ s.map, ∃ data table, s.table.remove key = some (data, table) ∧
      s.map.lookup key = some data) ∧
    ∀ k, ∃ values : List D,
      s.table.pops (s.map.keys.card + k) = values.map some ++ List.replicate k none ∧
      (values : Multiset D) = s.map.entries.map Sigma.snd := by
  have hsound := sound_of_run hslots h
  obtain ⟨lost, ha⟩ := hsound.accounts
  have hcard := hsound.represents.card
  refine ⟨hsound.represents.find_eq hsound.ok, ?_, fun key hkey data newKey node array hfresh => ?_,
    fun key hkey => ?_, fun k => ?_⟩
  · rw [HashTable.readCount, hsound.ok.count, hcard]
  · obtain ⟨l, held, hadd⟩ := ObjectList.exists_add (s.table.slot (s.table.findSlot key))
      ⟨node, newKey, key, data⟩ array (node :: newKey :: s.table.held)
    have hfresh' : Fresh ((some newKey).toList ++ (some node).toList ++ (some array).toList)
      s.table.held := hfresh
    unfold MapState.step
    dsimp only
    rw [if_pos hkey, HashTable.step, if_pos hfresh', HashTable.add, hadd]
    exact ⟨_, rfl⟩
  · obtain ⟨data, table, hremove, hlookup, -⟩ := hsound.represents.remove hsound.ok ha hkey
    exact ⟨data, table, hremove, hlookup⟩
  · obtain ⟨values, hpops, hvalues⟩ := hsound.ok.pops ha k
    rw [hcard] at hpops
    refine ⟨values, hpops, ?_⟩
    rw [hvalues, ← hsound.represents, Multiset.map_map]
    rfl

/-- Pages 0x1000 and 0x2000 are added to a table of 128 slots, and the first one is removed. -/
theorem hash_table_refines_map_page :
    ∃ s ∈ runActions step (initial 128 0 : MapState (BitVec 32) ℕ)
        [.add 0x1000 10 (some 1) (some 2) (some 3), .add 0x2000 20 (some 4) (some 5) (some 6),
          .remove 0x1000],
      s.table.readCount = 1 ∧ s.table.find 0x2000 = s.map.lookup 0x2000 := by
  have heval : ∃ s ∈ runActions step (initial 128 0 : MapState (BitVec 32) ℕ)
      [.add 0x1000 10 (some 1) (some 2) (some 3), .add 0x2000 20 (some 4) (some 5) (some 6),
        .remove 0x1000], s.table.readCount = 1 := by
    decide +kernel
  obtain ⟨s, hs, hcount⟩ := heval
  have hslots : 2 ≤ (roundUp2n 128).toNat := by decide
  exact ⟨s, hs, hcount, ((hash_table_refines_map hslots (run_of_runActions _ hs)).1 0x2000).1⟩

end MapState

end Dx.Containers
