import Mathlib.Order.Interval.Finset.Nat
import Dx.Library.Run

/-!
# Ids of threads and address spaces

The thread manager and the address space manager give ids in the same way: a counter goes on past the
ids that are in the table, and what it comes to is the new id. The counter has 32 bits and wraps.

The ids with a meaning of their own, such as that of the caller, are not in the table, so the counter does
not go past them. When it has come that far, a thread gets the id under which every thread finds
itself. As long as there is a free id between the counter and these, and each new object gets into the
table, the ids are different and each thread is found by all others (`automatic_ids`).
-/

namespace Dx.Kernel

open Library List Nat BitVec

/-- `thread_id_t` and `address_space_id_t`. -/
abbrev Id := BitVec 32

/-- `THREAD_ID_INVALID`, `ADDRESS_SPACE_ID_INVALID` and the `AUTO_ALLOCATE` of both. -/
def idInvalid : Id := 0xFFFFFFFF

/-- `THREAD_ID_LOOPBACK`. -/
def idLoopback : Id := 0xFFFFFFFE

def idCount : ℕ := 2 ^ 32

/-- A table of objects, `thread_table` or `address_space_table`, and the counter. An object is known by a
number that no other object ever has. -/
structure IdTable where
  table : List (Id × ℕ)
  /-- The objects that have been created and not deleted, each with its id. -/
  live : List (Id × ℕ)
  /-- `next_thread_id` and `next_id`. -/
  nextId : Id
  nextObject : ℕ

inductive IdAction
  /-- `create_thread` and `create_address_space`, with what there is memory for: the object, and its
  node in the table. -/
  | create (id : Id) (memory node : Bool)
  /-- `delete_thread` and `delete_address_space`. -/
  | delete (victim : Id × ℕ)
deriving DecidableEq, Repr

namespace IdTable

def isValid (r : IdTable) (id : Id) : Bool := r.table.any fun x => x.1 == id

def find (r : IdTable) (id : Id) : Option ℕ := r.table.lookup id

/-- The loop that looks for an id, of no more than `n` turns. -/
def searchId (r : IdTable) : ℕ → Id → Option Id
  | 0, _ => none
  | n + 1, id => if r.isValid id then r.searchId n (id + 1) else some id

/-- The id of a new object, and the counter. After as many turns as there are ids, the loop will never
end. -/
def allocateId (r : IdTable) (id : Id) : Option (Option Id × Id) :=
  if id = idInvalid then (r.searchId idCount r.nextId).map fun id => (some id, id + 1)
  else if r.isValid id then some (none, r.nextId)
  else some (some id, r.nextId)

def insert (id : Id) (node : Bool) (r : IdTable) : IdTable where
  table := if node then (id, r.nextObject) :: r.table else r.table
  live := (id, r.nextObject) :: r.live
  nextId := r.nextId
  nextObject := r.nextObject + 1

/-- `create_thread(id)` and `create_address_space(id)`. -/
def create (id : Id) (memory node : Bool) (r : IdTable) : Option IdTable :=
  (r.allocateId id).map fun (id, nextId) =>
    let r := { r with nextId := nextId }
    match id with
    | none => r
    | some id => if memory then r.insert id node else r

/-- `delete_thread(victim)` and `delete_address_space(victim)`. The kernel panics if the id is not in the
table. -/
def delete (victim : Id × ℕ) (r : IdTable) : Option IdTable :=
  if r.isValid victim.1 then
    some { r with
      table := r.table.eraseP fun x => x.1 == victim.1
      live := r.live.erase victim }
  else none

def step (r : IdTable) : IdAction → Option IdTable
  | .create id memory node => r.create id memory node
  | .delete victim => if victim ∈ r.live then r.delete victim else none

/-- `find_thread(id)`, for the thread `current`. -/
def findThread (r : IdTable) (current : Id × ℕ) (id : Id) : Option ℕ :=
  if id = current.1 ∨ id = idLoopback then some current.2 else r.find id

/-- The threads when the kernel has started: the boot thread, the cleanup thread and the null
thread. -/
def threadsAtBoot : IdTable where
  table := [(0xFFFFFF00, 2), (0xFFFFFFF1, 1), (0xFFFFFFF0, 0)]
  live := [(0xFFFFFF00, 2), (0xFFFFFFF1, 1), (0xFFFFFFF0, 0)]
  nextId := 0
  nextObject := 3

/-- The address spaces when the kernel has started: that of the kernel, and that of the loader. -/
def addressSpacesAtBoot : IdTable where
  table := [(0, 1), (0xFFFFFFFE, 0)]
  live := [(0, 1), (0xFFFFFFFE, 0)]
  nextId := 0
  nextObject := 2

def reservedThreadIds : List Id := [idLoopback, idInvalid]

def reservedAddressSpaceIds : List Id := [idInvalid]

/-- There is a free id from the counter on up to the reserved ones, or the id that is asked for is not
reserved; and there is memory for the node of the table. This is asked of a creation only if it makes
an object. -/
def Registered (reserved : List Id) (r : IdTable) : IdAction → Prop
  | .create id memory node =>
    memory = true →
      if id = idInvalid then
        (∃ free, r.nextId ≤ free ∧ (∀ x ∈ reserved, free < x) ∧ r.isValid free = false) ∧ node = true
      else r.isValid id = false → id ∉ reserved ∧ node = true
  | .delete _ => True

/-- The reserved ids are the last ones. -/
structure Topmost (reserved : List Id) : Prop where
  invalid : idInvalid ∈ reserved
  lt : ∀ id ∉ reserved, ∀ x ∈ reserved, id < x

/-! ### The counter -/

section

variable {r r' : IdTable} {id id' : Id} {n : ℕ} {x : Id × ℕ} {reserved : List Id} {nextId : Id}
  {l : List (Id × ℕ)} {current : Id × ℕ} {memory node : Bool} {action : IdAction}

theorem isValid_iff : r.isValid id = true ↔ id ∈ r.table.map Prod.fst := by
  rw [isValid, any_eq_true, mem_map]
  simp only [beq_iff_eq]

theorem ofNat_add_one (m : ℕ) : BitVec.ofNat 32 m + 1 = BitVec.ofNat 32 (m + 1) :=
  ofNat_add_ofNat m 1

theorem add_one_add_ofNat (id : Id) (k : ℕ) :
    id + 1 + BitVec.ofNat 32 k = id + BitVec.ofNat 32 (k + 1) := by
  rw [BitVec.add_assoc, BitVec.add_comm 1, ofNat_add_one]

theorem searchId_spec (h : r.searchId n id = some id') : ∃ k, id' = id + BitVec.ofNat 32 k ∧
    r.isValid id' = false ∧ ∀ j < k, r.isValid (id + BitVec.ofNat 32 j) = true := by
  induction n generalizing id with
  | zero => cases h
  | succ n ih =>
    rw [searchId] at h
    split at h
    case isTrue hvalid =>
      obtain ⟨k, rfl, hfree, hbefore⟩ := ih h
      refine ⟨k + 1, add_one_add_ofNat id k, hfree, fun j hj => ?_⟩
      cases j with
      | zero =>
        rw [BitVec.add_zero]
        exact hvalid
      | succ j =>
        rw [← add_one_add_ofNat]
        exact hbefore j (by omega)
    case isFalse hno =>
      cases h
      exact ⟨0, (BitVec.add_zero _).symm, Bool.eq_false_of_not_eq_true hno,
        fun j hj => absurd hj (not_lt_zero j)⟩

theorem isValid_of_searchId_none (h : r.searchId n id = none) :
    ∀ k < n, r.isValid (id + BitVec.ofNat 32 k) = true := by
  induction n generalizing id with
  | zero => exact fun k hk => absurd hk (not_lt_zero k)
  | succ n ih =>
    rw [searchId] at h
    split at h
    case isFalse => cases h
    case isTrue hvalid =>
      intro k hk
      cases k with
      | zero =>
        rw [BitVec.add_zero]
        exact hvalid
      | succ k =>
        rw [← add_one_add_ofNat]
        exact ih h k (by omega)

theorem searchId_ends (h : r.table.length < idCount) (id : Id) : ∃ id', r.searchId idCount id = some id' := by
  cases hsearch : r.searchId idCount id with
  | some id' => exact ⟨id', rfl⟩
  | none =>
    exfalso
    have hall : ∀ m < idCount, m ∈ (r.table.map fun x => x.1.toNat).toFinset := by
      intro m hm
      have hvalid := isValid_of_searchId_none hsearch (BitVec.ofNat 32 m - id).toNat
        (BitVec.ofNat 32 m - id).isLt
      rw [BitVec.ofNat_toNat, BitVec.setWidth_eq, BitVec.add_comm, BitVec.sub_add_cancel,
        isValid_iff] at hvalid
      obtain ⟨x, hx, heq⟩ := mem_map.1 hvalid
      rw [mem_toFinset, mem_map]
      refine ⟨x, hx, ?_⟩
      rw [heq]
      exact mod_eq_of_lt hm
    have hsub : Finset.range idCount ⊆ (r.table.map fun x => x.1.toNat).toFinset := fun m hm =>
      hall m (Finset.mem_range.1 hm)
    have hcard := (Finset.card_le_card hsub).trans (toFinset_card_le _)
    rw [Finset.card_range, length_map] at hcard
    omega

theorem not_isValid_of_allocateId (h : r.allocateId id = some (some id', nextId)) :
    r.isValid id' = false := by
  unfold allocateId at h
  split at h
  case isTrue =>
    obtain ⟨id'', hsearch, heq⟩ := Option.map_eq_some_iff.1 h
    cases heq
    obtain ⟨-, -, hfree, -⟩ := searchId_spec hsearch
    exact hfree
  split at h
  case isTrue => cases h
  case isFalse hvalid =>
    cases h
    exact Bool.eq_false_of_not_eq_true hvalid

/-! ### The objects -/

/-- Each object is in the table, under an id that is not reserved and that no other object has. -/
structure Sound (reserved : List Id) (r : IdTable) : Prop where
  live : r.live = r.table
  nodup : (r.table.map Prod.fst).Nodup
  free : ∀ x ∈ r.table, x.1 ∉ reserved
  fresh : ∀ x ∈ r.table, x.2 < r.nextObject

theorem lookup_eq_of_mem (hnodup : (l.map Prod.fst).Nodup) (hx : x ∈ l) :
    l.lookup x.1 = some x.2 := by
  induction l with
  | nil => cases hx
  | cons y l ih =>
    rw [map_cons, nodup_cons] at hnodup
    rw [lookup_cons]
    rcases mem_cons.1 hx with rfl | hx
    · rw [beq_self_eq_true]
    · have hne : x.1 ≠ y.1 := fun heq => hnodup.1 (heq ▸ mem_map_of_mem hx)
      rw [beq_false_of_ne hne]
      exact ih hnodup.2 hx

theorem Sound.find (h : r.Sound reserved) (hx : x ∈ r.live) : r.find x.1 = some x.2 :=
  lookup_eq_of_mem h.nodup (h.live ▸ hx)

theorem Sound.findThread (h : r.Sound reservedThreadIds) (hcurrent : current ∈ r.live)
    (hx : x ∈ r.live) : r.findThread current x.1 = some x.2 := by
  have hloopback : x.1 ≠ idLoopback := fun heq =>
    h.free x (h.live ▸ hx) (by rw [heq]; exact mem_cons_self)
  unfold IdTable.findThread
  by_cases hself : x.1 = current.1
  · -- it is the thread itself, as no other has its id
    have hfound := (h.find hcurrent).symm.trans (hself ▸ h.find hx)
    rw [if_pos (.inl hself), hfound]
  · rw [if_neg (not_or.2 ⟨hself, hloopback⟩)]
    exact h.find hx

theorem eraseP_eq_erase (hnodup : (l.map Prod.fst).Nodup) (hx : x ∈ l) :
    (l.eraseP fun y => y.1 == x.1) = l.erase x := by
  induction l with
  | nil => cases hx
  | cons y l ih =>
    rw [map_cons, nodup_cons] at hnodup
    rw [eraseP_cons, erase_cons]
    by_cases hy : y.1 = x.1
    · have hyx : y = x := by
        rcases mem_cons.1 hx with rfl | hx
        · rfl
        · exact absurd (hy ▸ mem_map_of_mem hx) hnodup.1
      rw [hyx, beq_self_eq_true, beq_self_eq_true]
      rfl
    · have hne : y ≠ x := fun heq => hy (by rw [heq])
      have hmem : x ∈ l := (mem_cons.1 hx).resolve_left fun heq => hne heq.symm
      rw [beq_false_of_ne hy, beq_false_of_ne hne, ih hnodup.2 hmem]
      rfl

theorem Sound.delete (h : r.Sound reserved) (hx : x ∈ r.live) (hr' : r.delete x = some r') :
    r'.Sound reserved := by
  unfold IdTable.delete at hr'
  split at hr'
  case isFalse => cases hr'
  cases hr'
  have herase := eraseP_eq_erase h.nodup (h.live ▸ hx)
  refine ⟨?_, ?_, fun y hy => h.free y (mem_of_mem_eraseP hy),
    fun y hy => h.fresh y (mem_of_mem_eraseP hy)⟩
  · rw [h.live]
    exact herase.symm
  · exact h.nodup.sublist (eraseP_sublist.map _)

theorem Sound.insert (h : r.Sound reserved) (hid : r.isValid id = false)
    (hreserved : id ∉ reserved) :
    (({ r with nextId := nextId } : IdTable).insert id true).Sound reserved where
  live := congrArg _ h.live
  nodup := by
    have hno : id ∉ r.table.map Prod.fst := fun hmem => by
      rw [isValid_iff.2 hmem] at hid
      cases hid
    exact nodup_cons.2 ⟨hno, h.nodup⟩
  free x hx := by
    rcases mem_cons.1 hx with rfl | hx
    · exact hreserved
    · exact h.free x hx
  fresh x hx := by
    rcases mem_cons.1 hx with rfl | hx
    · exact lt_succ_self _
    · exact lt_succ_of_lt (h.fresh x hx)

/-- What a creation does: nothing but to advance the counter, or it makes an object with a new id. -/
theorem create_cases (h : r.create id memory node = some r') :
    ∃ newId nextId, r.allocateId id = some (newId, nextId) ∧
      ((r' = { r with nextId := nextId } ∧ (newId = none ∨ memory = false)) ∨
        ∃ id', newId = some id' ∧ memory = true ∧ r.isValid id' = false ∧
          r' = ({ r with nextId := nextId } : IdTable).insert id' node) := by
  obtain ⟨⟨newId, nextId⟩, hallocate, rfl⟩ := Option.map_eq_some_iff.1 h
  refine ⟨newId, nextId, hallocate, ?_⟩
  cases newId with
  | none => exact .inl ⟨rfl, .inl rfl⟩
  | some id' =>
    cases memory with
    | false => exact .inl ⟨rfl, .inr rfl⟩
    | true => exact .inr ⟨id', rfl, rfl, not_isValid_of_allocateId hallocate, rfl⟩

/-- The id that the loop finds is not reserved exactly when there is a free one before the reserved
ones: it does not come around, as the last id is not in the table. -/
theorem Sound.not_mem_reserved_iff (h : r.Sound reserved) (htop : Topmost reserved)
    (hsearch : r.searchId n r.nextId = some id') : id' ∉ reserved ↔
      ∃ free, r.nextId ≤ free ∧ (∀ x ∈ reserved, free < x) ∧ r.isValid free = false := by
  obtain ⟨k, rfl, hid, hbefore⟩ := searchId_spec hsearch
  have hpassed : ∀ free : Id, r.nextId ≤ free → r.isValid free = false →
      k ≤ free.toNat - r.nextId.toNat := by
    intro free hle hfree
    by_contra hlt
    have hvalid := hbefore (free.toNat - r.nextId.toNat) (by omega)
    have heq : r.nextId + BitVec.ofNat 32 (free.toNat - r.nextId.toNat) = free := by bv_omega
    rw [heq, hfree] at hvalid
    cases hvalid
  have hle : ∀ {free : Id}, k ≤ free.toNat - r.nextId.toNat → r.nextId ≤ free →
      r.nextId ≤ r.nextId + BitVec.ofNat 32 k ∧ r.nextId + BitVec.ofNat 32 k ≤ free := by
    intro free hk hfree
    constructor <;> bv_omega
  constructor
  · intro hreserved
    have hinvalid : r.isValid idInvalid = false := Bool.eq_false_of_not_eq_true fun hvalid => by
      obtain ⟨x, hx, heq⟩ := mem_map.1 (isValid_iff.1 hvalid)
      exact h.free x hx (heq ▸ htop.invalid)
    have hlast : r.nextId ≤ idInvalid := by
      rw [idInvalid]
      bv_omega
    exact ⟨_, (hle (hpassed _ hlast hinvalid) hlast).1, htop.lt _ hreserved, hid⟩
  · rintro ⟨free, hnext, hbelow, hfree⟩ hmem
    exact absurd (hbelow _ hmem) (BitVec.not_lt.2 (hle (hpassed _ hnext hfree) hnext).2)

/-- Whether a creation is right, by the id it comes to. -/
theorem Sound.registered_iff (h : r.Sound reserved) (htop : Topmost reserved) {newId : Option Id}
    (hallocate : r.allocateId id = some (newId, nextId)) :
    r.Registered reserved (.create id memory node) ↔
      ∀ id', newId = some id' → memory = true → id' ∉ reserved ∧ node = true := by
  unfold allocateId at hallocate
  rw [Registered]
  split_ifs at hallocate ⊢ with hauto hvalid
  · obtain ⟨id', hsearch, heq⟩ := Option.map_eq_some_iff.1 hallocate
    cases heq
    rw [← h.not_mem_reserved_iff htop hsearch]
    simp
  · cases hallocate
    simp [hvalid]
  · cases hallocate
    simp [hvalid]

theorem Sound.step (h : r.Sound reserved) (htop : Topmost reserved) (hok : r.Registered reserved action)
    (hr' : r.step action = some r') : r'.Sound reserved := by
  cases action with
  | create id memory node =>
    obtain ⟨newId, nextId, hallocate, ⟨rfl, -⟩ | ⟨id', rfl, hmemory, hid, rfl⟩⟩ := create_cases hr'
    · exact ⟨h.live, h.nodup, h.free, h.fresh⟩
    · obtain ⟨hreserved, rfl⟩ := (h.registered_iff htop hallocate).1 hok id' rfl hmemory
      exact h.insert hid hreserved
  | delete victim =>
    rw [IdTable.step] at hr'
    split at hr'
    case isTrue hlive => exact h.delete hlive hr'
    case isFalse => cases hr'

theorem topmost_threadIds : Topmost reservedThreadIds :=
  ⟨by decide, fun id hid x hx => by
    simp only [reservedThreadIds, idLoopback, idInvalid, mem_cons, not_mem_nil, or_false] at hid hx
    rcases hx with rfl | rfl <;> bv_omega⟩

theorem topmost_addressSpaceIds : Topmost reservedAddressSpaceIds :=
  ⟨by decide, fun id hid x hx => by
    simp only [reservedAddressSpaceIds, idInvalid, mem_singleton] at hid hx
    subst hx
    bv_omega⟩

theorem sound_threadsAtBoot : threadsAtBoot.Sound reservedThreadIds :=
  ⟨rfl, by decide, by decide, by decide⟩

theorem sound_addressSpacesAtBoot : addressSpacesAtBoot.Sound reservedAddressSpaceIds :=
  ⟨rfl, by decide, by decide, by decide⟩

/-- The ids are as they should be: different, not reserved, and each object is found under its own. -/
structure Unambiguous (reserved : List Id) (find : Id → Option ℕ) (r : IdTable) : Prop where
  nodup : (r.live.map Prod.fst).Nodup
  free : ∀ x ∈ r.live, x.1 ∉ reserved
  finds : ∀ x ∈ r.live, find x.1 = some x.2

theorem Sound.unambiguous {find : Id → Option ℕ} (h : r.Sound reserved)
    (hfind : ∀ x ∈ r.live, find x.1 = some x.2) : r.Unambiguous reserved find where
  nodup := by
    rw [h.live]
    exact h.nodup
  free x hx := h.free x (h.live ▸ hx)
  finds := hfind

theorem live_create (h : r.create id memory node = some r') (hx : x ∈ r.live) : x ∈ r'.live := by
  obtain ⟨newId, nextId, -, ⟨rfl, -⟩ | ⟨id', -, -, -, rfl⟩⟩ := create_cases h
  · exact hx
  · exact mem_cons_of_mem _ hx

/-- Two objects with different ids, neither of which is reserved, find each other in the table. -/
theorem Unambiguous.find (h : r.Unambiguous reservedThreadIds (r.findThread current))
    (hcurrent : current ∈ r.live) (hx : x ∈ r.live) (hne : x ≠ current) :
    r.find x.1 = some x.2 := by
  have hfound := h.finds x hx
  have hself : x.1 ≠ current.1 := fun heq => hne (inj_on_of_nodup_map h.nodup hx hcurrent heq)
  have hloopback : x.1 ≠ idLoopback := fun heq =>
    h.free x hx (by rw [heq]; exact mem_cons_self)
  rwa [findThread, if_neg (not_or.2 ⟨hself, hloopback⟩)] at hfound

/-- If the objects have ids that are not reserved, and the new one is found in the table, then the
creation was right. -/
theorem Sound.registered (h : r.Sound reserved) (htop : Topmost reserved)
    (hr' : r.step action = some r') (hfree : ∀ x ∈ r'.live, x.1 ∉ reserved)
    (hfinds : ∀ x ∈ r'.live, x ∉ r.live → r'.find x.1 = some x.2) :
    r.Registered reserved action := by
  cases action with
  | delete => trivial
  | create id memory node =>
    obtain ⟨newId, nextId, hallocate, hcases⟩ := create_cases hr'
    rw [h.registered_iff htop hallocate]
    rintro id' rfl hmemory
    rcases hcases with ⟨-, hno⟩ | ⟨id'', heq, -, hid, rfl⟩
    · rcases hno with hno | hno
      · cases hno
      · rw [hmemory] at hno
        cases hno
    · cases heq
      have hnew : (id', r.nextObject) ∉ r.live := fun hmem =>
        lt_irrefl _ (h.fresh _ (h.live ▸ hmem))
      refine ⟨hfree _ mem_cons_self, ?_⟩
      have hfound := hfinds (id', r.nextObject) mem_cons_self hnew
      cases node with
      | true => rfl
      | false =>
        have hnone : r.table.lookup id' = none := by
          rw [lookup_eq_none_iff]
          intro p hp
          have hne : p.1 ≠ id' := fun heq => by
            rw [isValid_iff.2 (heq ▸ mem_map_of_mem hp)] at hid
            cases hid
          exact bne_iff_ne.2 hne.symm
        exact absurd (hnone.symm.trans hfound) (fun heq => nomatch heq)

end

/-- **Ids.** Over any number of creations and deletions of threads and of address spaces in which there
is a free id before the reserved ones and the object gets into the table, the ids of the objects are different
and not reserved, so that each thread is found under its id by every thread, and each address space under
its own. An id is always found, as long as not all are in the table. And after a creation that is not
like this the ids are no longer as they should be. -/
theorem automatic_ids (r : IdTable) :
    (Run step (Registered reservedThreadIds) threadsAtBoot r →
      (∀ current ∈ r.live, r.Unambiguous reservedThreadIds (r.findThread current)) ∧
      (r.table.length < idCount → ∀ memory node, ∃ r', r.create idInvalid memory node = some r') ∧
      ∀ action r', r.live ≠ [] → r.step action = some r' →
        ((∀ current ∈ r'.live, r'.Unambiguous reservedThreadIds (r'.findThread current)) ↔
          r.Registered reservedThreadIds action)) ∧
    (Run step (Registered reservedAddressSpaceIds) addressSpacesAtBoot r →
      r.Unambiguous reservedAddressSpaceIds r.find ∧
      (r.table.length < idCount → ∀ memory node, ∃ r', r.create idInvalid memory node = some r') ∧
      ∀ action r', r.step action = some r' →
        (r'.Unambiguous reservedAddressSpaceIds r'.find ↔
          r.Registered reservedAddressSpaceIds action)) := by
  have hends : r.table.length < idCount → ∀ memory node,
      ∃ r', r.create idInvalid memory node = some r' := by
    intro hlength memory node
    obtain ⟨id', hsearch⟩ := searchId_ends hlength r.nextId
    rw [create, allocateId, if_pos rfl, hsearch]
    exact ⟨_, rfl⟩
  constructor
  · intro h
    have hsound : r.Sound reservedThreadIds :=
      h.invariant sound_threadsAtBoot fun hx hok hstep => hx.step topmost_threadIds hok hstep
    refine ⟨fun current hcurrent => hsound.unambiguous fun x hx => hsound.findThread hcurrent hx,
      hends, fun action r' hlive hr' => ⟨fun h' => ?_, fun hok current hcurrent => ?_⟩⟩
    · cases action with
      | delete => trivial
      | create id memory node =>
        obtain ⟨creator, hcreator⟩ := exists_mem_of_ne_nil r.live hlive
        have hcurrent := live_create hr' hcreator
        have hgood := h' creator hcurrent
        refine hsound.registered topmost_threadIds hr' hgood.free fun x hx hnew => hgood.find hcurrent hx ?_
        rintro rfl
        exact hnew hcreator
    · have hsound' := hsound.step topmost_threadIds hok hr'
      exact hsound'.unambiguous fun x hx => hsound'.findThread hcurrent hx
  · intro h
    have hsound : r.Sound reservedAddressSpaceIds :=
      h.invariant sound_addressSpacesAtBoot fun hx hok hstep =>
        hx.step topmost_addressSpaceIds hok hstep
    refine ⟨hsound.unambiguous fun x hx => hsound.find hx, hends, fun action r' hr' =>
      ⟨fun h' => ?_, fun hok => ?_⟩⟩
    · exact hsound.registered topmost_addressSpaceIds hr' h'.free fun x hx _ => h'.finds x hx
    · have hsound' := hsound.step topmost_addressSpaceIds hok hr'
      exact hsound'.unambiguous fun x hx => hsound'.find hx

/-- A thread is created and deleted, and then another is created, with the next id. -/
theorem automatic_ids_reused : ∃ r, Run step (Registered reservedThreadIds) threadsAtBoot r ∧
    r.live.map Prod.fst = [1, 0xFFFFFF00, 0xFFFFFFF1, 0xFFFFFFF0] ∧
    ∀ current ∈ r.live, r.Unambiguous reservedThreadIds (r.findThread current) := by
  have heval : ∃ r₁ ∈ threadsAtBoot.step (.create idInvalid true true),
      ∃ r₂ ∈ r₁.step (.delete (0, 3)), (r₂.nextId ≤ 1 ∧ r₂.isValid 1 = false) ∧
        ∃ r ∈ r₂.step (.create idInvalid true true),
          r.live.map Prod.fst = [1, 0xFFFFFF00, 0xFFFFFFF1, 0xFFFFFFF0] := by
    decide +kernel
  obtain ⟨r₁, hr₁, r₂, hr₂, ⟨hnext, hfree⟩, r, hr, hlive⟩ := heval
  have hbelow : (∀ x ∈ reservedThreadIds, 0 < x) ∧ ∀ x ∈ reservedThreadIds, 1 < x := by
    simp [reservedThreadIds, idLoopback, idInvalid]
  have hfirst : threadsAtBoot.Registered reservedThreadIds (.create idInvalid true true) :=
    fun _ => ⟨⟨0, BitVec.le_refl _, hbelow.1, rfl⟩, rfl⟩
  have hsecond : r₂.Registered reservedThreadIds (.create idInvalid true true) :=
    fun _ => ⟨⟨1, hnext, hbelow.2, hfree⟩, rfl⟩
  have hdelete : r₁.Registered reservedThreadIds (.delete (0, 3)) := trivial
  have hrun := ((Run.refl.tail hfirst hr₁).tail hdelete hr₂).tail hsecond hr
  exact ⟨r, hrun, hlive, ((automatic_ids r).1 hrun).1⟩

/-! ### The counter comes to a reserved id -/

variable {m : ℕ}

theorem searchId_skip {r : IdTable} {n k : ℕ} (hk : k < n)
    (hvalid : ∀ j < k, r.isValid (BitVec.ofNat 32 (m + j)) = true)
    (hfree : r.isValid (BitVec.ofNat 32 (m + k)) = false) :
    r.searchId n (BitVec.ofNat 32 m) = some (BitVec.ofNat 32 (m + k)) := by
  induction k generalizing n m with
  | zero =>
    obtain ⟨n, rfl⟩ : ∃ l, n = l + 1 := ⟨n - 1, by omega⟩
    rw [Nat.add_zero] at hfree ⊢
    rw [searchId, hfree]
    rfl
  | succ k ih =>
    obtain ⟨n, rfl⟩ : ∃ l, n = l + 1 := ⟨n - 1, by omega⟩
    have hnext : ∀ j, m + 1 + j = m + (j + 1) := fun j => by omega
    have hfirst : r.isValid (BitVec.ofNat 32 m) = true := hvalid 0 (Nat.succ_pos k)
    rw [searchId, if_pos hfirst, ofNat_add_one, ← hnext k]
    refine ih (by omega) (fun j hj => ?_) ?_
    · rw [hnext]
      exact hvalid (j + 1) (by omega)
    · rw [hnext]
      exact hfree

/-- The counter can come to the id `m`, with no thread but those of the kernel. -/
def Reaches (m : ℕ) : Prop :=
  Run step Always threadsAtBoot { threadsAtBoot with nextId := BitVec.ofNat 32 m }

/-- A creation that fails for want of memory advances the counter past the ids in the table, and past
the id that it has found. -/
theorem Reaches.skip (h : Reaches m) (k : ℕ) (hk : k < idCount)
    (hvalid : ∀ j < k, threadsAtBoot.isValid (BitVec.ofNat 32 (m + j)) = true)
    (hfree : threadsAtBoot.isValid (BitVec.ofNat 32 (m + k)) = false) : Reaches (m + k + 1) := by
  refine .tail (a := .create idInvalid false false) h trivial ?_
  have hsearch : ({ threadsAtBoot with nextId := BitVec.ofNat 32 m } : IdTable).searchId idCount
      (BitVec.ofNat 32 m) = some (BitVec.ofNat 32 (m + k)) := searchId_skip hk hvalid hfree
  rw [step, create, allocateId, if_pos rfl, hsearch, ← ofNat_add_one]
  rfl

theorem Reaches.advance (h : Reaches m) (k : ℕ)
    (hfree : ∀ j < k, threadsAtBoot.isValid (BitVec.ofNat 32 (m + j)) = false) :
    Reaches (m + k) := by
  induction k with
  | zero => exact h
  | succ k ih =>
    have hbefore := ih fun j hj => hfree j (by omega)
    exact hbefore.skip 0 (by decide) (fun j hj => absurd hj (not_lt_zero j))
      (hfree k (lt_succ_self k))

theorem isValid_threadsAtBoot (hm : m < 2 ^ 32) : threadsAtBoot.isValid (BitVec.ofNat 32 m) =
    decide (m = 0xFFFFFF00 ∨ m = 0xFFFFFFF1 ∨ m = 0xFFFFFFF0) := by
  have heq : ∀ n < 2 ^ 32, BitVec.ofNat 32 n = BitVec.ofNat 32 m ↔ m = n := by
    intro n hn
    rw [← toNat_inj, toNat_ofNat, toNat_ofNat, mod_eq_of_lt hm, mod_eq_of_lt hn]
    exact eq_comm
  rw [Bool.eq_iff_iff, decide_eq_true_eq, isValid_iff, ← heq _ (by decide), ← heq _ (by decide),
    ← heq _ (by decide)]
  simp [threadsAtBoot, eq_comm]

theorem reaches_loopback : Reaches 0xFFFFFFFE := by
  have hfree : ∀ m < 2 ^ 32, m ≠ 0xFFFFFF00 → m ≠ 0xFFFFFFF1 → m ≠ 0xFFFFFFF0 →
      threadsAtBoot.isValid (BitVec.ofNat 32 m) = false := by
    intro m hm h h' h''
    rw [isValid_threadsAtBoot hm]
    exact decide_eq_false (by omega)
  -- up to the null thread, past it, up to the boot and the cleanup thread, past them, and on
  have hzero : Reaches 0 := .refl
  have hnull := hzero.advance 0xFFFFFF00 fun j hj =>
    hfree _ (by omega) (by omega) (by omega) (by omega)
  have hpast := hnull.skip 1 (by decide) (by decide) (by decide)
  have hboot := hpast.advance 0xEE fun j hj => hfree _ (by omega) (by omega) (by omega) (by omega)
  have hcleanup := hboot.skip 2 (by decide) (by decide) (by decide)
  exact hcleanup.advance 0xB fun j hj => hfree _ (by omega) (by omega) (by omega) (by omega)

/-- After as many creations as there are ids below it, a thread gets the id of the loopback. Every other
thread finds itself under this id. -/
theorem not_automatic_ids : ∃ r, Run step Always threadsAtBoot r ∧
    ∃ r' ∈ r.step (.create idInvalid true true), (idLoopback, 3) ∈ r'.live ∧
      ∀ current ∈ r.live, r'.findThread current idLoopback ≠ some 3 :=
  ⟨_, reaches_loopback, by decide +kernel⟩

end IdTable

end Dx.Kernel
