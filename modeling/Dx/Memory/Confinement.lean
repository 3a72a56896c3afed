import Dx.Memory.Formed

/-!
# The pointers of a user thread

Which bytes the kernel reads and writes for a thread that sends or receives a message: those of the
structure with the arguments of the system call (`interrupt_c::validate_syscall`), those of a medium
payload, which `medium_message_c::collect_payload` copies from where the sender says it is, and those of
the block that `medium_message_c::deliver_payload` copies it to. A small payload is a word of the
structure. Of a large payload the kernel changes the mappings and touches no byte, and the superpages of
the kernel are not shared.

Addresses have 32 bits, so that what begins near the end of the address space goes on at its beginning,
where the kernel is. `validate_syscall` looks at the beginning of the structure only, and nobody looks at
the address of a medium payload.
-/

namespace Dx.Memory

open Library

/-! ### What the kernel touches -/

/-- The fields of `syscall_data_s`. -/
inductive SyscallField
  | size | data0 | data1 | data2 | data3 | data4 | data5 | status
  deriving DecidableEq

def SyscallField.offset : SyscallField → ℕ
  | .size => 0 | .data0 => 4 | .data1 => 8 | .data2 => 12 | .data3 => 16 | .data4 => 20 | .data5 => 24
  | .status => 28

/-- `sizeof(syscall_data_s)`. -/
def syscallDataSize : ℕ := 32

def bytesFrom (address n : ℕ) : List ℕ := (List.range n).map fun i => (address + i) % 2 ^ 32

def SyscallField.bytes (address : ℕ) (field : SyscallField) : List ℕ :=
  bytesFrom ((address + field.offset) % 2 ^ 32) 4

inductive MessageCall
  /-- `SEND_MESSAGE`. -/
  | send
  /-- `SEND_AND_RECEIVE_MESSAGE`. -/
  | sendAndReceive
  /-- `RECEIVE_MESSAGE`. -/
  | receive
  deriving DecidableEq

/-- A system call for messages, with what it finds. -/
structure UserCall where
  /-- Which one it is. -/
  call : MessageCall
  /-- Where the structure is. -/
  address : Word
  /-- What is in its `size`. -/
  size : Word
  /-- The recipient exists, and there is memory for the message. -/
  found : Bool
  /-- `data3`: the payload. -/
  payload : Word
  /-- `data4`: its size. -/
  payloadSize : Word
  /-- `data5`: where it is to be mapped. -/
  receiverPayload : Word
  /-- The size of the medium payload that is received, if one is. -/
  received : Option (Fin (mediumMessagePayloadSize + 1))

namespace UserCall

variable (c : UserCall)

/-- What the system call reads and writes in a valid structure. -/
def fields : List SyscallField :=
  match c.call with
  | .receive => [.data0, .data1, .data2, .data3, .data4, .status]
  | _ => if c.found then [.data0, .data1, .data2, .data3, .data4, .data5, .status] else [.data0, .status]

/-- `collect_payload()`, for the kind of message that `allocate_message` has chosen. -/
def collected : List ℕ :=
  if c.call = .receive ∨ c.found = false then []
  else if mediumMessagePayloadSize < c.payloadSize.toNat ∨ c.receiverPayload.toNat ≠ 0 then []
  else bytesFrom c.payload.toNat c.payloadSize.toNat

/-- `deliver_payload()`, in the address space `a` as it is by then. -/
def delivered (a : ℕ) (heap : Heap) (frame : Option ℕ) (s : State) : List ℕ :=
  match c.received, s.allocateMediumPayloadBlock a heap frame with
  | some n, some (some block, _) => if c.call = .send then [] else bytesFrom block n
  | _, _ => []

/-- What the kernel reads and writes. -/
def touched (a : ℕ) (heap : Heap) (frame : Option ℕ) (s : State) : List ℕ :=
  if isUserAddress c.address.toNat then
    [SyscallField.size, .status].flatMap (·.bytes c.address.toNat) ++
      if c.size.toNat < syscallDataSize then []
      else c.fields.flatMap (·.bytes c.address.toNat) ++ (c.collected ++ c.delivered a heap frame s)
  else []

/-- The payload is copied by the kernel. -/
def Copies : Prop :=
  syscallDataSize ≤ c.size.toNat ∧ c.call ≠ .receive ∧ c.found = true ∧ 0 < c.payloadSize.toNat ∧
    c.payloadSize.toNat ≤ mediumMessagePayloadSize ∧ c.receiverPayload.toNat = 0

end UserCall

/-! ### Where it is -/

theorem bytesFrom_confined_iff {address n : ℕ} (haddress : address < 2 ^ 32) (hn : 0 < n) :
    (∀ v ∈ bytesFrom address n, payloadAreaBase ≤ v) ↔
      payloadAreaBase ≤ address ∧ address + n ≤ 2 ^ 32 := by
  have hbase : payloadAreaBase = 0x20000000 := rfl
  simp only [bytesFrom, List.mem_map, List.mem_range, forall_exists_index, and_imp,
    forall_apply_eq_imp_iff₂, hbase]
  constructor
  · intro h
    have hfirst := h 0 hn
    refine ⟨by omega, ?_⟩
    by_contra hwrap
    have hzero := h (2 ^ 32 - address) (by omega)
    omega
  · intro h i hi
    omega

/-- The fields at both ends of the structure tell for all of it. -/
theorem syscallField_confined_iff {address : ℕ} (haddress : address < 2 ^ 32)
    (huser : payloadAreaBase ≤ address) {fields : List SyscallField} (hstatus : .status ∈ fields) :
    (∀ v ∈ fields.flatMap (·.bytes address), payloadAreaBase ≤ v) ↔
      address + syscallDataSize ≤ 2 ^ 32 := by
  have hbase : payloadAreaBase = 0x20000000 := rfl
  have hoffset (field : SyscallField) : field.offset ≤ 28 := by cases field <;> decide
  have hfield (field : SyscallField) : (∀ v ∈ field.bytes address, payloadAreaBase ≤ v) ↔
      payloadAreaBase ≤ (address + field.offset) % 2 ^ 32 ∧
        (address + field.offset) % 2 ^ 32 + 4 ≤ 2 ^ 32 :=
    bytesFrom_confined_iff (Nat.mod_lt _ (by decide)) (by decide)
  simp only [List.mem_flatMap, forall_exists_index, and_imp]
  rw [syscallDataSize]
  constructor
  · intro h
    have hlast := (hfield .status).1 fun v hv => h v .status hstatus hv
    rw [SyscallField.offset] at hlast
    omega
  · intro h v field _ hv
    have hle := hoffset field
    refine (hfield field).2 ?_ v hv
    omega

variable {a : ℕ} {heap : Heap} {frame : Option ℕ} {s : State}

/-- The blocks for medium payloads are above the kernel. -/
theorem UserCall.delivered_confined (c : UserCall) (h : s.Formed) :
    ∀ v ∈ c.delivered a heap frame s, payloadAreaBase ≤ v := by
  rw [UserCall.delivered]
  split
  · rename_i n block s' _ hblock
    split
    · simp
    obtain ⟨-, hnone | hfrom⟩ := State.touches_allocateMediumPayloadBlock
      hblock fun _ _ => ⟨trivial, trivial⟩
    · cases hnone
    · obtain ⟨hlow, hhigh, -⟩ := (h.mediumPool a).block hfrom.symm
      rw [show mediumPayloadPoolBase = 0x20000000 from rfl] at hlow hhigh
      have hn : n.val ≤ 256 := Nat.lt_succ_iff.1 n.isLt
      rcases Nat.eq_zero_or_pos n.val with hzero | hpos
      · simp [hzero, bytesFrom]
      · exact (bytesFrom_confined_iff (by omega) hpos).2
          ⟨hlow, by omega⟩
  · simp

/-- A payload that is copied from above the kernel depends on nothing below. -/
theorem State.readBytes_congr {s₁ s₂ : State} {n address : ℕ}
    (h : ∀ v ∈ bytesFrom address n, s₁.read a v = s₂.read a v) (haddress : address < 2 ^ 32) :
    s₁.readBytes a n address = s₂.readBytes a n address := by
  induction n generalizing address with
  | zero => rfl
  | succ n ih =>
    have hfirst := h address (List.mem_map.2 ⟨0, by simp, Nat.mod_eq_of_lt haddress⟩)
    have hnext : ∀ v ∈ bytesFrom ((address + 1) % 2 ^ 32) n, s₁.read a v = s₂.read a v := by
      intro v hv
      obtain ⟨i, hi, rfl⟩ := List.mem_map.1 hv
      refine h _ (List.mem_map.2 ⟨i + 1, ?_, ?_⟩)
      · rw [List.mem_range] at hi ⊢
        omega
      · omega
    rw [State.readBytes, State.readBytes, hfirst, ih hnext (Nat.mod_lt _ (by decide))]

theorem UserCall.collected_confined_iff (c : UserCall) (hsize : syscallDataSize ≤ c.size.toNat) :
    (∀ v ∈ c.collected, payloadAreaBase ≤ v) ↔
      (c.Copies → payloadAreaBase ≤ c.payload.toNat ∧ c.payload.toNat + c.payloadSize.toNat ≤ 2 ^ 32) := by
  rw [UserCall.collected]
  split
  case isTrue hnot =>
    refine iff_of_true (by simp) fun hcopies => ?_
    obtain ⟨-, hcall, hfound, -⟩ := hcopies
    simp [hcall, hfound] at hnot
  case isFalse hsends =>
    obtain ⟨hcall, hfound⟩ := not_or.1 hsends
    split
    case isTrue hlarge =>
      refine iff_of_true (by simp) fun hcopies => ?_
      obtain ⟨-, -, -, -, hle, hnone⟩ := hcopies
      omega
    case isFalse hmedium =>
      rcases Nat.eq_zero_or_pos c.payloadSize.toNat with hzero | hpos
      · rw [hzero]
        exact iff_of_true (by simp [bytesFrom]) fun hcopies => absurd hzero hcopies.2.2.2.1.ne'
      · have hcopies : c.Copies :=
          ⟨hsize, hcall, Bool.eq_true_of_not_eq_false hfound, hpos, by omega, by omega⟩
        rw [bytesFrom_confined_iff c.payload.isLt hpos]
        exact ⟨fun h _ => h, fun h => h hcopies⟩

/-- **What the kernel touches is above the kernel** if and only if the structure does not come around at
the end of the address space, and neither does a medium payload that begins above the kernel. Then what is
sent depends only on what is above the kernel. -/
theorem touched_confined_iff {boot : Boot} {ok : State → Action → Prop}
    (h : Run State.step ok boot.initial s) (c : UserCall) (a : ℕ) (heap : Heap) (frame : Option ℕ) :
    ((∀ v ∈ c.touched a heap frame s, payloadAreaBase ≤ v) ↔
      (payloadAreaBase ≤ c.address.toNat → c.address.toNat + syscallDataSize ≤ 2 ^ 32 ∧
        (c.Copies → payloadAreaBase ≤ c.payload.toNat ∧
          c.payload.toNat + c.payloadSize.toNat ≤ 2 ^ 32))) ∧
    ((∀ v ∈ c.touched a heap frame s, payloadAreaBase ≤ v) → payloadAreaBase ≤ c.address.toNat →
      c.Copies → ∀ (sender : ℕ) (s₁ s₂ : State),
        (∀ v, payloadAreaBase ≤ v → s₁.read sender v = s₂.read sender v) →
        s₁.readBytes sender c.payloadSize.toNat c.payload.toNat =
          s₂.readBytes sender c.payloadSize.toNat c.payload.toNat) := by
  have hiff : (∀ v ∈ c.touched a heap frame s, payloadAreaBase ≤ v) ↔
      (payloadAreaBase ≤ c.address.toNat → c.address.toNat + syscallDataSize ≤ 2 ^ 32 ∧
        (c.Copies → payloadAreaBase ≤ c.payload.toNat ∧
          c.payload.toNat + c.payloadSize.toNat ≤ 2 ^ 32)) := by
    rw [UserCall.touched]
    by_cases huser : payloadAreaBase ≤ c.address.toNat
    swap
    · rw [if_neg (by simpa [isUserAddress] using huser)]
      exact iff_of_true (by simp) fun hle => absurd hle huser
    rw [if_pos (by simpa [isUserAddress] using huser), List.forall_mem_append,
      syscallField_confined_iff c.address.isLt huser (by simp), forall_prop_of_true huser]
    refine and_congr_right fun hends => ?_
    by_cases hsize : c.size.toNat < syscallDataSize
    · rw [if_pos hsize]
      exact iff_of_true (by simp) fun hcopies => absurd hcopies.1 (not_le.2 hsize)
    · have hstatus : .status ∈ c.fields := by
        rw [UserCall.fields]
        split
        · simp
        · split <;> simp
      rw [if_neg hsize, List.forall_mem_append, List.forall_mem_append,
        syscallField_confined_iff c.address.isLt huser hstatus, and_iff_right hends,
        and_iff_left (c.delivered_confined (formed_of_run h)), c.collected_confined_iff (not_lt.1 hsize)]
  refine ⟨hiff, fun hconfined huser hcopies sender s₁ s₂ hsame => ?_⟩
  obtain ⟨hbase, hend⟩ := (hiff.1 hconfined huser).2 hcopies
  refine State.readBytes_congr (fun v hv => hsame v ?_) c.payload.isLt
  exact (bytesFrom_confined_iff c.payload.isLt hcopies.2.2.2.1).2 ⟨hbase, hend⟩ v hv

/-- A medium payload in user memory. -/
theorem touched_confined_medium : Run State.step Always Boot.small.initial Boot.small.initial ∧
    ∀ v ∈ UserCall.touched ⟨.send, 0x40001000, 32, true, 0x40000000, 4, 0, none⟩ 0 Heap.plenty none
      Boot.small.initial, payloadAreaBase ≤ v := by
  have hrun : Run State.step Always Boot.small.initial Boot.small.initial := .refl
  refine ⟨hrun, ?_⟩
  refine (touched_confined_iff hrun _ 0 Heap.plenty none).1.2 fun _ => ⟨by decide, fun _ => by decide⟩

/-- A medium payload that is said to be in kernel memory. -/
theorem not_touched_confined : ¬∀ (c : UserCall) (a : ℕ) (heap : Heap) (frame : Option ℕ) (s : State),
    Run State.step Always Boot.small.initial s →
    ∀ v ∈ c.touched a heap frame s, payloadAreaBase ≤ v := by
  intro hconfined
  have hcall := hconfined ⟨.send, 0x40001000, 32, true, 0x1000, 4, 0, none⟩ 0 Heap.plenty none _ .refl
  exact absurd (hcall 0x1000 (by decide)) (by decide)

end Dx.Memory
