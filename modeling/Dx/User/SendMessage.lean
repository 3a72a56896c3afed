import Dx.Libc.Blocks
import Dx.Memory.PageDirectory

/-!
# Sending a misaligned payload

The pages of a payload are mapped at the destination address as they are, so the payload must have the
same page offset as the destination. `send_misaligned_message` copies a payload that has not to a buffer
that is almost a page larger, at the position there that has the offset. The position is always within
the first page of the buffer, and the slack suffices. But the size of the buffer is computed with 32
bits: for a payload of almost the whole address space it comes around, and what is sent is not in the
tiny buffer that was allocated (`not_misaligned_copy`). And `memcpy` does nothing if the payload, or the
position in the buffer, is at `NULL`.
-/

namespace Dx.User

open Libc Memory Function

/-- `message_s`. -/
structure UserMessage where
  destination : BitVec 32
  type : BitVec 32
  id : BitVec 32
  data : BitVec 32
  dataSize : BitVec 32
  destinationAddress : BitVec 32

/-- What a call of `send_misaligned_message` came to. -/
structure Sending where
  status : Status
  /-- The message that was passed to the kernel, and the memory at that time. -/
  sent : Option (UserMessage × ByteMemory)
  /-- The buffer that is freed in the end. -/
  freed : Option (BitVec 32)

/-- What is asked of `malloc`: `data_size + PAGE_SIZE - 1`. -/
def UserMessage.requested (message : UserMessage) : BitVec 32 :=
  message.dataSize + BitVec.ofNat 32 pageSize - 1

/-- The position within the buffer that has the page offset of the destination address. -/
def alignedData (buffer destinationAddress : BitVec 32) : BitVec 32 :=
  let bufferOffset := pageOffset buffer.toNat
  let destinationOffset := pageOffset destinationAddress.toNat
  if bufferOffset < destinationOffset then
    buffer + BitVec.ofNat 32 (destinationOffset - bufferOffset)
  else if destinationOffset < bufferOffset then
    BitVec.ofNat 32 (pageAlign buffer.toNat) + BitVec.ofNat 32 destinationOffset
  else buffer

/-- `send_misaligned_message`, where `kernel` is the status of `send_message`; `none` is an assertion
that fails. -/
def sendMisalignedMessage (malloc : BitVec 32 → BitVec 32)
    (kernel : UserMessage → ByteMemory → Status) (m : ByteMemory) :
    Option UserMessage → Option Sending
  | none => some ⟨.invalidData, none, none⟩
  | some message =>
    if message.destinationAddress = 0 ∨
        pageOffset message.data.toNat = pageOffset message.destinationAddress.toNat then
      some ⟨kernel message m, some (message, m), none⟩
    else
      let buffer := malloc message.requested
      if buffer = 0 then some ⟨.insufficientMemory, none, none⟩
      else
        let aligned := { message with data := alignedData buffer message.destinationAddress }
        if (aligned.data - buffer).toInt < pageSize ∧
            pageOffset aligned.data.toNat = pageOffset aligned.destinationAddress.toNat then
          let m := (Libc.memcpy aligned.data message.data message.dataSize m).2
          some ⟨kernel aligned m, some (aligned, m), some buffer⟩
        else none

/-- What `malloc` may return: the buffer is inside the address space, and away from the payload. -/
structure Allotted (message : UserMessage) (buffer : BitVec 32) : Prop where
  ne_zero : buffer ≠ 0
  inside : buffer.toNat + message.requested.toNat ≤ 2 ^ 32
  disjoint : ∀ i < message.requested.toNat, ∀ j < message.dataSize.toNat,
    buffer + BitVec.ofNat 32 i ≠ message.data + BitVec.ofNat 32 j

/-- The payload that is sent is inside of the buffer, has the bytes of the original, and the page
offset of the destination address. -/
structure Realigned (message : UserMessage) (buffer : BitVec 32) (m : ByteMemory)
    (aligned : UserMessage) (m' : ByteMemory) : Prop where
  unchanged : aligned = { message with data := aligned.data }
  inside : ∀ i < message.dataSize.toNat,
    (aligned.data + BitVec.ofNat 32 i - buffer).toNat < message.requested.toNat
  payload : ∀ i < message.dataSize.toNat,
    m' (aligned.data + BitVec.ofNat 32 i) = m (message.data + BitVec.ofNat 32 i)
  offset : pageOffset aligned.data.toNat = pageOffset message.destinationAddress.toNat

def slack (buffer destinationAddress : BitVec 32) : ℕ :=
  (pageOffset destinationAddress.toNat + pageSize - pageOffset buffer.toNat) % pageSize

variable {message : UserMessage} {buffer d x : BitVec 32} {i j : ℕ} {m m' : ByteMemory}

theorem slack_lt : slack buffer d < 4096 := Nat.mod_lt _ (by decide)

theorem alignedData_eq : alignedData buffer d = buffer + BitVec.ofNat 32 (slack buffer d) := by
  refine BitVec.eq_of_toNat_eq ?_
  rw [alignedData, slack]
  split_ifs <;> simp only [pageOffset, pageAlign, pageBase, pageSize_eq, BitVec.toNat_add,
    BitVec.toNat_ofNat] at * <;> omega

theorem pageOffset_alignedData : pageOffset (alignedData buffer d).toNat = pageOffset d.toNat := by
  simp only [alignedData_eq, slack, pageOffset, pageSize_eq, BitVec.toNat_add, BitVec.toNat_ofNat]
  omega

theorem toNat_alignedData_sub (h : i + slack buffer d < 2 ^ 32) :
    (alignedData buffer d + BitVec.ofNat 32 i - buffer).toNat = i + slack buffer d := by
  rw [alignedData_eq, add_assoc, add_sub_cancel_left, BitVec.toNat_add, BitVec.toNat_ofNat,
    BitVec.toNat_ofNat]
  omega

theorem toNat_requested (message : UserMessage) :
    message.requested.toNat = (message.dataSize.toNat + 4095) % 2 ^ 32 := by
  rw [UserMessage.requested, add_sub_assoc, BitVec.toNat_add]
  rfl

theorem sendMisalignedMessage_eq {malloc : BitVec 32 → BitVec 32}
    (kernel : UserMessage → ByteMemory → Status) (m : ByteMemory)
    (haddress : message.destinationAddress ≠ 0)
    (hoffset : pageOffset message.data.toNat ≠ pageOffset message.destinationAddress.toNat)
    (hbuffer : malloc message.requested = buffer) (hnull : buffer ≠ 0) :
    sendMisalignedMessage malloc kernel m (some message) =
      let aligned := { message with data := alignedData buffer message.destinationAddress }
      let m' := (Libc.memcpy aligned.data message.data message.dataSize m).2
      some ⟨kernel aligned m', some (aligned, m'), some buffer⟩ := by
  have hdistance : (alignedData buffer message.destinationAddress - buffer).toInt < pageSize := by
    have hlt : slack buffer message.destinationAddress < 4096 := slack_lt
    rw [alignedData_eq, add_sub_cancel_left, BitVec.toInt_eq_toNat_cond, BitVec.toNat_ofNat,
      pageSize_eq]
    split <;> omega
  simp only [sendMisalignedMessage, if_neg (not_or.2 ⟨haddress, hoffset⟩), hbuffer, if_neg hnull]
  rw [if_pos ⟨hdistance, pageOffset_alignedData⟩]

theorem Allotted.ne_payload (h : Allotted message buffer)
    (hx : (x - buffer).toNat < message.requested.toNat) (hj : j < message.dataSize.toNat) :
    x ≠ message.data + BitVec.ofNat 32 j := by
  have := h.disjoint _ hx j hj
  rwa [BitVec.ofNat_toNat, BitVec.setWidth_eq, add_sub_cancel] at this

theorem Allotted.above (hdata : message.data.toNat + message.dataSize.toNat ≤ buffer.toNat)
    (hpos : 0 < buffer.toNat) (hinside : buffer.toNat + message.requested.toNat ≤ 2 ^ 32) :
    Allotted message buffer where
  ne_zero h := by
    rw [h] at hpos
    exact absurd hpos (by decide)
  inside := hinside
  disjoint i hi j hj heq := by
    have := congrArg BitVec.toNat heq
    simp only [BitVec.toNat_add, BitVec.toNat_ofNat] at this
    omega

/-- A payload whose buffer would be larger than the address space does not fit into what is
allocated. -/
theorem not_realigned_of_wrap {aligned : UserMessage} (h : 2 ^ 32 ≤ message.dataSize.toNat + 4095)
    (hdata : aligned.data = alignedData buffer d) : ¬ Realigned message buffer m aligned m' := by
  intro hcopy
  have hslack : slack buffer d < 4096 := slack_lt
  have hin := hcopy.inside 4095 (by omega)
  rw [hdata, toNat_alignedData_sub (by omega), toNat_requested] at hin
  omega

/-- **The copy of a misaligned payload.** It is correct for every memory, wherever the buffer is,
exactly if the payload is empty, or it is not at `NULL` and the size of the buffer does not
overflow. -/
theorem misaligned_copy_iff {malloc : BitVec 32 → BitVec 32}
    (kernel : UserMessage → ByteMemory → Status) (haddress : message.destinationAddress ≠ 0)
    (hoffset : pageOffset message.data.toNat ≠ pageOffset message.destinationAddress.toNat)
    (hbuffer : malloc message.requested = buffer) (hallotted : Allotted message buffer) :
    (∀ m, ∃ aligned m', sendMisalignedMessage malloc kernel m (some message) =
        some ⟨kernel aligned m', some (aligned, m'), some buffer⟩ ∧
      Realigned message buffer m aligned m') ↔
    message.dataSize.toNat = 0 ∨
      message.data ≠ 0 ∧ message.dataSize.toNat + (pageSize - 1) < 2 ^ 32 := by
  have hrequested := toNat_requested message
  have hslack : slack buffer message.destinationAddress < 4096 := slack_lt
  have hrun := fun m => sendMisalignedMessage_eq kernel m haddress hoffset hbuffer hallotted.ne_zero
  rw [pageSize_eq]
  constructor
  · intro h
    by_contra hnot
    -- one byte is not zero: the one at `NULL`
    obtain ⟨aligned, m', heq, hcopy⟩ := h (update 0 0 1)
    rw [hrun] at heq
    simp only [Option.some.injEq, Sending.mk.injEq, Prod.mk.injEq, and_true] at heq
    obtain ⟨-, rfl, rfl⟩ := heq
    by_cases hwrap : message.dataSize.toNat + 4095 < 2 ^ 32
    · have hnull : message.data = 0 := by
        by_contra hne
        exact hnot (.inr ⟨hne, hwrap⟩)
      have hbyte := hcopy.payload 0 (by omega)
      have hne := hallotted.ne_payload (hcopy.inside 0 (by omega))
        (show 0 < message.dataSize.toNat by omega)
      rw [hnull] at hbyte hne
      simp [Libc.memcpy] at hbyte hne
      simp [update_of_ne hne] at hbyte
    · exact not_realigned_of_wrap (Nat.le_of_not_lt hwrap) rfl hcopy
  · intro h m
    refine ⟨_, _, hrun m, rfl, ?_, ?_, pageOffset_alignedData⟩
    · intro i hi
      rw [toNat_alignedData_sub (by omega)]
      omega
    · intro i hi
      obtain ⟨hdata, hwrap⟩ := h.resolve_left (by omega)
      refine memcpy_apply ?_ hdata ?_ hi
      · intro hnull
        have hsum : _ = 0 := congrArg BitVec.toNat hnull
        have hstart : buffer.toNat ≠ 0 := fun h => hallotted.ne_zero (BitVec.eq_of_toNat_eq h)
        have hend := hallotted.inside
        rw [alignedData_eq, BitVec.toNat_add, BitVec.toNat_ofNat] at hsum
        omega
      · intro i j hij hj
        refine hallotted.ne_payload ?_ hj
        rw [toNat_alignedData_sub (by omega)]
        omega

/-- Eight bytes, for the second byte of a page, in a buffer that begins at the end of one. -/
theorem misaligned_copy_end : Allotted ⟨1, 2, 3, 0x3000, 8, 0x40000001⟩ 0x5FF8 ∧ ∀ m, ∃ aligned m',
    sendMisalignedMessage (fun _ => 0x5FF8) (fun _ _ => .success) m
      (some ⟨1, 2, 3, 0x3000, 8, 0x40000001⟩) =
      some ⟨.success, some (aligned, m'), some 0x5FF8⟩ ∧
    Realigned ⟨1, 2, 3, 0x3000, 8, 0x40000001⟩ 0x5FF8 m aligned m' := by
  have hallotted : Allotted ⟨1, 2, 3, 0x3000, 8, 0x40000001⟩ 0x5FF8 :=
    .above (by decide) (by decide) (by decide)
  exact ⟨hallotted, (misaligned_copy_iff (fun _ _ => .success) (by decide) (by decide) rfl hallotted).2
    (.inr ⟨by decide, by decide⟩)⟩

/-- A payload of all but 4094 bytes: `malloc` is asked for one byte. The next address with the page
offset of the destination is 0, where `memcpy` copies nothing, and the message is sent from there. -/
theorem not_misaligned_copy : ∃ message buffer,
    message.data.toNat + message.dataSize.toNat ≤ 2 ^ 32 ∧ message.requested = 1 ∧
    Allotted message buffer ∧ ∀ kernel m, ∃ aligned m',
      sendMisalignedMessage (fun _ => buffer) kernel m (some message) =
        some ⟨kernel aligned m', some (aligned, m'), some buffer⟩ ∧
      ¬ Realigned message buffer m aligned m' := by
  refine ⟨⟨1, 2, 3, 1, 0xFFFFF002, 0x40000000⟩, 0xFFFFF100, by decide, by decide,
    .above (by decide) (by decide) (by decide), fun kernel m => ⟨_, _,
      sendMisalignedMessage_eq kernel m (by decide) (by decide) rfl (by decide), ?_⟩⟩
  exact not_realigned_of_wrap (d := 0x40000000) (by decide) rfl

end Dx.User
