import Dx.Library.Run
import Mathlib.Data.Nat.Notation
import Mathlib.Logic.Function.Basic

/-!
# The console

`console.c`: keys come from the keyboard driver as messages and are kept in a buffer until a client
reads them. A read is answered at once when there are keys, and otherwise by the next key.

The buffer has a word for each key, and the reply is a block of bytes that begins where the buffer
begins and has as many bytes as there are keys. So a block (`block`) has the first key and then the
rest of its word, where the client expects the keys (`keys`); the two agree when there is one key, and
for more only when the other keys are the bytes of the first words (`Spread`). The history of the
console says what this does to the client: the blocks of all replies, followed by what is in the
buffer, are the keys that were accepted, as long as each read finds keys that are spread.
-/

namespace Dx.User

open Library Function List

/-- `KEYBOARD_BUFFER_SIZE`. -/
def keyboardBufferLimit : ℕ := 32

def vgaDriver : ℕ := 1

def readKeyboardCharacter (word : BitVec 32) : BitVec 8 := (word &&& 0xFF).setWidth 8

/-- The messages the console receives, with the fields it reads. -/
inductive ConsoleRequest
  | write (data : BitVec 32) (dataSize : ℕ)
  | flush (source id : ℕ)
  | read (source id : ℕ)
  | keyboardInput (data : BitVec 32)
  /-- `MESSAGE_TYPE_NULL`, and every other type. -/
  | null
deriving DecidableEq, Repr

inductive ConsoleReply
  /-- `MESSAGE_TYPE_WRITE`, to the display. -/
  | write (destination : ℕ) (data : BitVec 32) (dataSize : ℕ)
  | flushComplete (destination id : ℕ)
  /-- `MESSAGE_TYPE_READ_COMPLETE`, with the bytes that the kernel copies out of the payload. -/
  | readComplete (destination id : ℕ) (data : List (BitVec 8))
deriving DecidableEq, Repr

/-- `console_context_s`. -/
structure ConsoleContext where
  /-- `keyboard_buffer`, an array of words. -/
  keyboardBuffer : ℕ → BitVec 32
  keyboardBufferSize : ℕ
  keyboardBufferOverflow : BitVec 32
  readPending : Bool
  /-- `read_reply`: its destination and id. -/
  readReply : ℕ × ℕ

namespace ConsoleContext

/-- The context as `main` clears it. -/
def initial : ConsoleContext := ⟨fun _ => 0, 0, 0, false, (0, 0)⟩

/-- The byte at the offset `i` of the buffer in memory. -/
def byteAt (console : ConsoleContext) (i : ℕ) : BitVec 8 :=
  (console.keyboardBuffer (i / 4)).extractLsb' (8 * (i % 4)) 8

/-- The payload of a reply: `keyboard_buffer_size` bytes at `keyboard_buffer`. -/
def block (console : ConsoleContext) : List (BitVec 8) :=
  (List.range console.keyboardBufferSize).map console.byteAt

def keys (console : ConsoleContext) : List (BitVec 8) :=
  (List.range console.keyboardBufferSize).map fun i => (console.keyboardBuffer i).setWidth 8

def echo (character : BitVec 8) : ConsoleReply := .write vgaDriver (character.signExtend 32) 0

def finishRead (console : ConsoleContext) : ConsoleReply × ConsoleContext :=
  (.readComplete console.readReply.1 console.readReply.2 console.block,
    { console with readPending := false, keyboardBufferSize := 0 })

def readInput (source id : ℕ) (console : ConsoleContext) : List ConsoleReply × ConsoleContext :=
  let console := { console with readReply := (source, id) }
  if 0 < console.keyboardBufferSize then ([console.finishRead.1], console.finishRead.2)
  else ([], { console with readPending := true })

/-- The part of `save_input` that puts the character into the buffer. -/
def save (character : BitVec 8) (console : ConsoleContext) : ConsoleContext :=
  if console.keyboardBufferSize < keyboardBufferLimit then
    { console with
      keyboardBuffer := Function.update console.keyboardBuffer console.keyboardBufferSize
        (character.signExtend 32)
      keyboardBufferSize := console.keyboardBufferSize + 1 }
  else { console with keyboardBufferOverflow := console.keyboardBufferOverflow + 1 }

def saveInput (data : BitVec 32) (console : ConsoleContext) : List ConsoleReply × ConsoleContext :=
  let character := readKeyboardCharacter data
  let console := console.save character
  if console.readPending then ([echo character, console.finishRead.1], console.finishRead.2)
  else ([echo character], console)

/-- One turn of the loop of `wait_for_messages`. -/
def dispatch (console : ConsoleContext) : ConsoleRequest → List ConsoleReply × ConsoleContext
  | .write data dataSize => ([.write vgaDriver data dataSize], console)
  | .flush source id => ([.flushComplete source id], console)
  | .read source id => console.readInput source id
  | .keyboardInput data => console.saveInput data
  | .null => ([], console)

/-! ### The bytes of the buffer -/

/-- Byte `i` of words that are the characters `keys`, extended: the character itself, or a copy of
its sign. -/
def spreadByte (keys : List (BitVec 8)) (i : ℕ) : BitVec 8 :=
  let character := keys.getD (i / 4) 0
  if i % 4 = 0 then character else if character.msb then 0xFF else 0

/-- The keys are the first bytes of the words they are kept in. This holds of one key, and of more
only when each is 0, or 0xFF, or a repetition as the words demand. -/
def Spread (keys : List (BitVec 8)) : Prop := ∀ i < keys.length, keys.getD i 0 = spreadByte keys i

instance (keys : List (BitVec 8)) : Decidable (Spread keys) :=
  inferInstanceAs (Decidable (∀ i < _, _))

theorem spread_of_length_le_one {keys : List (BitVec 8)} (h : keys.length ≤ 1) : Spread keys := by
  intro i hi
  obtain rfl : i = 0 := by omega
  rfl

def Extended (console : ConsoleContext) : Prop :=
  ∀ i < console.keyboardBufferSize, ∃ character : BitVec 8,
    console.keyboardBuffer i = character.signExtend 32

theorem setWidth_signExtend (character : BitVec 8) :
    (character.signExtend 32).setWidth 8 = character := by
  revert character
  decide +kernel

theorem extractLsb'_signExtend (character : BitVec 8) {k : ℕ} (h : k < 4) :
    (character.signExtend 32).extractLsb' (8 * k) 8 =
      if k = 0 then character else if character.msb then 0xFF else 0 := by
  have hall : ∀ character : BitVec 8, ∀ k < 4, (character.signExtend 32).extractLsb' (8 * k) 8 =
      if k = 0 then character else if character.msb then 0xFF else 0 := by
    decide +kernel
  exact hall character k h

variable {console : ConsoleContext}

theorem length_keys : console.keys.length = console.keyboardBufferSize := by
  rw [keys, length_map, length_range]

theorem getD_map_range {f : ℕ → BitVec 8} {n i : ℕ} (h : i < n) :
    ((List.range n).map f).getD i 0 = f i := by
  rw [getD_eq_getElem?_getD, List.getElem?_map, List.getElem?_range h]
  rfl

theorem getD_keys {i : ℕ} (h : i < console.keyboardBufferSize) :
    console.keys.getD i 0 = (console.keyboardBuffer i).setWidth 8 :=
  getD_map_range h

theorem byteAt_eq (h : console.Extended) {i : ℕ} (hi : i < console.keyboardBufferSize) :
    console.byteAt i = spreadByte console.keys i := by
  have hi' : i / 4 < console.keyboardBufferSize := by omega
  obtain ⟨character, hcharacter⟩ := h (i / 4) hi'
  rw [byteAt, spreadByte, getD_keys hi', hcharacter, setWidth_signExtend,
    extractLsb'_signExtend _ (Nat.mod_lt _ (by omega))]

/-- The block of a reply is the keys exactly when they are spread. -/
theorem block_eq_keys_iff (h : console.Extended) : console.block = console.keys ↔
    Spread console.keys := by
  have hblock : console.block = (List.range console.keyboardBufferSize).map
      (spreadByte console.keys) :=
    map_congr_left fun i hi => byteAt_eq h (mem_range.1 hi)
  rw [hblock, Spread, length_keys]
  constructor
  · intro heq i hi
    rw [← getD_map_range (f := spreadByte console.keys) hi, heq]
  · intro hspread
    refine map_congr_left fun i hi => ?_
    rw [← hspread i (mem_range.1 hi), getD_keys (mem_range.1 hi)]

/-! ### One message -/

theorem readPending_save (character : BitVec 8) :
    (console.save character).readPending = console.readPending := by
  unfold save
  split <;> rfl

theorem readReply_save (character : BitVec 8) :
    (console.save character).readReply = console.readReply := by
  unfold save
  split <;> rfl

theorem Extended.save (h : console.Extended) (character : BitVec 8) :
    (console.save character).Extended := by
  unfold ConsoleContext.save
  split
  case isTrue =>
    intro i hi
    by_cases heq : i = console.keyboardBufferSize
    · exact ⟨character, by rw [heq]; exact update_self ..⟩
    · obtain ⟨c, hc⟩ := h i (by dsimp only at hi; omega)
      exact ⟨c, (update_of_ne heq ..).trans hc⟩
  case isFalse => exact h

theorem keys_save (character : BitVec 8) : (console.save character).keys =
    console.keys ++ if console.keyboardBufferSize < keyboardBufferLimit then [character] else [] := by
  unfold save
  split
  case isTrue =>
    have hkeys : (List.range console.keyboardBufferSize).map (fun i =>
        (update console.keyboardBuffer console.keyboardBufferSize
          (character.signExtend 32) i).setWidth 8) = console.keys :=
      map_congr_left fun i hi => by
        rw [update_of_ne (Nat.ne_of_lt (mem_range.1 hi))]
    rw [keys, range_succ, map_append, hkeys, map_singleton]
    dsimp only
    rw [update_self, setWidth_signExtend]
  case isFalse => exact (append_nil _).symm

end ConsoleContext

/-! ### The history of the console -/

structure Terminal where
  console : ConsoleContext
  /-- The read requests it has received, each with its source and id. -/
  reads : List (ℕ × ℕ)
  sent : List ConsoleReply
  /-- The characters that were typed, and whether there was room for each of them. -/
  typed : List (BitVec 8 × Bool)

namespace Terminal

open ConsoleContext

/-- The reply to a read, in a message that is one. -/
def readReply : ConsoleReply → Option ((ℕ × ℕ) × List (BitVec 8))
  | .readComplete destination id data => some ((destination, id), data)
  | _ => none

def replies (s : Terminal) : List ((ℕ × ℕ) × List (BitVec 8)) := s.sent.filterMap readReply

def delivered (s : Terminal) : List (BitVec 8) := s.replies.flatMap (·.2)

def accepted (s : Terminal) : List (BitVec 8) := (s.typed.filter (·.2)).map (·.1)

def lost (s : Terminal) : ℕ := (s.typed.filter fun key => !key.2).length

def initial : Terminal := ⟨.initial, [], [], []⟩

/-- The console receives a message. There is one reader at a time: the next read is sent when the
one before it has been answered. -/
def step (s : Terminal) (request : ConsoleRequest) : Option Terminal :=
  let result := s.console.dispatch request
  let next := { s with console := result.2, sent := s.sent ++ result.1 }
  match request with
  | .read source id =>
    if s.replies.length = s.reads.length then some { next with reads := s.reads ++ [(source, id)] }
    else none
  | .keyboardInput data =>
    some { next with
      typed := s.typed ++ [(readKeyboardCharacter data,
        decide (s.console.keyboardBufferSize < keyboardBufferLimit))] }
  | _ => some next

/-- A read finds keys that are the bytes of the block. -/
def ReadsSpread (s : Terminal) : ConsoleRequest → Prop
  | .read _ _ => Spread s.console.keys
  | _ => True

instance (s : Terminal) (request : ConsoleRequest) : Decidable (s.ReadsSpread request) := by
  unfold ReadsSpread
  split <;> infer_instance

def pending (s : Terminal) : List (ℕ × ℕ) :=
  if s.console.readPending then [s.console.readReply] else []

/-- What every message keeps. -/
structure Faithful (s : Terminal) : Prop where
  extended : s.console.Extended
  waiting : s.console.readPending → s.console.keyboardBufferSize = 0
  answered : s.replies.map (·.1) ++ s.pending = s.reads
  delivered : s.delivered ++ s.console.keys = s.accepted
  overflow : s.console.keyboardBufferOverflow = BitVec.ofNat 32 s.lost

theorem faithful_initial : initial.Faithful where
  extended := fun i hi => absurd hi (Nat.not_lt_zero i)
  waiting := fun _ => rfl
  answered := rfl
  delivered := rfl
  overflow := rfl

variable {s t : Terminal}

theorem Faithful.other (h : s.Faithful) {reply : List ConsoleReply}
    (hreply : reply.filterMap readReply = []) :
    ({ s with sent := s.sent ++ reply } : Terminal).Faithful := by
  have hreplies : ({ s with sent := s.sent ++ reply } : Terminal).replies = s.replies := by
    rw [replies, filterMap_append, hreply, append_nil]
    rfl
  refine ⟨h.extended, h.waiting, ?_, ?_, h.overflow⟩
  · rw [hreplies]
    exact h.answered
  · rw [Terminal.delivered, hreplies]
    exact h.delivered

/-- The reply to the pending read, with a block that is the keys. -/
theorem Faithful.finishRead (console : ConsoleContext) (reply : List ConsoleReply)
    (hextended : console.Extended) (hspread : Spread console.keys)
    (hreply : reply.filterMap readReply = [])
    (hanswered : s.replies.map (·.1) ++ [console.readReply] = s.reads)
    (hdelivered : s.delivered ++ console.keys = s.accepted)
    (hoverflow : console.keyboardBufferOverflow = BitVec.ofNat 32 s.lost) :
    ({ s with
      console := console.finishRead.2
      sent := s.sent ++ (reply ++ [console.finishRead.1]) } : Terminal).Faithful := by
  have hreplies : ({ s with
      console := console.finishRead.2
      sent := s.sent ++ (reply ++ [console.finishRead.1]) } : Terminal).replies =
      s.replies ++ [(console.readReply, console.keys)] := by
    rw [replies, filterMap_append, filterMap_append, hreply,
      ← (block_eq_keys_iff hextended).2 hspread]
    rfl
  refine ⟨fun i hi => absurd hi (Nat.not_lt_zero i), fun _ => rfl, ?_, ?_, hoverflow⟩
  · rw [hreplies, map_append, append_assoc]
    exact hanswered
  · rw [Terminal.delivered, hreplies, flatMap_append, append_assoc]
    change s.delivered ++ ((console.keys ++ []) ++ []) = s.accepted
    rw [append_nil, append_nil, hdelivered]

section

variable (h : s.Faithful)
include h

namespace Faithful

/-- One reader at a time: when a read is sent, none is pending. -/
theorem pending_eq_nil (hlength : s.replies.length = s.reads.length) :
    s.console.readPending = false := by
  have hpending := congrArg List.length h.answered
  rw [length_append, length_map, hlength] at hpending
  have hnil : s.pending = [] := eq_nil_of_length_eq_zero (by omega)
  unfold pending at hnil
  split at hnil
  case isTrue => cases hnil
  case isFalse hfalse => exact eq_false_of_ne_true hfalse

theorem read (source id : ℕ) (hspread : Spread s.console.keys)
    (hlength : s.replies.length = s.reads.length) :
    ({ s with
      console := (s.console.readInput source id).2
      sent := s.sent ++ (s.console.readInput source id).1
      reads := s.reads ++ [(source, id)] } : Terminal).Faithful := by
  have hfalse := h.pending_eq_nil hlength
  have hanswered : s.replies.map (·.1) = s.reads := by
    have hall := h.answered
    rwa [pending, hfalse, if_neg Bool.false_ne_true, append_nil] at hall
  unfold readInput
  dsimp only
  split
  case isTrue =>
    refine finishRead (s := { s with reads := s.reads ++ [(source, id)] })
      { s.console with readReply := (source, id) } [] h.extended hspread rfl ?_
      h.delivered h.overflow
    exact congrArg (· ++ [(source, id)]) hanswered
  case isFalse hsize =>
    refine ⟨h.extended, fun _ => Nat.eq_zero_of_not_pos hsize, ?_, ?_, h.overflow⟩
    · rw [replies, append_nil]
      exact congrArg (· ++ [(source, id)]) hanswered
    · rw [Terminal.delivered, replies, append_nil]
      exact h.delivered

/-- The key is typed, before the pending read is answered. -/
theorem save (character : BitVec 8) :
    ({ s with
      console := s.console.save character
      typed := s.typed ++ [(character,
        decide (s.console.keyboardBufferSize < keyboardBufferLimit))] } : Terminal).delivered ++
      (s.console.save character).keys =
    ({ s with
      console := s.console.save character
      typed := s.typed ++ [(character,
        decide (s.console.keyboardBufferSize < keyboardBufferLimit))] } : Terminal).accepted := by
  rw [keys_save, ← append_assoc]
  change (s.delivered ++ s.console.keys) ++ _ = _
  rw [h.delivered, accepted, accepted, filter_append, map_append]
  by_cases hroom : s.console.keyboardBufferSize < keyboardBufferLimit
  · simp [hroom]
  · simp [hroom]

theorem overflow_save (character : BitVec 8) :
    (s.console.save character).keyboardBufferOverflow = BitVec.ofNat 32
      ((s.typed ++ [(character, decide (s.console.keyboardBufferSize < keyboardBufferLimit))]).filter
        fun key => !key.2).length := by
  rw [filter_append, length_append]
  unfold ConsoleContext.save
  by_cases hroom : s.console.keyboardBufferSize < keyboardBufferLimit
  · simpa [hroom, lost] using h.overflow
  · simp only [hroom, if_false, decide_false, filter_cons, Bool.not_false, if_true,
      filter_nil, length_singleton, BitVec.ofNat_add]
    rw [h.overflow]
    rfl

theorem keyboardInput (data : BitVec 32) :
    ({ s with
      console := (s.console.saveInput data).2
      sent := s.sent ++ (s.console.saveInput data).1
      typed := s.typed ++ [(readKeyboardCharacter data,
        decide (s.console.keyboardBufferSize < keyboardBufferLimit))] } : Terminal).Faithful := by
  unfold saveInput
  generalize readKeyboardCharacter data = character
  dsimp only
  split
  case isTrue hpending =>
    rw [readPending_save] at hpending
    have hsize := h.waiting hpending
    -- the buffer was empty, so there is one key for the pending read
    have hspread : Spread (s.console.save character).keys := by
      refine spread_of_length_le_one ?_
      rw [keys_save, length_append, length_keys, hsize]
      split <;> simp
    refine finishRead (s := { s with
      console := s.console.save character
      typed := s.typed ++ [(character,
        decide (s.console.keyboardBufferSize < keyboardBufferLimit))] })
      (s.console.save character) [echo character] (h.extended.save character) hspread rfl ?_ (h.save character) (h.overflow_save character)
    rw [readReply_save]
    have hanswered := h.answered
    rwa [pending, if_pos hpending] at hanswered
  case isFalse hpending =>
    refine other (s := { s with
      console := s.console.save character
      typed := s.typed ++ [(character,
        decide (s.console.keyboardBufferSize < keyboardBufferLimit))] })
      ⟨h.extended.save character, fun h => absurd h hpending, ?_, h.save character,
        h.overflow_save character⟩ rfl
    rw [readPending_save] at hpending
    have hanswered := h.answered
    rw [pending, if_neg hpending] at hanswered
    rw [pending, readPending_save, if_neg hpending]
    exact hanswered

/-- Every message keeps the invariant, if a read finds keys that are spread. -/
theorem step {request : ConsoleRequest} (hok : s.ReadsSpread request)
    (ht : s.step request = some t) : t.Faithful := by
  cases request with
  | write data dataSize | flush source id | null =>
    cases ht
    exact h.other rfl
  | read source id =>
    rw [Terminal.step] at ht
    obtain ⟨hlength, ht⟩ := Option.ite_none_right_eq_some.1 ht
    cases ht
    exact h.read source id hok hlength
  | keyboardInput data =>
    cases ht
    exact h.keyboardInput data

end Faithful

end

theorem pending_keyboardInput {data : BitVec 32} (ht : s.step (.keyboardInput data) = some t) :
    t.pending = [] := by
  cases ht
  unfold pending
  rw [if_neg]
  change ¬ (s.console.saveInput data).2.readPending = true
  unfold saveInput
  dsimp only
  split
  case isTrue => exact Bool.false_ne_true
  case isFalse h => exact h

/-- **Delivery of keys.** In every run in which each read finds keys that are the first bytes of their
words, the bytes of all replies are the accepted keys in the order they were typed, up to those that
are still in the buffer; the keys that were lost are counted; and the replies are to the reads, one
for each and in their order, up to the one that waits for the next key, which answers it. -/
theorem console_delivers_keys (h : Run step ReadsSpread initial s) :
    s.delivered ++ s.console.keys = s.accepted ∧
      s.console.keyboardBufferOverflow = BitVec.ofNat 32 s.lost ∧
      s.replies.map (·.1) ++ s.pending = s.reads ∧
      ∀ data t, s.step (.keyboardInput data) = some t → t.pending = [] := by
  have hinv : s.Faithful :=
    h.invariant faithful_initial fun hx hok hy => hx.step hok hy
  exact ⟨hinv.delivered, hinv.overflow, hinv.answered, fun _ _ => pending_keyboardInput⟩

/-- A read that waits for its key, a key that waits for its read, and two keys that are 0 but for the
first. -/
theorem console_delivers_three_reads : ∃ s, Run step ReadsSpread initial s ∧
    s.accepted = [0x61, 0x62, 0x63, 0, 0x64] ∧ s.replies.length = 3 ∧
    s.delivered ++ s.console.keys = s.accepted := by
  have heval : ∃ s ∈ runActions (restrict step ReadsSpread) initial
      [.read 7 1, .keyboardInput 0x61, .keyboardInput 0x10062, .read 7 2, .keyboardInput 0x63,
        .keyboardInput 0, .read 7 3, .keyboardInput 0x64],
      s.accepted = [0x61, 0x62, 0x63, 0, 0x64] ∧ s.replies.length = 3 := by
    decide +kernel
  obtain ⟨s, hs, haccepted, hreplies⟩ := heval
  have hrun := run_of_runActions_restrict _ hs
  exact ⟨s, hrun, haccepted, hreplies, (console_delivers_keys hrun).1⟩

/-- Two keys are typed before they are read: the reply has the first of them and the second byte of
its word, and the second key is lost without being counted. -/
theorem console_delivers_half_of_two_keys : ∃ s, Run step Always initial s ∧
    s.accepted = [0x61, 0x62] ∧ s.console.keys = [] ∧ s.delivered = [0x61, 0] ∧
    s.console.keyboardBufferOverflow = 0 :=
  exists_run [.keyboardInput 0x61, .keyboardInput 0x62, .read 7 1] (by decide +kernel)

end Terminal

end Dx.User
