import Dx.User.Stream
import Mathlib.Data.List.TakeWhile
import Mathlib.Data.Nat.Bitwise

/-!
# Reading elements, lines and messages

`fread` and `fgetc` take what they return from one call of `maybe_read`, and `fgets` reads character
by character (`fread.c`, `fgetc.c`, `fgets.c`). The data of a stream comes in replies of any length, in
front of them what is left of the last one, and in front of that the character that was pushed back;
`Input.pending` is all of it. A call takes from its front (`Input.maybeRead_of_readable`), but only
from one of the three. So `fread` returns less than it was asked for when the next of them is too
short (`fread_contract_iff`). Lines are put together whatever the replies are (`fgets_lines`), but the
end of the file is never reported by `NULL`.

`read` keeps one message structure for each stream (`InputMessage`): it deletes the message that the
structure holds, and then receives the next one into it. An attempt that fails leaves the request in
the structure, which the next attempt deletes.
-/

namespace Dx.User

open Nat

open List

open Library

/-- A stream, and the replies that its driver is going to send. Behind the last one, the file is at
its end. -/
structure Input where
  stream : Stream
  /-- The data and the status of each reply. -/
  replies : List (List UInt8 × FileStatus)

namespace Input

variable {input : Input} {bufferSize elementSize elementCount : ℕ}

def reply (input : Input) : List UInt8 × FileStatus := input.replies.headD ([], .endOfFile)

/-- `maybe_read`, with the replies to its requests: the bytes it stores. -/
def maybeRead (malloc : Bool) (bufferSize : ℕ) (input : Input) : List UInt8 × Input :=
  match input.stream.maybeRead malloc bufferSize with
  | .returns bytes stream => (bytes, ⟨stream, input.replies⟩)
  | .sends _ stream =>
    ((stream.receive bufferSize input.reply.1 input.reply.2).1,
      ⟨(stream.receive bufferSize input.reply.1 input.reply.2).2, input.replies.tail⟩)

/-- `fread`: the elements that it returns, and the bytes that it stores. The number of the bytes is a
`size_t`. -/
def fread (malloc : Bool) (elementSize elementCount : ℕ) (input : Input) : ℕ × List UInt8 × Input :=
  if elementSize < 1 ∨ elementCount < 1 then (0, [], input)
  else
    let read := input.maybeRead malloc (elementCount * elementSize % 2 ^ 32)
    (read.1.length / elementSize, read)

/-- `fgetc`, with `none` for `EOF`. -/
def fgetc (input : Input) : Option UInt8 × Input :=
  let read := input.maybeRead true 1
  (read.1.head?, read.2)

/-- The loop of `fgets`, over the size that is left. -/
def fgetsLoop : ℕ → Input → List UInt8 × Input
  | 0, input => ([], input)
  | bufferSize + 1, input =>
    match input.fgetc.1 with
    | none => ([], input.fgetc.2)
    | some c =>
      if c = 10 then ([c], input.fgetc.2)
      else
        let rest := fgetsLoop bufferSize input.fgetc.2
        (c :: rest.1, rest.2)

/-- `fgets`, with the string that the buffer holds, or `none` for `NULL`. -/
def fgets (buffer : Option (List UInt8)) (bufferSize : ℕ) (input : Input) :
    Option (List UInt8) × Input :=
  if buffer = none ∨ bufferSize < 1 then (buffer, input)
  else
    let read := input.fgetsLoop (bufferSize - 1)
    -- the string ends at the first terminator
    (some (read.1.takeWhile (· ≠ 0)), read.2)

/-! ### What is left to read -/

/-- What is still to be read: the character that was pushed back, what is left of the last message,
and what the driver sends. -/
def pending (input : Input) : List UInt8 :=
  (if input.stream.flags &&& streamPushback ≠ 0 then [input.stream.pushback] else []) ++
    input.stream.buffer ++ (input.replies.map Prod.fst).flatten

def ready (malloc : Bool) (input : Input) : ℕ :=
  if input.stream.flags &&& streamPushback ≠ 0 then 1
  else if input.stream.buffer.length ≠ 0 then input.stream.buffer.length
  else if input.stream.inputMessage || malloc then input.reply.1.length
  else 0

/-- The stream is at the end of the file, or there was an error. -/
def Ended (input : Input) : Prop := input.stream.flags &&& (streamEof ||| streamError) ≠ 0

theorem and_pushback_eq (flags : ℕ) : flags &&& streamPushback = flags / 8 % 2 * 8 := by
  rw [show streamPushback = 2 ^ 3 from rfl, and_two_pow, testBit_eq_decide_div_mod_eq]
  rcases mod_two_eq_zero_or_one (flags / 8) with h | h <;> simp [h]

theorem isReadable_iff {stream : Stream} : stream.isReadable = true ↔ stream.flags % 8 = 1 := by
  rw [Stream.isReadable, decide_eq_true_iff]
  exact iff_of_eq (congrArg (· = 1) (and_two_pow_sub_one_eq_mod _ 3))

theorem not_ended_of_readable (h : input.stream.isReadable = true) : ¬input.Ended := by
  have hmod := isReadable_iff.1 h
  have hmask : input.stream.flags &&& 7 &&& 6 = input.stream.flags &&& 6 := Nat.and_assoc _ 7 6
  rw [← Nat.and_two_pow_sub_one_eq_mod _ 3] at hmod
  rw [Ended, show streamEof ||| streamError = 6 from rfl, ← hmask, not_not]
  exact congrArg (· &&& 6) hmod

theorem marked (flags : ℕ) {mark : ℕ} (hmark : mark = streamEof ∨ mark = streamError) :
    (flags ||| mark) &&& streamPushback = flags &&& streamPushback ∧
      (flags ||| mark) &&& (streamEof ||| streamError) ≠ 0 := by
  rw [and_or_distrib_right, and_or_distrib_right, ne_eq, or_eq_zero_iff]
  rcases hmark with rfl | rfl
  · exact ⟨or_zero _, fun h => absurd h.2 (by decide)⟩
  · exact ⟨or_zero _, fun h => absurd h.2 (by decide)⟩

theorem flatten_replies (input : Input) :
    (input.replies.map Prod.fst).flatten = input.reply.1 ++ (input.replies.tail.map Prod.fst).flatten := by
  cases h : input.replies <;> simp [reply, h]

/-- A call takes bytes from the front of what is left, as many as are ready; when none are, the stream
is marked. -/
theorem maybeRead_of_readable (malloc : Bool) (h : input.stream.isReadable = true)
    (hpos : 0 < bufferSize) :
    (input.maybeRead malloc bufferSize).1 ++ (input.maybeRead malloc bufferSize).2.pending = input.pending ∧
      (input.maybeRead malloc bufferSize).1.length = min bufferSize (input.ready malloc) ∧
      (input.ready malloc = 0 → (input.maybeRead malloc bufferSize).2.Ended) ∧
      (input.ready malloc ≠ 0 → (input.maybeRead malloc bufferSize).2.stream.isReadable = true) := by
  have hmod := isReadable_iff.1 h
  unfold maybeRead Stream.maybeRead
  rw [if_neg hpos.ne', h, if_neg Bool.true_eq_false_eq_False]
  by_cases hpush : input.stream.flags &&& streamPushback ≠ 0
  · have hbit := and_pushback_eq input.stream.flags
    have hclear := and_pushback_eq (input.stream.flags - streamPushback)
    have hmod' : (input.stream.flags - streamPushback) % 8 = 1 := by
      unfold streamPushback at *
      omega
    have hzero : (input.stream.flags - streamPushback) &&& streamPushback = 0 := by
      unfold streamPushback at *
      omega
    rw [if_pos hpush]
    simp [pending, ready, isReadable_iff, hpush, hzero, hmod', succ_le_of_lt hpos]
  · rw [if_neg hpush]
    rw [not_not] at hpush
    by_cases hbuffer : input.stream.buffer.length = 0
    · rw [if_pos hbuffer]
      have hnil := eq_nil_of_length_eq_zero hbuffer
      by_cases hmessage : (input.stream.inputMessage || malloc) = true
      · rw [if_pos hmessage]
        unfold Stream.receive
        by_cases hreply : input.reply.1.length = 0
        · obtain ⟨hpush', hended'⟩ := marked input.stream.flags
            (ite_eq_or_eq (input.reply.2 = .endOfFile) streamEof streamError)
          have hdata := eq_nil_of_length_eq_zero hreply
          simp [pending, ready, Ended, hpush, hpush', hended', hnil, hdata, hmessage, flatten_replies input]
        · simp [pending, ready, isReadable_iff, hpush, hnil, hmod, hreply, hmessage, flatten_replies input,
            Stream.consume, ← append_assoc]
      · obtain ⟨hpush', hended'⟩ := marked input.stream.flags (.inr rfl)
        rw [if_neg hmessage]
        simp [pending, ready, Ended, hpush, hpush', hended', hnil, hmessage]
    · rw [if_neg hbuffer]
      simp [pending, ready, isReadable_iff, hpush, hbuffer, hmod, Stream.consume, ← append_assoc]

theorem maybeRead_of_not_readable (malloc : Bool) (h : bufferSize = 0 ∨ input.stream.isReadable = false) :
    input.maybeRead malloc bufferSize = ([], input) := by
  unfold maybeRead Stream.maybeRead
  by_cases hsize : bufferSize = 0
  · rw [if_pos hsize]
  · rw [if_neg hsize, if_pos (h.resolve_left hsize)]

/-! ### Elements -/

/-- What `fread` is to do: fewer elements are returned only if the stream is then at its end, or in
error; otherwise exactly the next bytes are stored, and what is behind them is left. -/
structure Contract (input : Input) (elementSize elementCount : ℕ) (result : ℕ × List UInt8 × Input) :
    Prop where
  short : result.1 < elementCount → result.2.2.Ended
  full : elementCount ≤ result.1 →
    result.2.1.length = elementCount * elementSize ∧ result.2.1 ++ result.2.2.pending = input.pending

/-- A call that stores nothing is right when nothing was asked for, or the stream was at its end. -/
theorem contract_nothing_iff : input.Contract elementSize elementCount (0, [], input) ↔
    elementCount = 0 ∨ input.Ended := by
  constructor
  · intro h
    exact (Nat.eq_zero_or_pos elementCount).imp_right h.short
  · intro h
    refine ⟨fun hlt => h.resolve_left hlt.ne', fun hle => ?_⟩
    simp [le_zero.1 hle]

/-- **When `fread` keeps its promise.** Apart from calls for no elements, and from streams that are
marked already, it does so exactly when the character that was pushed back, or else what is left of
the last message, or else the next message, has all the bytes, or when the driver has none. -/
theorem fread_contract_iff (malloc : Bool) (elementSize elementCount : ℕ) (input : Input) :
    input.Contract elementSize elementCount (input.fread malloc elementSize elementCount) ↔
      elementCount = 0 ∨ input.Ended ∨
        elementSize ≠ 0 ∧ input.stream.isReadable = true ∧ elementCount * elementSize % 2 ^ 32 ≠ 0 ∧
          (input.ready malloc = 0 ∨
            elementCount * elementSize < 2 ^ 32 ∧ elementCount * elementSize ≤ input.ready malloc) := by
  unfold fread
  by_cases hnone : elementSize < 1 ∨ elementCount < 1
  · rw [if_pos hnone, contract_nothing_iff]
    have hzero : elementSize ≠ 0 → elementCount = 0 := by omega
    exact ⟨Or.imp_right .inl, fun h => h.elim .inl (Or.elim · .inr fun h => .inl (hzero h.1))⟩
  rw [if_neg hnone]
  dsimp only
  by_cases hread : elementCount * elementSize % 2 ^ 32 = 0 ∨ input.stream.isReadable = false
  · rw [maybeRead_of_not_readable malloc hread]
    have hno : ¬(input.stream.isReadable = true ∧ elementCount * elementSize % 2 ^ 32 ≠ 0) := by
      rintro ⟨hopen, hbytes⟩
      exact absurd (hread.resolve_left hbytes) (by simp [hopen])
    simp only [length_nil, Nat.zero_div, contract_nothing_iff]
    exact ⟨Or.imp_right .inl, fun h => h.imp_right (Or.elim · id fun h => absurd ⟨h.2.1, h.2.2.1⟩ hno)⟩
  · obtain ⟨hbytes, hopen⟩ := not_or.1 hread
    rw [Bool.not_eq_false] at hopen
    obtain ⟨happend, hlength, hended, hstill⟩ :=
      maybeRead_of_readable malloc hopen (Nat.pos_of_ne_zero hbytes)
    have hsize : 0 < elementSize := by omega
    have hall := Nat.le_div_iff_mul_le hsize (x := elementCount)
      (y := (input.maybeRead malloc (elementCount * elementSize % 2 ^ 32)).1.length)
    by_cases hready : input.ready malloc = 0
    · have hnothing : ¬elementCount * elementSize ≤ min (elementCount * elementSize % 2 ^ 32) 0 := by
        omega
      rw [hlength, hready] at hall
      refine iff_of_true ⟨fun _ => hended hready, fun h => absurd (hall.1 ?_) hnothing⟩
        (.inr (.inr ⟨hsize.ne', hopen, hbytes, .inl hready⟩))
      rwa [hlength, hready] at h
    · constructor
      · intro h
        have hle := hall.1 (not_lt.1 (mt h.short (not_ended_of_readable (hstill hready))))
        rw [hlength] at hle
        exact .inr (.inr ⟨hsize.ne', hopen, hbytes, .inr (by omega)⟩)
      · rintro (h | h | ⟨-, -, -, h⟩)
        · omega
        · exact absurd h (not_ended_of_readable hopen)
        · have hlt := h.resolve_left hready
          rw [Nat.mod_eq_of_lt hlt.1, min_eq_left hlt.2] at hlength
          rw [Nat.mod_eq_of_lt hlt.1] at hall happend ⊢
          exact ⟨fun hshort => absurd (hall.2 hlength.ge) (not_le.2 hshort), fun _ => ⟨hlength, happend⟩⟩

/-- The file comes in two messages: two of its three bytes are returned, and the stream is not
marked. -/
theorem not_fread_contract : ∃ input : Input, input.pending = [1, 2, 3] ∧
    (input.fread true 1 3).1 = 2 ∧ ¬(input.fread true 1 3).2.2.Ended := by
  refine ⟨⟨⟨[], 0, streamOpen, false, 0⟩, [([1, 2], .success), ([3], .success)]⟩, ?_, ?_, not_not.2 ?_⟩
  all_goals decide +kernel

/-! ### Lines -/

/-- The driver sends the file in replies that are not empty, and the stream can be read as long as
something is left. -/
structure Sound (input : Input) : Prop where
  replies : ∀ reply ∈ input.replies, reply.1 ≠ []
  readable : input.pending ≠ [] → input.stream.isReadable = true

theorem replies_maybeRead {malloc : Bool} {reply : List UInt8 × FileStatus}
    (h : reply ∈ (input.maybeRead malloc bufferSize).2.replies) : reply ∈ input.replies := by
  unfold maybeRead at h
  split at h
  · exact h
  · exact mem_of_mem_tail h

theorem Sound.ready (h : input.Sound) (hne : input.pending ≠ []) : input.ready true ≠ 0 := by
  unfold Input.ready
  split
  · exact one_ne_zero
  · split
    · assumption
    · rename_i hpush hbuffer
      rw [not_not] at hpush hbuffer
      rw [pending, if_neg (not_not.2 hpush), eq_nil_of_length_eq_zero hbuffer] at hne
      cases hreplies : input.replies with
      | nil => simp [hreplies] at hne
      | cons reply replies =>
        have hreply := h.replies reply (by simp [hreplies])
        simpa [Input.reply, hreplies] using hreply

theorem Sound.fgetc (h : input.Sound) : input.fgetc.1 = input.pending.head? ∧
    input.fgetc.2.pending = input.pending.tail ∧ input.fgetc.2.Sound := by
  have hreplies : ∀ reply ∈ (input.maybeRead true 1).2.replies, reply.1 ≠ [] :=
    fun reply hreply => h.replies reply (replies_maybeRead hreply)
  simp only [Input.fgetc]
  cases hopen : input.stream.isReadable with
  | false =>
    have hnil : input.pending = [] := by
      by_contra hne
      exact absurd (h.readable hne) (by simp [hopen])
    rw [maybeRead_of_not_readable true (.inr hopen), hnil]
    exact ⟨rfl, rfl, h⟩
  | true =>
    obtain ⟨happend, hlength, -, hstill⟩ := maybeRead_of_readable true hopen Nat.one_pos
    cases hpending : input.pending with
    | nil =>
      obtain ⟨hbytes, hrest⟩ := append_eq_nil_iff.1 (happend.trans hpending)
      rw [hbytes, hrest]
      exact ⟨rfl, rfl, hreplies, fun hne => absurd hrest hne⟩
    | cons c rest =>
      have hready := h.ready (by simp [hpending])
      obtain ⟨d, hd⟩ := length_eq_one_iff.1 (hlength.trans (by omega))
      rw [hd, hpending] at happend
      cases happend
      rw [hd]
      exact ⟨rfl, rfl, hreplies, fun _ => hstill hready⟩

/-- What one call is to read: characters up to a newline, or as many as there is room for. -/
def line : ℕ → List UInt8 → List UInt8
  | 0, _ | _ + 1, [] => []
  | room + 1, c :: text => if c = 10 then [c] else c :: line room text

theorem line_eq_nil_iff {room : ℕ} {text : List UInt8} : line room text = [] ↔ room = 0 ∨ text = [] := by
  cases room with
  | zero => simp [line]
  | succ room =>
    cases text with
    | nil => simp [line]
    | cons c text => by_cases hc : c = 10 <;> simp [line, hc]

theorem line_spec (room : ℕ) (text : List UInt8) : 10 ∉ (line room text).dropLast ∧
    ((line room text).getLast? = some 10 ∨ (line room text).length = room ∨ line room text = text) := by
  fun_induction line room text with
  | case1 => simp
  | case2 => simp
  | case3 room text => simp
  | case4 room c text hc ih =>
    obtain ⟨hbefore, hend⟩ := ih
    constructor
    · cases hline : line room text with
      | nil => simp
      | cons d rest =>
        rw [hline] at hbefore
        simp [hbefore, Ne.symm hc]
    · rcases hend with hend | hend | hend
      · simp [List.getLast?_cons, hend]
      · simp [hend]
      · simp [hend]

theorem Sound.fgetsLoop (h : input.Sound) (room : ℕ) :
    (input.fgetsLoop room).1 = line room input.pending ∧
      (input.fgetsLoop room).1 ++ (input.fgetsLoop room).2.pending = input.pending ∧
      (input.fgetsLoop room).2.Sound := by
  induction room generalizing input with
  | zero => simp [Input.fgetsLoop, line, h]
  | succ room ih =>
    obtain ⟨hchar, hrest, hsound⟩ := h.fgetc
    rw [Input.fgetsLoop, hchar]
    cases hpending : input.pending with
    | nil =>
      rw [hpending] at hrest
      exact ⟨rfl, hrest, hsound⟩
    | cons c text =>
      rw [hpending] at hrest
      obtain ⟨hline, happend, hsound'⟩ := ih hsound
      rw [hrest] at hline happend
      by_cases hc : c = 10
      · simp [line, hc, hrest, hsound]
      · simp only [List.head?_cons, line, if_neg hc]
        exact ⟨congrArg (c :: ·) hline, congrArg (c :: ·) happend, hsound'⟩

theorem Sound.fgets (h : input.Sound) (buffer : List UInt8) (hsize : 2 ≤ bufferSize)
    (hzero : 0 ∉ input.pending) :
    (input.fgets (some buffer) bufferSize).1 = some (line (bufferSize - 1) input.pending) ∧
      line (bufferSize - 1) input.pending ++ (input.fgets (some buffer) bufferSize).2.pending =
        input.pending ∧
      (input.fgets (some buffer) bufferSize).2.Sound := by
  obtain ⟨hline, happend, hsound⟩ := h.fgetsLoop (bufferSize - 1)
  rw [Input.fgets, if_neg (by simp; omega)]
  rw [hline] at happend
  refine ⟨?_, happend, hsound⟩
  have hall : ∀ c ∈ line (bufferSize - 1) input.pending, decide (c ≠ 0) = true := by
    intro c hc
    refine decide_eq_true fun heq => hzero ?_
    rw [← happend]
    exact mem_append_left _ (heq ▸ hc)
  show some (List.takeWhile _ (input.fgetsLoop (bufferSize - 1)).1) = _
  rw [hline, takeWhile_eq_self_iff.2 hall]

/-- The call with the given number, when `fgets` is called again and again. -/
def fgetsCall (buffer : List UInt8) (bufferSize : ℕ) : ℕ → Input → Option (List UInt8) × Input
  | 0, input => input.fgets (some buffer) bufferSize
  | i + 1, input => fgetsCall buffer bufferSize i (input.fgets (some buffer) bufferSize).2

theorem Sound.fgetsCall_end (h : input.Sound) (buffer : List UInt8) (hsize : 2 ≤ bufferSize)
    (hnil : input.pending = []) (i : ℕ) : (fgetsCall buffer bufferSize i input).1 = some [] := by
  induction i generalizing input with
  | zero =>
    rw [fgetsCall, (h.fgets buffer hsize (by simp [hnil])).1, line_eq_nil_iff.2 (.inr hnil)]
  | succ i ih =>
    obtain ⟨-, happend, hsound⟩ := h.fgets buffer hsize (by simp [hnil])
    exact ih hsound (append_eq_nil_iff.1 (happend.trans hnil)).2

/-- **`fgets` reads a file line by line.** However the file arrives, the calls return the pieces of it
one after the other, and then empty strings. Each piece is a line, or fills the buffer, or is what is
left at the end of the file, and together they are the file. -/
theorem fgets_lines (buffer : List UInt8) (bufferSize : ℕ) (h : input.Sound) (hsize : 2 ≤ bufferSize)
    (hzero : 0 ∉ input.pending) :
    ∃ pieces : List (List UInt8), (∀ i, (fgetsCall buffer bufferSize i input).1 = some (pieces.getD i [])) ∧
      pieces.flatten = input.pending ∧ (∀ piece ∈ pieces, piece ≠ []) ∧
      ∀ i piece, pieces[i]? = some piece → 10 ∉ piece.dropLast ∧
        (piece.getLast? = some 10 ∨ piece.length = bufferSize - 1 ∨ i + 1 = pieces.length) := by
  induction hlength : input.pending.length using Nat.strong_induction_on generalizing input with
  | _ n ih =>
    by_cases hnil : input.pending = []
    · exact ⟨[], h.fgetsCall_end buffer hsize hnil, by simp [hnil], by simp, by simp⟩
    obtain ⟨hline, happend, hsound⟩ := h.fgets buffer hsize hzero
    have hne : line (bufferSize - 1) input.pending ≠ [] := by
      rw [ne_eq, line_eq_nil_iff]
      exact not_or.2 ⟨by omega, hnil⟩
    have hshorter := congrArg List.length happend
    rw [length_append, hlength] at hshorter
    obtain ⟨pieces, hcalls, hflatten, hpieces, hends⟩ := ih _
      (by have := length_pos_iff.2 hne; omega) hsound
      (fun hmem => hzero (happend ▸ mem_append_right _ hmem)) rfl
    refine ⟨line (bufferSize - 1) input.pending :: pieces, ?_, ?_, forall_mem_cons.2 ⟨hne, hpieces⟩, ?_⟩
    · rintro (_ | i)
      · exact hline
      · exact hcalls i
    · rw [flatten_cons, hflatten, happend]
    · rintro (_ | i) piece hpiece
      · cases hpiece
        obtain ⟨hbefore, hend⟩ := line_spec (bufferSize - 1) input.pending
        refine ⟨hbefore, hend.imp_right (Or.imp_right fun hall => ?_)⟩
        -- the whole of what was left has been read
        rw [hall, hlength, Nat.add_eq_left, length_eq_zero_iff] at hshorter
        rw [hshorter, flatten_eq_nil_iff] at hflatten
        have hlast : pieces = [] :=
          eq_nil_iff_forall_not_mem.2 fun piece hmem => hpieces piece hmem (hflatten piece hmem)
        rw [hlast]
        rfl
      · obtain ⟨hbefore, hend⟩ := hends i piece hpiece
        exact ⟨hbefore, hend.imp_right (Or.imp_right (congrArg Nat.succ))⟩

/-- Two lines, the second without a newline, come in two messages. -/
theorem fgets_lines_two :
    let input : Input := ⟨⟨[], 0, streamOpen, false, 0⟩, [([97], .success), ([10, 98], .success)]⟩
    ∃ pieces : List (List UInt8), (∀ i, (fgetsCall [] 8 i input).1 = some (pieces.getD i [])) ∧
      pieces.flatten = [97, 10, 98] ∧ pieces.getD 0 [] = [97, 10] ∧ pieces.getD 1 [] = [98] := by
  intro input
  have hsound : input.Sound := ⟨by decide +kernel, fun _ => by decide +kernel⟩
  have hfirst : (fgetsCall [] 8 0 input).1 = some [97, 10] := by decide +kernel
  have hsecond : (fgetsCall [] 8 1 input).1 = some [98] := by decide +kernel
  obtain ⟨pieces, hcalls, hflatten, -⟩ := fgets_lines [] 8 hsound (by decide) (by decide +kernel)
  have hpending : input.pending = [97, 10, 98] := by decide +kernel
  exact ⟨pieces, hcalls, hflatten.trans hpending, Option.some.inj ((hcalls 0).symm.trans hfirst),
    Option.some.inj ((hcalls 1).symm.trans hsecond)⟩

theorem fgetsCall_ne_none (buffer : List UInt8) (bufferSize i : ℕ) (input : Input) :
    (fgetsCall buffer bufferSize i input).1 ≠ none := by
  induction i generalizing input with
  | zero =>
    rw [fgetsCall, Input.fgets]
    split <;> simp
  | succ i ih => exact ih _

/-- The file has one character, and no call returns `NULL`. -/
theorem not_fgets_null : ¬∃ i,
    (fgetsCall [] 2 i ⟨⟨[], 0, streamOpen, false, 0⟩, [([97], .success)]⟩).1 = none := by
  rintro ⟨i, hnull⟩
  exact fgetsCall_ne_none [] 2 i _ hnull

end Input

/-! ### The message of a stream -/

inductive Contents
  /-- The reply with that number. -/
  | reply (number : ℕ)
  /-- The fields of the request, which `send_and_receive_message` leaves there when it fails. -/
  | request

/-- The message structure of a stream, and what has been done with it. -/
structure InputMessage where
  /-- What `input_message` points to, or `none` for `NULL`. -/
  contents : Option Contents
  /-- The number of the replies that have been received. -/
  replies : ℕ
  /-- What `delete_message` has been called for. -/
  deletions : List Contents

namespace InputMessage

variable {m : InputMessage} {a : Bool × Bool}

/-- `send_and_receive_message`, into the structure. -/
def sendAndReceiveMessage (success : Bool) (m : InputMessage) : InputMessage :=
  if success then { m with contents := some (.reply m.replies), replies := m.replies + 1 }
  else { m with contents := some .request }

/-- One pass through the loop of `read`: whether there is memory for the structure, if it is still to
be allocated, and whether the message is sent and answered. -/
def attempt (m : InputMessage) (a : Bool × Bool) : Option InputMessage :=
  match m.contents with
  | some contents => some (sendAndReceiveMessage a.2 { m with deletions := m.deletions ++ [contents] })
  | none => some (if a.1 then sendAndReceiveMessage a.2 m else m)

/-- Each reply that was received has been deleted once, but for the one that is held, which has not;
and nothing else has been deleted. -/
structure Owned (m : InputMessage) : Prop where
  nodup : m.deletions.Nodup
  /-- The replies are those that have been deleted and the one that is held. -/
  received : ∀ c, c ∈ m.deletions ∨ m.contents = some c ↔ ∃ number < m.replies, c = .reply number
  /-- The one that is held has not been deleted. -/
  kept : ∀ c ∈ m.contents, c ∉ m.deletions

/-- The attempt does not fail, or is not made for lack of memory. -/
def Succeeds (m : InputMessage) (a : Bool × Bool) : Prop := a.2 = true ∨ m.contents = none ∧ a.1 = false

theorem Owned.receive {deletions : List Contents} (hnodup : deletions.Nodup)
    (h : ∀ c, c ∈ deletions ↔ ∃ number < m.replies, c = .reply number) :
    Owned ⟨some (.reply m.replies), m.replies + 1, deletions⟩ where
  nodup := hnodup
  received c := by
    simp only [h, Nat.lt_succ_iff_lt_or_eq, or_and_right, exists_or, exists_eq_left, Option.some_inj,
      eq_comm]
  kept c hc hmem := by
    cases hc
    obtain ⟨number, hlt, heq⟩ := (h _).1 hmem
    cases heq
    exact lt_irrefl _ hlt

theorem not_owned_request {replies : ℕ} {deletions : List Contents} :
    ¬Owned ⟨some .request, replies, deletions⟩ := by
  intro h
  obtain ⟨number, -, heq⟩ := (h.received .request).1 (.inr rfl)
  cases heq

/-- An attempt keeps the replies owned if it succeeds, and only then. -/
theorem Owned.attempt_iff {m' : InputMessage} (h : m.Owned) (hm : m.attempt a = some m') :
    m'.Owned ↔ m.Succeeds a := by
  obtain ⟨malloc, success⟩ := a
  unfold attempt at hm
  cases hcontents : m.contents with
  | some contents =>
    rw [hcontents] at hm
    cases hm
    have hnew : contents ∉ m.deletions := h.kept contents hcontents
    cases success with
    | true =>
      refine iff_of_true (Owned.receive ?_ fun c => ?_) (.inl rfl)
      · rw [← concat_eq_append]
        exact (nodup_concat ..).2 ⟨hnew, h.nodup⟩
      · rw [← h.received c, hcontents, mem_append, mem_singleton, Option.some_inj, eq_comm]
    | false => exact iff_of_false not_owned_request (by simp [Succeeds, hcontents])
  | none =>
    rw [hcontents] at hm
    cases hm
    cases malloc with
    | false => exact iff_of_true h (.inr ⟨hcontents, rfl⟩)
    | true =>
      cases success with
      | true =>
        refine iff_of_true (Owned.receive h.nodup fun c => ?_) (.inl rfl)
        rw [← h.received c, hcontents]
        simp
      | false => exact iff_of_false not_owned_request (by simp [Succeeds])

/-- **The messages of a stream.** As long as no attempt to read fails, `read` deletes each reply once,
when the next one is asked for, and nothing else, and never returns a reply that has been deleted. An
attempt that fails ends this: the request is left in the structure, and deleted by the next one. -/
theorem input_message_owned (h : Run attempt Succeeds ⟨none, 0, []⟩ m) :
    m.Owned ∧ ∀ a m', m.attempt a = some m' → (m'.Owned ↔ m.Succeeds a) := by
  have howned : m.Owned := by
    refine h.invariant ⟨nodup_nil, by simp, by simp⟩ ?_
    intro m m' a hm ha hstep
    exact (hm.attempt_iff hstep).2 ha
  exact ⟨howned, fun a m' => howned.attempt_iff⟩

/-- Two replies are received, and the first one is deleted. -/
theorem input_message_owned_two :
    Owned ⟨some (.reply 1), 2, [.reply 0]⟩ :=
  (input_message_owned (.tail (.single (a := (true, true)) (.inl rfl) rfl) (a := (true, true))
    (.inl rfl) rfl)).1

/-- The first attempt fails, and the second deletes a message that was never received. -/
theorem not_input_message_owned : ∃ m, Run attempt Always ⟨none, 0, []⟩ m ∧ .request ∈ m.deletions :=
  ⟨_, .tail (.single (a := (true, false)) trivial rfl) (a := (true, true)) trivial rfl,
    mem_singleton_self _⟩

end InputMessage

end Dx.User
