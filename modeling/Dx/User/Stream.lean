import Dx.Library.Run
import Dx.User.Arguments
import Dx.User.Loader

/-!
# Reading a file through a stream

A client reads a file of the loader through a stream (`read.c`). `maybe_read` hands out what is left
of the last message it got from the loader; when nothing is left, it asks for more and blocks until
the reply is there. So the position in the file is kept twice: by the loader as the offset of the
open file, and by the client as what is left of the message. The invariant of the whole system
(`Phase`) says how the two go together: the bytes up to the loader's offset are those that have been
handed out, followed by those that are left of the message or on their way in a reply.

Other requests reach the loader at any time: those of other clients, and those of the same client for
other streams, while it is not waiting for this one.
-/

namespace Dx.User

open Library List LoaderContext

def streamOpen : ℕ := 0x01
def streamEof : ℕ := 0x02
def streamError : ℕ := 0x04
def streamPushback : ℕ := 0x08

/-- `FILE`. -/
structure Stream where
  /-- What `buffer` and `buffer_size` delimit: the part of the last message that is not read yet. -/
  buffer : List UInt8
  cookie : ℕ
  flags : ℕ
  /-- `input_message` is not `NULL`. -/
  inputMessage : Bool
  pushback : UInt8

namespace Stream

def isReadable (stream : Stream) : Bool :=
  stream.flags &&& (streamOpen ||| streamEof ||| streamError) = streamOpen

/-- The last part of `maybe_read`: a chunk of the buffered data is handed out. -/
def consume (bufferSize : ℕ) (stream : Stream) : List UInt8 × Stream :=
  (stream.buffer.take bufferSize, { stream with buffer := stream.buffer.drop bufferSize })

/-- How far `maybe_read` comes: it returns, or a request is sent and it blocks until the reply. -/
inductive MaybeRead
  | returns (bytes : List UInt8) (stream : Stream)
  | sends (request : Request) (stream : Stream)

/-- `maybe_read`, up to the reply; `malloc` is whether there is memory for the message, if it is
still to be allocated. -/
def maybeRead (malloc : Bool) (bufferSize : ℕ) (stream : Stream) : MaybeRead :=
  if bufferSize = 0 then .returns [] stream
  else if stream.isReadable = false then .returns [] stream
  else if stream.flags &&& streamPushback ≠ 0 then
    .returns [stream.pushback] { stream with flags := stream.flags - streamPushback }
  else if stream.buffer.length = 0 then
    if stream.inputMessage || malloc then
      .sends (.read (some (stream.cookie, bufferSize)))
        { stream with buffer := [], inputMessage := true }
    else .returns [] { stream with buffer := [], flags := stream.flags ||| streamError }
  else .returns (stream.consume bufferSize).1 (stream.consume bufferSize).2

/-- `maybe_read`, from the reply on. -/
def receive (bufferSize : ℕ) (data : List UInt8) (status : FileStatus) (stream : Stream) :
    List UInt8 × Stream :=
  let stream := { stream with buffer := data }
  if data.length = 0 then
    ([], { stream with
      flags := stream.flags ||| if status = .endOfFile then streamEof else streamError })
  else stream.consume bufferSize

theorem consume_append (bufferSize : ℕ) (stream : Stream) :
    (stream.consume bufferSize).1 ++ (stream.consume bufferSize).2.buffer = stream.buffer :=
  take_append_drop _ _

/-- The flags of a stream that is open, and nothing has been pushed back to it. -/
def Plain (stream : Stream) : Prop :=
  stream.flags = streamOpen ∨ stream.flags = streamOpen ||| streamError ∨
    stream.flags = streamOpen ||| streamEof

/-- `maybe_read` hands out bytes from the front of the buffer, or sends a request when the buffer is
empty. -/
theorem maybeRead_cases {stream : Stream} (h : stream.Plain) (malloc : Bool) (bufferSize : ℕ) :
    (∃ bytes stream', stream.maybeRead malloc bufferSize = .returns bytes stream' ∧
        stream'.cookie = stream.cookie ∧ bytes ++ stream'.buffer = stream.buffer ∧
        (stream'.flags = stream.flags ∨ stream'.flags = streamOpen ||| streamError)) ∨
      ∃ stream', stream.maybeRead malloc bufferSize =
          .sends (.read (some (stream.cookie, bufferSize))) stream' ∧
        stream'.cookie = stream.cookie ∧ stream.buffer = [] ∧ stream'.flags = streamOpen := by
  have hpushback : stream.flags &&& streamPushback = 0 := by
    rcases h with h | h | h <;> rw [h] <;> rfl
  unfold maybeRead
  split
  case isTrue => exact .inl ⟨[], stream, rfl, rfl, rfl, .inl rfl⟩
  split
  case isTrue => exact .inl ⟨[], stream, rfl, rfl, rfl, .inl rfl⟩
  case isFalse hreadable =>
    have hflags : stream.flags = streamOpen := by
      refine h.resolve_right fun h => hreadable ?_
      unfold isReadable
      rcases h with h | h <;> rw [h] <;> rfl
    rw [if_neg (not_not.2 hpushback)]
    split
    case isTrue hempty =>
      have hempty := eq_nil_of_length_eq_zero hempty
      split
      · exact .inr ⟨_, rfl, rfl, hempty, hflags⟩
      · refine .inl ⟨[], _, rfl, rfl, hempty.symm, .inr ?_⟩
        rw [hflags]
    exact .inl ⟨_, _, rfl, rfl, stream.consume_append bufferSize, .inl rfl⟩

end Stream

/-! ### The client and the loader -/

inductive Call
  /-- Nothing that concerns the stream. -/
  | idle
  /-- `fopen`, with the flags of the mode. -/
  | fopen (flags : ℕ)
  /-- `maybe_read`, with the size of the buffer. -/
  | read (bufferSize : ℕ)
deriving DecidableEq

structure System where
  /-- The thread of the client. -/
  thread : ℕ
  loader : LoaderContext
  /-- The file the client wants to read. -/
  filename : List UInt8
  /-- The stream, once it is open. -/
  stream : Option Stream
  /-- What the client is doing. -/
  call : Call
  /-- The client's request, until the loader takes it. -/
  request : Option Request
  /-- The loader's reply, until the client receives it. -/
  reply : Option Reply
  /-- The bytes that `maybe_read` has returned so far. -/
  output : List UInt8

inductive StreamAction
  | fopen (filename : List UInt8) (flags : ℕ)
  | read (bufferSize : ℕ) (malloc : Bool)
  /-- The loader answers the client's request. -/
  | serve (malloc : Bool)
  | receive
  /-- The loader answers another request. -/
  | other (source : ℕ) (request : Request) (malloc : Bool)

namespace System

/-- The request is not one for this stream: it comes from another client; or from this one, while it
is not waiting, and for another stream. -/
def IsForeign (s : System) (source : ℕ) (request : Request) : Prop :=
  source ≠ s.thread ∨ s.call = .idle ∧ ∀ stream ∈ s.stream, request.cookie ≠ some stream.cookie
deriving Decidable

def step (s : System) : StreamAction → Option System
  | .fopen filename flags =>
    -- the flags are those of `parse_stream_mode`
    match s.call, s.stream with
    | .idle, none =>
      if flags ≠ 0 ∧ flags < 8 then
        some { s with
          filename := filename.take filenameMax
          call := .fopen flags
          request := some (.open (some (filename.take filenameMax, flags))) }
      else none
    | _, _ => none
  | .read bufferSize malloc =>
    match s.call, s.stream with
    | .idle, some stream =>
      match stream.maybeRead malloc bufferSize with
      | .returns bytes stream => some { s with stream := some stream, output := s.output ++ bytes }
      | .sends request stream =>
        some { s with stream := some stream, call := .read bufferSize, request := some request }
    | _, _ => none
  | .serve malloc =>
    match s.request with
    | none => none
    | some request =>
      match s.loader.dispatch malloc s.thread request with
      | none => none
      | some (reply, loader) => some { s with loader, request := none, reply := some reply }
  | .receive =>
    match s.call, s.stream, s.reply with
    | .fopen flags, _, some (.openComplete cookie status) =>
      some { s with
        call := .idle
        reply := none
        stream := if status = .success then some ⟨[], cookie, flags ||| streamOpen, false, 0⟩
          else none }
    | .read bufferSize, some stream, some (.readComplete data status) =>
      some { s with
        call := .idle
        reply := none
        stream := some (stream.receive bufferSize data status).2
        output := s.output ++ (stream.receive bufferSize data status).1 }
    | _, _, _ => none
  | .other source request malloc =>
    if s.IsForeign source request then
      match s.loader.dispatch malloc source request with
      | none => none
      | some (_, loader) => some { s with loader }
    else none

/-- The loader has the given files, and the client has not opened one yet. -/
def initial (entries : List DirectoryEntry) (thread : ℕ) : System :=
  ⟨thread, ⟨fun _ => none, 0, 0, entries⟩, [], none, .idle, none, none, []⟩

/-! ### How the two positions go together -/

/-- The client's open file. -/
structure Slot (s : System) (cookie : ℕ) (file : OpenFile) : Prop where
  slot : s.loader.openFile cookie = some file
  owner : file.thread = s.thread
  /-- It is the file the client wants. -/
  entry : s.loader.findFile s.filename = some file.entry
  offset : file.fileOffset ≤ file.entry.content.length


/-- Where the system is, and where the bytes of the file are that the loader has sent. -/
inductive Phase (s : System) : Prop
  | closed (hstream : s.stream = none) (hcall : s.call = .idle) (hrequest : s.request = none)
      (hreply : s.reply = none) (houtput : s.output = [])
  /-- The loader has not seen the request to open it. -/
  | opening {flags : ℕ} (hstream : s.stream = none) (hcall : s.call = .fopen flags)
      (hrequest : s.request = some (.open (some (s.filename, flags)))) (hreply : s.reply = none)
      (houtput : s.output = []) (hflags : flags ≠ 0 ∧ flags < 8)
  /-- The loader has answered. -/
  | opened {flags cookie : ℕ} {status : FileStatus} (hstream : s.stream = none)
      (hcall : s.call = .fopen flags) (hrequest : s.request = none)
      (hreply : s.reply = some (.openComplete cookie status)) (houtput : s.output = [])
      (hfile : status = .success → flags = streamRead ∧
        ∃ file, s.Slot cookie file ∧ file.fileOffset = 0)
  | idle {stream : Stream} {file : OpenFile} (hstream : s.stream = some stream)
      (hcall : s.call = .idle) (hrequest : s.request = none) (hreply : s.reply = none)
      (hslot : s.Slot stream.cookie file)
      (hbytes : file.entry.content.take file.fileOffset = s.output ++ stream.buffer)
      (hflags : stream.flags = streamOpen ∨ stream.flags = streamOpen ||| streamError ∨
        stream.flags = streamOpen ||| streamEof ∧ stream.buffer = [] ∧
          file.entry.content.length ≤ file.fileOffset)
  /-- The loader has not seen the request to read. -/
  | reading {stream : Stream} {file : OpenFile} {bufferSize : ℕ} (hstream : s.stream = some stream)
      (hcall : s.call = .read bufferSize)
      (hrequest : s.request = some (.read (some (stream.cookie, bufferSize))))
      (hreply : s.reply = none) (hslot : s.Slot stream.cookie file)
      (hbytes : file.entry.content.take file.fileOffset = s.output)
      (hflags : stream.flags = streamOpen)
  /-- The loader has answered. -/
  | replied {stream : Stream} {file : OpenFile} {bufferSize : ℕ} {data : List UInt8}
      {status : FileStatus} (hstream : s.stream = some stream) (hcall : s.call = .read bufferSize)
      (hrequest : s.request = none) (hreply : s.reply = some (.readComplete data status))
      (hslot : s.Slot stream.cookie file)
      (hbytes : file.entry.content.take file.fileOffset = s.output ++ data)
      (hflags : stream.flags = streamOpen)
      (hend : status = .endOfFile → file.entry.content.length ≤ file.fileOffset)

variable {s t : System} {file : OpenFile} {cookie : ℕ} {loader : LoaderContext} {reply : Reply}
  {malloc : Bool}

theorem Slot.dispatch {source : ℕ} {request : Request} (h : s.Slot cookie file)
    (hforeign : source ≠ s.thread ∨ request.cookie ≠ some cookie)
    (hdispatch : s.loader.dispatch malloc source request = some (reply, loader)) :
    Slot { s with loader } cookie file where
  slot := (served_of_dispatch hdispatch).openFile h.slot (by rwa [h.owner])
  owner := h.owner
  entry := by
    have heq : loader.findFile s.filename = s.loader.findFile s.filename := by
      unfold findFile
      rw [(served_of_dispatch hdispatch).ramdiskEntries]
    exact heq.trans h.entry
  offset := h.offset

theorem Slot.of_eq (h : s.Slot cookie file) (hloader : t.loader = s.loader)
    (hthread : t.thread = s.thread) (hname : t.filename = s.filename) : t.Slot cookie file := by
  refine ⟨?_, ?_, ?_, h.offset⟩
  · rw [hloader, h.slot]
  · rw [hthread, h.owner]
  · rw [hloader, hname, h.entry]

theorem flags_eq {flags : ℕ} (hne : flags ≠ 0) (hlt : flags < 8)
    (hmode : flags &&& (streamWrite ||| streamAppend) = 0) : flags = streamRead := by
  have hall : ∀ flags < 8, flags ≠ 0 → flags &&& (streamWrite ||| streamAppend) = 0 →
      flags = streamRead := by
    decide
  exact hall flags hlt hne hmode

namespace Phase

theorem fopen {filename : List UInt8} {flags : ℕ} (h : s.Phase)
    (ht : s.step (.fopen filename flags) = some t) : t.Phase := by
  rw [step] at ht
  split at ht
  case h_1 hcall hstream =>
    obtain ⟨hflags, ht⟩ := Option.ite_none_right_eq_some.1 ht
    cases ht
    cases h with
    | closed _ _ _ hreply houtput => exact .opening hstream rfl rfl hreply houtput hflags
    | _ => simp_all
  case h_2 => cases ht

theorem read {bufferSize : ℕ} (h : s.Phase) (ht : s.step (.read bufferSize malloc) = some t) :
    t.Phase := by
  rw [step] at ht
  split at ht
  case h_2 => cases ht
  case h_1 stream hcall hstream =>
    cases h with
    | @idle stream' file hstream' _ hrequest hreply hslot hbytes hflags =>
      obtain rfl := Option.some.inj (hstream.symm.trans hstream')
      have hplain : stream.Plain := hflags.imp_right fun h => h.imp_right And.left
      rcases Stream.maybeRead_cases hplain malloc bufferSize with
        ⟨bytes, stream', heq, hcookie, hbuffer, hflags'⟩ | ⟨stream', heq, hcookie, hbuffer, hflags'⟩
      · rw [heq] at ht
        cases ht
        rw [← hcookie] at hslot
        refine .idle rfl hcall hrequest hreply (hslot.of_eq rfl rfl rfl) ?_ ?_
        · rw [hbytes, append_assoc, hbuffer]
        · rcases hflags' with hflags' | hflags'
          · rw [hflags']
            refine hflags.imp_right fun h => h.imp_right fun ⟨heof, hempty, hend⟩ => ⟨heof, ?_, hend⟩
            rw [hempty] at hbuffer
            exact (append_eq_nil_iff.1 hbuffer).2
          · exact .inr (.inl hflags')
      · rw [heq] at ht
        cases ht
        rw [← hcookie] at hslot
        refine .reading rfl rfl (by rw [hcookie]) hreply (hslot.of_eq rfl rfl rfl) ?_ hflags'
        rw [hbytes, hbuffer, append_nil]
    | _ => simp_all

theorem serve (h : s.Phase) (ht : s.step (.serve malloc) = some t) : t.Phase := by
  rw [step] at ht
  split at ht
  case h_1 => cases ht
  case h_2 request hrequest =>
    split at ht
    case h_1 => cases ht
    case h_2 reply loader hdispatch =>
      cases ht
      cases h with
      | @opening flags hstream hcall hrequest' hreply houtput hflags =>
        obtain rfl := Option.some.inj (hrequest.symm.trans hrequest')
        cases served_of_dispatch hdispatch with
        | refused _ hstatus => exact .opened hstream hcall rfl rfl houtput fun h => absurd h hstatus
        | lost => exact .opened hstream hcall rfl rfl houtput nofun
        | @opened _ _ slot entry hmode hentry =>
          refine .opened hstream hcall rfl rfl houtput fun _ =>
            ⟨flags_eq hflags.1 hflags.2 hmode, ⟨entry, 0, flags, s.thread⟩, ?_, rfl⟩
          exact ⟨Function.update_self .., rfl, hentry, Nat.zero_le _⟩
      | @reading stream file bufferSize hstream hcall hrequest' hreply hslot hbytes hflags =>
        obtain rfl := Option.some.inj (hrequest.symm.trans hrequest')
        have hentry : loader.findFile s.filename = some file.entry := by
          have := hslot.entry
          unfold findFile at this ⊢
          rw [(served_of_dispatch hdispatch).ramdiskEntries, this]
        cases served_of_dispatch hdispatch with
        | unread hend =>
          exact .replied hstream hcall rfl rfl ⟨hslot.slot, hslot.owner, hentry, hslot.offset⟩
            (hbytes.trans (append_nil _).symm) hflags fun h => hend h _ _ _ rfl hslot.slot
        | @read _ _ size file' _ hfile _ hsize =>
          cases hslot.slot.symm.trans hfile
          have hle := hslot.offset
          refine .replied hstream hcall rfl rfl ⟨Function.update_self .., hslot.owner, hentry, ?_⟩ ?_
            hflags nofun
          · show file.fileOffset + size ≤ file.entry.content.length
            omega
          · show file.entry.content.take (file.fileOffset + size) = _
            rw [take_add, hbytes]
      | _ => simp_all

theorem receive (h : s.Phase) (ht : s.step .receive = some t) : t.Phase := by
  rw [step] at ht
  split at ht
  case h_3 => cases ht
  case h_1 flags cookie status hcall hreply =>
    cases ht
    cases h with
    | @opened flags' cookie' status' hstream hcall' hrequest hreply' houtput hfile =>
      cases hcall.symm.trans hcall'
      cases hreply.symm.trans hreply'
      by_cases hstatus : status = .success
      · obtain ⟨rfl, file, hslot, hoffset⟩ := hfile hstatus
        rw [if_pos hstatus]
        refine .idle rfl rfl hrequest rfl (hslot.of_eq rfl rfl rfl) ?_ (.inl rfl)
        rw [hoffset, houtput]
        rfl
      · rw [if_neg hstatus]
        exact .closed rfl rfl hrequest rfl houtput
    | _ => simp_all
  case h_2 bufferSize stream data status hcall hstream hreply =>
    cases ht
    cases h with
    | @replied stream' file bufferSize' data' status' hstream' hcall' hrequest hreply' hslot hbytes
        hflags hend =>
      cases hcall.symm.trans hcall'
      cases hreply.symm.trans hreply'
      obtain rfl := Option.some.inj (hstream.symm.trans hstream')
      unfold Stream.receive
      split
      case isTrue hempty =>
        have hempty := eq_nil_of_length_eq_zero hempty
        refine .idle rfl rfl hrequest rfl (hslot.of_eq rfl rfl rfl) ?_ ?_
        · rw [hbytes, append_nil]
        · rw [hflags]
          split
          case isTrue hstatus => exact .inr (.inr ⟨rfl, hempty, hend hstatus⟩)
          case isFalse => exact .inr (.inl rfl)
      refine .idle rfl rfl hrequest rfl (hslot.of_eq rfl rfl rfl) ?_ (.inl hflags)
      rw [hbytes, append_assoc, Stream.consume_append]
    | _ => simp_all

theorem other {source : ℕ} {request : Request} (h : s.Phase)
    (ht : s.step (.other source request malloc) = some t) : t.Phase := by
  rw [step] at ht
  obtain ⟨hforeign, ht⟩ := Option.ite_none_right_eq_some.1 ht
  split at ht
  case h_1 => cases ht
  case h_2 reply loader hdispatch =>
    cases ht
    cases h with
    | closed hstream hcall hrequest hreply houtput =>
      exact .closed hstream hcall hrequest hreply houtput
    | opening hstream hcall hrequest hreply houtput hflags =>
      exact .opening hstream hcall hrequest hreply houtput hflags
    | opened hstream hcall hrequest hreply houtput hfile =>
      have hsource := hforeign.resolve_right fun h => nomatch h.1.symm.trans hcall
      refine .opened hstream hcall hrequest hreply houtput fun hstatus => ?_
      obtain ⟨hflags, file, hslot, hoffset⟩ := hfile hstatus
      exact ⟨hflags, file, hslot.dispatch (.inl hsource) hdispatch, hoffset⟩
    | idle hstream hcall hrequest hreply hslot hbytes hflags =>
      exact .idle hstream hcall hrequest hreply
        (hslot.dispatch (hforeign.imp_right fun h => h.2 _ hstream) hdispatch) hbytes hflags
    | reading hstream hcall hrequest hreply hslot hbytes hflags =>
      have hsource := hforeign.resolve_right fun h => nomatch h.1.symm.trans hcall
      exact .reading hstream hcall hrequest hreply (hslot.dispatch (.inl hsource) hdispatch) hbytes
        hflags
    | replied hstream hcall hrequest hreply hslot hbytes hflags hend =>
      have hsource := hforeign.resolve_right fun h => nomatch h.1.symm.trans hcall
      exact .replied hstream hcall hrequest hreply (hslot.dispatch (.inl hsource) hdispatch) hbytes
        hflags hend

theorem step {a : StreamAction} (h : s.Phase) (ht : s.step a = some t) : t.Phase := by
  cases a with
  | fopen filename flags => exact h.fopen ht
  | read bufferSize malloc => exact h.read ht
  | serve malloc => exact h.serve ht
  | receive => exact h.receive ht
  | other source request malloc => exact h.other ht

end Phase

theorem ramdiskEntries_step {a : StreamAction} (ht : s.step a = some t) :
    t.loader.ramdiskEntries = s.loader.ramdiskEntries := by
  unfold step at ht
  cases a with
  | fopen filename flags =>
    dsimp only at ht
    repeat' split at ht
    all_goals cases ht
    rfl
  | read bufferSize malloc =>
    dsimp only at ht
    repeat' split at ht
    all_goals cases ht
    all_goals rfl
  | serve malloc =>
    dsimp only at ht
    split at ht
    case h_1 => cases ht
    split at ht
    case h_1 => cases ht
    case h_2 hdispatch =>
      cases ht
      exact (served_of_dispatch hdispatch).ramdiskEntries
  | receive =>
    dsimp only at ht
    split at ht
    all_goals cases ht
    all_goals rfl
  | other source request malloc =>
    obtain ⟨-, ht⟩ := Option.ite_none_right_eq_some.1 ht
    split at ht
    case h_1 => cases ht
    case h_2 hdispatch =>
      cases ht
      exact (served_of_dispatch hdispatch).ramdiskEntries

/-- What has been read is a prefix of the file, and all of it when the stream is at the end. -/
theorem Phase.output (h : s.Phase) {stream : Stream} (hstream : s.stream = some stream) :
    ∃ entry, s.loader.findFile s.filename = some entry ∧ s.output <+: entry.content ∧
      (stream.flags &&& streamEof ≠ 0 → s.output = entry.content) := by
  cases h with
  | @idle stream' file hstream' _ _ _ hslot hbytes hflags =>
    obtain rfl := Option.some.inj (hstream.symm.trans hstream')
    refine ⟨file.entry, hslot.entry, ?_, fun heof => ?_⟩
    · exact (prefix_append _ _).trans (hbytes ▸ take_prefix _ _)
    · rcases hflags with hflags | hflags | ⟨-, hempty, hend⟩
      · exact absurd (by rw [hflags]; rfl) heof
      · exact absurd (by rw [hflags]; rfl) heof
      · rw [hempty, append_nil, take_of_length_le hend] at hbytes
        exact hbytes.symm
  | @reading stream' file _ hstream' _ _ _ hslot hbytes hflags =>
    obtain rfl := Option.some.inj (hstream.symm.trans hstream')
    refine ⟨file.entry, hslot.entry, hbytes ▸ take_prefix _ _, fun heof => ?_⟩
    exact absurd (by rw [hflags]; rfl) heof
  | @replied stream' file _ _ _ hstream' _ _ _ hslot hbytes hflags =>
    obtain rfl := Option.some.inj (hstream.symm.trans hstream')
    refine ⟨file.entry, hslot.entry, ?_, fun heof => ?_⟩
    · exact (prefix_append _ _).trans (hbytes ▸ take_prefix _ _)
    · exact absurd (by rw [hflags]; rfl) heof
  | _ => simp_all

/-- **Streams keep the file.** Whatever other requests the loader gets in between, what `maybe_read`
has returned is a prefix of the file that was opened, and the stream is at the end of the file only
when all of it has been returned. -/
theorem stream_integrity {entries : List DirectoryEntry} {thread : ℕ}
    (h : Run step Always (initial entries thread) s) :
    ∀ stream ∈ s.stream, ∃ entry, entries.find? (fun entry => entry.name = s.filename) = some entry ∧
      s.output <+: entry.content ∧ (stream.flags &&& streamEof ≠ 0 → s.output = entry.content) := by
  have hinv : s.Phase ∧ s.loader.ramdiskEntries = entries := by
    refine h.invariant (I := fun s => s.Phase ∧ s.loader.ramdiskEntries = entries)
      ⟨.closed rfl rfl rfl rfl rfl, rfl⟩ ?_
    intro x y a hx _ hy
    exact ⟨hx.1.step hy, (ramdiskEntries_step hy).trans hx.2⟩
  intro stream hstream
  obtain ⟨entry, hentry, houtput⟩ := hinv.1.output hstream
  unfold findFile at hentry
  rw [hinv.2] at hentry
  exact ⟨entry, hentry, houtput⟩

/-- A file of three bytes is read in two parts and to its end, while another client opens it and
tries to read from the same slot. -/
theorem stream_integrity_shared : ∃ s, Run step Always (initial [⟨[102], 0x40000200, [1, 2, 3]⟩] 7) s ∧
    s.output = [1, 2, 3] ∧ ∀ stream ∈ s.stream, ∃ entry : DirectoryEntry,
      [⟨[102], 0x40000200, [1, 2, 3]⟩].find? (fun entry => entry.name = s.filename) = some entry ∧
      s.output <+: entry.content ∧ (stream.flags &&& streamEof ≠ 0 → s.output = entry.content) := by
  have heval : ∃ s ∈ runActions step (initial [⟨[102], 0x40000200, [1, 2, 3]⟩] 7)
      [.fopen [102] 1, .serve true, .receive, .other 8 (.open (some ([102], 1))) true,
        .read 2 true, .other 8 (.read (some (0, 100))) true, .serve true, .receive,
        .read 5 true, .read 5 true, .serve true, .receive], s.output = [1, 2, 3] ∧
      s.stream.map (fun stream => stream.flags) = some 3 := by
    decide +kernel
  obtain ⟨s, hs, houtput, -⟩ := heval
  have hrun := run_of_runActions _ hs
  exact ⟨s, hrun, houtput, stream_integrity hrun⟩

end System

end Dx.User
