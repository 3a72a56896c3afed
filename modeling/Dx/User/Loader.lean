import Dx.Library.Run
import Mathlib.Order.Interval.Finset.Nat

/-!
# The loader as a file server

The loader holds the files of the ramdisk, and answers the requests of its clients: `open_file`,
`read_file` and `close_file` of `loader_main.c`. An open file is a slot of a table, with the offset
up to which it has been read; the number of the slot is the cookie by which the client names it.

A slot belongs to the thread that opened it. What a request can come to is said once (`Served`). It
does nothing to a slot, unless it comes from that thread and names the slot (`dispatch_openFile`).

`open_file` counts the stream before it allocates the context of it, and does not take this back when
there is no memory. The count is then too large for ever, but never too small, so that the search for
a free slot always ends.
-/

namespace Dx.User

open Library Function

/-- `status_t`, as far as the loader and its clients use it. -/
inductive FileStatus
  | success
  | endOfFile
  | invalidData
  | accessDenied
  | fileDoesNotExist
  | insufficientMemory
  | invalidStream
deriving DecidableEq

def streamRead : ℕ := 0x01
def streamWrite : ℕ := 0x02
def streamAppend : ℕ := 0x04
def openFileCountMax : ℕ := 32

/-- `directory_entry_s`: a file of the ramdisk. -/
structure DirectoryEntry where
  /-- `tar.header->name`. -/
  name : List UInt8
  /-- `tar.file`: the address of the file. -/
  file : ℕ
  /-- What is at that address; its length is `tar.file_size`. -/
  content : List UInt8
deriving DecidableEq

/-- `open_file_s`. -/
structure OpenFile where
  entry : DirectoryEntry
  fileOffset : ℕ
  flags : ℕ
  thread : ℕ

/-- `loader_context_s`. -/
structure LoaderContext where
  /-- `open_file`, below `openFileCountMax`; `none` is `NULL`. -/
  openFile : ℕ → Option OpenFile
  openFileCount : ℕ
  openFileIndex : ℕ
  ramdiskEntries : List DirectoryEntry

/-- The requests, by the type of the message; a payload that is too short is `none`. -/
inductive Request
  /-- `MESSAGE_TYPE_OPEN`, with `file` and `flags`. -/
  | open (payload : Option (List UInt8 × ℕ))
  /-- `MESSAGE_TYPE_READ`, with `cookie` and `size_hint`. -/
  | read (payload : Option (ℕ × ℕ))
  /-- `MESSAGE_TYPE_CLOSE`, with the cookie. -/
  | close (cookie : ℕ)
  | flush

inductive Reply
  /-- `MESSAGE_TYPE_OPEN_COMPLETE`, with `cookie` and `status`. -/
  | openComplete (cookie : ℕ) (status : FileStatus)
  /-- `MESSAGE_TYPE_READ_COMPLETE`: the data, and the status that takes its place if its size is 0. -/
  | readComplete (data : List UInt8) (status : FileStatus)
  | closeComplete (status : FileStatus)
  | flushComplete

namespace LoaderContext

def findFile (context : LoaderContext) (filename : List UInt8) : Option DirectoryEntry :=
  context.ramdiskEntries.find? fun entry => entry.name = filename

/-- The search of `open_file` for a free slot, at most `fuel` times. -/
def findSlot (context : LoaderContext) : ℕ → ℕ → Option ℕ
  | 0, _ => none
  | fuel + 1, slot =>
    match context.openFile slot with
    | none => some slot
    | some _ =>
      context.findSlot fuel (if openFileCountMax ≤ slot + 1 then 0 else slot + 1)

/-- `open_file`; `malloc` is whether there is memory for the context of the stream. There is no
result when the search for a slot does not end. -/
def openFileRequest (malloc : Bool) (source : ℕ) (payload : Option (List UInt8 × ℕ))
    (context : LoaderContext) : Option (Reply × LoaderContext) :=
  match payload with
  | none => some (.openComplete 0 .invalidData, context)
  | some (filename, flags) =>
    if flags &&& (streamWrite ||| streamAppend) ≠ 0 then
      some (.openComplete 0 .accessDenied, context)
    else
      match context.findFile filename with
      | none => some (.openComplete 0 .fileDoesNotExist, context)
      | some entry =>
        if openFileCountMax ≤ context.openFileCount then
          some (.openComplete 0 .insufficientMemory, context)
        else
          match context.findSlot (openFileCountMax + 1) context.openFileIndex with
          | none => none
          | some slot =>
            let context :=
              { context with openFileCount := context.openFileCount + 1, openFileIndex := slot }
            if malloc then
              some (.openComplete slot .success,
                { context with
                  openFile := update context.openFile slot
                    (some ⟨entry, 0, flags, source⟩) })
            else some (.openComplete 0 .insufficientMemory, context)

/-- The size of the data that `read_file` sends: up to the end of the page that the caller's buffer
ends in, in `size_t`. -/
def dataSize (file : OpenFile) (sizeHint : ℕ) : ℕ :=
  min (file.entry.content.length - file.fileOffset)
    ((sizeHint + 4096 - (file.entry.file + file.fileOffset + sizeHint) % 4096) % 2 ^ 32)

def readFile (source : ℕ) (payload : Option (ℕ × ℕ)) (context : LoaderContext) :
    Reply × LoaderContext :=
  match payload with
  | none => (.readComplete [] .invalidData, context)
  | some (slot, sizeHint) =>
    if openFileCountMax ≤ slot then (.readComplete [] .invalidData, context)
    else
      match context.openFile slot with
      | none => (.readComplete [] .invalidData, context)
      | some file =>
        if file.thread ≠ source then (.readComplete [] .accessDenied, context)
        else if file.flags &&& streamRead = 0 then (.readComplete [] .accessDenied, context)
        else if file.entry.content.length - file.fileOffset = 0 then
          (.readComplete [] .endOfFile, context)
        else
          let size := dataSize file sizeHint
          (.readComplete ((file.entry.content.drop file.fileOffset).take size) .invalidData,
            { context with
              openFile := update context.openFile slot
                (some { file with fileOffset := file.fileOffset + size }) })

def closeFile (source slot : ℕ) (context : LoaderContext) : Reply × LoaderContext :=
  if openFileCountMax ≤ slot then (.closeComplete .invalidStream, context)
  else
    match context.openFile slot with
    | none => (.closeComplete .invalidStream, context)
    | some file =>
      if file.thread ≠ source then (.closeComplete .invalidStream, context)
      else
        (.closeComplete .success,
          { context with
            openFileCount := context.openFileCount - 1
            openFile := update context.openFile slot none })

/-- The dispatch of `wait_for_messages`. -/
def dispatch (malloc : Bool) (source : ℕ) (request : Request) (context : LoaderContext) :
    Option (Reply × LoaderContext) :=
  match request with
  | .open payload => context.openFileRequest malloc source payload
  | .read payload => some (context.readFile source payload)
  | .close cookie => some (context.closeFile source cookie)
  | .flush => some (.flushComplete, context)

end LoaderContext

def Request.cookie : Request → Option ℕ
  | .read payload => payload.map (·.1)
  | .close cookie => some cookie
  | _ => none

namespace LoaderContext

variable {context context' : LoaderContext} {file : OpenFile} {slot source start fuel : ℕ}
  {malloc : Bool} {request : Request} {reply : Reply}

/-- `open_file` gets as far as to the table. -/
def TakesSlot (context : LoaderContext) (payload : Option (List UInt8 × ℕ)) : Prop :=
  ∃ filename flags, payload = some (filename, flags) ∧
    flags &&& (streamWrite ||| streamAppend) = 0 ∧ (context.findFile filename).isSome ∧
    context.openFileCount < openFileCountMax

/-- What a request can come to. -/
inductive Served (context : LoaderContext) (malloc : Bool) (source : ℕ) :
    Request → Reply → LoaderContext → Prop
  /-- The file is not opened. -/
  | refused {payload : Option (List UInt8 × ℕ)} {status : FileStatus}
      (hslot : ¬context.TakesSlot payload) (hstatus : status ≠ .success) :
      Served context malloc source (.open payload) (.openComplete 0 status) context
  /-- There is no memory for the context of the stream. -/
  | lost {payload : Option (List UInt8 × ℕ)} {slot : ℕ} (htakes : context.TakesSlot payload)
      (hmalloc : malloc = false)
      (hslot : context.findSlot (openFileCountMax + 1) context.openFileIndex = some slot) :
      Served context malloc source (.open payload) (.openComplete 0 .insufficientMemory)
        { context with openFileCount := context.openFileCount + 1, openFileIndex := slot }
  /-- A free slot is taken. -/
  | opened {filename : List UInt8} {flags slot : ℕ} {entry : DirectoryEntry}
      (hmode : flags &&& (streamWrite ||| streamAppend) = 0)
      (hentry : context.findFile filename = some entry) (hmalloc : malloc = true)
      (hcount : context.openFileCount < openFileCountMax)
      (hslot : context.findSlot (openFileCountMax + 1) context.openFileIndex = some slot) :
      Served context malloc source (.open (some (filename, flags))) (.openComplete slot .success)
        { context with
          openFileCount := context.openFileCount + 1
          openFileIndex := slot
          openFile := update context.openFile slot (some ⟨entry, 0, flags, source⟩) }
  /-- There are no data for the request, and the status is not the end of the file before it. -/
  | unread {payload : Option (ℕ × ℕ)} {status : FileStatus}
      (hend : status = .endOfFile → ∀ slot sizeHint file, payload = some (slot, sizeHint) →
        context.openFile slot = some file → file.entry.content.length ≤ file.fileOffset) :
      Served context malloc source (.read payload) (.readComplete [] status) context
  /-- The bytes from the offset on are sent, and the offset is moved by as many. -/
  | read {slot sizeHint size : ℕ} {file : OpenFile} (hslot : slot < openFileCountMax)
      (hfile : context.openFile slot = some file) (howner : file.thread = source)
      (hsize : size ≤ file.entry.content.length - file.fileOffset) :
      Served context malloc source (.read (some (slot, sizeHint)))
        (.readComplete ((file.entry.content.drop file.fileOffset).take size) .invalidData)
        { context with
          openFile := update context.openFile slot
            (some { file with fileOffset := file.fileOffset + size }) }
  | unclosed {slot : ℕ} :
      Served context malloc source (.close slot) (.closeComplete .invalidStream) context
  /-- The slot is free again. -/
  | closed {slot : ℕ} {file : OpenFile} (hslot : slot < openFileCountMax)
      (hfile : context.openFile slot = some file) (howner : file.thread = source) :
      Served context malloc source (.close slot) (.closeComplete .success)
        { context with
          openFileCount := context.openFileCount - 1
          openFile := update context.openFile slot none }
  /-- There is nothing to flush. -/
  | flush : Served context malloc source .flush .flushComplete context

theorem served_open {payload : Option (List UInt8 × ℕ)}
    (h : context.openFileRequest malloc source payload = some (reply, context')) :
    Served context malloc source (.open payload) reply context' := by
  unfold openFileRequest at h
  split at h
  case h_1 =>
    cases h
    exact .refused (fun ⟨_, _, heq, _⟩ => nomatch heq) nofun
  case h_2 filename flags =>
    split at h
    case isTrue hflags =>
      cases h
      refine .refused ?_ nofun
      rintro ⟨_, _, heq, hmode, -⟩
      cases heq
      exact hflags hmode
    case isFalse hflags =>
      split at h
      case h_1 hnone =>
        cases h
        refine .refused ?_ nofun
        rintro ⟨_, _, heq, -, hsome, -⟩
        cases heq
        rw [hnone] at hsome
        cases hsome
      case h_2 entry hentry =>
        split at h
        case isTrue hfull =>
          cases h
          exact .refused (fun ⟨_, _, _, _, _, hcount⟩ => absurd hcount (Nat.not_lt.2 hfull)) nofun
        case isFalse hcount =>
          have hcount := Nat.lt_of_not_le hcount
          split at h
          case h_1 => cases h
          case h_2 slot hslot =>
            cases malloc with
            | true =>
              cases h
              exact .opened (not_not.1 hflags) hentry rfl hcount hslot
            | false =>
              cases h
              refine .lost ⟨filename, flags, rfl, not_not.1 hflags, ?_, hcount⟩ rfl hslot
              rw [hentry, Option.isSome_some]

theorem served_read (payload : Option (ℕ × ℕ)) :
    Served context malloc source (.read payload) (context.readFile source payload).1
      (context.readFile source payload).2 := by
  unfold readFile
  split
  case h_1 => exact .unread nofun
  case h_2 slot sizeHint =>
    split
    case isTrue => exact .unread nofun
    case isFalse hslot =>
      split
      case h_1 => exact .unread nofun
      case h_2 file hfile =>
        split
        case isTrue => exact .unread nofun
        case isFalse howner =>
          split
          case isTrue => exact .unread nofun
          split
          case isTrue hend =>
            refine .unread fun _ slot' sizeHint' file' heq hfile' => ?_
            cases heq
            cases hfile.symm.trans hfile'
            exact Nat.le_of_sub_eq_zero hend
          exact .read (Nat.lt_of_not_le hslot) hfile (not_not.1 howner) (Nat.min_le_left _ _)

theorem served_close :
    Served context malloc source (.close slot) (context.closeFile source slot).1
      (context.closeFile source slot).2 := by
  unfold closeFile
  split
  case isTrue => exact .unclosed
  case isFalse hslot =>
    split
    case h_1 => exact .unclosed
    case h_2 file hfile =>
      split
      case isTrue => exact .unclosed
      case isFalse howner => exact .closed (Nat.lt_of_not_le hslot) hfile (not_not.1 howner)

theorem served_of_dispatch (h : context.dispatch malloc source request = some (reply, context')) :
    Served context malloc source request reply context' := by
  cases request with
  | «open» payload => exact served_open h
  | read payload =>
    have hread : context.readFile source payload = (reply, context') := Option.some.inj h
    have hserved : Served context malloc source (.read payload) _ _ := served_read payload
    rwa [hread] at hserved
  | close cookie =>
    have hclose : context.closeFile source cookie = (reply, context') := Option.some.inj h
    have hserved : Served context malloc source (.close cookie) _ _ := served_close
    rwa [hclose] at hserved
  | flush =>
    cases h
    exact .flush

theorem findSlot_free (h : context.findSlot fuel start = some slot) :
    context.openFile slot = none := by
  induction fuel generalizing start with
  | zero => cases h
  | succ fuel ih =>
    unfold findSlot at h
    split at h
    case h_1 hfree =>
      cases h
      exact hfree
    case h_2 => exact ih h

theorem Served.ramdiskEntries (h : Served context malloc source request reply context') :
    context'.ramdiskEntries = context.ramdiskEntries := by
  cases h <;> rfl

/-- A request that comes from another thread, or is for another stream, leaves a slot as it is. -/
theorem Served.openFile (h : Served context malloc source request reply context')
    (hfile : context.openFile slot = some file)
    (hforeign : source ≠ file.thread ∨ request.cookie ≠ some slot) :
    context'.openFile slot = some file := by
  cases h with
  | @opened _ _ slot' _ _ _ _ _ hslot =>
    have hne : slot ≠ slot' := by
      rintro rfl
      rw [findSlot_free hslot] at hfile
      cases hfile
    exact (update_of_ne hne _ _).trans hfile
  | @read slot' _ _ file' _ hfile' howner _ | @closed slot' file' _ hfile' howner =>
    have hne : slot ≠ slot' := by
      rintro rfl
      cases hfile.symm.trans hfile'
      exact hforeign.elim (fun h => h howner.symm) fun h => h rfl
    exact (update_of_ne hne _ _).trans hfile
  | _ => exact hfile

/-! ### The count and the table -/

def occupied (openFile : ℕ → Option OpenFile) : Finset ℕ :=
  (Finset.range openFileCountMax).filter fun slot => (openFile slot).isSome

variable {openFile : ℕ → Option OpenFile}

theorem mem_occupied :
    slot ∈ occupied openFile ↔ slot < openFileCountMax ∧ (openFile slot).isSome := by
  rw [occupied, Finset.mem_filter, Finset.mem_range]

theorem occupied_some (hslot : slot < openFileCountMax) :
    occupied (update openFile slot (some file)) = insert slot (occupied openFile) := by
  ext k
  by_cases hk : k = slot <;> simp [mem_occupied, hk, hslot]

theorem occupied_none : occupied (update openFile slot none) = (occupied openFile).erase slot := by
  ext k
  by_cases hk : k = slot <;> simp [mem_occupied, hk]

theorem findSlot_lt (h : context.findSlot fuel start = some slot) (hstart : start < openFileCountMax) :
    slot < openFileCountMax := by
  induction fuel generalizing start with
  | zero => cases h
  | succ fuel ih =>
    unfold findSlot at h
    split at h
    case h_1 =>
      cases h
      exact hstart
    refine ih h ?_
    unfold openFileCountMax at hstart ⊢
    split_ifs <;> omega

theorem findSlot_none (h : context.findSlot fuel start = none) (hstart : start < openFileCountMax) :
    ∀ k < fuel, (context.openFile ((start + k) % openFileCountMax)).isSome := by
  induction fuel generalizing start with
  | zero => exact fun k hk => absurd hk (Nat.not_lt_zero k)
  | succ fuel ih =>
    unfold findSlot at h
    split at h
    case h_1 => cases h
    case h_2 file hfile =>
      rintro (_ | k) hk
      · rw [Nat.add_zero, Nat.mod_eq_of_lt hstart, hfile, Option.isSome_some]
      · have hnext : (start + (k + 1)) % openFileCountMax =
            ((if openFileCountMax ≤ start + 1 then 0 else start + 1) + k) % openFileCountMax := by
          unfold openFileCountMax at hstart ⊢
          split_ifs <;> omega
        rw [hnext]
        refine ih h ?_ k (Nat.lt_of_succ_lt_succ hk)
        unfold openFileCountMax at hstart ⊢
        split_ifs <;> omega

/-- What holds of the table in every run. -/
structure Tabled (context : LoaderContext) : Prop where
  /-- The search starts inside of the table. -/
  index : context.openFileIndex < openFileCountMax
  /-- Every stream is counted. -/
  count : (occupied context.openFile).card ≤ context.openFileCount

/-- While the count is below its limit, there is a free slot, and the search finds it. -/
theorem Tabled.findSlot (h : context.Tabled) (hcount : context.openFileCount < openFileCountMax) :
    ∃ slot, context.findSlot (openFileCountMax + 1) context.openFileIndex = some slot := by
  refine Option.ne_none_iff_exists'.1 fun hnone => ?_
  have hall : occupied context.openFile = Finset.range openFileCountMax := by
    refine Finset.filter_true_of_mem fun slot hslot => ?_
    have hslot := Finset.mem_range.1 hslot
    have hindex := h.index
    have hsome := findSlot_none hnone hindex
      ((slot + openFileCountMax - context.openFileIndex) % openFileCountMax)
    unfold openFileCountMax at hslot hindex hsome
    have heq : (context.openFileIndex + (slot + 32 - context.openFileIndex) % 32) % 32 = slot := by
      omega
    rw [heq] at hsome
    exact hsome (by omega)
  have hle := h.count
  rw [hall, Finset.card_range] at hle
  omega

/-- There is memory for the context of a stream, if the request gets so far. -/
def Allocates (context : LoaderContext) (a : ℕ × Request × Bool) : Prop :=
  ∀ payload, a.2.1 = .open payload → context.TakesSlot payload → a.2.2 = true

/-- Every request keeps the count as far above the number of streams as it is, but one that finds no
memory: it adds one that is never taken back. -/
theorem Served.tabled (h : Served context malloc source request reply context')
    (hc : context.Tabled) : context'.Tabled ∧
      (context'.openFileCount = (occupied context'.openFile).card ↔
        context.openFileCount = (occupied context.openFile).card ∧ context.Allocates (source, request, malloc)) := by
  have hle := hc.count
  cases h with
  | refused hslot =>
    refine ⟨hc, (and_iff_left ?_).symm⟩
    rintro payload ⟨⟩ htakes
    exact absurd htakes hslot
  | lost htakes hmalloc hslot =>
    refine ⟨⟨findSlot_lt hslot hc.index, hle.trans (Nat.le_succ _)⟩, ?_⟩
    refine iff_of_false (Nat.ne_of_gt (Nat.lt_succ_of_le hle)) fun ⟨_, hok⟩ => ?_
    exact absurd (hok _ rfl htakes) (by simp [hmalloc])
  | @opened _ _ slot _ _ _ hmalloc _ hslot =>
    have hlt := findSlot_lt hslot hc.index
    have hfree : slot ∉ occupied context.openFile := by
      simp [mem_occupied, findSlot_free hslot]
    refine ⟨⟨hlt, ?_⟩, ?_⟩
    all_goals rw [occupied_some hlt, Finset.card_insert_of_notMem hfree]
    · exact Nat.succ_le_succ hle
    · exact Nat.succ_inj.trans (and_iff_left fun _ _ _ => hmalloc).symm
  | @read slot _ _ file hslot hfile =>
    have hmem : slot ∈ occupied context.openFile := mem_occupied.2 ⟨hslot, by simp [hfile]⟩
    refine ⟨⟨hc.index, ?_⟩, ?_⟩
    all_goals rw [occupied_some hslot, Finset.insert_eq_of_mem hmem]
    · exact hle
    · exact (and_iff_left fun _ heq => nomatch heq).symm
  | @closed slot file hslot hfile =>
    have hmem : slot ∈ occupied context.openFile := mem_occupied.2 ⟨hslot, by simp [hfile]⟩
    have hpos := Finset.card_pos.2 ⟨slot, hmem⟩
    refine ⟨⟨hc.index, ?_⟩, ?_⟩
    all_goals rw [occupied_none, Finset.card_erase_of_mem hmem]
    · exact Nat.sub_le_sub_right hle 1
    · refine Iff.trans ?_ (and_iff_left fun _ heq => nomatch heq).symm
      exact ⟨fun h => Nat.sub_one_cancel (hpos.trans_le hle) hpos h, congrArg (· - 1)⟩
  | unread | unclosed | flush => exact ⟨hc, (and_iff_left fun _ heq => nomatch heq).symm⟩

def serve (context : LoaderContext) (a : ℕ × Request × Bool) : Option LoaderContext :=
  (context.dispatch a.2.2 a.1 a.2.1).map (·.2)

theorem served_of_serve {a : ℕ × Request × Bool} (h : context.serve a = some context') :
    ∃ reply, Served context a.2.2 a.1 a.2.1 reply context' := by
  obtain ⟨⟨reply, _⟩, hdispatch, rfl⟩ := Option.map_eq_some_iff.1 h
  exact ⟨reply, served_of_dispatch hdispatch⟩

def initial (entries : List DirectoryEntry) : LoaderContext :=
  ⟨fun _ => none, 0, 0, entries⟩

theorem tabled_initial (entries : List DirectoryEntry) : (initial entries).Tabled :=
  ⟨Nat.zero_lt_succ _, Nat.le_of_eq (by simp [occupied, initial])⟩

theorem Tabled.dispatch (h : context.Tabled) (malloc : Bool) (source : ℕ) (request : Request) :
    ∃ reply context', context.dispatch malloc source request = some (reply, context') := by
  cases request with
  | «open» payload =>
    show ∃ reply context', context.openFileRequest malloc source payload = some (reply, context')
    unfold openFileRequest
    split
    case h_1 => exact ⟨_, _, rfl⟩
    split
    case isTrue => exact ⟨_, _, rfl⟩
    split
    case h_1 => exact ⟨_, _, rfl⟩
    split
    case isTrue => exact ⟨_, _, rfl⟩
    case isFalse hcount =>
      obtain ⟨slot, hslot⟩ := h.findSlot (Nat.lt_of_not_le hcount)
      rw [hslot]
      cases malloc <;> exact ⟨_, _, rfl⟩
  | read payload | close cookie | flush => exact ⟨_, _, rfl⟩

/-- **The table of open files.** In every run each request is answered, so that the search for a
slot ends; a file is opened under a cookie that no open stream has; and no stream is affected but by
a request from its thread with its cookie. The count is the number of the streams exactly as long as
there is memory for each of them. -/
theorem open_file_table {entries : List DirectoryEntry} {c : LoaderContext}
    (h : Run serve Always (initial entries) c) :
    (Run serve Allocates (initial entries) c → c.openFileCount = (occupied c.openFile).card) ∧
      ∀ malloc source request, ∃ reply c', c.dispatch malloc source request = some (reply, c') ∧
        (∀ cookie, reply = .openComplete cookie .success →
          c.openFile cookie = none ∧ ∃ file ∈ c'.openFile cookie, file.thread = source) ∧
        (∀ slot file, c.openFile slot = some file →
          source ≠ file.thread ∨ request.cookie ≠ some slot → c'.openFile slot = some file) ∧
        (c'.openFileCount = (occupied c'.openFile).card ↔
          c.openFileCount = (occupied c.openFile).card ∧ c.Allocates (source, request, malloc)) := by
  constructor
  · intro hrun
    have hinv : c.Tabled ∧ c.openFileCount = (occupied c.openFile).card := by
      refine hrun.invariant (I := fun c => c.Tabled ∧ c.openFileCount = (occupied c.openFile).card)
        ⟨tabled_initial entries, by simp [occupied, initial]⟩ ?_
      intro x y a hx ha hy
      obtain ⟨reply, hserved⟩ := served_of_serve hy
      obtain ⟨htabled, hcount⟩ := hserved.tabled hx.1
      exact ⟨htabled, hcount.2 ⟨hx.2, ha⟩⟩
    exact hinv.2
  · intro malloc source request
    have hc : c.Tabled := by
      refine h.invariant (tabled_initial entries) ?_
      intro x y a hx _ hy
      obtain ⟨reply, hserved⟩ := served_of_serve hy
      exact (hserved.tabled hx).1
    obtain ⟨reply, c', hdispatch⟩ := hc.dispatch malloc source request
    have hserved := served_of_dispatch hdispatch
    refine ⟨reply, c', hdispatch, ?_, fun _ _ => hserved.openFile, (hserved.tabled hc).2⟩
    rintro cookie rfl
    cases hserved with
    | refused _ hstatus => exact absurd rfl hstatus
    | opened _ _ _ _ hslot => exact ⟨findSlot_free hslot, _, update_self .., rfl⟩

/-- A client opens a file: one stream is counted, and there is one. -/
theorem open_file_table_one : ∃ c, Run serve Allocates (initial [⟨[102], 0x40000200, [1]⟩]) c ∧
    c.openFileCount = 1 ∧ c.openFileCount = (occupied c.openFile).card := by
  have heval : ∃ c ∈ (initial [⟨[102], 0x40000200, [1]⟩]).serve (7, .open (some ([102], 1)), true),
      c.openFileCount = 1 := by
    decide +kernel
  obtain ⟨c, hc, hcount⟩ := heval
  have hrun : Run serve Allocates (initial [⟨[102], 0x40000200, [1]⟩]) c :=
    .single (fun _ _ _ => rfl) hc
  exact ⟨c, hrun, hcount, (open_file_table (.single trivial hc)).1 hrun⟩

/-- There is no memory for the only stream that is opened: it is counted, but not in the table. -/
theorem not_open_file_table : ∃ c, Run serve Always (initial [⟨[102], 0x40000200, [1]⟩]) c ∧
    c.openFileCount = 1 ∧ (occupied c.openFile).card = 0 :=
  exists_run [(7, .open (some ([102], 1)), false)] (by decide +kernel)

end LoaderContext

end Dx.User
