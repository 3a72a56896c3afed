import Dx.Kernel.State
import Dx.Library.Bytes

/-!
# The arguments of a new process

The arguments of `main()` go from one process to another through the environment block. The creator
packs the strings back to back into a buffer of the block (`send_environment_block`), and the block
is mapped into the new address space; there the pointers to the strings are found again by a search
for the terminators (`initialize_argv`).

Each access to the buffer and to the array of pointers is checked here: one that is outside of them
is `none`. The block is in the heap of the creator, which ends far below 2GB, so the addresses that
are computed from a string's length do not overflow.
-/

namespace Dx.User

open Library Kernel Function List Option

def filenameMax : ℕ := 256
def argvCountMax : ℕ := 8
def argvBufferSize : ℕ := 4 * filenameMax
def userEnvironmentBlock : ℕ := 0xFFC00000
/-- `sizeof(address_space_environment_s)`. -/
def environmentSize : ℕ := 4 * 4 + 4 + 4 * argvCountMax + argvBufferSize + 4

/-- A string, without its terminator: none of its characters is one. -/
def CString : Type := { s : List UInt8 // 0 ∉ s }

/-- `address_space_environment_s`. -/
structure Environment where
  addressSpaceId : ℕ
  heapBase : ℕ
  heapCurrent : ℕ
  heapLimit : ℕ
  argc : ℕ
  /-- `argv`, below `argvCountMax`: pointers to the buffer, given by the offset; `none` is `NULL`. -/
  argv : ℕ → Option ℕ
  /-- `argv_buffer`, below `argvBufferSize`. -/
  argvBuffer : ℕ → UInt8

/-- The message that carries the environment block. -/
structure EnvironmentMessage where
  destination : ℕ
  /-- What is at `data`. -/
  data : Environment
  dataSize : ℕ
  destinationAddress : ℕ

/-- `memcpy`, to the buffer. -/
def memcpy (source : List UInt8) (offset : ℕ) (buffer : ℕ → UInt8) : Option (ℕ → UInt8) :=
  if offset + source.length ≤ argvBufferSize then some (store buffer offset source) else none

/-- `strlen`, of a string in the buffer. -/
def strlen (buffer : ℕ → UInt8) (offset : ℕ) : Option ℕ :=
  scan 0 buffer (argvBufferSize - offset) offset

/-- The loop of `send_environment_block` over the arguments, up to their `NULL`. -/
def packArguments : List CString → ℕ → Environment → Option (Status × Environment)
  | [], _, environment => some (.success, environment)
  | arg :: argv, offset, environment =>
    let length := arg.1.length + 1
    if argvBufferSize - 1 < offset + length then some (.insufficientMemory, environment)
    else
      match memcpy (arg.1 ++ [0]) offset environment.argvBuffer with
      | none => none
      | some buffer =>
        let environment := { environment with argvBuffer := buffer, argc := environment.argc + 1 }
        if argvCountMax ≤ environment.argc then some (.insufficientMemory, environment)
        else packArguments argv (offset + length) environment

/-- `send_environment_block`: the message that is sent, or the status that is returned without one.
`malloc` is whether there is memory for the block, and `argv` is `none` if it is `NULL`. -/
def sendEnvironmentBlock (malloc : Bool) (thread addressSpace heap heapSize : ℕ)
    (argv : Option (List CString)) : Option (Except Status EnvironmentMessage) :=
  if malloc then
    let environment : Environment :=
      ⟨addressSpace, heap, heap, heap + heapSize, 0, fun _ => none, fun _ => 0⟩
    match packArguments (argv.getD []) 0 environment with
    | none => none
    | some (.success, environment) =>
      some (.ok ⟨thread, environment, environmentSize, userEnvironmentBlock⟩)
    | some (status, _) => some (.error status)
  else some (.error .insufficientMemory)

/-- The loop of `initialize_argv`, with `n` arguments left. -/
def initializeArgvLoop : ℕ → ℕ → ℕ → Environment → Option Environment
  | 0, _, _, environment => some environment
  | n + 1, i, offset, environment =>
    if i < argvCountMax then
      match strlen environment.argvBuffer offset with
      | none => none
      | some length => initializeArgvLoop n (i + 1) (offset + (length + 1))
          { environment with argv := Function.update environment.argv i (some offset) }
    else none

def initializeArgv (environment : Environment) : Option Environment :=
  initializeArgvLoop environment.argc 0 0 environment

/-- The string a pointer of `argv` points to. -/
def Environment.argument (environment : Environment) (i : ℕ) : Option (List UInt8) :=
  (environment.argv i).bind fun offset =>
    (strlen environment.argvBuffer offset).map fun length =>
      (List.range length).map fun j => environment.argvBuffer (offset + j)

/-! ### Packing -/

variable {arg : CString} {argv : List CString} {environment : Environment} {offset : ℕ}

def bytes (argv : List CString) : List UInt8 := packed 0 (argv.map (·.1))

theorem bytes_cons (arg : CString) (argv : List CString) :
    bytes (arg :: argv) = (arg.1 ++ [0]) ++ bytes argv :=
  packed_cons _ _ _

/-- The arguments are in the buffer, and there are fewer than the array has room for. -/
structure Packs (argv : List CString) (offset : ℕ) (before after : Environment) : Prop where
  argc : after.argc = before.argc + argv.length
  /-- There is room for the `NULL` after them. -/
  count : after.argc < argvCountMax
  buffer : Holds after.argvBuffer offset (bytes argv)
  /-- They end before the last byte of the buffer. -/
  size : offset + (bytes argv).length < argvBufferSize
  /-- The rest of the buffer. -/
  outside : ∀ x < offset, after.argvBuffer x = before.argvBuffer x
  argv : after.argv = before.argv

theorem packArguments_spec (argv : List CString) (offset : ℕ) (environment : Environment)
    (hcount : environment.argc < argvCountMax) (hoffset : offset < argvBufferSize) :
    ∃ status after, packArguments argv offset environment = some (status, after) ∧
      (environment.argc + argv.length < argvCountMax → offset + (bytes argv).length < argvBufferSize →
        status = .success) ∧
      (status = .success → Packs argv offset environment after) := by
  induction argv generalizing offset environment with
  | nil =>
    exact ⟨_, _, rfl, fun _ _ => rfl, fun _ => ⟨rfl, hcount, trivial, hoffset, fun _ _ => rfl, rfl⟩⟩
  | cons arg argv ih =>
    have hlength : (arg.1 ++ [0]).length = arg.1.length + 1 := length_append
    rw [length_cons, bytes_cons, length_append, hlength]
    unfold packArguments
    dsimp only
    split
    case isTrue hfull => exact ⟨_, _, rfl, fun _ hsize => by omega, fun h => nomatch h⟩
    case isFalse hfits =>
      rw [memcpy, if_pos (by omega)]
      dsimp only
      split
      case isTrue hfull => exact ⟨_, _, rfl, fun hargc _ => by omega, fun h => nomatch h⟩
      case isFalse hroom =>
        obtain ⟨status, after, heq, haccept, hspec⟩ := ih (offset + (arg.1.length + 1))
          { environment with
            argvBuffer := store environment.argvBuffer offset (arg.1 ++ [0])
            argc := environment.argc + 1 }
          (Nat.lt_of_not_le hroom) (by omega)
        dsimp only at haccept
        refine ⟨status, after, heq, fun hargc hsize => haccept (by omega) (by omega), fun h => ?_⟩
        obtain ⟨hargc, hcount, hbuffer, hsize, houtside, hargv⟩ := hspec h
        dsimp only at hargc hbuffer houtside hargv
        refine ⟨?_, hcount, ?_, ?_, fun x hx => ?_, hargv⟩
        · rw [hargc, length_cons, Nat.add_right_comm, Nat.add_assoc]
        · -- the later arguments do not touch this one
          rw [bytes_cons, holds_append, hlength]
          refine ⟨(holds_store _ _ _).congr fun x _ hx => houtside x (by omega), hbuffer⟩
        · rw [bytes_cons, length_append, hlength]
          omega
        · rw [houtside x (by omega), store_of_outside (by omega)]

/-! ### Unpacking -/

theorem strlen_eq (h : Holds environment.argvBuffer offset (arg.1 ++ [0]))
    (hsize : offset + arg.1.length < argvBufferSize) :
    strlen environment.argvBuffer offset = some arg.1.length :=
  scan_of_holds 0 h arg.2 (by omega)

theorem argument_eq {i : ℕ} (offset : ℕ) (h : Holds environment.argvBuffer offset (arg.1 ++ [0]))
    (hsize : offset + arg.1.length < argvBufferSize) (hi : environment.argv i = some offset) :
    environment.argument i = some arg.1 := by
  unfold Environment.argument
  rw [hi, bind_some, strlen_eq h hsize, map_some, (holds_append.1 h).1.map_range]

/-- The pointers from `i` on are found, and nothing else is changed. -/
structure Unpacks (argv : List CString) (i : ℕ) (before after : Environment) : Prop where
  /-- The strings the pointers point to. -/
  argument : (List.range' i argv.length).map after.argument = argv.map fun arg => some arg.1
  /-- The other pointers. -/
  outside : ∀ j, j < i ∨ i + argv.length ≤ j → after.argv j = before.argv j
  argc : after.argc = before.argc
  buffer : after.argvBuffer = before.argvBuffer

theorem initializeArgvLoop_spec (i offset : ℕ) (environment : Environment)
    (h : Holds environment.argvBuffer offset (bytes argv))
    (hsize : offset + (bytes argv).length ≤ argvBufferSize) (hcount : i + argv.length ≤ argvCountMax) :
    ∃ after, initializeArgvLoop argv.length i offset environment = some after ∧
      Unpacks argv i environment after := by
  induction argv generalizing i offset environment with
  | nil => exact ⟨environment, rfl, rfl, fun _ _ => rfl, rfl, rfl⟩
  | cons arg argv ih =>
    have hlength : (arg.1 ++ [0]).length = arg.1.length + 1 := length_append
    rw [bytes_cons, length_append, hlength] at hsize
    rw [bytes_cons, holds_append, hlength] at h
    rw [length_cons] at hcount
    obtain ⟨after, heq, hspec⟩ := ih (i + 1) (offset + (arg.1.length + 1))
      { environment with argv := update environment.argv i (some offset) }
      h.2 (by omega) (by omega)
    rw [length_cons]
    unfold initializeArgvLoop
    rw [if_pos (by omega), strlen_eq h.1 (by omega)]
    refine ⟨after, heq, ?_, fun j hj => ?_, hspec.argc, hspec.buffer⟩
    · have hfirst : after.argument i = some arg.1 := by
        refine argument_eq offset ?_ (by omega) ?_
        · rw [hspec.buffer]
          exact h.1
        · rw [hspec.outside i (by omega)]
          exact update_self _ _ _
      rw [length_cons, List.range'_succ, map_cons, map_cons, hfirst, hspec.argument]
    · rw [length_cons] at hj
      rw [hspec.outside j (by omega)]
      exact update_of_ne (by omega) _ _

/-! ### From one process to the other -/

/-- **Arguments reach the new process.** Neither side goes outside of the buffer and of the array of
pointers. The block is sent if there is memory for it, and the arguments are fewer than the array has
room for and leave the last byte of the buffer unused; then the new process has the same number of
arguments, the pointers are to the same strings in the same order, and the next pointer is `NULL`. -/
theorem arguments_round_trip (malloc : Bool) (thread addressSpace heap heapSize : ℕ)
    (argv : Option (List CString)) :
    sendEnvironmentBlock malloc thread addressSpace heap heapSize argv ≠ none ∧
      ((∃ message, sendEnvironmentBlock malloc thread addressSpace heap heapSize argv =
          some (.ok message)) ↔
        malloc = true ∧ (argv.getD []).length < argvCountMax ∧
          (bytes (argv.getD [])).length < argvBufferSize) ∧
      ∀ message, sendEnvironmentBlock malloc thread addressSpace heap heapSize argv =
          some (.ok message) →
        ∃ environment, initializeArgv message.data = some environment ∧
          environment.argc = (argv.getD []).length ∧ environment.argc < argvCountMax ∧
          (List.range environment.argc).map environment.argument =
            (argv.getD []).map (fun arg => some arg.1) ∧
          environment.argv environment.argc = none := by
  unfold sendEnvironmentBlock
  cases malloc with
  | false =>
    refine ⟨some_ne_none _, iff_of_false ?_ (fun h => Bool.false_ne_true h.1),
      fun message h => nomatch h⟩
    rintro ⟨message, h⟩
    cases h
  | true =>
    obtain ⟨status, after, heq, haccept, hspec⟩ := packArguments_spec (argv.getD []) 0
      ⟨addressSpace, heap, heap, heap + heapSize, 0, fun _ => none, fun _ => 0⟩
      (show 0 < argvCountMax by decide) (by decide)
    rw [Nat.zero_add, Nat.zero_add] at haccept
    rw [if_pos rfl]
    dsimp only
    rw [heq]
    cases status with
    | success =>
      obtain ⟨hargc, hcount, hbuffer, hsize, -, hargv⟩ := hspec rfl
      have hargc : after.argc = (argv.getD []).length := hargc.trans (Nat.zero_add _)
      rw [Nat.zero_add] at hsize
      refine ⟨some_ne_none _, iff_of_true ⟨_, rfl⟩ ⟨rfl, hargc ▸ hcount, hsize⟩,
        fun message h => ?_⟩
      cases h
      obtain ⟨environment, hinit, hunpacks⟩ := initializeArgvLoop_spec 0 0 _ hbuffer
        (by omega) (by omega)
      rw [← hargc] at hinit
      refine ⟨environment, hinit, hunpacks.argc.trans hargc, by rwa [hunpacks.argc], ?_, ?_⟩
      · rw [hunpacks.argc, hargc, range_eq_range']
        exact hunpacks.argument
      · rw [hunpacks.argc, hunpacks.outside _ (by omega), hargv]
    | _ =>
      refine ⟨some_ne_none _, iff_of_false ?_ (fun h => nomatch haccept h.2.1 h.2.2),
        fun message h => nomatch h⟩
      rintro ⟨message, h⟩
      cases h

/-- Two arguments, of which the second is empty. -/
theorem arguments_round_trip_empty : ∃ message environment,
    sendEnvironmentBlock true 7 3 0x40010000 0x18000 (some [⟨[108, 115], by decide⟩, ⟨[], by decide⟩]) =
      some (.ok message) ∧ initializeArgv message.data = some environment ∧ environment.argc = 2 ∧
    (List.range environment.argc).map environment.argument = [some [108, 115], some []] := by
  have htrip := arguments_round_trip true 7 3 0x40010000 0x18000
    (some [⟨[108, 115], by decide⟩, ⟨[], by decide⟩])
  obtain ⟨message, hmessage⟩ := htrip.2.1.2 (by decide)
  obtain ⟨environment, hinit, hargc, -, harguments, -⟩ := htrip.2.2 message hmessage
  exact ⟨message, environment, hmessage, hinit, hargc, harguments⟩

end Dx.User
