import Dx.Library.Run
import Mathlib.Data.Fin.Basic

/-!
# The keyboard driver

`keyboard.c` takes the scan codes of set 1, one byte after the other, and keeps a mask of modifiers
that it sends along with every character.

The mask has one bit for both keys of a kind, so a modifier is lost when one of two keys is released.
What follows the prefix `0xE0` is taken for the key that has this number without the prefix, and that
is right for the control and alt keys on the right, but not for the shift codes which the keyboard puts
around a navigation key, nor for Break. Pause counts as a press of Num Lock. What the mask says is true
as long as nothing of this happens (`Plain`), and no longer.
-/

namespace Dx.User

open Library

/-- `MAKE_KEYBOARD_DATA(modifiers, character)`. -/
def makeKeyboardData (modifiers character : BitVec 32) : BitVec 32 :=
  (modifiers <<< 16) ||| (character &&& 0xFF)

/-- `READ_KEYBOARD_MODIFIERS(word)`. -/
def readKeyboardModifiers (word : BitVec 32) : BitVec 32 := (word &&& 0xFF0000) >>> 16

structure Keyboard where
  modifierMask : BitVec 32
  /-- The words sent to the console, the last one first. -/
  sent : List (BitVec 32)

namespace Keyboard

-- `translate_scan_code`, whatever its tables are
variable (translateScanCode : BitVec 32 → ℕ → BitVec 32)

def handleMakeCode (keyboard : Keyboard) (scanCode : ℕ) : Keyboard :=
  let mask := keyboard.modifierMask
  let next : Keyboard := match scanCode with
    | 58 => { keyboard with modifierMask := mask ^^^ 0x04 } -- Caps Lock
    | 69 => { keyboard with modifierMask := mask ^^^ 0x02 } -- Num Lock
    | 70 => { keyboard with modifierMask := mask ^^^ 0x40 } -- Scroll Lock
    | 42 | 54 => { keyboard with modifierMask := mask ||| 0x01 } -- the shift keys
    | 29 => { keyboard with modifierMask := mask ||| 0x20 } -- control
    | 56 => { keyboard with modifierMask := mask ||| 0x10 } -- alt
    | _ =>
      let character := translateScanCode mask scanCode
      if character = 0 then keyboard
      else { keyboard with sent := makeKeyboardData mask character :: keyboard.sent }
  -- the extension only applies to the next key event
  { next with modifierMask := next.modifierMask &&& ~~~0x08 }

def handleBreakCode (keyboard : Keyboard) (scanCode : ℕ) : Keyboard :=
  let mask := match scanCode % 0x80 with
    | 42 | 54 => keyboard.modifierMask &&& ~~~0x01
    | 29 => keyboard.modifierMask &&& ~~~0x20
    | 56 => keyboard.modifierMask &&& ~~~0x10
    | _ => keyboard.modifierMask
  { keyboard with modifierMask := mask &&& ~~~0x08 }

def IsSimpleMakeCode (scanCode : ℕ) : Prop := scanCode < 0x58 ∧ scanCode ≠ 0
deriving Decidable

def handleDeferredInterrupt (keyboard : Keyboard) (scanCode : ℕ) : Keyboard :=
  if IsSimpleMakeCode scanCode then keyboard.handleMakeCode translateScanCode scanCode
  else if IsSimpleMakeCode (scanCode % 0x80) then keyboard.handleBreakCode scanCode
  else if scanCode = 0xE0 ∨ scanCode = 0xE1 then
    { keyboard with modifierMask := keyboard.modifierMask ||| 0x08 }
  else keyboard

/-! ### What the keyboard sends -/

inductive Modifier
  | shift | control | alt | capsLock | numLock | scrollLock
deriving DecidableEq

def Modifier.bit : Modifier → ℕ
  | shift => 0
  | numLock => 1
  | capsLock => 2
  | alt => 4
  | control => 5
  | scrollLock => 6

def Modifier.isLock : Modifier → Bool
  | shift | control | alt => false
  | capsLock | numLock | scrollLock => true

def modifierOf (number : ℕ) : Option Modifier :=
  if number = 42 ∨ number = 54 then some .shift
  else if number = 29 then some .control
  else if number = 56 then some .alt
  else if number = 58 then some .capsLock
  else if number = 69 then some .numLock
  else if number = 70 then some .scrollLock
  else none

/-- A key has a number, and its codes may come behind the prefix `0xE0`. -/
structure Key where
  extended : Bool
  number : Fin 128
deriving DecidableEq

/-- Behind the prefix are the control and alt keys on the right, but no shift key and no lock. -/
def Key.modifier (key : Key) : Option Modifier :=
  if key.extended ∧ key.number ≠ 29 ∧ key.number ≠ 56 then none else modifierOf key.number

def Key.codes (key : Key) (code : ℕ) : List ℕ := if key.extended then [0xE0, code] else [code]

inductive Event
  | press (key : Key)
  | release (key : Key)
  /-- The keyboard sends all the codes of Pause when it is pressed. -/
  | pause

def Event.codes : Event → List ℕ
  | press key => key.codes key.number
  | release key => key.codes (key.number + 128)
  | pause => [0xE1, 0x1D, 0x45, 0xE1, 0x9D, 0xC5]

structure Session where
  keyboard : Keyboard
  /-- The keys that are down. -/
  held : List Key
  /-- How often the keys of each kind have been pressed. -/
  presses : Modifier → ℕ

namespace Session

def initial : Session := ⟨⟨0, []⟩, [], fun _ => 0⟩

def step (s : Session) (event : Event) : Session :=
  let keyboard := event.codes.foldl (handleDeferredInterrupt translateScanCode) s.keyboard
  match event with
  | .press key => ⟨keyboard, key :: s.held,
      fun m => if key.modifier = some m then s.presses m + 1 else s.presses m⟩
  | .release key => { s with keyboard := keyboard, held := s.held.filter (· ≠ key) }
  | .pause => { s with keyboard := keyboard }

/-- At least one key of this kind is down. -/
def Holds (held : List Key) (m : Modifier) : Prop := ∃ key ∈ held, key.modifier = some m

/-- A lock is on after every other press, and another modifier while one of its keys is down. -/
def On (s : Session) (m : Modifier) : Prop :=
  if m.isLock then s.presses m % 2 = 1 else Holds s.held m

/-- What the next character comes with is true of the keys. -/
def Reported (s : Session) : Prop := ∀ character (m : Modifier),
  (readKeyboardModifiers (makeKeyboardData s.keyboard.modifierMask character)).getLsbD m.bit = true ↔
    s.On m

/-- What goes right: what is pressed is what the driver takes it for, or a key of the kind is down
anyway, and when one is released, no other is down. -/
def Plain (s : Session) : Event → Prop
  | .press key => ∀ m, modifierOf key.number = some m →
      if m.isLock then key.modifier = some m else Holds (key :: s.held) m
  | .release key => ∀ m, modifierOf key.number = some m → m.isLock = false →
      ¬ Holds (s.held.filter (· ≠ key)) m
  | .pause => False

end Session

/-! ### What the codes do to the mask -/

variable {translateScanCode} {keyboard : Keyboard} {n : ℕ} {m : Modifier}

theorem getLsbD_readKeyboardModifiers (mask character : BitVec 32) (m : Modifier) :
    (readKeyboardModifiers (makeKeyboardData mask character)).getLsbD m.bit = mask.getLsbD m.bit := by
  unfold readKeyboardModifiers makeKeyboardData
  cases m <;> simp [Modifier.bit]

theorem modifierOf_eq_none (h : ¬ IsSimpleMakeCode n) : modifierOf n = none := by
  unfold IsSimpleMakeCode at h
  unfold modifierOf
  split_ifs <;> first | rfl | omega

theorem getLsbD_press (hn : n < 128) (m : Modifier) :
    (handleDeferredInterrupt translateScanCode keyboard n).modifierMask.getLsbD m.bit =
      if modifierOf n = some m then !m.isLock || !keyboard.modifierMask.getLsbD m.bit
      else keyboard.modifierMask.getLsbD m.bit := by
  rw [handleDeferredInterrupt, Nat.mod_eq_of_lt hn]
  split
  case isTrue =>
    unfold handleMakeCode
    dsimp only
    split <;> try split
    all_goals cases m <;> simp_all [modifierOf, Modifier.bit, Modifier.isLock]
  case isFalse h => simp [modifierOf_eq_none h, show n ≠ 0xE0 ∧ n ≠ 0xE1 by omega]

theorem getLsbD_release (hn : n < 128) (m : Modifier) :
    (handleDeferredInterrupt translateScanCode keyboard (n + 128)).modifierMask.getLsbD m.bit =
      if modifierOf n = some m ∧ m.isLock = false then false
      else keyboard.modifierMask.getLsbD m.bit := by
  have hmod : (n + 128) % 0x80 = n := by omega
  rw [handleDeferredInterrupt, hmod, if_neg (by unfold IsSimpleMakeCode; omega)]
  split
  case isTrue =>
    rw [handleBreakCode, hmod]
    split
    all_goals cases m <;> simp_all [modifierOf, Modifier.bit, Modifier.isLock] <;> split_ifs <;> simp
  case isFalse h =>
    rw [modifierOf_eq_none h]
    split
    · cases m <;> simp [Modifier.bit]
    · simp

theorem foldl_codes (translateScanCode : BitVec 32 → ℕ → BitVec 32) (keyboard : Keyboard) (key : Key)
    (code : ℕ) : ∃ keyboard' : Keyboard, (key.codes code).foldl
        (handleDeferredInterrupt translateScanCode) keyboard =
        handleDeferredInterrupt translateScanCode keyboard' code ∧
      ∀ m : Modifier, keyboard'.modifierMask.getLsbD m.bit = keyboard.modifierMask.getLsbD m.bit := by
  rw [Key.codes]
  split
  · refine ⟨{ keyboard with modifierMask := keyboard.modifierMask ||| 0x08 }, rfl, fun m => ?_⟩
    cases m <;> simp [Modifier.bit]
  · exact ⟨keyboard, rfl, fun _ => rfl⟩

theorem getLsbD_pause : (Event.pause.codes.foldl (handleDeferredInterrupt translateScanCode)
    keyboard).modifierMask.getLsbD 1 = !keyboard.modifierMask.getLsbD 1 := by
  simp [Event.codes, handleDeferredInterrupt, IsSimpleMakeCode, handleMakeCode, handleBreakCode]

/-! ### What the next character comes with -/

namespace Session

variable {s : Session} {key : Key}

theorem modifierOf_of_modifier (h : key.modifier = some m) : modifierOf key.number = some m := by
  rw [Key.modifier] at h
  split at h
  · cases h
  · exact h

theorem holds_filter (h : modifierOf key.number ≠ some m) (held : List Key) :
    Holds (held.filter (· ≠ key)) m ↔ Holds held m := by
  constructor
  · rintro ⟨k, hk, hm⟩
    exact ⟨k, (List.mem_filter.1 hk).1, hm⟩
  · rintro ⟨k, hk, hm⟩
    have hne : k ≠ key := fun heq => h (heq ▸ modifierOf_of_modifier hm)
    exact ⟨k, List.mem_filter.2 ⟨hk, decide_eq_true hne⟩, hm⟩

theorem reported_iff :
    s.Reported ↔ ∀ m : Modifier, s.keyboard.modifierMask.getLsbD m.bit = true ↔ s.On m := by
  simp only [Reported, getLsbD_readKeyboardModifiers, forall_const]

/-- An event keeps the report true if and only if it is plain. -/
theorem reported_step (h : s.Reported) (event : Event) :
    (s.step translateScanCode event).Reported ↔ s.Plain event := by
  rw [reported_iff] at h ⊢
  cases event with
  | press key =>
    obtain ⟨keyboard, hcodes, hbit⟩ := foldl_codes translateScanCode s.keyboard key key.number
    simp only [step, Event.codes, hcodes, getLsbD_press key.number.isLt, hbit, Plain]
    refine forall_congr' fun m => ?_
    have hkey : key.modifier = some m → modifierOf key.number = some m := modifierOf_of_modifier
    have hcons : Holds (key :: s.held) m ↔ key.modifier = some m ∨ Holds s.held m := by simp [Holds]
    have hold := h m
    cases hl : m.isLock <;> cases hb : s.keyboard.modifierMask.getLsbD m.bit <;>
      by_cases hn : modifierOf key.number = some m <;> by_cases hk : key.modifier = some m <;>
      simp_all [On] <;> omega
  | release key =>
    obtain ⟨keyboard, hcodes, hbit⟩ := foldl_codes translateScanCode s.keyboard key (key.number + 128)
    simp only [step, Event.codes, hcodes, getLsbD_release key.number.isLt, hbit, Plain]
    refine forall_congr' fun m => ?_
    by_cases hn : modifierOf key.number = some m
    · cases hl : m.isLock <;> simp [On, hn, hl, h m]
    · simp only [hn, false_and, if_false, h m, On, holds_filter hn, false_implies]
  | pause =>
    refine iff_of_false (fun hstep => ?_) id
    have hnum := (hstep .numLock).trans (h .numLock).symm
    simp only [step, Modifier.bit, getLsbD_pause] at hnum
    simp at hnum

/-- **The modifiers.** In every run of plain events, what the next character comes with is true of the
keys; and from such a state only the plain events keep it so. -/
theorem modifiers_reported (translateScanCode : BitVec 32 → ℕ → BitVec 32) :
    (∀ s, Run (fun s event => some (step translateScanCode s event)) Plain initial s → s.Reported) ∧
      ∀ s : Session, s.Reported → ∀ event, (s.step translateScanCode event).Reported ↔ s.Plain event := by
  refine ⟨fun s hrun => ?_, fun s h event => reported_step h event⟩
  have hinitial : initial.Reported :=
    reported_iff.2 fun m => by cases m <;> simp [initial, On, Holds, Modifier.isLock]
  refine hrun.invariant hinitial fun h hplain hstep => ?_
  cases hstep
  exact (reported_step h _).2 hplain

/-- Both shift keys are pressed, and the left one is released. -/
theorem not_modifiers_reported : ¬ ([.press ⟨false, 42⟩, .press ⟨false, 54⟩,
    .release ⟨false, 42⟩].foldl (step fun _ _ => 0) initial).Reported := fun h =>
  absurd ((h 0 .shift).2 ⟨⟨false, 54⟩, by decide, by decide⟩) (by decide)

end Session

end Keyboard

end Dx.User
