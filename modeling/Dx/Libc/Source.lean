import Dx.Libc.Numbers
import Dx.Libc.Search

/-!
# Formatted input

`vcscanf` walks through its format and through its input at the same time. White space is skipped on
both sides, other characters have to be the same on both sides, and a conversion reads a field of the
input into an array of its own. The input is read through two callbacks, `read` and `pushback`, from a
string (`vsscanf`) or from a stream (`vfscanf`); here is the loop over any such source (`Source`).

What is assigned to the caller's objects is given as a list. Of the arguments, which are pointers to
these objects, the list has the sizes of the objects. A conversion takes its argument from the list
before it looks at its flags, so that one that assigns nothing uses up an argument as well.

The loop has two more variables that the code does not have: the characters that have been used so far,
as white space, as a match of the format or as a part of a field, and what had been used and assigned
when a conversion failed for the first time.

A source promises little (`Source.Lawful`): its characters come in their order, and the one that was
just read can be pushed back once. That holds of both sources, and of one that refuses everything else
(`Source.checked`).
-/

namespace Dx.Libc

open Library User

/-! ### The format -/

def typeLong : BitVec 32 := 0x00000001
def typeShort : BitVec 32 := 0x00000004
def typeInt : BitVec 32 := 0x00010000
def typeFloat : BitVec 32 := 0x00020000
def typeString : BitVec 32 := 0x00040000
def typePercent : BitVec 32 := 0x00100000
def typeDouble : BitVec 32 := typeLong ||| typeFloat

/-- `format_style_s`. -/
structure InputStyle where
  base : ℕ
  fieldWidth : BitVec 32
  /-- `FLAG_ASSIGN_ARGUMENT`. -/
  assign : Bool
  type : BitVec 32
  deriving DecidableEq

def readLength : BitVec 32 → List UInt8 → BitVec 32 × List UInt8
  | type, [] => (type, [])
  | type, f :: format =>
    if f = 'l'.toUInt8 then readLength (type + typeLong) format
    else if f = 'h'.toUInt8 then readLength (type + typeShort) format
    else (type, f :: format)

/-- The type and the base of a CONVERSION code. -/
def conversionCode (f : UInt8) : Option (BitVec 32 × ℕ) :=
  if f = 'd'.toUInt8 ∨ f = 'u'.toUInt8 then some (typeInt, 10)
  else if f = 'i'.toUInt8 ∨ f = 'p'.toUInt8 then some (typeInt, 0)
  else if f = 'o'.toUInt8 then some (typeInt, 8)
  else if f = 'x'.toUInt8 ∨ f = 'X'.toUInt8 then some (typeInt, 16)
  else if f ∈ ['a', 'e', 'f', 'g', 'A', 'E', 'F', 'G'].map Char.toUInt8 then some (typeFloat, 0)
  else if f = 's'.toUInt8 then some (typeString, 0)
  else if f = '%'.toUInt8 then some (typePercent, 0)
  else none

/-- The part of `read_format_style` after the width: the LENGTH modifiers and the CONVERSION code. A
character that is no such code is left in the format. -/
def readConversion (assign : Bool) (fieldWidth : BitVec 32) (format : List UInt8) :
    InputStyle × List UInt8 :=
  let length := readLength 0 format
  match conversionCode (current length.2) with
  | some code => (⟨code.2, fieldWidth, assign, length.1 ||| code.1⟩, length.2.tail)
  | none => (⟨0, fieldWidth, assign, length.1⟩, length.2)

/-- The format after the flag that suppresses the assignment. -/
def afterStar (format : List UInt8) : List UInt8 :=
  if current format = '*'.toUInt8 then format.tail else format

def readFormatStyle (format : List UInt8) : Except Fault (InputStyle × List UInt8) := do
  let assign := decide (current format ≠ '*'.toUInt8)
  if ← isdigit (current (afterStar format)) then
    let width ← strtoul (afterStar format) 10
    return readConversion assign width.1 width.2
  else return readConversion assign 64 (afterStar format)

/-! ### Sources -/

/-- The callbacks of `vcscanf_source_s` over its context. -/
structure Source (σ : Type) where
  /-- `read`: the character, or `EOF`. -/
  read : σ → Option UInt8 × σ
  /-- `pushback`, of a character that is not `EOF`. There may be no place for it. -/
  pushback : UInt8 → σ → Option σ

/-- The input string of `vsscanf`, with the pointer into it, which is at a character or at the
terminator. The value of `EOF` is that of the character 0xFF, which is therefore taken for the end as
well. Nothing is in front of the first character. -/
def Source.string (string : List UInt8) : Source (Fin (string.length + 1)) where
  read position :=
    if h : position.1 < string.length then
      (if string.get ⟨position.1, h⟩ = 0xFF then none else some (string.get ⟨position.1, h⟩),
        ⟨position.1 + 1, Nat.succ_lt_succ h⟩)
    else (none, position)
  pushback _ position :=
    if position.1 = 0 then none
    else some ⟨position.1 - 1, (Nat.sub_le _ _).trans_lt position.2⟩

/-- What `fgetc` and `ungetc` see of a `FILE`. -/
structure InputFile where
  /-- What `maybe_read` still finds in the buffer and in the messages of the device. -/
  input : List UInt8
  /-- `pushback`, if `STREAM_PUSHBACK` is set. -/
  pushback : Option UInt8
  eof : Bool
  deriving DecidableEq

def fgetc (stream : InputFile) : Option UInt8 × InputFile :=
  if stream.eof then (none, stream)
  else match stream.pushback, stream.input with
    | some c, _ => (some c, { stream with pushback := none })
    | none, c :: input => (some c, { stream with input })
    | none, [] => (none, { stream with eof := true })

/-- `ungetc`, of a character that is not `EOF`. -/
def ungetc (c : UInt8) (stream : InputFile) : Option InputFile :=
  if stream.pushback.isSome then none else some { stream with pushback := some c, eof := false }

/-- The stream of `vfscanf`. -/
def Source.stream : Source InputFile where
  read := fgetc
  pushback := ungetc

/-- An input with a cursor that is only moved back over the character that was just read: the
characters in front of the cursor, and the one that may be pushed back. -/
def Source.checked : Source (List UInt8 × Option UInt8) where
  read
    | ([], _) => (none, ([], none))
    | (c :: input, _) => (some c, (input, some c))
  pushback c s := if s.2 = some c then some (c :: s.1, none) else none

/-- What a source has to keep to, if `left` is what it has in front of it. The character 0xFF may be
taken for `EOF`. -/
structure Source.Lawful {σ : Type} (source : Source σ) (left : σ → List UInt8) : Prop where
  /-- The end of the input is not left. -/
  read_nil : ∀ s, left s = [] → (source.read s).1 = none ∧ left (source.read s).2 = []
  /-- The characters come in their order. -/
  read_cons : ∀ s c rest, left s = c :: rest → left (source.read s).2 = rest ∧
    ((source.read s).1 = some c ∨ c = 0xFF ∧ (source.read s).1 = none)
  /-- The character that was just read can be pushed back. -/
  restore : ∀ s c, (source.read s).1 = some c →
    ∃ t, source.pushback c (source.read s).2 = some t ∧ left t = c :: left (source.read s).2

/-- What is in front of a pointer into a string. -/
def Source.after (string : List UInt8) (position : Fin (string.length + 1)) : List UInt8 :=
  string.drop position.1

theorem Source.string_lawful (input : List UInt8) : (string input).Lawful (after input) where
  read_nil s hs := by
    have hlt : ¬s.1 < input.length := not_lt.2 (List.drop_eq_nil_iff.1 hs)
    simp only [string, dif_neg hlt]
    exact ⟨trivial, hs⟩
  read_cons s c rest hs := by
    have hlt : s.1 < input.length := by
      by_contra hge
      rw [after, List.drop_eq_nil_of_le (not_lt.1 hge)] at hs
      cases hs
    rw [after, List.drop_eq_getElem_cons hlt] at hs
    cases hs
    simp only [string, dif_pos hlt, List.get_eq_getElem]
    split
    · exact ⟨rfl, .inr ⟨‹_›, rfl⟩⟩
    · exact ⟨rfl, .inl rfl⟩
  restore s c hc := by
    by_cases hlt : s.1 < input.length
    · simp only [string, dif_pos hlt, List.get_eq_getElem] at hc ⊢
      split at hc
      · cases hc
      cases hc
      exact ⟨s, if_neg (Nat.succ_ne_zero _), List.drop_eq_getElem_cons hlt⟩
    · simp only [string, dif_neg hlt] at hc
      cases hc

def InputFile.left (stream : InputFile) : List UInt8 :=
  if stream.eof then [] else stream.pushback.toList ++ stream.input

theorem Source.stream_lawful : stream.Lawful InputFile.left where
  read_nil := by
    rintro ⟨input, pushback, eof⟩ h
    cases eof <;> cases pushback <;> cases input <;> simp_all [InputFile.left, stream, fgetc]
  read_cons := by
    rintro ⟨input, pushback, eof⟩ c rest h
    cases eof <;> cases pushback <;> cases input <;> simp_all [InputFile.left, stream, fgetc]
  restore := by
    rintro ⟨input, pushback, eof⟩ c h
    cases eof <;> cases pushback <;> cases input <;>
      simp_all [InputFile.left, stream, fgetc, ungetc]

theorem Source.checked_lawful : checked.Lawful Prod.fst where
  read_nil := by
    rintro ⟨input, last⟩ h
    cases input <;> simp_all [checked]
  read_cons := by
    rintro ⟨input, last⟩ c rest h
    cases input <;> simp_all [checked]
  restore := by
    rintro ⟨input, last⟩ c h
    cases input <;> simp_all [checked]

/-! ### The fields of the input -/

/-- What ends the field of a number. -/
def numberStops (c : UInt8) : Except Fault Bool := do
  if ← isspace c then return true else return !(← isdigit c)

inductive Item where
  | int (value : BitVec 32)
  | double (value : Decimal)
  | string (text : List UInt8)
  deriving DecidableEq

/-- The size of the object that the item needs, with the terminator of a string. -/
def Item.size : Item → ℕ
  | .int _ => 4
  | .double _ => 8
  | .string text => text.length + 1

/-- The item that the text of a field is converted to. -/
def coerce (style : InputStyle) (text : List UInt8) : Except Fault Item :=
  if style.type = typeInt then return .int (← strtol text style.base).1
  else if style.type = typeDouble then return .double (← strtod text).1
  else return .string (text.takeWhile (· ≠ 0))    -- `strcpy` ends with the first null character

/-- What a conversion leads to. -/
structure Converted (σ : Type) where
  /-- The characters that it uses. -/
  text : List UInt8
  success : Bool
  /-- The arguments that it leaves. -/
  arguments : List ℕ
  items : List Item
  source : σ

/-- The variables of the loop of `vcscanf`, with those that keep the account. -/
structure Tracker (σ : Type) where
  c : Option UInt8
  source : σ
  format : List UInt8
  /-- `argument_list`: the sizes of the objects that the arguments point to. -/
  arguments : List ℕ
  /-- What has been assigned. -/
  items : List Item
  /-- The characters that have been used, in the order in which they were. -/
  used : List UInt8
  /-- What had been assigned and used when a conversion failed for the first time. -/
  failed : Option (List Item × List UInt8)
  deriving DecidableEq

namespace Source

variable {σ : Type} (source : Source σ)

/-- `pushback`, of any value of `read`: for `EOF` it does nothing. -/
def giveBack : Option UInt8 → σ → Except Fault σ
  | none, s => .ok s
  | some c, s =>
    match source.pushback c s with
    | some t => .ok t
    | none => .error .refused

/-- The loop of `read_input_number` and of `read_input_string`: it reads at most so many characters,
keeps them up to the first that stops it, and restores the last one that it has read. The character is
kept in a `char`, whose `EOF` is 0xFF. -/
def readField (stops : UInt8 → Except Fault Bool) :
    ℕ → Option UInt8 → σ → Except Fault (List UInt8 × σ)
  | 0, c, s => do
    let s ← source.giveBack c s
    return ([], s)
  | room + 1, _, s =>
    match (source.read s).1 with
    | none => return ([], (source.read s).2)
    | some c =>
      if c = 0xFF then return ([], (source.read s).2)
      else do
        if ← stops c then
          let s ← source.giveBack (some c) (source.read s).2
          return ([], s)
        else
          let field ← readField stops room (some c) (source.read s).2
          return (c :: field.1, field.2)

/-- `read_input_number`, into an array of `textSize` characters. The last is for the terminator. -/
def readInputNumber (textSize : ℕ) (s : σ) : Except Fault (List UInt8 × σ) :=
  source.readField numberStops (textSize - 1) none s

def readInputString (textSize : ℕ) (s : σ) : Except Fault (List UInt8 × σ) :=
  source.readField isspace (textSize - 1) none s

/-- A field that is read, coerced and assigned. -/
def convertField (read : ℕ → σ → Except Fault (List UInt8 × σ)) (style : InputStyle) :
    List ℕ → List Item → σ → Except Fault (Converted σ)
  | [], _, _ => .error .outside    -- `va_arg`, behind the last argument
  | size :: arguments, items, s => do
    let field ← read style.fieldWidth.toNat s
    if field.1 = [] then return ⟨[], false, arguments, items, field.2⟩
    else if style.assign then
      let item ← coerce style field.1
      if item.size ≤ size then return ⟨field.1, true, arguments, items ++ [item], field.2⟩
      else .error .outside
    else return ⟨field.1, true, arguments, items, field.2⟩

/-- Coerces the input into the desired form. -/
def convertInput (style : InputStyle) (c : UInt8) (arguments : List ℕ) (items : List Item) (s : σ) :
    Except Fault (Converted σ) :=
  if style.type = typeInt ∨ style.type = typeDouble then
    convertField source.readInputNumber style arguments items s
  else if style.type = typeString then
    convertField source.readInputString style arguments items s
  else if style.type = typePercent then
    if (source.read s).1 = some '%'.toUInt8 then
      return ⟨['%'.toUInt8], true, arguments, items, (source.read s).2⟩
    else do
      let s ← source.giveBack (source.read s).1 (source.read s).2
      return ⟨[], false, arguments, items, s⟩
  else do
    -- unknown or unsupported: the character is put back a second time
    let s ← source.giveBack (some c) s
    return ⟨[], false, arguments, items, s⟩

/-! ### The loop -/

/-- A pass through the loop of `vcscanf`, with a character of the input, one of the format and what
follows the latter. -/
def vcscanfPass (t : Tracker σ) (c f : UInt8) (format : List UInt8) :
    Except Fault (Pass (Tracker σ) (Tracker σ)) := do
  let next := source.read t.source
  if ← isspace f then return .again { t with format }
  else if ← isspace c then
    return .again { t with c := next.1, source := next.2, used := t.used ++ [c] }
  else if f ≠ '%'.toUInt8 then
    if f = c then return .again { t with c := next.1, source := next.2, format, used := t.used ++ [c] }
    else return .done t
  else
    let s ← source.giveBack (some c) t.source
    let style ← readFormatStyle format
    let converted ← source.convertInput style.1 c t.arguments t.items s
    return .again
      { c := (source.read converted.source).1
        source := (source.read converted.source).2
        format := style.2
        arguments := converted.arguments
        items := converted.items
        used := t.used ++ converted.text
        failed := if converted.success ∨ t.failed.isSome then t.failed else some (t.items, t.used) }

/-- The loop of `vcscanf`, until the input or the format is exhausted. -/
def vcscanfBody (t : Tracker σ) : Except Fault (Pass (Tracker σ) (Tracker σ)) :=
  match t.c, t.format with
  | some c, f :: format => source.vcscanfPass t c f format
  | _, _ => .ok (.done t)

def start (s : σ) (format : List UInt8) (arguments : List ℕ) : Tracker σ :=
  ⟨(source.read s).1, (source.read s).2, format, arguments, [], [], none⟩

end Source

/-- A measure of the passes that are left over a string: the format gets shorter with each of them, or
the same format meets what follows in the string. -/
def Tracker.left {string : List UInt8} (t : Tracker (Fin (string.length + 1))) : ℕ :=
  t.format.length * (string.length + 2) + (string.length - t.source.1) + if t.c = none then 0 else 1

/-- `sscanf`: what is assigned. The last character that was read is restored first, and the number of
the items is returned. -/
def sscanf (string format : CString) (arguments : List ℕ) : Except Fault (Option (List Item)) := do
  let source := Source.string string.1
  let start := source.start 0 format.1 arguments
  let pass ← iterate source.vcscanfBody (start.left + 1) start
  match pass with
  | .again _ => return none
  | .done t =>
    let _ ← source.giveBack t.c t.source
    return some t.items

end Dx.Libc
