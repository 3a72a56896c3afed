import Dx.Libc.Calendar
import Dx.Libc.Render
import Mathlib.Algebra.Order.BigOperators.Group.List
import Mathlib.Data.List.GetD
import Mathlib.Data.List.TakeWhile

/-!
# Dates as text

`strftime` walks through its format: literal characters are copied, and a conversion writes a field of
the date (`print_datetime_field`). The text of a field is a name from a table, or is made by `snprintf`
in an array of 32 characters, and is then copied as far as the buffer has room.

What is written goes to the buffer from its start on. A read behind the terminator of the format, a
lookup outside of a table, and a write outside of the array or of the buffer are outside of the object.
-/

namespace Dx.Libc

open Library User List Nat Conversion

/-! ### The fields -/

/-- A string of the program, which ends with its first null character. -/
def cString (s : String) : CString :=
  ⟨(s.toList.map Char.toUInt8).takeWhile (· ≠ 0), fun h => by simpa using mem_takeWhile_imp h⟩

def shortWeekday : List CString := ["Sun", "Mon", "Tue", "Wed", "The", "Fri", "Sat"].map cString

def fullWeekday : List CString :=
  ["Sunday", "Monday", "Tuesday", "Wednesday", "Thursday", "Friday", "Saturday"].map cString

def shortMonth : List CString :=
  ["Jan", "Feb", "Mar", "Apr", "May", "Jun", "Jul", "Aug", "Sep", "Oct", "Nov", "Dec"].map cString

def fullMonth : List CString :=
  ["January", "February", "March", "April", "May", "June", "July", "August", "September", "October",
    "November", "December"].map cString

def entry (table : List CString) (index : ℤ) : Except Fault CString :=
  if 0 ≤ index then
    match table[index.toNat]? with
    | some s => .ok s
    | none => .error .outside
  else .error .outside

/-- The format codes that `print_datetime_field` knows. -/
inductive DateCode where
  | a | A | b | h | B | c | C | d | D | x | e | F | H | I | j | m | M | n | p | r | R | S | t | T | X
  | u | w | y | Y | percent
  deriving DecidableEq

def DateCode.char : DateCode → Char
  | .a => 'a' | .A => 'A' | .b => 'b' | .h => 'h' | .B => 'B' | .c => 'c' | .C => 'C' | .d => 'd'
  | .D => 'D' | .x => 'x' | .e => 'e' | .F => 'F' | .H => 'H' | .I => 'I' | .j => 'j' | .m => 'm'
  | .M => 'M' | .n => 'n' | .p => 'p' | .r => 'r' | .R => 'R' | .S => 'S' | .t => 't' | .T => 'T'
  | .X => 'X' | .u => 'u' | .w => 'w' | .y => 'y' | .Y => 'Y' | .percent => '%'

def dateCodes : List DateCode :=
  [.a, .A, .b, .h, .B, .c, .C, .d, .D, .x, .e, .F, .H, .I, .j, .m, .M, .n, .p, .r, .R, .S, .t, .T, .X,
    .u, .w, .y, .Y, .percent]

/-- `snprintf` into `text_buffer`. -/
def snprintf (format : String) (arguments : List Argument) : Except Fault (List UInt8) := do
  let text ← vsnprintf 32 (cString format) arguments
  if (text.getD []).length < 32 then return text.getD [] else .error .outside

/-- An `int` as an argument. -/
def int (n : ℤ) : Argument := .int (BitVec.ofInt 32 n)

def Tm.hour12 (datetime : Tm) : ℤ := if datetime.hour.tmod 12 = 0 then 12 else datetime.hour.tmod 12

/-- `tm_year + 1900`. -/
def Tm.fullYear (datetime : Tm) : ℤ := long (datetime.year + 1900)

/-- The text for the half of the day. -/
def Tm.half (datetime : Tm) : CString := if datetime.hour < 11 then cString "AM" else cString "PM"

def DateCode.text (datetime : Tm) : DateCode → Except Fault (List UInt8)
  | .a => return (← entry shortWeekday datetime.wday).1
  | .A => return (← entry fullWeekday datetime.wday).1
  | .b | .h => return (← entry shortMonth datetime.mon).1
  | .B => return (← entry fullMonth datetime.mon).1
  | .c => do
    let weekday ← entry shortWeekday datetime.wday
    let month ← entry shortMonth datetime.mon
    snprintf "%s %s % 2d %02d:%02d:%02d %d"
      [.string weekday, .string month, int datetime.mday, int datetime.hour, int datetime.min,
        int datetime.sec, int datetime.fullYear]
  | .C => snprintf "%02d" [int (datetime.fullYear.tmod 100)]
  | .d => snprintf "%02d" [int datetime.mday]
  | .D | .x => snprintf "%02d/%02d/%02d"
      [int (datetime.mon + 1), int datetime.mday, int (datetime.fullYear.tmod 100)]
  | .e => snprintf "% 2d" [int datetime.mday]
  | .F => snprintf "%04d-%02d-%02d" [int datetime.fullYear, int (datetime.mon + 1), int datetime.mday]
  | .H => snprintf "%02d" [int datetime.hour]
  | .I => snprintf "%02d" [int datetime.hour12]
  | .j => snprintf "%03d" [int (datetime.yday + 1)]
  | .m => snprintf "%02d" [int (datetime.mon + 1)]
  | .M => snprintf "%02d" [int datetime.min]
  | .n => return ['\n'.toUInt8]
  | .p => return datetime.half.1
  | .r => snprintf "%02d:%02d:%02d %s"
      [int datetime.hour12, int datetime.min, int datetime.sec, .string datetime.half]
  | .R => snprintf "%02d:%02d" [int datetime.hour, int datetime.min]
  | .S => snprintf "%02d" [int datetime.sec]
  | .t => return ['\t'.toUInt8]
  | .T | .X => snprintf "%02d:%02d:%02d" [int datetime.hour, int datetime.min, int datetime.sec]
  | .u => snprintf "%d" [int (datetime.wday + 1)]
  | .w => snprintf "%d" [int datetime.wday]
  | .y => snprintf "%02d" [int (datetime.fullYear.tmod 100)]
  | .Y => snprintf "%04d" [int datetime.fullYear]
  | .percent => return ['%'.toUInt8]

/-- `print_datetime_field`, before the text is cut off at the end of the buffer. Of an unknown code the
character itself is printed. -/
def printDatetimeField (datetime : Tm) (formatCode : UInt8) : Except Fault (List UInt8) :=
  match dateCodes.find? fun code => code.char.toUInt8 = formatCode with
  | some code => code.text datetime
  | none => .ok [formatCode]

/-! ### The loop -/

/-- `parse_format_style`: the format code, and what follows it, unless that is behind the terminator. -/
def parseDateStyle (format : List UInt8) : UInt8 × Option (List UInt8) :=
  if current format = 'E'.toUInt8 ∨ current format = 'O'.toUInt8 then
    (current format.tail, advance format.tail)
  else (current format, advance format)

/-- The loop of `strftime`: what is left of the format, and what has been written. -/
def strftimeBody (bufferLength : ℕ) (datetime : Tm) (t : List UInt8 × List UInt8) :
    Except Fault (Pass (List UInt8 × List UInt8) (List UInt8)) :=
  match t.1 with
  | [] => .ok (.done t.2)
  | f :: format =>
    if t.2.length < bufferLength then
      if f ≠ '%'.toUInt8 then .ok (.again (format, t.2 ++ [f]))
      else do
        let field ← printDatetimeField datetime (parseDateStyle format).1
        match (parseDateStyle format).2 with
        | some rest => return .again (rest, t.2 ++ field.take (bufferLength - t.2.length))
        | none => .error .outside    -- the next pass starts behind the terminator
    else .ok (.done t.2)

/-- `strftime`: what is written to a buffer of a size, without the terminator, and the value that is
returned. -/
def strftime (bufferLength : ℕ) (format : CString) (datetime : Tm) :
    Except Fault (List UInt8 × ℕ) := do
  -- one character is saved for the terminator
  let pass ← iterate (strftimeBody (bufferLength - 1) datetime) (format.1.length + 1) (format.1, [])
  let output := pass.result.getD []
  if output.length < bufferLength then
    return (output, if output.length < bufferLength - 1 then output.length else 0)
  else .error .outside

/-! ### What `snprintf` writes

The formats of the fields are made of literal characters and of a few conversions. Each writes its
text, whether or not that is the one of the standard. -/

inductive Slot where
  | literal (c : UInt8)
  | conversion (k : Conversion)
  /-- `% 2d`. -/
  | blank

def Slot.bytes : Slot → List UInt8
  | .literal c => [c]
  | .conversion k => '%'.toUInt8 :: k.bytes
  | .blank => ['%'.toUInt8, ' '.toUInt8, '2'.toUInt8, 'd'.toUInt8]

/-- The text that a slot writes for its argument. -/
inductive Slot.Writes : Slot → List Argument → List UInt8 → Prop
  /-- A literal character writes itself. -/
  | literal {c : UInt8} (hc : c ≠ '%'.toUInt8) : Writes (.literal c) [] [c]
  /-- A number is padded in front of its sign. -/
  | number {k : Conversion} (hcode : k.code = .d) (halternate : k.alternate = false)
      (hwidth : k.width ≤ 51) (v : BitVec 32) : Writes (.conversion k) [.int v] (k.written (.int v))
  | string (s : CString) : Writes (.conversion ⟨[], 0, .s⟩) [.string (some s)] s.1
  /-- The space is a flag for the sign, which is not made use of. -/
  | blank (v : BitVec 32) : Writes .blank [.int v] ((⟨[], 2, .d⟩ : Conversion).written (.int v))

theorem formatStyleOf_blank (rest : List UInt8) :
    ParseSafe (' '.toUInt8 :: '2'.toUInt8 :: 'd'.toUInt8 :: rest) ∧
      formatStyleOf (' '.toUInt8 :: '2'.toUInt8 :: 'd'.toUInt8 :: rest) =
        ({ (⟨[], 2, .d⟩ : Conversion).style with alignSign := true }, some rest) := by
  have hnumeral : numeral 10 2 ++ 'd'.toUInt8 :: rest = '2'.toUInt8 :: 'd'.toUInt8 :: rest := by
    rw [show numeral 10 2 = ['2'.toUInt8] by decide]
    rfl
  have hflags : parseFlags .default (' '.toUInt8 :: '2'.toUInt8 :: 'd'.toUInt8 :: rest) =
      ({ OutputStyle.default with alignSign := true }, '2'.toUInt8 :: 'd'.toUInt8 :: rest) := by
    rw [parseFlags, if_neg (by decide), if_neg (by decide), if_neg (by decide), if_pos rfl]
    exact parseFlags_of_endsFlags _ (by rw [current_cons]; decide)
  obtain ⟨hvalue, hend⟩ := strtoul_numeral (n := 2) ('d'.toUInt8 :: rest) (by decide)
    (by rw [current_cons]; decide)
  rw [hnumeral] at hvalue hend
  have hpos : 0 < BitVec.ofNat 32 2 := by decide
  have hpoint : 'd'.toUInt8 ≠ '.'.toUInt8 := by decide
  refine ⟨?_, ?_⟩
  · simp only [ParseSafe, hflags, widthOf, hvalue, hend, if_pos hpos, current_cons]
    exact ⟨by decide, fun h => absurd h hpoint⟩
  · simp only [formatStyleOf, hflags, widthOf, hvalue, hend, if_pos hpos, precisionOf, current_cons,
      if_neg hpoint]
    rfl

theorem Slot.Writes.pass {slot : Slot} {arguments : List Argument} {text written : List UInt8} {room : ℕ}
    (h : slot.Writes arguments text) (rest : List UInt8) (more : List Argument)
    (hroom : written.length < room) (hfits : text.length ≤ room) :
    vsnprintfBody room ⟨slot.bytes ++ rest, arguments ++ more, written⟩ =
      .ok (.again ⟨rest, more, written ++ text⟩) := by
  cases h with
  | literal hc => exact vsnprintfBody_literal hc rfl hroom
  | @number k hcode halternate hwidth v =>
    have hdefined := Defined.signed (.inl hcode) halternate v
    obtain ⟨source, hsource, htexts⟩ := argumentTexts_style hdefined more
    have hpadding : k.padding (.int v) ≤ 51 := (sub_le _ _).trans hwidth
    have hpass := vsnprintfBody_conversion (t := ⟨'%'.toUInt8 :: (k.bytes ++ rest), .int v :: more, written⟩)
      (by omega) rfl hroom htexts
    rw [Conversion.prints hpadding hsource hfits] at hpass
    exact hpass
  | string s =>
    have hdefined := Defined.string 0 s
    obtain ⟨source, hsource, htexts⟩ := argumentTexts_style hdefined more
    have hpass := vsnprintfBody_conversion
      (t := ⟨'%'.toUInt8 :: ((⟨[], 0, .s⟩ : Conversion).bytes ++ rest), .string (some s) :: more, written⟩)
      (by decide) rfl hroom htexts
    have hwritten : (⟨[], 0, .s⟩ : Conversion).written (.string (some s)) = s.1 := by
      simp [Conversion.written, Conversion.front, Conversion.padding, Conversion.back, Conversion.alternate]
    rw [Conversion.prints (by simp [Conversion.padding]) hsource (by rw [hwritten]; exact hfits),
      hwritten] at hpass
    exact hpass
  | blank v =>
    have hdefined := Defined.signed (k := ⟨[], 2, .d⟩) (.inl rfl) rfl v
    obtain ⟨source, hsource, htexts⟩ := argumentTexts_style hdefined more
    obtain ⟨hsafe, hstyle⟩ := formatStyleOf_blank rest
    obtain ⟨style, hparse, rfl⟩ := (endsIff_parseFormatStyle _).1 hsafe
    have hpadding : (⟨[], 2, .d⟩ : Conversion).padding (.int v) ≤ 51 :=
      (sub_le _ _).trans (by decide)
    have hprints := Conversion.prints hpadding hsource hfits
    have hsame : argumentTexts { (⟨[], 2, .d⟩ : Conversion).style with alignSign := true }
        (.int v :: more) = argumentTexts (⟨[], 2, .d⟩ : Conversion).style (.int v :: more) := rfl
    simp only [Slot.bytes, cons_append, nil_append, vsnprintfBody]
    rw [if_pos hroom, if_neg (by simp), hparse, hstyle]
    simp only [ok_bind, hsame, htexts, hprints]
    rfl

/-- The slots of a format write their texts, one after the other. -/
theorem reaches_of_writes {α : Type} {slot : α → Slot} {arguments : α → List Argument}
    {text : α → List UInt8} (room : ℕ) (l : List α)
    (h : ∀ x ∈ l, (slot x).Writes (arguments x) (text x)) (written : List UInt8)
    (hfits : written.length + (l.flatMap text).length ≤ room) :
    ∃ last, Reaches (vsnprintfBody room)
        ⟨l.flatMap fun x => (slot x).bytes, l.flatMap arguments, written⟩ last ∧
      vsnprintfBody room last = .ok (.done (written ++ l.flatMap text)) := by
  induction l generalizing written with
  | nil => exact ⟨_, .refl, by simp [vsnprintfBody]⟩
  | cons x l ih =>
    rw [flatMap_cons, length_append] at hfits
    by_cases hfull : written.length < room
    · have hpass := (h x (mem_cons_self ..)).pass (l.flatMap fun x => (slot x).bytes)
        (l.flatMap arguments) hfull (by omega)
      obtain ⟨last, hlast, hdone⟩ := ih (fun y hy => h y (mem_cons_of_mem _ hy)) (written ++ text x)
        (by rw [length_append]; omega)
      rw [flatMap_cons, flatMap_cons, flatMap_cons, ← append_assoc]
      exact ⟨last, .head hpass hlast, hdone⟩
    · -- nothing is left to be written
      have hempty : (x :: l).flatMap text = [] :=
        length_eq_zero_iff.1 (by rw [flatMap_cons, length_append]; omega)
      refine ⟨_, .refl, ?_⟩
      rw [hempty, append_nil]
      exact vsnprintfBody_full hfull

theorem snprintf_of_writes {α : Type} {slot : α → Slot} {arguments : α → List Argument}
    {text : α → List UInt8} (l : List α) (h : ∀ x ∈ l, (slot x).Writes (arguments x) (text x))
    {format : String} (hformat : (cString format).1 = l.flatMap fun x => (slot x).bytes)
    (hfits : (l.flatMap text).length ≤ 31) :
    snprintf format (l.flatMap arguments) = .ok (l.flatMap text) := by
  obtain ⟨last, hlast, hdone⟩ := reaches_of_writes ((32 : BitVec 32) - 1).toNat l h []
    (by rw [length_nil, zero_add]; exact hfits)
  have hprints : vsnprintf 32 (cString format) (l.flatMap arguments) = .ok (some (l.flatMap text)) := by
    rw [vsnprintf_eq_some_iff, hformat]
    exact iterate_eq_done (vsnprintfBody_shrinks _) (lt_succ_self _) hlast hdone
  rw [snprintf, hprints]
  simp only [ok_bind, Option.getD_some]
  rw [if_pos (by omega)]
  rfl

/-! ### The parts of the fields -/

/-- A part of the text of a field. -/
inductive Part where
  | literal (c : UInt8)
  | shortWeekday
  | fullWeekday
  | shortMonth
  | fullMonth
  | month
  | day
  /-- The day of the month, with a blank. -/
  | blankDay
  | hour
  /-- The hour of the half of the day. -/
  | hour12
  | minute
  | second
  | yearDay
  /-- The half of the day. -/
  | half
  /-- The day of the week, from Monday on. -/
  | isoWeekday
  | weekday
  | century
  | yearOfCentury
  | year
  /-- The year, in the date and time. -/
  | plainYear
  deriving DecidableEq

def digitSlot (width : ℕ) : Slot := .conversion ⟨[.zero], width, .d⟩
def plainSlot : Slot := .conversion ⟨[], 0, .d⟩
def stringSlot : Slot := .conversion ⟨[], 0, .s⟩

def Part.slot : Part → Slot
  | .literal c => .literal c
  | .shortWeekday | .fullWeekday | .shortMonth | .fullMonth | .half => stringSlot
  | .month | .day | .hour | .hour12 | .minute | .second | .century | .yearOfCentury => digitSlot 2
  | .yearDay => digitSlot 3
  | .year => digitSlot 4
  | .blankDay => .blank
  | .isoWeekday | .weekday | .plainYear => plainSlot

def name (table : List CString) (index : ℤ) : CString := table.getD index.toNat (cString "")

def Part.string (datetime : Tm) : Part → CString
  | .shortWeekday => name Libc.shortWeekday datetime.wday
  | .fullWeekday => name Libc.fullWeekday datetime.wday
  | .shortMonth => name Libc.shortMonth datetime.mon
  | .fullMonth => name Libc.fullMonth datetime.mon
  | .half => datetime.half
  | _ => cString ""

def Part.number (datetime : Tm) : Part → ℤ
  | .month => datetime.mon + 1
  | .day | .blankDay => datetime.mday
  | .hour => datetime.hour
  | .hour12 => datetime.hour12
  | .minute => datetime.min
  | .second => datetime.sec
  | .yearDay => datetime.yday + 1
  | .isoWeekday => datetime.wday + 1
  | .weekday => datetime.wday
  | .century | .yearOfCentury => datetime.fullYear.tmod 100
  | .year | .plainYear => datetime.fullYear
  | _ => 0

def Part.arguments (datetime : Tm) (part : Part) : List Argument :=
  match part.slot with
  | .literal _ => []
  | .blank => [int (part.number datetime)]
  | .conversion k => if k.code = .s then [.string (part.string datetime)] else [int (part.number datetime)]

/-- A number as `snprintf` writes it: the padding is in front of the sign. -/
def padded (fill : UInt8) (width : ℕ) (n : ℤ) : List UInt8 :=
  let text := (if n < 0 then ['-'.toUInt8] else []) ++ numeral 10 n.natAbs
  .replicate (width - text.length) fill ++ text

def Part.text (datetime : Tm) (part : Part) : List UInt8 :=
  match part.slot with
  | .literal c => [c]
  | .blank => padded ' '.toUInt8 2 (part.number datetime)
  | .conversion k =>
    if k.code = .s then (part.string datetime).1 else padded '0'.toUInt8 k.width (part.number datetime)

def timeParts : List Part :=
  [.hour, .literal ':'.toUInt8, .minute, .literal ':'.toUInt8, .second]

def DateCode.parts : DateCode → List Part
  | .a => [.shortWeekday]
  | .A => [.fullWeekday]
  | .b | .h => [.shortMonth]
  | .B => [.fullMonth]
  | .c => [.shortWeekday, .literal ' '.toUInt8, .shortMonth, .literal ' '.toUInt8, .blankDay,
      .literal ' '.toUInt8] ++ timeParts ++ [.literal ' '.toUInt8, .plainYear]
  | .C => [.century]
  | .d => [.day]
  | .D | .x => [.month, .literal '/'.toUInt8, .day, .literal '/'.toUInt8, .yearOfCentury]
  | .e => [.blankDay]
  | .F => [.year, .literal '-'.toUInt8, .month, .literal '-'.toUInt8, .day]
  | .H => [.hour]
  | .I => [.hour12]
  | .j => [.yearDay]
  | .m => [.month]
  | .M => [.minute]
  | .n => [.literal '\n'.toUInt8]
  | .p => [.half]
  | .r => [.hour12, .literal ':'.toUInt8, .minute, .literal ':'.toUInt8, .second, .literal ' '.toUInt8,
      .half]
  | .R => [.hour, .literal ':'.toUInt8, .minute]
  | .S => [.second]
  | .t => [.literal '\t'.toUInt8]
  | .T | .X => timeParts
  | .u => [.isoWeekday]
  | .w => [.weekday]
  | .y => [.yearOfCentury]
  | .Y => [.year]
  | .percent => [.literal '%'.toUInt8]

structure Tm.Normal (datetime : Tm) : Prop where
  sec : 0 ≤ datetime.sec ∧ datetime.sec ≤ 60
  min : 0 ≤ datetime.min ∧ datetime.min ≤ 59
  hour : 0 ≤ datetime.hour ∧ datetime.hour ≤ 23
  mday : 1 ≤ datetime.mday ∧ datetime.mday ≤ 31
  mon : 0 ≤ datetime.mon ∧ datetime.mon ≤ 11
  year : -2 ^ 31 ≤ datetime.year ∧ datetime.year < 2 ^ 31
  wday : 0 ≤ datetime.wday ∧ datetime.wday ≤ 6
  yday : 0 ≤ datetime.yday ∧ datetime.yday ≤ 365

section

variable {datetime : Tm} {table : List CString} {k width : ℕ} {n : ℤ} {fill : UInt8}

theorem entry_eq {index : ℤ} (hzero : 0 ≤ index) (h : index.toNat < table.length) :
    entry table index = .ok (name table index) := by
  rw [entry, if_pos hzero, List.getElem?_eq_getElem h, name, getD_eq_getElem _ _ h]

theorem Tm.fullYear_bounds (datetime : Tm) : -2 ^ 31 ≤ datetime.fullYear ∧ datetime.fullYear < 2 ^ 31 :=
  long_bounds _

theorem Tm.fullYear_tmod_bounds (datetime : Tm) :
    -100 < datetime.fullYear.tmod 100 ∧ datetime.fullYear.tmod 100 < 100 :=
  ⟨Int.lt_tmod_of_pos _ (by decide), Int.tmod_lt_of_pos _ (by decide)⟩

theorem Part.number_bounds (h : datetime.Normal) (part : Part) :
    -2 ^ 31 ≤ part.number datetime ∧ part.number datetime < 2 ^ 31 := by
  obtain ⟨hsec, hmin, hhour, hmday, hmon, -, hwday, hyday⟩ := h
  have hyear := datetime.fullYear_bounds
  have hmod := Int.tmod_eq_emod_of_nonneg hhour.1 (b := 12)
  have hcentury := datetime.fullYear_tmod_bounds
  cases part <;> simp only [Part.number, Tm.hour12, hmod] <;> omega

theorem written_eq_padded {k : Conversion} (hcode : k.code = .d) (halternate : k.alternate = false)
    (hn : -2 ^ 31 ≤ n ∧ n < 2 ^ 31) : k.written (int n) = padded k.fill k.width n := by
  have hvalue : (BitVec.ofInt 32 n).toInt = n := by
    rw [BitVec.toInt_ofInt]
    exact long_eq_self hn
  have hback : k.back (int n) = (if n < 0 then ['-'.toUInt8] else []) ++ numeral 10 n.natAbs := by
    rw [int, back_signed (.inl hcode), minus, hvalue]
  rw [written, padding, front_eq_nil halternate, hback, padded, nil_append, length_nil, zero_add]

theorem writes_number {k : Conversion} (hcode : k.code = .d) (halternate : k.alternate = false)
    (hwidth : k.width ≤ 51) (hn : -2 ^ 31 ≤ n ∧ n < 2 ^ 31) :
    Slot.Writes (.conversion k) [int n] (padded k.fill k.width n) := by
  rw [← written_eq_padded hcode halternate hn]
  exact .number hcode halternate hwidth _

theorem writes_blank (hn : -2 ^ 31 ≤ n ∧ n < 2 ^ 31) :
    Slot.Writes .blank [int n] (padded ' '.toUInt8 2 n) := by
  have hwritten := written_eq_padded (k := ⟨[], 2, .d⟩) rfl rfl hn
  rw [show (⟨[], 2, .d⟩ : Conversion).fill = ' '.toUInt8 from rfl] at hwritten
  rw [← hwritten]
  exact .blank _

/-- **A part of a format writes its text.** -/
theorem Part.writes (h : datetime.Normal) {part : Part} (hpart : part ≠ .literal '%'.toUInt8) :
    part.slot.Writes (part.arguments datetime) (part.text datetime) := by
  have hbounds := part.number_bounds h
  have hdigits (width : ℕ) (hwidth : width ≤ 51) : (digitSlot width).Writes [int (part.number datetime)]
      (padded '0'.toUInt8 width (part.number datetime)) := writes_number rfl rfl hwidth hbounds
  have hplain : plainSlot.Writes [int (part.number datetime)]
      (padded '0'.toUInt8 0 (part.number datetime)) := by
    -- without a width there is no padding, be it of zeros or of blanks
    have hwrites := writes_number (k := ⟨[], 0, .d⟩) rfl rfl (zero_le _) hbounds
    simpa [padded, plainSlot] using hwrites
  cases part with
  | literal c => exact .literal fun heq => hpart (by rw [heq])
  | shortWeekday | fullWeekday | shortMonth | fullMonth | half => exact .string _
  | month | day | hour | hour12 | minute | second | century | yearOfCentury => exact hdigits 2 (by decide)
  | yearDay => exact hdigits 3 (by decide)
  | year => exact hdigits 4 (by decide)
  | blankDay => exact writes_blank hbounds
  | isoWeekday | weekday | plainYear => exact hplain

def Part.room : Part → ℕ
  | .literal _ | .isoWeekday | .weekday => 1
  | .month | .day | .blankDay | .hour | .hour12 | .minute | .second | .half => 2
  | .shortWeekday | .shortMonth | .yearDay | .century | .yearOfCentury => 3
  | .fullWeekday | .fullMonth => 9
  | .year | .plainYear => 11

theorem length_padded (fill : UInt8) (width : ℕ) (n : ℤ) :
    (padded fill width n).length =
      max width ((if n < 0 then 1 else 0) + (numeral 10 n.natAbs).length) := by
  have hsign : (if n < 0 then ['-'.toUInt8] else []).length = if n < 0 then 1 else 0 := by
    split <;> rfl
  simp only [padded, length_append, length_replicate, hsign]
  omega

theorem length_numeral_le_iff {n : ℕ} (hk : 0 < k) : (numeral 10 n).length ≤ k ↔ n < 10 ^ k := by
  rw [numeral, length_map, length_toDigits_le_iff (by decide) hk]

theorem length_padded_le (hwidth : width ≤ k) (hk : 0 < k) (hn : 0 ≤ n ∧ n.natAbs < 10 ^ k) :
    (padded fill width n).length ≤ k := by
  have hlength := (length_numeral_le_iff hk).2 hn.2
  rw [length_padded, if_neg (by omega)]
  omega

theorem length_padded_neg_le (hwidth : width ≤ k + 1) (hk : 0 < k) (hn : n.natAbs < 10 ^ k) :
    (padded fill width n).length ≤ k + 1 := by
  have hlength := (length_numeral_le_iff hk).2 hn
  rw [length_padded]
  split <;> omega

theorem length_name_le (h : ∀ s ∈ table, s.1.length ≤ k) (index : ℤ) :
    (name table index).1.length ≤ k := by
  rw [name, getD_eq_getElem?_getD]
  cases hentry : table[index.toNat]? with
  | none => exact zero_le k
  | some s => exact h s (mem_of_getElem? hentry)

theorem Part.length_text_le (h : datetime.Normal) (part : Part) :
    (part.text datetime).length ≤ part.room := by
  obtain ⟨hsec, hmin, hhour, hmday, hmon, -, hwday, hyday⟩ := h
  have hyear := datetime.fullYear_bounds
  have hmod := Int.tmod_eq_emod_of_nonneg hhour.1 (b := 12)
  obtain ⟨hlow, hhigh⟩ := datetime.fullYear_tmod_bounds
  have hhour12 : 0 ≤ datetime.hour12 ∧ datetime.hour12 ≤ 12 := by
    rw [Tm.hour12, hmod]
    omega
  cases part with
  | literal c => exact le_rfl
  | shortWeekday | fullWeekday | shortMonth | fullMonth => exact length_name_le (by decide +kernel) _
  | half =>
    have hlength : ∀ s ∈ [cString "AM", cString "PM"], s.1.length ≤ 2 := by decide
    refine hlength _ ?_
    rw [Part.string, Tm.half]
    split <;> simp
  | month | day | blankDay | hour | hour12 | minute | second =>
    exact length_padded_le le_rfl (by decide) (by simp only [Part.number, Part.room]; omega)
  | yearDay => exact length_padded_le le_rfl (by decide) (by simp only [Part.number, Part.room]; omega)
  | isoWeekday | weekday =>
    exact length_padded_le (zero_le _) (by decide) (by simp only [Part.number, Part.room]; omega)
  | century | yearOfCentury =>
    exact length_padded_neg_le (by decide) (by decide) (by simp only [Part.number]; omega)
  | year | plainYear =>
    exact length_padded_neg_le (by decide) (by decide) (by simp only [Part.number]; omega)

/-- **The text of a field is that of its parts**, which the array is long enough for. -/
theorem DateCode.text_eq (h : datetime.Normal) (code : DateCode) :
    code.text datetime = .ok (code.parts.flatMap (Part.text datetime)) := by
  have hsnprintf (format : String) (parts : List Part) (hparts : .literal '%'.toUInt8 ∉ parts ∧
      (parts.map Part.room).sum ≤ 31 ∧ (cString format).1 = parts.flatMap fun part => part.slot.bytes) :
      snprintf format (parts.flatMap (Part.arguments datetime)) =
        .ok (parts.flatMap (Part.text datetime)) := by
    refine snprintf_of_writes parts (fun part hpart => part.writes h ?_) hparts.2.2 ?_
    · rintro rfl
      exact hparts.1 hpart
    · rw [length_flatMap]
      exact (sum_le_sum fun part _ => part.length_text_le h).trans hparts.2.1
  have hentry (table : List CString) (index : ℤ) (hrange : 0 ≤ index ∧ index < table.length) :
      entry table index = .ok (name table index) := entry_eq hrange.1 (by omega)
  have hname (part : Part) (call : Except Fault CString) (hcall : call = .ok (part.string datetime))
      (hpart : part.slot = stringSlot) :
      (do return (← call).1) = (.ok ([part].flatMap (Part.text datetime)) : Except Fault (List UInt8)) := by
    rw [hcall, flatMap_cons, flatMap_nil, append_nil, Part.text, hpart]
    rfl
  have hwday : 0 ≤ datetime.wday ∧ datetime.wday < 7 := by
    have hrange := h.wday
    omega
  have hmon : 0 ≤ datetime.mon ∧ datetime.mon < 12 := by
    have hrange := h.mon
    omega
  cases code with
  | a => exact hname .shortWeekday _ (hentry _ _ hwday) rfl
  | A => exact hname .fullWeekday _ (hentry _ _ hwday) rfl
  | b | h => exact hname .shortMonth _ (hentry _ _ hmon) rfl
  | B => exact hname .fullMonth _ (hentry _ _ hmon) rfl
  | p => exact hname .half (.ok datetime.half) rfl rfl
  | n | t | percent => rfl
  | c =>
    have hprints := hsnprintf "%s %s % 2d %02d:%02d:%02d %d" DateCode.c.parts (by decide +kernel)
    rw [DateCode.text, hentry shortWeekday _ hwday, hentry shortMonth _ hmon]
    exact hprints
  | C => exact hsnprintf "%02d" [.century] (by decide +kernel)
  | d => exact hsnprintf "%02d" [.day] (by decide +kernel)
  | D | x => exact hsnprintf "%02d/%02d/%02d" DateCode.D.parts (by decide +kernel)
  | e => exact hsnprintf "% 2d" [.blankDay] (by decide +kernel)
  | F => exact hsnprintf "%04d-%02d-%02d" DateCode.F.parts (by decide +kernel)
  | H => exact hsnprintf "%02d" [.hour] (by decide +kernel)
  | I => exact hsnprintf "%02d" [.hour12] (by decide +kernel)
  | j => exact hsnprintf "%03d" [.yearDay] (by decide +kernel)
  | m => exact hsnprintf "%02d" [.month] (by decide +kernel)
  | M => exact hsnprintf "%02d" [.minute] (by decide +kernel)
  | r => exact hsnprintf "%02d:%02d:%02d %s" DateCode.r.parts (by decide +kernel)
  | R => exact hsnprintf "%02d:%02d" DateCode.R.parts (by decide +kernel)
  | S => exact hsnprintf "%02d" [.second] (by decide +kernel)
  | T | X => exact hsnprintf "%02d:%02d:%02d" timeParts (by decide +kernel)
  | u => exact hsnprintf "%d" [.isoWeekday] (by decide +kernel)
  | w => exact hsnprintf "%d" [.weekday] (by decide +kernel)
  | y => exact hsnprintf "%02d" [.yearOfCentury] (by decide +kernel)
  | Y => exact hsnprintf "%04d" [.year] (by decide +kernel)

end

/-! ### The buffer -/

def fieldText (datetime : Tm) (formatCode : UInt8) : List UInt8 :=
  match dateCodes.find? fun code => code.char.toUInt8 = formatCode with
  | some code => code.parts.flatMap (Part.text datetime)
  | none => [formatCode]

theorem printDatetimeField_eq {datetime : Tm} (h : datetime.Normal) (formatCode : UInt8) :
    printDatetimeField datetime formatCode = .ok (fieldText datetime formatCode) := by
  rw [printDatetimeField, fieldText]
  cases dateCodes.find? fun code => code.char.toUInt8 = formatCode with
  | none => rfl
  | some code => exact code.text_eq h

theorem length_parseDateStyle {format rest : List UInt8} (h : (parseDateStyle format).2 = some rest) :
    rest.length < format.length := by
  rw [parseDateStyle] at h
  split at h
  · have hlt := length_advance h
    rw [length_tail] at hlt
    omega
  · exact length_advance h

/-- The complete output, up to a conversion that the end of the format cuts off. -/
def complete (datetime : Tm) : List UInt8 → List UInt8
  | [] => []
  | f :: format =>
    if f ≠ '%'.toUInt8 then f :: complete datetime format
    else match _h : (parseDateStyle format).2 with
      | some rest => fieldText datetime (parseDateStyle format).1 ++ complete datetime rest
      | none => []
termination_by format => format.length
decreasing_by
  · exact lt_succ_self _
  · exact lt_succ_of_lt (length_parseDateStyle _h)

/-- The end of the format does not cut off a conversion. -/
def Whole : List UInt8 → Prop
  | [] => True
  | f :: format =>
    if f ≠ '%'.toUInt8 then Whole format
    else match _h : (parseDateStyle format).2 with
      | some rest => Whole rest
      | none => False
termination_by format => format.length
decreasing_by
  · exact lt_succ_self _
  · exact lt_succ_of_lt (length_parseDateStyle _h)

section

variable {datetime : Tm} {f : UInt8} {format rest : List UInt8}

theorem complete_literal (hf : f ≠ '%'.toUInt8) :
    complete datetime (f :: format) = f :: complete datetime format := by
  rw [complete, if_pos hf]

theorem complete_conversion (hrest : (parseDateStyle format).2 = some rest) :
    complete datetime ('%'.toUInt8 :: format) =
      fieldText datetime (parseDateStyle format).1 ++ complete datetime rest := by
  rw [complete, if_neg (not_not.2 rfl)]
  split
  · rename_i other hother
    rw [hother] at hrest
    cases hrest
    rfl
  · rename_i hnone
    rw [hnone] at hrest
    cases hrest

theorem complete_cut (hrest : (parseDateStyle format).2 = none) :
    complete datetime ('%'.toUInt8 :: format) = [] := by
  rw [complete, if_neg (not_not.2 rfl)]
  split
  · rename_i other hother
    rw [hother] at hrest
    cases hrest
  · rfl

theorem whole_literal (hf : f ≠ '%'.toUInt8) : Whole (f :: format) ↔ Whole format := by
  rw [Whole, if_pos hf]

theorem whole_conversion (hrest : (parseDateStyle format).2 = some rest) :
    Whole ('%'.toUInt8 :: format) ↔ Whole rest := by
  rw [Whole, if_neg (not_not.2 rfl)]
  split
  · rename_i other hother
    rw [hother] at hrest
    cases hrest
    rfl
  · rename_i hnone
    rw [hnone] at hrest
    cases hrest

theorem not_whole_cut (hrest : (parseDateStyle format).2 = none) : ¬Whole ('%'.toUInt8 :: format) := by
  rw [Whole, if_neg (not_not.2 rfl)]
  split
  · rename_i other hother
    rw [hother] at hrest
    cases hrest
  · exact id

variable {room : ℕ} {output : List UInt8}

theorem strftimeBody_full (hroom : ¬output.length < room) :
    strftimeBody room datetime (format, output) = .ok (.done output) := by
  cases format with
  | nil => rfl
  | cons f format => simp only [strftimeBody, if_neg hroom]

theorem strftimeBody_literal (hroom : output.length < room) (hf : f ≠ '%'.toUInt8) :
    strftimeBody room datetime (f :: format, output) = .ok (.again (format, output ++ [f])) := by
  simp only [strftimeBody, if_pos hroom, if_pos hf]

theorem strftimeBody_conversion (h : datetime.Normal) (hroom : output.length < room)
    (hrest : (parseDateStyle format).2 = some rest) :
    strftimeBody room datetime ('%'.toUInt8 :: format, output) = .ok (.again (rest,
      output ++ (fieldText datetime (parseDateStyle format).1).take (room - output.length))) := by
  simp only [strftimeBody, if_pos hroom, printDatetimeField_eq h, ok_bind, hrest]
  rfl

theorem strftimeBody_cut (h : datetime.Normal) (hroom : output.length < room)
    (hrest : (parseDateStyle format).2 = none) :
    strftimeBody room datetime ('%'.toUInt8 :: format, output) = .error .outside := by
  simp only [strftimeBody, if_pos hroom, printDatetimeField_eq h, ok_bind, hrest]
  rfl

theorem take_append_take (r : ℕ) (l m : List UInt8) : (l.take r ++ m).take r = (l ++ m).take r := by
  by_cases hle : l.length ≤ r
  · rw [take_of_length_le hle]
  · have hlength : (l.take r).length = r := by rw [length_take]; omega
    rw [take_left' hlength, take_append_of_le_length (by omega)]

theorem le_length_append_take (r : ℕ) (l m : List UInt8) :
    r ≤ (l.take r ++ m).length ↔ r ≤ (l ++ m).length := by
  rw [length_append, length_append, length_take]
  omega

/-- **What the loop does**: it writes as much of the complete output as there is room for, unless it
comes to a conversion that is cut off before the buffer is full. -/
theorem endsIff_strftimeBody (h : datetime.Normal) {passes : ℕ} (hpasses : format.length < passes)
    (hlength : output.length ≤ room) :
    EndsIff (iterate (strftimeBody room datetime) passes (format, output))
      (Whole format ∨ room ≤ (output ++ complete datetime format).length)
      fun pass => pass = .done ((output ++ complete datetime format).take room) := by
  induction passes generalizing format output with
  | zero => omega
  | succ passes ih =>
    by_cases hroom : output.length < room
    swap
    · refine .of_ok (iterate_succ_done (strftimeBody_full hroom)) (.inr ?_) ?_
      · rw [length_append]
        omega
      · rw [take_left' (by omega)]
    cases format with
    | nil =>
      refine .of_ok (iterate_succ_done rfl) (.inl (by rw [Whole]; trivial)) ?_
      rw [complete, append_nil, take_of_length_le hlength]
    | cons f format =>
      rw [length_cons] at hpasses
      by_cases hf : f = '%'.toUInt8
      · subst hf
        cases hrest : (parseDateStyle format).2 with
        | none =>
          refine .of_error (iterate_succ_error (strftimeBody_cut h hroom hrest)) ?_
          rw [complete_cut hrest, append_nil]
          exact not_or.2 ⟨not_whole_cut hrest, by omega⟩
        | some rest =>
          have hshorter := length_parseDateStyle hrest
          -- the text of the field is cut off at the end of the buffer
          have houtput : output ++ (fieldText datetime (parseDateStyle format).1).take (room - output.length) =
              (output ++ fieldText datetime (parseDateStyle format).1).take room := by
            rw [take_append, take_of_length_le hlength]
          have hrun := ih (show rest.length < passes by omega)
            (length_take_le room (output ++ fieldText datetime (parseDateStyle format).1))
          rw [take_append_take, le_length_append_take, append_assoc] at hrun
          rwa [iterate_succ_again (strftimeBody_conversion h hroom hrest), houtput,
            complete_conversion hrest, whole_conversion hrest]
      · have hlonger : (output ++ [f]).length ≤ room := by
          rw [length_append, length_singleton]
          omega
        have hrun := ih (show format.length < passes by omega) hlonger
        rw [append_assoc, singleton_append] at hrun
        rwa [iterate_succ_again (strftimeBody_literal hroom hf), complete_literal hf, whole_literal hf]

end

theorem endsIff_strftime {datetime : Tm} (h : datetime.Normal) (bufferLength : ℕ) (format : CString) :
    EndsIff (strftime bufferLength format datetime)
      (0 < bufferLength ∧
        (Whole format.1 ∨ bufferLength - 1 ≤ (complete datetime format.1).length))
      fun result => result = ((complete datetime format.1).take (bufferLength - 1),
        if (complete datetime format.1).length < bufferLength - 1
          then (complete datetime format.1).length else 0) := by
  have hempty : ([] : List UInt8).length ≤ bufferLength - 1 := zero_le _
  have hloop := endsIff_strftimeBody h (lt_succ_self format.1.length) hempty
  rw [nil_append] at hloop
  have htake : ((complete datetime format.1).take (bufferLength - 1)).length =
      min (bufferLength - 1) (complete datetime format.1).length := length_take
  rw [strftime, and_comm]
  refine hloop.bind fun pass hpass => ?_
  subst hpass
  simp only [Pass.result, Option.getD_some, htake]
  by_cases hsize : 0 < bufferLength
  · rw [if_pos (by omega)]
    refine .of_ok rfl hsize ?_
    split_ifs <;> first | rfl | omega | (congr 1; omega)
  · rw [if_neg (by omega)]
    exact .of_error rfl hsize

/-- The contract: nothing is written outside of the buffer or read behind the terminator of the format,
and the value is the length of the complete output if that fits in the buffer with its terminator, and
zero otherwise. -/
def Contract (bufferLength : ℕ) (format : CString) (datetime : Tm) : Prop :=
  ∃ written, strftime bufferLength format datetime = .ok (written,
    if (complete datetime format.1).length + 1 ≤ bufferLength
      then (complete datetime format.1).length else 0)

/-- **`strftime` keeps the contract** if and only if there is a buffer, the end of the format does not
cut off a conversion that is reached, and the output does not fill the buffer exactly, unless it is
empty. -/
theorem strftime_contract_iff {datetime : Tm} (h : datetime.Normal) (bufferLength : ℕ)
    (format : CString) :
    Contract bufferLength format datetime ↔
      0 < bufferLength ∧
      (Whole format.1 ∨ bufferLength - 1 ≤ (complete datetime format.1).length) ∧
      ((complete datetime format.1).length ≠ bufferLength - 1 ∨ complete datetime format.1 = []) := by
  have hends := endsIff_strftime h bufferLength format
  rw [Contract, ← and_assoc, ← length_eq_zero_iff]
  by_cases hsafe : 0 < bufferLength ∧
      (Whole format.1 ∨ bufferLength - 1 ≤ (complete datetime format.1).length)
  · obtain ⟨result, hresult, rfl⟩ := hends.1 hsafe
    obtain ⟨hpos, -⟩ := id hsafe
    rw [and_iff_right hsafe, hresult]
    constructor
    · rintro ⟨written, hwritten⟩
      simp only [Except.ok.injEq, Prod.mk.injEq] at hwritten
      have hvalue := hwritten.2
      split_ifs at hvalue <;> omega
    · intro hexact
      refine ⟨_, congrArg Except.ok (Prod.ext rfl ?_)⟩
      simp only
      split_ifs <;> omega
  · rw [hends.2 hsafe]
    refine iff_of_false ?_ fun hboth => hsafe hboth.1
    rintro ⟨written, hwritten⟩
    cases hwritten

/-- `01/02` in the buffer of six characters is refused, and the one of seven is enough. -/
theorem strftime_contract_newYear :
    ¬Contract 6 (cString "%m/%d") ⟨0, 0, 0, 2, 0, 70, 5, 1, 0⟩ ∧
      Contract 7 (cString "%m/%d") ⟨0, 0, 0, 2, 0, 70, 5, 1, 0⟩ := by
  have hnormal : Tm.Normal ⟨0, 0, 0, 2, 0, 70, 5, 1, 0⟩ := by constructor <;> decide
  have hcomplete : complete ⟨0, 0, 0, 2, 0, 70, 5, 1, 0⟩ (cString "%m/%d").1 =
      (cString "01/02").1 := by
    rw [show (cString "%m/%d").1 = '%'.toUInt8 :: 'm'.toUInt8 :: '/'.toUInt8 :: '%'.toUInt8 ::
      ['d'.toUInt8] from rfl, complete_conversion rfl, complete_literal (by decide),
      complete_conversion rfl, complete]
    decide +kernel
  have hwhole : Whole (cString "%m/%d").1 := by
    rw [show (cString "%m/%d").1 = '%'.toUInt8 :: 'm'.toUInt8 :: '/'.toUInt8 :: '%'.toUInt8 ::
      ['d'.toUInt8] from rfl, whole_conversion rfl, whole_literal (by decide), whole_conversion rfl, Whole]
    trivial
  rw [strftime_contract_iff hnormal, strftime_contract_iff hnormal, hcomplete]
  exact ⟨fun h => absurd h.2.2 (by decide), by decide, .inl hwhole, by decide⟩

/-- A text of three characters fits in four, but zero is returned for it. -/
theorem not_strftime_contract :
    ¬∀ datetime : Tm, datetime.Normal → ∀ (bufferLength : ℕ) (format : CString),
      Contract bufferLength format datetime := by
  intro hcontract
  have hnormal : Tm.Normal ⟨0, 0, 0, 1, 0, 70, 4, 0, 0⟩ := by constructor <;> decide
  obtain ⟨written, hwritten⟩ := hcontract _ hnormal 4 (cString "abc")
  have hcomplete : complete ⟨0, 0, 0, 1, 0, 70, 4, 0, 0⟩ (cString "abc").1 = (cString "abc").1 := by
    rw [show (cString "abc").1 = ['a'.toUInt8, 'b'.toUInt8, 'c'.toUInt8] from rfl,
      complete_literal (by decide), complete_literal (by decide), complete_literal (by decide), complete]
  have hcalled : strftime 4 (cString "abc") ⟨0, 0, 0, 1, 0, 70, 4, 0, 0⟩ = .ok ((cString "abc").1, 0) := by
    decide +kernel
  rw [hcalled, hcomplete] at hwritten
  simp only [Except.ok.injEq, Prod.mk.injEq] at hwritten
  exact absurd hwritten.2 (by decide)

end Dx.Libc
