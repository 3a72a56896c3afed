import Dx.Libc.Numbers
import Dx.Library.Loop
import Dx.User.Arguments
import Mathlib.Algebra.GroupWithZero.Nat

/-!
# Formatted output

`vsnprintf` walks through its format. Literal characters are copied to the buffer, and each conversion
writes the text of an argument: a sign or a prefix, padding up to the width, and the digits or the
characters. All of it is written by `print_text`, which copies no more than the length it is given
allows; `vsnprintf` gives it the length of the whole buffer for every conversion, and not of what is
left of it.

The buffer is written from its start on, so that what has been written is given by the text itself;
whether that fits in the buffer is for the caller to ask. A copy that reads more than its source holds,
and an access behind the terminator of the format, are outside of the object.

The digits of a floating-point argument are made by `fcvt` and `ecvt`; they are part of the argument
here. `FLAG_PAD` is set and never looked at, and is left out.
-/

namespace Dx.Libc

open Library User List

/-! ### Styles -/

/-- `BLANK_PAD`, with its terminator. -/
def blankPad : List UInt8 := .replicate 51 ' '.toUInt8 ++ [0]
/-- `ZERO_PAD`, with its terminator. -/
def zeroPad : List UInt8 := .replicate 51 '0'.toUInt8 ++ [0]
def noPrecision : ℤ := -1

inductive OutputType where
  | none
  | char
  | int
  | unsignedInt
  | float
  | string
  | percent
  deriving DecidableEq

/-- `format_style_s`. -/
structure OutputStyle where
  base : ℕ
  /-- `FLAG_ALTERNATE_OUTPUT`. -/
  alternate : Bool
  explicitSign : Bool
  alignSign : Bool
  scientific : Bool
  bestFormat : Bool
  pad : List UInt8
  precision : ℤ
  /-- `prefix`, without its terminator. -/
  radixText : List UInt8
  type : OutputType
  width : ℕ
  deriving DecidableEq

def OutputStyle.default : OutputStyle where
  base := 0
  alternate := false
  explicitSign := false
  alignSign := false
  scientific := false
  bestFormat := false
  pad := blankPad
  precision := noPrecision
  radixText := []
  type := .none
  width := 0

def parseFlags : OutputStyle → List UInt8 → OutputStyle × List UInt8
  | style, [] => (style, [])
  | style, f :: format =>
    if f = '#'.toUInt8 then parseFlags { style with alternate := true } format
    else if f = '0'.toUInt8 then parseFlags { style with pad := zeroPad } format
    else if f = '+'.toUInt8 then parseFlags { style with explicitSign := true } format
    else if f = ' '.toUInt8 then parseFlags { style with alignSign := true } format
    else (style, f :: format)

def parseWidth (style : OutputStyle) (format : List UInt8) :
    Except Fault (OutputStyle × List UInt8) := do
  let width ← strtoul format 10
  if 0 < width.1 then return ({ style with width := width.1.toNat }, width.2)
  else return (style, format)

def parsePrecision (style : OutputStyle) (format : List UInt8) :
    Except Fault (OutputStyle × List UInt8) := do
  if current format = '.'.toUInt8 then
    let precision ← strtoul format.tail 10
    if 0 < precision.1 then return ({ style with precision := precision.1.toInt }, precision.2)
    else return (style, format.tail)
  else return (style, format)

/-- What each conversion CODE changes in the style. -/
def conversionCodes : List (Char × (OutputStyle → OutputStyle)) :=
  [('c', fun style => { style with type := .char }),
    ('u', fun style => { style with type := .unsignedInt, base := 10 }),
    ('d', fun style => { style with type := .int, base := 10 }),
    ('i', fun style => { style with type := .int, base := 10 }),
    ('o', fun style => { style with type := .unsignedInt, base := 8, radixText := ['0'.toUInt8] }),
    ('p', fun style => { style with
      alternate := true, base := 16, radixText := ['0'.toUInt8, 'x'.toUInt8], type := .unsignedInt }),
    ('x', fun style => { style with
      base := 16, radixText := ['0'.toUInt8, 'x'.toUInt8], type := .unsignedInt }),
    ('e', fun style => { style with scientific := true, type := .float }),
    ('f', fun style => { style with type := .float }),
    ('g', fun style => { style with bestFormat := true, type := .float }),
    ('s', fun style => { style with type := .string }),
    ('%', fun style => { style with type := .percent })]

/-- Parses the conversion CODE. -/
def parseCode (style : OutputStyle) (code : UInt8) : OutputStyle :=
  match conversionCodes.find? fun entry => entry.1.toUInt8 = code with
  | some entry => entry.2 style
  | none => style

/-- `format++`: there is nothing behind the terminator. -/
def advance : List UInt8 → Option (List UInt8)
  | [] => none
  | _ :: format => some format

/-- `parse_format_style`: the style, and what follows the conversion. -/
def parseFormatStyle (format : List UInt8) : Except Fault (OutputStyle × Option (List UInt8)) := do
  let flags := parseFlags .default format
  let width ← parseWidth flags.1 flags.2
  let precision ← parsePrecision width.1 width.2
  return (parseCode precision.1 (current precision.2), advance precision.2)

/-! ### The texts of the arguments -/

/-- `print_text`: the characters that are written, of a text that is given with its terminator. -/
def printText (bufferLength : ℕ) (text : List UInt8) (textLength : ℕ) : Except Fault (List UInt8) :=
  if min bufferLength textLength ≤ text.length then .ok (text.take (min bufferLength textLength))
  else .error .outside

/-- Calls of `print_text` one after another: each is given the part of the buffer that the ones before
have left. -/
def printTexts : ℕ → List (List UInt8 × ℕ) → Except Fault (List UInt8)
  | _, [] => .ok []
  | bufferLength, text :: texts => do
    let first ← printText bufferLength text.1 text.2
    let rest ← printTexts (bufferLength - first.length) texts
    return first ++ rest

/-- `print_pad`. -/
def padTexts (style : OutputStyle) (prefixLength textLength : ℕ) : List (List UInt8 × ℕ) :=
  if prefixLength + textLength < style.width then
    [(style.pad, style.width - prefixLength - textLength)]
  else []

/-- `print_character_argument`. -/
def characterTexts (style : OutputStyle) (character : UInt8) : List (List UInt8 × ℕ) :=
  padTexts style 0 1 ++ [([character], 1)]

/-- `print_string_argument`. -/
def stringTexts (style : OutputStyle) (string : Option CString) : List (List UInt8 × ℕ) :=
  let text := match string with
    | some s => s.1
    | none => "(null)".toList.map Char.toUInt8
  padTexts style 0 text.length ++ [(text ++ [0], text.length)]

def digitCharacter (remainder : ℕ) : UInt8 :=
  if remainder < 10 then '0'.toUInt8 + UInt8.ofNat remainder
  else 'a'.toUInt8 + UInt8.ofNat (remainder - 10)

/-- The loop of `uitoa`, which generates the digits in reverse. A value of 32 bits has at most 32
digits. -/
def uitoaLoop (radix : ℕ) : ℕ → ℕ → List UInt8
  | 0, _ => []
  | n + 1, value =>
    digitCharacter (value % radix) :: if 0 < value / radix then uitoaLoop radix n (value / radix) else []

def uitoa (value : BitVec 32) (radix : ℕ) : List UInt8 := (uitoaLoop radix 32 value.toNat).reverse

def itoa (value : BitVec 32) (radix : ℕ) : List UInt8 :=
  (if value.slt 0 ∧ radix = 10 then ['-'.toUInt8] else []) ++
    uitoa (if value.slt 0 then -value else value) radix

/-- `CHARACTER_COUNT_MAX_32BIT_BASE10`. -/
def characterCountMax : ℕ := 12

/-- What the argument is converted to, in the array `text` of `print_integer_argument`. -/
def integerText (style : OutputStyle) (argument : BitVec 32) : List UInt8 :=
  if style.type = .unsignedInt then uitoa argument style.base else itoa argument style.base

/-- `print_integer_argument`. -/
def integerTexts (style : OutputStyle) (argument : BitVec 32) : List (List UInt8 × ℕ) :=
  let text := integerText style argument
  let prefixLength := if style.alternate then style.radixText.length else 0
  (if style.alternate then [(style.radixText ++ [0], prefixLength)] else []) ++
    padTexts style prefixLength text.length ++ [(text ++ [0], text.length)]

/-- What `fcvt` and `ecvt` make of a floating-point number. -/
structure Digits where
  /-- The digits, without the terminator. -/
  digits : List UInt8
  decimalPoint : ℤ
  negative : Bool

/-- A floating-point number, by the digits that it is converted to with a given precision. -/
structure FloatArgument where
  fcvt : ℤ → Digits
  ecvt : ℤ → Digits

def FloatArgument.convert (argument : FloatArgument) (style : OutputStyle) : Digits :=
  let precision := if style.precision = noPrecision then 6 else style.precision
  if style.bestFormat then argument.fcvt precision
  else if style.scientific then argument.ecvt precision
  else argument.fcvt precision

def signText (style : OutputStyle) (negative : Bool) : List UInt8 :=
  if negative then ['-'.toUInt8]
  else if style.explicitSign then ['+'.toUInt8]
  else if style.alignSign then [' '.toUInt8]
  else []

/-- `print_float_argument`. -/
def floatTexts (style : OutputStyle) (argument : FloatArgument) : List (List UInt8 × ℕ) :=
  let number := argument.convert style
  let digitsLength := number.digits.length
  let sign := signText style number.negative
  if number.decimalPoint < 0 then
    -- no integral component: a prefix, and zeros up to the digits
    let prefixLength := sign.length + 2
    let style := { style with
      pad := zeroPad, width := max style.width (digitsLength + (-number.decimalPoint).toNat + prefixLength) }
    (if sign = [] then [] else [(sign, 1)]) ++ [("0.".toList.map Char.toUInt8 ++ [0], prefixLength)] ++
      padTexts style prefixLength digitsLength ++
      [(number.digits ++ [0], digitsLength), (zeroPad, 0)]
  else
    let point := number.decimalPoint.toNat
    if digitsLength ≤ point then
      (if sign = [] then [] else [(sign, 1)]) ++
        padTexts style sign.length (digitsLength + (point - digitsLength)) ++
        [(number.digits ++ [0], digitsLength), (zeroPad, point - digitsLength)]
    else
      (if sign = [] then [] else [(sign, 1)]) ++
        padTexts style sign.length (digitsLength + 1) ++
        [(number.digits ++ [0], point), (['.'.toUInt8, 0], 1),
          ((number.digits ++ [0]).drop point, digitsLength - point)]

/-! ### The loop -/

inductive Argument where
  /-- An `int`, or what is promoted to one. -/
  | int (value : BitVec 32)
  | float (value : FloatArgument)
  /-- A string, or `NULL`. -/
  | string (value : Option CString)

def argumentTexts (style : OutputStyle) (arguments : List Argument) :
    Except Fault (List (List UInt8 × ℕ) × List Argument) :=
  match style.type, arguments with
  | .char, .int value :: rest => .ok (characterTexts style (UInt8.ofNat value.toNat), rest)
  | .int, .int value :: rest | .unsignedInt, .int value :: rest =>
    -- the digits are converted in an array
    if (integerText style value).length < characterCountMax then .ok (integerTexts style value, rest)
    else .error .outside
  | .float, .float value :: rest => .ok (floatTexts style value, rest)
  | .string, .string value :: rest => .ok (stringTexts style value, rest)
  | .percent, rest => .ok (characterTexts style '%'.toUInt8, rest)
  | .none, rest => .ok (characterTexts style '?'.toUInt8, rest)
  | _, _ => .error .argument

/-- The variables of the loop of `vsnprintf`. -/
structure Printer where
  format : List UInt8
  /-- `argument_list`. -/
  arguments : List Argument
  /-- What has been written to the buffer. -/
  text : List UInt8

/-- The loop of `vsnprintf`. -/
def vsnprintfBody (bufferLength : ℕ) (t : Printer) : Except Fault (Pass Printer (List UInt8)) :=
  match t.format with
  | [] => .ok (.done t.text)
  | f :: format =>
    if t.text.length < bufferLength then
      if f ≠ '%'.toUInt8 then .ok (.again { t with format := format, text := t.text ++ [f] })
      else do
        let style ← parseFormatStyle format
        let argument ← argumentTexts style.1 t.arguments
        let output ← printTexts bufferLength argument.1
        match style.2 with
        | some rest => return .again ⟨rest, argument.2, t.text ++ output⟩
        | none => .error .outside    -- the next pass starts behind the terminator
    else .ok (.done t.text)

/-- `vsnprintf`: what is written to the buffer, without the terminator, which is written behind it.
The number of these characters is returned. -/
def vsnprintf (size : BitVec 32) (format : CString) (arguments : List Argument) :
    Except Fault (Option (List UInt8)) := do
  let pass ← iterate (vsnprintfBody (size - 1).toNat) (format.1.length + 1) ⟨format.1, arguments, []⟩
  return pass.result

/-! ### Parsing -/

/-- What `parse_format_style` makes of a width. -/
def widthOf (style : OutputStyle) (format : List UInt8) : OutputStyle × List UInt8 :=
  if 0 < strtoulValue format 10 then
    ({ style with width := (strtoulValue format 10).toNat }, strtoulEnd format 10)
  else (style, format)

/-- What it makes of a precision. -/
def precisionOf (style : OutputStyle) (format : List UInt8) : OutputStyle × List UInt8 :=
  if current format = '.'.toUInt8 then
    if 0 < strtoulValue format.tail 10 then
      ({ style with precision := (strtoulValue format.tail 10).toInt }, strtoulEnd format.tail 10)
    else (style, format.tail)
  else (style, format)

/-- The characters at which the width and the precision end are 7-bit ones. -/
def ParseSafe (format : List UInt8) : Prop :=
  let flags := parseFlags .default format
  let width := widthOf flags.1 flags.2
  Ascii (current (strtoulEnd flags.2 10)) ∧
    (current width.2 = '.'.toUInt8 → Ascii (current (strtoulEnd width.2.tail 10)))

/-- The style, and what follows the conversion. -/
def formatStyleOf (format : List UInt8) : OutputStyle × Option (List UInt8) :=
  let flags := parseFlags .default format
  let width := widthOf flags.1 flags.2
  let precision := precisionOf width.1 width.2
  (parseCode precision.1 (current precision.2), advance precision.2)

theorem endsIff_parseWidth (style : OutputStyle) (format : List UInt8) :
    EndsIff (parseWidth style format) (Ascii (current (strtoulEnd format 10)))
      fun width => width = widthOf style format := by
  rw [parseWidth, strtoul_eq, widthOf]
  by_cases hend : Ascii (current (strtoulEnd format 10))
  · rw [if_pos hend]
    simp only [ok_bind]
    split
    · exact .of_ok rfl hend rfl
    · exact .of_ok rfl hend rfl
  · rw [if_neg hend]
    exact .of_error rfl hend

theorem endsIff_parsePrecision (style : OutputStyle) (format : List UInt8) :
    EndsIff (parsePrecision style format)
      (current format = '.'.toUInt8 → Ascii (current (strtoulEnd format.tail 10)))
      fun precision => precision = precisionOf style format := by
  rw [parsePrecision, precisionOf]
  by_cases hpoint : current format = '.'.toUInt8
  · rw [if_pos hpoint, if_pos hpoint, strtoul_eq]
    by_cases hend : Ascii (current (strtoulEnd format.tail 10))
    · rw [if_pos hend]
      simp only [ok_bind]
      split
      · exact .of_ok rfl (fun _ => hend) rfl
      · exact .of_ok rfl (fun _ => hend) rfl
    · rw [if_neg hend]
      exact .of_error rfl fun h => hend (h hpoint)
  · rw [if_neg hpoint, if_neg hpoint]
    exact .of_ok rfl (fun h => absurd h hpoint) rfl

theorem endsIff_parseFormatStyle (format : List UInt8) :
    EndsIff (parseFormatStyle format) (ParseSafe format) fun style => style = formatStyleOf format := by
  refine (endsIff_parseWidth _ _).bind fun width hwidth => ?_
  subst hwidth
  refine (endsIff_parsePrecision _ _).map fun precision hprecision => ?_
  subst hprecision
  rfl

/-! ### Integers fit in their array -/

def numeral (base n : ℕ) : List UInt8 := (base.toDigits n).map Char.toUInt8

theorem digitCharacter_eq : ∀ r < 16, digitCharacter r = (Nat.digitChar r).toUInt8 := by decide

theorem uitoaLoop_eq {radix : ℕ} (hlow : 1 < radix) (hhigh : radix ≤ 16) {n value : ℕ}
    (hvalue : value < radix ^ (n + 1)) :
    (uitoaLoop radix (n + 1) value).reverse = numeral radix value := by
  have hdigit : digitCharacter (value % radix) = (Nat.digitChar (value % radix)).toUInt8 :=
    digitCharacter_eq _ ((Nat.mod_lt _ (by omega)).trans_le hhigh)
  induction n generalizing value with
  | zero =>
    have hlt : value < radix := by simpa using hvalue
    rw [uitoaLoop, if_neg (by simp [Nat.div_eq_of_lt hlt]), hdigit, Nat.mod_eq_of_lt hlt, numeral,
      Nat.toDigits_of_lt_base hlt]
    rfl
  | succ n ih =>
    rw [uitoaLoop, hdigit, numeral, Nat.toDigits_eq_if hlow]
    by_cases hlt : value < radix
    · rw [if_neg (by simp [Nat.div_eq_of_lt hlt]), if_pos hlt, Nat.mod_eq_of_lt hlt]
      rfl
    · have hpos : 0 < value / radix := Nat.div_pos (by omega) (by omega)
      have hdiv : value / radix < radix ^ (n + 1) := Nat.div_lt_of_lt_mul (by rwa [← pow_succ'])
      rw [if_pos hpos, if_neg hlt, reverse_cons, map_append,
        ih hdiv (digitCharacter_eq _ ((Nat.mod_lt _ (by omega)).trans_le hhigh))]
      rfl

/-- **What `uitoa` computes**: the numeral of the value. -/
theorem uitoa_eq {radix : ℕ} (hlow : 1 < radix) (hhigh : radix ≤ 16) (value : BitVec 32) :
    uitoa value radix = numeral radix value.toNat :=
  uitoaLoop_eq hlow hhigh (value.isLt.trans_le (Nat.pow_le_pow_left hlow 32))

theorem length_uitoa_le (radix k : ℕ) (value : BitVec 32) (hradix : 1 < radix ∧ radix ≤ 16)
    (hk : 0 < k ∧ 2 ^ 32 ≤ radix ^ k) : (uitoa value radix).length ≤ k := by
  rw [uitoa_eq hradix.1 hradix.2, numeral, length_map, Nat.length_toDigits_le_iff hradix.1 hk.1]
  exact value.isLt.trans_le hk.2

/-- The base that a conversion of an integer has. -/
def OutputStyle.Based (style : OutputStyle) : Prop :=
  (style.type = .int → style.base = 10) ∧
    (style.type = .unsignedInt → style.base = 8 ∨ style.base = 10 ∨ style.base = 16)

theorem length_integerText_lt {style : OutputStyle} (h : style.Based)
    (htype : style.type = .int ∨ style.type = .unsignedInt) (value : BitVec 32) :
    (integerText style value).length < characterCountMax := by
  rw [integerText, characterCountMax]
  rcases htype with hint | hunsigned
  · have hdigits := length_uitoa_le 10 10 (if value.slt 0 then -value else value) (by decide) (by decide)
    have hsign : (if value.slt 0 ∧ 10 = 10 then ['-'.toUInt8] else []).length ≤ 1 := by
      split <;> simp
    rw [if_neg (by simp [hint]), itoa, h.1 hint, length_append]
    omega
  · rw [if_pos hunsigned]
    rcases h.2 hunsigned with hbase | hbase | hbase <;> rw [hbase]
    · exact Nat.lt_succ_of_le (length_uitoa_le 8 11 value (by decide) (by decide))
    · exact (length_uitoa_le 10 10 value (by decide) (by decide)).trans_lt (by decide)
    · exact (length_uitoa_le 16 8 value (by decide) (by decide)).trans_lt (by decide)

theorem type_parseFlags (style : OutputStyle) (format : List UInt8) :
    (parseFlags style format).1.type = style.type := by
  induction format generalizing style with
  | nil => rfl
  | cons f format ih =>
    rw [parseFlags]
    split_ifs
    · exact ih _
    · exact ih _
    · exact ih _
    · exact ih _
    · rfl

theorem based_parseCode {style : OutputStyle} (h : style.type = .none) (code : UInt8) :
    (parseCode style code).Based := by
  have hcodes : ∀ entry ∈ conversionCodes, (entry.2 style).Based := by
    simp [conversionCodes, OutputStyle.Based]
  rw [parseCode]
  split
  case h_1 entry hfind => exact hcodes entry (mem_of_find?_eq_some hfind)
  case h_2 => simp [OutputStyle.Based, h]

theorem based_formatStyleOf (format : List UInt8) : (formatStyleOf format).1.Based := by
  refine based_parseCode ?_ _
  have hwidth : ∀ style rest, (widthOf style rest).1.type = style.type := by
    intro style rest
    rw [widthOf]
    split <;> rfl
  have hprecision : ∀ style rest, (precisionOf style rest).1.type = style.type := by
    intro style rest
    rw [precisionOf]
    split_ifs <;> rfl
  rw [hprecision, hwidth, type_parseFlags]
  rfl

/-- The array for the digits is large enough, so that only an argument can be missing. -/
theorem argumentTexts_error {style : OutputStyle} {arguments : List Argument} {e : Fault}
    (h : style.Based) (he : argumentTexts style arguments = .error e) : e = .argument := by
  unfold argumentTexts at he
  split at he
  case h_2 value rest hint =>
    rw [if_pos (length_integerText_lt h (.inl hint) value)] at he
    cases he
  case h_3 value rest hunsigned =>
    rw [if_pos (length_integerText_lt h (.inr hunsigned) value)] at he
    cases he
  all_goals
    cases he
    try rfl

/-! ### The texts that are copied -/

def needed (texts : List (List UInt8 × ℕ)) : ℕ := (texts.map Prod.snd).sum

/-- No copy reads more than its text holds. -/
def Held : ℕ → List (List UInt8 × ℕ) → Prop
  | _, [] => True
  | bufferLength, text :: texts =>
    min bufferLength text.2 ≤ text.1.length ∧ Held (bufferLength - min bufferLength text.2) texts

theorem endsIff_printTexts (bufferLength : ℕ) (texts : List (List UInt8 × ℕ)) :
    EndsIff (printTexts bufferLength texts) (Held bufferLength texts)
      fun output => output.length = min bufferLength (needed texts) := by
  induction texts generalizing bufferLength with
  | nil => exact .of_ok rfl trivial (by simp [needed])
  | cons text texts ih =>
    rw [printTexts, printText]
    by_cases hheld : min bufferLength text.2 ≤ text.1.length
    · rw [if_pos hheld]
      have hlength : (text.1.take (min bufferLength text.2)).length = min bufferLength text.2 := by
        rw [length_take, Nat.min_eq_left hheld]
      have hrest := ih (bufferLength - (text.1.take (min bufferLength text.2)).length)
      rw [Held, and_iff_right hheld]
      refine (hrest.map fun rest hlen => ?_).congr (by rw [hlength])
      rw [length_append, hlen, hlength, needed, needed, map_cons, sum_cons]
      omega
    · rw [if_neg hheld]
      exact .of_error rfl fun h => hheld h.1

/-! ### The loop -/

/-- A conversion that stays inside of its objects: its end is found by 7-bit characters and is before
the terminator of the format, and no copy reads more than its text holds. -/
def ConversionHeld (bufferLength : ℕ) (format : List UInt8) (texts : List (List UInt8 × ℕ)) : Prop :=
  ParseSafe format ∧ (formatStyleOf format).2 ≠ none ∧ Held bufferLength texts

/-- The conversion that the next pass comes to, if any, stays inside of its objects, and fits in what
is left of the buffer. The first text is cut off at the end of the buffer, so that it fits. -/
def Printer.Safe (bufferLength : ℕ) (t : Printer) : Prop :=
  ∀ format, t.format = '%'.toUInt8 :: format → t.text.length < bufferLength →
    ParseSafe format ∧ (formatStyleOf format).2 ≠ none ∧
      ∀ argument, argumentTexts (formatStyleOf format).1 t.arguments = .ok argument →
        Held bufferLength argument.1 ∧
          (t.text = [] ∨ t.text.length + needed argument.1 ≤ bufferLength)

/-- What a pass that goes on does: it copies a literal character, or the text of an argument. -/
inductive Prints (bufferLength : ℕ) (t : Printer) : Printer → Prop
  | literal {f : UInt8} {format : List UInt8} (hformat : t.format = f :: format)
      (hf : f ≠ '%'.toUInt8) (hroom : t.text.length < bufferLength) :
      Prints bufferLength t ⟨format, t.arguments, t.text ++ [f]⟩
  /-- The text of an argument. -/
  | conversion {format rest output : List UInt8} {argument : List (List UInt8 × ℕ) × List Argument}
      (hformat : t.format = '%'.toUInt8 :: format) (hroom : t.text.length < bufferLength)
      (hargument : argumentTexts (formatStyleOf format).1 t.arguments = .ok argument)
      (hheld : ConversionHeld bufferLength format argument.1)
      (hrest : (formatStyleOf format).2 = some rest)
      (houtput : output.length = min bufferLength (needed argument.1)) :
      Prints bufferLength t ⟨rest, argument.2, t.text ++ output⟩

/-- What a pass leads to. -/
inductive Outcome (bufferLength : ℕ) (t : Printer) : Except Fault (Pass Printer (List UInt8)) → Prop
  /-- The format or the buffer is exhausted. -/
  | done (hsafe : t.Safe bufferLength) : Outcome bufferLength t (.ok (.done t.text))
  /-- The loop goes on. -/
  | again {u : Printer} (h : Prints bufferLength t u) : Outcome bufferLength t (.ok (.again u))
  /-- The argument of a conversion was not passed. -/
  | argument : Outcome bufferLength t (.error .argument)
  /-- The conversion leaves its objects. -/
  | outside (h : ¬t.Safe bufferLength) : Outcome bufferLength t (.error .outside)

section

variable {bufferLength : ℕ} {t u : Printer} {format : List UInt8}

section

variable (hformat : t.format = '%'.toUInt8 :: format) (hroom : t.text.length < bufferLength)
include hformat hroom

theorem endsIff_vsnprintfBody {argument : List (List UInt8 × ℕ) × List Argument}
    (hargument : argumentTexts (formatStyleOf format).1 t.arguments = .ok argument) :
    EndsIff (vsnprintfBody bufferLength t) (ConversionHeld bufferLength format argument.1)
      fun pass => ∃ rest output, (formatStyleOf format).2 = some rest ∧
        output.length = min bufferLength (needed argument.1) ∧
        pass = .again ⟨rest, argument.2, t.text ++ output⟩ := by
  rw [vsnprintfBody, hformat]
  simp only [if_pos hroom, ne_eq, not_true_eq_false, if_false]
  refine (endsIff_parseFormatStyle format).bind fun style hstyle => ?_
  subst hstyle
  rw [hargument, and_comm]
  refine (endsIff_printTexts bufferLength argument.1).bind fun output houtput => ?_
  cases hrest : (formatStyleOf format).2 with
  | none => exact .of_error rfl fun h => h rfl
  | some rest => exact .of_ok rfl (by simp) ⟨rest, output, rfl, houtput, rfl⟩

theorem vsnprintfBody_not_parseSafe (hparse : ¬ParseSafe format) :
    vsnprintfBody bufferLength t = .error .outside := by
  rw [vsnprintfBody, hformat]
  simp only [if_pos hroom, ne_eq, not_true_eq_false, if_false]
  rw [(endsIff_parseFormatStyle format).2 hparse]
  rfl

theorem vsnprintfBody_argument {e : Fault} (hparse : ParseSafe format)
    (hargument : argumentTexts (formatStyleOf format).1 t.arguments = .error e) :
    vsnprintfBody bufferLength t = .error .argument := by
  have he : e = .argument := argumentTexts_error (based_formatStyleOf format) hargument
  obtain ⟨style, hstyle, rfl⟩ := (endsIff_parseFormatStyle format).1 hparse
  rw [vsnprintfBody, hformat]
  simp only [if_pos hroom, ne_eq, not_true_eq_false, if_false]
  rw [hstyle]
  simp only [bind, Except.bind, hargument, he]

theorem outcome_conversion : Outcome bufferLength t (vsnprintfBody bufferLength t) := by
  by_cases hparse : ParseSafe format
  swap
  · rw [vsnprintfBody_not_parseSafe hformat hroom hparse]
    exact .outside fun h => hparse (h format hformat hroom).1
  cases hargument : argumentTexts (formatStyleOf format).1 t.arguments with
  | error e =>
    rw [vsnprintfBody_argument hformat hroom hparse hargument]
    exact .argument
  | ok argument =>
    have hends := endsIff_vsnprintfBody hformat hroom hargument
    by_cases hheld : ConversionHeld bufferLength format argument.1
    · obtain ⟨pass, hpass, rest, output, hrest, houtput, rfl⟩ := hends.1 hheld
      rw [hpass]
      exact .again (.conversion hformat hroom hargument hheld hrest houtput)
    · rw [hends.2 hheld]
      refine .outside fun h => hheld ?_
      obtain ⟨-, hrest, hall⟩ := h format hformat hroom
      exact ⟨hparse, hrest, (hall argument hargument).1⟩

end

theorem outcome (bufferLength : ℕ) (t : Printer) :
    Outcome bufferLength t (vsnprintfBody bufferLength t) := by
  cases hformat : t.format with
  | nil =>
    have hdone : vsnprintfBody bufferLength t = .ok (.done t.text) := by rw [vsnprintfBody, hformat]
    rw [hdone]
    exact .done fun format h => nomatch hformat.symm.trans h
  | cons f format =>
    by_cases hroom : t.text.length < bufferLength
    · by_cases hf : f = '%'.toUInt8
      · exact outcome_conversion (hf ▸ hformat) hroom
      · have hagain : vsnprintfBody bufferLength t =
            .ok (.again ⟨format, t.arguments, t.text ++ [f]⟩) := by
          rw [vsnprintfBody, hformat]
          simp only [if_pos hroom, if_pos hf]
        rw [hagain]
        exact .again (.literal hformat hf hroom)
    · have hdone : vsnprintfBody bufferLength t = .ok (.done t.text) := by
        rw [vsnprintfBody, hformat]
        simp only [if_neg hroom]
      rw [hdone]
      exact .done fun _ _ h => absurd h hroom

theorem prints_of_again (h : vsnprintfBody bufferLength t = .ok (.again u)) :
    Prints bufferLength t u := by
  have houtcome := outcome bufferLength t
  rw [h] at houtcome
  cases houtcome
  assumption

theorem text_of_done {text : List UInt8} (h : vsnprintfBody bufferLength t = .ok (.done text)) :
    t.text = text := by
  have houtcome := outcome bufferLength t
  rw [h] at houtcome
  cases houtcome
  rfl

theorem Prints.length_le (h : Prints bufferLength t u) : t.text.length ≤ u.text.length := by
  cases h <;> simp

theorem parseFlags_suffix (style : OutputStyle) (format : List UInt8) :
    (parseFlags style format).2 <:+ format := by
  induction format generalizing style with
  | nil => exact suffix_rfl
  | cons f format ih =>
    rw [parseFlags]
    split_ifs
    · exact (ih _).trans (suffix_cons f format)
    · exact (ih _).trans (suffix_cons f format)
    · exact (ih _).trans (suffix_cons f format)
    · exact (ih _).trans (suffix_cons f format)
    · exact suffix_rfl

theorem widthOf_suffix (style : OutputStyle) (format : List UInt8) :
    (widthOf style format).2 <:+ format := by
  rw [widthOf]
  split
  · exact strtoulEnd_suffix format 10
  · exact suffix_rfl

theorem precisionOf_suffix (style : OutputStyle) (format : List UInt8) :
    (precisionOf style format).2 <:+ format := by
  rw [precisionOf]
  split_ifs
  · exact (strtoulEnd_suffix _ 10).trans (tail_suffix format)
  · exact tail_suffix format
  · exact suffix_rfl

theorem length_advance {format rest : List UInt8} (h : advance format = some rest) :
    rest.length < format.length := by
  cases format with
  | nil => cases h
  | cons f format =>
    cases h
    exact Nat.lt_succ_self _

theorem length_formatStyleOf {format rest : List UInt8} (h : (formatStyleOf format).2 = some rest) :
    rest.length < format.length := by
  refine (length_advance h).trans_le (List.IsSuffix.length_le ?_)
  exact (precisionOf_suffix _ _).trans ((widthOf_suffix _ _).trans (parseFlags_suffix .default format))

theorem vsnprintfBody_shrinks (bufferLength : ℕ) :
    Shrinks (vsnprintfBody bufferLength) fun t => t.format.length := by
  intro t u h
  cases prints_of_again h with
  | literal hformat => simp [hformat]
  | conversion hformat _ _ _ hrest =>
    have := length_formatStyleOf hrest
    simp only [hformat, length_cons]
    omega

theorem length_le_of_reaches (h : Reaches (vsnprintfBody bufferLength) t u) :
    t.text.length ≤ u.text.length := by
  induction h with
  | refl => exact le_rfl
  | tail _ hstep ih => exact ih.trans (prints_of_again hstep).length_le

theorem Printer.Safe.fits (h : t.Safe bufferLength) (hprints : Prints bufferLength t u) :
    u.text.length ≤ bufferLength := by
  cases hprints with
  | literal _ _ hroom =>
    rw [length_append, length_singleton]
    omega
  | conversion hformat hroom hargument _ _ houtput =>
    rw [length_append, houtput]
    rcases ((h _ hformat hroom).2.2 _ hargument).2 with hempty | hfits
    · rw [hempty, length_nil]
      omega
    · omega

/-- A pass fails when it is not safe, or when its argument was not passed. -/
theorem Printer.Safe.ok (h : t.Safe bufferLength)
    (hmatch : vsnprintfBody bufferLength t ≠ .error .argument) (e : Fault) :
    vsnprintfBody bufferLength t ≠ .error e := by
  intro he
  have houtcome := outcome bufferLength t
  rw [he] at houtcome
  cases houtcome with
  | argument => exact hmatch he
  | outside hnot => exact hnot h

/-- A pass whose text fits in the buffer is safe. -/
theorem Prints.safe (h : Prints bufferLength t u) (hfits : u.text.length ≤ bufferLength) :
    t.Safe bufferLength := by
  intro format' hformat' _
  cases h with
  | literal hformat hf => exact absurd (List.cons.inj (hformat.symm.trans hformat')).1 hf
  | conversion hformat hroom hargument hheld _ houtput =>
    rw [hformat] at hformat'
    cases hformat'
    refine ⟨hheld.1, hheld.2.1, fun argument' hargument' => ?_⟩
    rw [hargument] at hargument'
    cases hargument'
    refine ⟨hheld.2.2, ?_⟩
    rw [length_append, houtput] at hfits
    by_cases hempty : t.text = []
    · exact .inl hempty
    · have hpos := length_pos_iff.2 hempty
      right
      omega

theorem safe_of_not_error (h : ∀ e, vsnprintfBody bufferLength t ≠ .error e)
    (hfits : ∀ u, vsnprintfBody bufferLength t = .ok (.again u) → u.text.length ≤ bufferLength) :
    t.Safe bufferLength := by
  have houtcome := outcome bufferLength t
  generalize hbody : vsnprintfBody bufferLength t = result at houtcome
  cases houtcome with
  | done hsafe => exact hsafe
  | again hprints => exact hprints.safe (hfits _ hbody)
  | argument | outside => exact absurd hbody (h _)

/-- The text fits in the buffer as long as every pass is safe. -/
theorem fits_of_reaches (ht : t.text.length ≤ bufferLength)
    (h : Reaches (vsnprintfBody bufferLength) t u)
    (hsafe : ∀ v, Reaches (vsnprintfBody bufferLength) t v → v.Safe bufferLength) :
    u.text.length ≤ bufferLength := by
  induction h with
  | refl => exact ht
  | tail hreach hstep _ => exact (hsafe _ hreach).fits (prints_of_again hstep)

end

theorem vsnprintf_eq_some_iff {size : BitVec 32} {format : CString} {arguments : List Argument}
    {text : List UInt8} :
    vsnprintf size format arguments = .ok (some text) ↔
      iterate (vsnprintfBody (size - 1).toNat) (format.1.length + 1) ⟨format.1, arguments, []⟩ =
        .ok (.done text) := by
  rw [vsnprintf]
  cases iterate (vsnprintfBody (size - 1).toNat) (format.1.length + 1) ⟨format.1, arguments, []⟩ with
  | error e => simp [bind, Except.bind]
  | ok pass => cases pass <;> simp [bind, Except.bind, Pass.result]

theorem toNat_sub_one {size : BitVec 32} (h : size ≠ 0) : (size - 1).toNat + 1 = size.toNat := by
  have hne : size.toNat ≠ 0 := fun heq => h (BitVec.eq_of_toNat_eq heq)
  have hone : (1 : BitVec 32).toNat = 1 := rfl
  rw [BitVec.toNat_sub, hone]
  omega

/-- **`vsnprintf` stays inside of its buffer and of what it reads**, and returns a length below the
size of the buffer, if and only if the size is not zero and each conversion that it comes to is safe:
the width and the precision end at 7-bit characters, the conversion is complete, the padding that is
copied is no longer than the string that it is copied from, and the text of the argument fits in what
is left of the buffer, unless it is the first that is written. -/
theorem vsnprintf_inside_iff (size : BitVec 32) (format : CString) (arguments : List Argument)
    (hmatch : vsnprintf size format arguments ≠ .error .argument) :
    (∃ text, vsnprintf size format arguments = .ok (some text) ∧ text.length < size.toNat) ↔
      size ≠ 0 ∧ ∀ t, Reaches (vsnprintfBody (size - 1).toNat) ⟨format.1, arguments, []⟩ t →
        t.Safe (size - 1).toNat := by
  have hshrinks := vsnprintfBody_shrinks (size - 1).toNat
  have hpasses : (⟨format.1, arguments, []⟩ : Printer).format.length < format.1.length + 1 :=
    Nat.lt_succ_self _
  constructor
  · rintro ⟨text, htext, hlength⟩
    have hsize : size ≠ 0 := by
      rintro rfl
      simp at hlength
    have htoNat := toNat_sub_one hsize
    rw [vsnprintf_eq_some_iff] at htext
    have hall := (iterate_done_iff hshrinks hpasses).1 ⟨text, htext⟩
    obtain ⟨last, hlast, hdone⟩ := reaches_of_iterate_eq_done htext
    refine ⟨hsize, fun t ht => safe_of_not_error (hall t ht) fun u hu => ?_⟩
    have hle := length_le_of_reaches (Reaches.to_done (ht.tail hu) hlast hdone)
    rw [text_of_done hdone] at hle
    omega
  · rintro ⟨hsize, hsafe⟩
    have htoNat := toNat_sub_one hsize
    have hargument : ∀ t, Reaches (vsnprintfBody (size - 1).toNat) ⟨format.1, arguments, []⟩ t →
        vsnprintfBody (size - 1).toNat t ≠ .error .argument := by
      intro t ht herror
      apply hmatch
      rw [vsnprintf, (iterate_eq_error_iff hshrinks hpasses).2 ⟨t, ht, herror⟩]
      rfl
    obtain ⟨text, htext⟩ := (iterate_done_iff hshrinks hpasses).2
      fun t ht e => (hsafe t ht).ok (hargument t ht) e
    obtain ⟨last, hlast, hdone⟩ := reaches_of_iterate_eq_done htext
    refine ⟨text, vsnprintf_eq_some_iff.2 htext, ?_⟩
    have hfits := fits_of_reaches (Nat.zero_le _) hlast hsafe
    rw [text_of_done hdone] at hfits
    omega

/-- A number is written to a buffer of 16 characters. -/
theorem vsnprintf_inside_number :
    (16 : BitVec 32) ≠ 0 ∧ ∀ t, Reaches (vsnprintfBody ((16 : BitVec 32) - 1).toNat)
      ⟨['%'.toUInt8, '5'.toUInt8, 'd'.toUInt8], [.int 42], []⟩ t → t.Safe ((16 : BitVec 32) - 1).toNat :=
  (vsnprintf_inside_iff 16 ⟨['%'.toUInt8, '5'.toUInt8, 'd'.toUInt8], by decide⟩ [.int 42]
    (by decide +kernel)).1
      ⟨[' '.toUInt8, ' '.toUInt8, ' '.toUInt8, '4'.toUInt8, '2'.toUInt8], by decide +kernel⟩

/-- A string in the place of the last character of a buffer is written behind it, as is the terminator
in a buffer without characters. A format that ends in a conversion is read behind its terminator, the
padding is read behind its end, and a character of 0x80 is looked up behind the end of the table. -/
theorem not_vsnprintf_inside :
    vsnprintf 4 ⟨['a'.toUInt8, 'b'.toUInt8, '%'.toUInt8, 's'.toUInt8], by decide⟩
      [.string (some ⟨['c'.toUInt8, 'd'.toUInt8, 'e'.toUInt8, 'f'.toUInt8], by decide⟩)] =
        .ok (some ['a'.toUInt8, 'b'.toUInt8, 'c'.toUInt8, 'd'.toUInt8, 'e'.toUInt8]) ∧
    vsnprintf 0 ⟨[], by decide⟩ [] = .ok (some []) ∧
    vsnprintf 16 ⟨['%'.toUInt8], by decide⟩ [] = .error .outside ∧
    vsnprintf 100 ⟨['%'.toUInt8, '6'.toUInt8, '0'.toUInt8, 'd'.toUInt8], by decide⟩ [.int 5] =
      .error .outside ∧
    vsnprintf 16 ⟨['%'.toUInt8, 0x80], by decide⟩ [] = .error .outside := by
  decide +kernel

end Dx.Libc
