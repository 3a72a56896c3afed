import Dx.Libc.Format

/-!
# Formatted output by the standard

A format that is built from literal characters and from conversions, each with flags and a width, has
an output by the C99 standard (`c99`), as far as the standard defines one: the flag `#` is for `o` and
`x` only, the flag `0` is for numbers only, and `%%` has neither flags nor a width.

`vsnprintf` parses such a format as it was built (`formatStyleOf_bytes`). It writes a prefix, then the
padding, then the rest of the text, where the standard asks for the blanks in front of a prefix and for
the zeros behind a sign; it writes the prefix of a zero, too; and its padding is at most 51 characters
long. `Agrees` says when this makes no difference for a conversion (`Defined.prints`,
`Defined.agrees`), and a run comes to the output of the standard if all the conversions agree
(`reaches_of_allAgree`), and only then (`allAgree_of_reaches`).
-/

namespace Dx.Libc

open Library User List Option Nat

/-! ### Formats -/

inductive Flag where
  /-- `#`. -/
  | alternate
  /-- `0`. -/
  | zero
  deriving DecidableEq

inductive Code where
  | c | d | i | u | o | x | s | percent
  deriving DecidableEq

/-- A conversion. The width is zero if there is none. -/
structure Conversion where
  flags : List Flag
  width : ℕ
  code : Code

/-- A part of a format: a literal character, or a conversion. -/
inductive Piece where
  | literal (c : UInt8) (hzero : c ≠ 0) (hpercent : c ≠ '%'.toUInt8)
  | conversion (k : Conversion)

def Flag.char : Flag → Char
  | .alternate => '#'
  | .zero => '0'

def Code.char : Code → Char
  | .c => 'c'
  | .d => 'd'
  | .i => 'i'
  | .u => 'u'
  | .o => 'o'
  | .x => 'x'
  | .s => 's'
  | .percent => '%'

/-- A conversion as it is written, behind the `%`. -/
def Conversion.bytes (k : Conversion) : List UInt8 :=
  k.flags.map (fun f => f.char.toUInt8) ++ ((if k.width = 0 then [] else numeral 10 k.width) ++
    [k.code.char.toUInt8])

def Piece.bytes : Piece → List UInt8
  | .literal c _ _ => [c]
  | .conversion k => '%'.toUInt8 :: k.bytes

def formatBytes (pieces : List Piece) : List UInt8 := pieces.flatMap Piece.bytes

/-! ### The standard -/

/-- A field of the width: zeros are put behind the sign or the prefix, blanks in front of it. -/
def field (zeros : Bool) (width : ℕ) (sign text : List UInt8) : List UInt8 :=
  if zeros then sign ++ (.replicate (width - (sign.length + text.length)) '0'.toUInt8 ++ text)
  else .replicate (width - (sign.length + text.length)) ' '.toUInt8 ++ (sign ++ text)

/-- The flag `0`. -/
def Conversion.zeros (k : Conversion) : Bool := decide (Flag.zero ∈ k.flags)
/-- The flag `#`. -/
def Conversion.alternate (k : Conversion) : Bool := decide (Flag.alternate ∈ k.flags)

def minus (v : BitVec 32) : List UInt8 := if v.toInt < 0 then ['-'.toUInt8] else []

/-- The text of an argument, where the standard defines it. -/
def c99Argument (k : Conversion) (argument : Argument) : Option (List UInt8) :=
  match k.code, argument with
  | .c, .int v => if k.flags = [] then some (field false k.width [] [UInt8.ofNat v.toNat]) else none
  | .d, .int v | .i, .int v =>
    if k.alternate then none
    else some (field k.zeros k.width (minus v) (numeral 10 v.toInt.natAbs))
  | .u, .int v => if k.alternate then none else some (field k.zeros k.width [] (numeral 10 v.toNat))
  | .o, .int v =>
    some (field k.zeros k.width []
      (if k.alternate ∧ v ≠ 0 then '0'.toUInt8 :: numeral 8 v.toNat else numeral 8 v.toNat))
  | .x, .int v =>
    some (field k.zeros k.width (if k.alternate ∧ v ≠ 0 then ['0'.toUInt8, 'x'.toUInt8] else [])
      (numeral 16 v.toNat))
  | .s, .string (some s) => if k.flags = [] then some (field false k.width [] s.1) else none
  | _, _ => none

/-- The text of a part of a format, where the standard defines it. -/
def Piece.c99 : Piece → List Argument → Option (List UInt8)
  | .literal c _ _, _ => some [c]
  | .conversion k, arguments =>
    if k.code = .percent then
      if k.flags = [] ∧ k.width = 0 then some ['%'.toUInt8] else none
    else arguments.head?.bind (c99Argument k)

/-- The arguments for the parts of the format after this one. -/
def Piece.rest : Piece → List Argument → List Argument
  | .literal _ _ _, arguments => arguments
  | .conversion k, arguments => if k.code = .percent then arguments else arguments.tail

/-- The output of a format, where the standard defines it. -/
def c99 : List Piece → List Argument → Option (List UInt8)
  | [], _ => some []
  | piece :: pieces, arguments => do
    let text ← piece.c99 arguments
    let rest ← c99 pieces (piece.rest arguments)
    return text ++ rest

/-- The conversions that the standard defines. -/
inductive Defined : Conversion → Argument → List UInt8 → Prop
  /-- `c`. -/
  | character (width : ℕ) (v : BitVec 32) :
      Defined ⟨[], width, .c⟩ (.int v) (field false width [] [UInt8.ofNat v.toNat])
  /-- `d` and `i`. -/
  | signed {k : Conversion} (hcode : k.code = .d ∨ k.code = .i) (h : k.alternate = false)
      (v : BitVec 32) :
      Defined k (.int v) (field k.zeros k.width (minus v) (numeral 10 v.toInt.natAbs))
  /-- `u`. -/
  | unsigned {k : Conversion} (hcode : k.code = .u) (h : k.alternate = false) (v : BitVec 32) :
      Defined k (.int v) (field k.zeros k.width [] (numeral 10 v.toNat))
  /-- `o`. -/
  | octal {k : Conversion} (hcode : k.code = .o) (v : BitVec 32) :
      Defined k (.int v) (field k.zeros k.width []
        (if k.alternate ∧ v ≠ 0 then '0'.toUInt8 :: numeral 8 v.toNat else numeral 8 v.toNat))
  /-- `x`. -/
  | hexadecimal {k : Conversion} (hcode : k.code = .x) (v : BitVec 32) :
      Defined k (.int v) (field k.zeros k.width
        (if k.alternate ∧ v ≠ 0 then ['0'.toUInt8, 'x'.toUInt8] else []) (numeral 16 v.toNat))
  /-- `s`. -/
  | string (width : ℕ) (s : CString) :
      Defined ⟨[], width, .s⟩ (.string (some s)) (field false width [] s.1)

variable {k : Conversion} {text s : List UInt8} {base n room : ℕ} {c : UInt8}

theorem defined_of_c99Argument {argument : Argument} (h : c99Argument k argument = some text) :
    Defined k argument text := by
  obtain ⟨flags, width, code⟩ := k
  unfold c99Argument at h
  split at h
  case h_1 v hcode =>
    obtain ⟨hflags, h⟩ := ite_none_right_eq_some.1 h
    cases h
    cases hcode
    cases hflags
    exact .character width v
  case h_2 v hcode | h_3 v hcode =>
    split at h
    · cases h
    · cases h
      first
      | exact .signed (.inl hcode) (Bool.eq_false_iff.2 ‹_›) v
      | exact .signed (.inr hcode) (Bool.eq_false_iff.2 ‹_›) v
  case h_4 v hcode =>
    split at h
    · cases h
    · cases h
      exact .unsigned hcode (Bool.eq_false_iff.2 ‹_›) v
  case h_5 v hcode =>
    cases h
    exact .octal hcode v
  case h_6 v hcode =>
    cases h
    exact .hexadecimal hcode v
  case h_7 s hcode =>
    obtain ⟨hflags, h⟩ := ite_none_right_eq_some.1 h
    cases h
    cases hcode
    cases hflags
    exact .string width s
  case h_8 => cases h

/-! ### Numerals -/

theorem mem_numeral (hbase : 1 < base) (h : c ∈ numeral base n) :
    ∃ r < base, c = (Nat.digitChar r).toUInt8 := by
  induction n using Nat.strong_induction_on with
  | _ n ih =>
    rw [numeral, Nat.toDigits_eq_if hbase] at h
    split at h
    · exact ⟨n, ‹_›, by simpa using h⟩
    · rw [map_append, mem_append] at h
      rcases h with h | h
      · exact ih (n / base) (Nat.div_lt_self (by omega) hbase) h
      · exact ⟨n % base, Nat.mod_lt n (by omega), by simpa using h⟩

theorem numeral_ne_nil : numeral base n ≠ [] := by
  rw [numeral, ne_eq, map_eq_nil_iff]
  exact toDigits_ne_nil

theorem zero_not_mem_numeral (hbase : 1 < base) (hhigh : base ≤ 16) :
    (0 : UInt8) ∉ numeral base n := by
  intro h
  obtain ⟨r, hr, heq⟩ := mem_numeral hbase h
  have hdigits : ∀ r < 16, (0 : UInt8) ≠ (Nat.digitChar r).toUInt8 := by decide
  exact hdigits r (by omega) heq

theorem current_numeral (hn : 0 < n) : current (numeral 10 n) ≠ '0'.toUInt8 := by
  induction n using Nat.strong_induction_on with
  | _ n ih =>
    rw [numeral, Nat.toDigits_eq_if (by decide)]
    split
    · have hdigits : ∀ r < 10, 0 < r → (Nat.digitChar r).toUInt8 ≠ '0'.toUInt8 := by decide
      exact hdigits n ‹_› hn
    · have hrest := ih (n / 10) (by omega) (by omega)
      rw [map_append]
      have hne : (Nat.toDigits 10 (n / 10)).map Char.toUInt8 ≠ [] := numeral_ne_nil
      obtain ⟨c, s, hcons⟩ := exists_cons_of_ne_nil hne
      rw [numeral, hcons] at hrest
      rw [hcons]
      exact hrest

theorem digitBelow_of_mem_numeral (h : c ∈ numeral 10 n) : digitBelow 10 c = true := by
  obtain ⟨r, hr, rfl⟩ := mem_numeral (by decide) h
  have hdigits : ∀ r < 10, digitBelow 10 (Nat.digitChar r).toUInt8 = true := by decide
  exact hdigits r hr

/-- The value of a decimal numeral, as `strtoul` computes it. -/
theorem digitsValue_numeral (n : ℕ) : digitsValue 10 0 (numeral 10 n) = BitVec.ofNat 32 n := by
  have hdigits : ∀ r < 10, (digitValue (Nat.digitChar r).toUInt8).getD 0 = r := by decide
  induction n using Nat.strong_induction_on with
  | _ n ih =>
    rw [numeral, Nat.toDigits_eq_if (by decide)]
    split
    · rw [map_singleton, digitsValue, foldl_cons, foldl_nil, hdigits n ‹_›]
      simp
    · rw [map_append, digitsValue, foldl_append]
      have hrest := ih (n / 10) (by omega)
      rw [digitsValue, numeral] at hrest
      rw [hrest, map_singleton, foldl_cons, foldl_nil, hdigits _ (by omega)]
      have hten : BitVec.ofInt 32 10 = BitVec.ofNat 32 10 := by decide
      rw [hten, ← BitVec.ofNat_mul, ← BitVec.ofNat_add]
      congr 1
      omega

/-! ### Parsing -/

def Conversion.style (k : Conversion) : OutputStyle :=
  parseCode { OutputStyle.default with
    alternate := k.alternate, pad := if k.zeros then zeroPad else blankPad, width := k.width }
    k.code.char.toUInt8

/-- A character that ends the flags. -/
def endsFlags (c : UInt8) : Prop :=
  c ≠ '#'.toUInt8 ∧ c ≠ '0'.toUInt8 ∧ c ≠ '+'.toUInt8 ∧ c ≠ ' '.toUInt8
deriving Decidable

theorem parseFlags_of_endsFlags (style : OutputStyle) (h : endsFlags (current s)) :
    parseFlags style s = (style, s) := by
  cases s with
  | nil => rfl
  | cons c s =>
    rw [current_cons] at h
    rw [parseFlags, if_neg h.1, if_neg h.2.1, if_neg h.2.2.1, if_neg h.2.2.2]

theorem parseFlags_map (style : OutputStyle) (flags : List Flag) (h : endsFlags (current s)) :
    parseFlags style (flags.map (fun f => f.char.toUInt8) ++ s) =
      ({ style with
        alternate := style.alternate || decide (Flag.alternate ∈ flags)
        pad := if Flag.zero ∈ flags then zeroPad else style.pad }, s) := by
  induction flags generalizing style with
  | nil => simpa using parseFlags_of_endsFlags style h
  | cons f flags ih =>
    rw [map_cons, cons_append, parseFlags]
    cases f with
    | alternate =>
      rw [if_pos (by decide), ih]
      simp
    | zero =>
      rw [if_neg (by decide), if_pos (by decide), ih]
      simp

/-- The specifiers are 7-bit characters that are no flags, no digits, no spaces and no points. -/
theorem Code.endsNumber (code : Code) : Ascii code.char.toUInt8 ∧ endsFlags code.char.toUInt8 ∧
    digitBelow 10 code.char.toUInt8 = false ∧ space code.char.toUInt8 = false ∧
      code.char.toUInt8 ≠ '.'.toUInt8 ∧ code.char.toUInt8 ≠ 0 := by
  cases code <;> decide

theorem endsFlags_digit : ∀ c : UInt8, digitBelow 10 c = true → c ≠ '0'.toUInt8 →
    endsFlags c ∧ space c = false := by
  decide +kernel

theorem inferBase_ten (s : List UInt8) : inferBase 10 s = (10, s) := by
  rw [inferBase, if_neg (by decide)]

theorem current_append (h : s ≠ []) (rest : List UInt8) : current (s ++ rest) = current s := by
  obtain ⟨c, s, rfl⟩ := exists_cons_of_ne_nil h
  rfl

theorem current_mem (h : s ≠ []) : current s ∈ s := by
  obtain ⟨c, s, rfl⟩ := exists_cons_of_ne_nil h
  exact mem_cons_self

/-- A decimal numeral in front of a character that is no digit is read as a whole. -/
theorem strtoul_numeral (rest : List UInt8) (hspace : space (current (numeral 10 n)) = false)
    (hrest : digitBelow 10 (current rest) = false) :
    strtoulValue (numeral 10 n ++ rest) 10 = BitVec.ofNat 32 n ∧
      strtoulEnd (numeral 10 n ++ rest) 10 = rest := by
  have hspaces : afterSpaces (numeral 10 n ++ rest) = numeral 10 n ++ rest :=
    dropWhile_of_current (by rwa [current_append numeral_ne_nil])
  have hdigits : ∀ c ∈ numeral 10 n, digitBelow 10 c = true := fun _ => digitBelow_of_mem_numeral
  rw [strtoulValue, strtoulEnd, hspaces, inferBase_ten]
  constructor
  · rw [takeWhile_append_of_pos hdigits]
    have hnil : rest.takeWhile (digitBelow 10) = [] := by
      cases rest with
      | nil => rfl
      | cons c rest => exact takeWhile_cons_of_neg (by simpa [current_cons] using hrest)
    rw [hnil, append_nil, digitsValue_numeral]
  · rw [dropWhile_append_of_pos hdigits, dropWhile_of_current hrest]

/-- A string that does not start with a digit or a space is read as zero. -/
theorem strtoul_none (hspace : space (current s) = false)
    (hdigit : digitBelow 10 (current s) = false) : strtoulValue s 10 = 0 ∧ strtoulEnd s 10 = s := by
  have hspaces : afterSpaces s = s := dropWhile_of_current hspace
  rw [strtoulValue, strtoulEnd, hspaces, inferBase_ten]
  refine ⟨?_, dropWhile_of_current hdigit⟩
  cases s with
  | nil => rfl
  | cons c s =>
    rw [takeWhile_cons_of_neg (by simpa [current_cons] using hdigit)]
    rfl

theorem numeral_starts (hn : 0 < n) :
    endsFlags (current (numeral 10 n)) ∧ space (current (numeral 10 n)) = false :=
  endsFlags_digit _ (digitBelow_of_mem_numeral (current_mem numeral_ne_nil)) (current_numeral hn)

open Conversion

theorem formatStyleOf_bytes (hwidth : k.width < 2 ^ 32) (rest : List UInt8) :
    ParseSafe (k.bytes ++ rest) ∧ formatStyleOf (k.bytes ++ rest) = (k.style, some rest) := by
  obtain ⟨hascii, hends, hdigit, hspace, hpoint, -⟩ := k.code.endsNumber
  have hbytes : k.bytes ++ rest = k.flags.map (fun f => f.char.toUInt8) ++
      ((if k.width = 0 then [] else numeral 10 k.width) ++ k.code.char.toUInt8 :: rest) := by
    simp [Conversion.bytes]
  by_cases hzero : k.width = 0
  · rw [if_pos hzero, nil_append] at hbytes
    obtain ⟨hvalue, hend⟩ := strtoul_none (s := k.code.char.toUInt8 :: rest) hspace hdigit
    have hflags := parseFlags_map .default k.flags (s := k.code.char.toUInt8 :: rest) hends
    have hkept : ∀ style, widthOf style (k.code.char.toUInt8 :: rest) =
        (style, k.code.char.toUInt8 :: rest) := by
      intro style
      rw [widthOf, hvalue, if_neg (by decide)]
    refine ⟨?_, ?_⟩
    · simp only [ParseSafe, hbytes, hflags, hkept, hend]
      exact ⟨hascii, fun h => absurd h hpoint⟩
    · simp only [formatStyleOf, hbytes, hflags, hkept, precisionOf, current_cons, if_neg hpoint]
      simp [style, hzero, OutputStyle.default, advance, alternate, zeros]
  · rw [if_neg hzero] at hbytes
    obtain ⟨hstarts, hnospace⟩ := numeral_starts (Nat.pos_of_ne_zero hzero)
    obtain ⟨hvalue, hend⟩ := strtoul_numeral (k.code.char.toUInt8 :: rest) hnospace hdigit
    have hflags := parseFlags_map .default k.flags
      (s := numeral 10 k.width ++ k.code.char.toUInt8 :: rest)
      (by rwa [current_append numeral_ne_nil])
    have htoNat : (BitVec.ofNat 32 k.width).toNat = k.width := Nat.mod_eq_of_lt hwidth
    have hpos : 0 < BitVec.ofNat 32 k.width := by
      rw [BitVec.lt_def, htoNat]
      exact Nat.pos_of_ne_zero hzero
    refine ⟨?_, ?_⟩
    · simp only [ParseSafe, hbytes, hflags, widthOf, hvalue, hend, if_pos hpos]
      exact ⟨hascii, fun h => absurd h hpoint⟩
    · simp only [formatStyleOf, hbytes, hflags, widthOf, hvalue, hend, if_pos hpos, precisionOf,
        current_cons, if_neg hpoint, htoNat]
      simp [style, OutputStyle.default, advance, alternate, zeros]

/-! ### What is written -/

def Conversion.front (k : Conversion) : List UInt8 :=
  match k.alternate, k.code with
  | true, .o => ['0'.toUInt8]
  | true, .x => ['0'.toUInt8, 'x'.toUInt8]
  | _, _ => []

def Conversion.back (k : Conversion) (argument : Argument) : List UInt8 :=
  match k.code, argument with
  | .c, .int v => [UInt8.ofNat v.toNat]
  | .d, .int v | .i, .int v => minus v ++ numeral 10 v.toInt.natAbs
  | .u, .int v => numeral 10 v.toNat
  | .o, .int v => numeral 8 v.toNat
  | .x, .int v => numeral 16 v.toNat
  | .s, .string (some s) => s.1
  | _, _ => []

def Conversion.padding (k : Conversion) (argument : Argument) : ℕ :=
  k.width - (k.front.length + (k.back argument).length)

def Conversion.pad (k : Conversion) : List UInt8 := if k.zeros then zeroPad else blankPad

theorem Conversion.style_fields (k : Conversion) :
    k.style.alternate = k.alternate ∧ k.style.pad = k.pad ∧ k.style.width = k.width := by
  obtain ⟨flags, width, code⟩ := k
  cases code <;> exact ⟨rfl, rfl, rfl⟩

theorem printTexts_cons {texts : List (List UInt8 × ℕ)} (hn : n ≤ text.length) (hroom : n ≤ room) :
    printTexts room ((text, n) :: texts) = (printTexts (room - n) texts).map (text.take n ++ ·) := by
  have hlength : (text.take n).length = n := by rw [length_take, min_eq_left hn]
  rw [printTexts, printText, min_eq_right hroom, if_pos hn]
  simp only [ok_bind, hlength]
  cases printTexts (room - n) texts <;> rfl

/-- The texts of an argument: something in front of the padding, the padding, and something behind
it. -/
def fieldTexts (style : OutputStyle) (front back : List UInt8) (source : List UInt8) :
    List (List UInt8 × ℕ) :=
  (if front = [] then [] else [(front ++ [0], front.length)]) ++
    (padTexts style front.length back.length ++ [(source, back.length)])

section

variable {style : OutputStyle} {front back source : List UInt8} {room : ℕ}

theorem printTexts_fieldTexts (hroom : front.length ≤ room) :
    printTexts room (fieldTexts style front back source) =
      (printTexts (room - front.length)
        (padTexts style front.length back.length ++ [(source, back.length)])).map (front ++ ·) := by
  rw [fieldTexts]
  split
  · subst front
    rw [nil_append]
    cases printTexts room (padTexts style ([] : List UInt8).length back.length ++
      [(source, back.length)]) <;> rfl
  · rw [singleton_append, printTexts_cons (by simp) hroom, take_left']
    rfl

theorem printTexts_of_le (hsource : back <+: source)
    (hpad : style.width - (front.length + back.length) ≤ style.pad.length)
    (hroom : front.length + (style.width - (front.length + back.length)) + back.length ≤ room) :
    printTexts room (fieldTexts style front back source) =
      .ok (front ++ (style.pad.take (style.width - (front.length + back.length)) ++ back)) := by
  obtain ⟨tail, rfl⟩ := hsource
  have hback : ∀ room', back.length ≤ room' →
      printTexts room' [(back ++ tail, back.length)] = .ok back := by
    intro room' h
    rw [printTexts_cons (by simp) h, take_left']
    · simp [printTexts, Except.map]
    · rfl
  rw [printTexts_fieldTexts (by omega), padTexts]
  by_cases hlt : front.length + back.length < style.width
  · rw [if_pos hlt, singleton_append, Nat.sub_sub, printTexts_cons hpad (by omega),
      hback _ (by omega)]
    rfl
  · rw [if_neg hlt, nil_append, hback _ (by omega), Nat.sub_eq_zero_of_le (by omega)]
    rfl

theorem printTexts_of_lt
    (hpad : style.pad.length < style.width - (front.length + back.length))
    (hroom : front.length + style.pad.length < room) :
    printTexts room (fieldTexts style front back source) = .error .outside := by
  rw [printTexts_fieldTexts (by omega), padTexts, if_pos (by omega), singleton_append, Nat.sub_sub,
    printTexts, printText, if_neg (by dsimp only; omega)]
  rfl

end

theorem itoa_ten (v : BitVec 32) : itoa v 10 = minus v ++ numeral 10 v.toInt.natAbs := by
  have hsign : v.slt 0 = true ↔ v.toInt < 0 := by
    rw [BitVec.slt_iff_toInt_lt]
    rfl
  rw [itoa, uitoa_eq (by decide) (by decide), minus]
  by_cases hneg : v.toInt < 0
  · rw [if_pos ⟨hsign.2 hneg, rfl⟩, if_pos hneg, if_pos (hsign.2 hneg)]
    have habs : (-v).toNat = v.toInt.natAbs := by
      have := v.isLt
      rw [BitVec.toInt_eq_toNat_cond] at hneg ⊢
      rw [BitVec.toNat_neg]
      split at hneg <;> omega
    rw [habs]
  · have hslt : ¬v.slt 0 = true := fun h => hneg (hsign.1 h)
    rw [if_neg (fun h => hslt h.1), if_neg hneg, if_neg hslt]
    have habs : v.toNat = v.toInt.natAbs := by
      have := v.isLt
      rw [BitVec.toInt_eq_toNat_cond] at hneg ⊢
      split at hneg <;> omega
    rw [habs]

theorem argumentTexts_integer {style : OutputStyle} (hbased : style.Based)
    (htype : style.type = .int ∨ style.type = .unsignedInt) (v : BitVec 32) (rest : List Argument) :
    argumentTexts style (.int v :: rest) = .ok (integerTexts style v, rest) := by
  have hlength := length_integerText_lt hbased htype v
  unfold argumentTexts
  rcases htype with htype | htype
  · rw [htype]
    exact if_pos hlength
  · rw [htype]
    exact if_pos hlength

theorem integerTexts_eq {style : OutputStyle} (h : style.alternate = true → style.radixText ≠ [])
    (v : BitVec 32) :
    integerTexts style v = fieldTexts style (if style.alternate then style.radixText else [])
      (integerText style v) (integerText style v ++ [0]) := by
  rw [integerTexts, fieldTexts]
  cases halternate : style.alternate with
  | false => simp
  | true => simp [h halternate]

theorem argumentTexts_of_integer (k : Conversion) (v : BitVec 32)
    (htype : k.style.type = .int ∨ k.style.type = .unsignedInt)
    (hfront : (if k.style.alternate then k.style.radixText else []) = k.front)
    (hempty : k.style.alternate = true → k.style.radixText ≠ [])
    (hback : integerText k.style v = k.back (.int v)) (rest : List Argument) :
    ∃ source, k.back (.int v) <+: source ∧ argumentTexts k.style (.int v :: rest) =
      .ok (fieldTexts k.style k.front (k.back (.int v)) source, rest) := by
  refine ⟨k.back (.int v) ++ [0], prefix_append _ _, ?_⟩
  have hbased : k.style.Based := based_parseCode rfl _
  rw [argumentTexts_integer hbased htype, integerTexts_eq hempty, hfront, hback]

/-- **The texts of a conversion** that the standard defines. -/
theorem argumentTexts_style {argument : Argument} (h : Defined k argument text)
    (rest : List Argument) :
    ∃ source, k.back argument <+: source ∧ argumentTexts k.style (argument :: rest) =
      .ok (fieldTexts k.style k.front (k.back argument) source, rest) := by
  cases h with
  | character width v => exact ⟨_, prefix_rfl, rfl⟩
  | string width s => exact ⟨s.1 ++ [0], prefix_append _ _, rfl⟩
  | signed hcode halternate v =>
    obtain ⟨flags, width, code⟩ := k
    have hstyle := (style_fields ⟨flags, width, code⟩).1.trans halternate
    rcases hcode with rfl | rfl
    · exact argumentTexts_of_integer ⟨flags, width, .d⟩ v (.inl rfl)
        (by simp [hstyle, front, halternate]) (by simp [hstyle]) (itoa_ten v) rest
    · exact argumentTexts_of_integer ⟨flags, width, .i⟩ v (.inl rfl)
        (by simp [hstyle, front, halternate]) (by simp [hstyle]) (itoa_ten v) rest
  | unsigned hcode halternate v =>
    obtain ⟨flags, width, code⟩ := k
    have hstyle := (style_fields ⟨flags, width, code⟩).1.trans halternate
    cases hcode
    have hdigits : uitoa v 10 = numeral 10 v.toNat := uitoa_eq (by decide) (by decide) v
    exact argumentTexts_of_integer ⟨flags, width, .u⟩ v (.inr rfl)
      (by simp [hstyle, front, halternate]) (by simp [hstyle]) hdigits rest
  | octal hcode v =>
    obtain ⟨flags, width, code⟩ := k
    cases hcode
    have hdigits : uitoa v 8 = numeral 8 v.toNat := uitoa_eq (by decide) (by decide) v
    refine argumentTexts_of_integer ⟨flags, width, .o⟩ v (.inr rfl) ?_ (fun _ => cons_ne_nil _ _)
      hdigits rest
    rw [(style_fields _).1, front]
    cases (⟨flags, width, .o⟩ : Conversion).alternate <;> rfl
  | hexadecimal hcode v =>
    obtain ⟨flags, width, code⟩ := k
    cases hcode
    have hdigits : uitoa v 16 = numeral 16 v.toNat := uitoa_eq (by decide) (by decide) v
    refine argumentTexts_of_integer ⟨flags, width, .x⟩ v (.inr rfl) ?_ (fun _ => cons_ne_nil _ _)
      hdigits rest
    rw [(style_fields _).1, front]
    cases (⟨flags, width, .x⟩ : Conversion).alternate <;> rfl

/-! ### Where it differs -/

def Conversion.fill (k : Conversion) : UInt8 := if k.zeros then '0'.toUInt8 else ' '.toUInt8

/-- Zeros are to be put behind a sign, and blanks in front of a prefix, which is not written for a
zero: this makes no difference. -/
def Ordered (k : Conversion) (argument : Argument) : Prop :=
  match k.code, argument with
  | .d, .int v | .i, .int v => v.toInt < 0 → k.zeros = true → k.padding argument = 0
  | .o, .int v => k.alternate = true →
    if v = 0 then k.zeros = true ∧ 2 ≤ k.width else k.zeros = true ∨ k.padding argument = 0
  | .x, .int v => k.alternate = true → v ≠ 0 ∧ (k.zeros = true ∨ k.padding argument = 0)
  | _, _ => True

instance (k : Conversion) (argument : Argument) : Decidable (Ordered k argument) := by
  unfold Ordered
  split <;> infer_instance

/-- What is written when the padding is not too long. -/
def Conversion.written (k : Conversion) (argument : Argument) : List UInt8 :=
  k.front ++ (.replicate (k.padding argument) k.fill ++ k.back argument)

theorem replicate_append_cons_iff {x : UInt8} (hne : x ≠ c) (n : ℕ) (s : List UInt8) :
    .replicate n x ++ c :: s = c :: (.replicate n x ++ s) ↔ n = 0 := by
  cases n with
  | zero => simp
  | succ n => simp [replicate_succ, hne]

theorem replicate_append_cons_self (x : UInt8) (n : ℕ) (s : List UInt8) :
    .replicate n x ++ x :: s = x :: (.replicate n x ++ s) := by
  rw [← cons_append, ← replicate_succ, replicate_succ', append_assoc, singleton_append]

theorem length_field (zeros : Bool) (width : ℕ) (sign text : List UInt8) :
    (field zeros width sign text).length = max width (sign.length + text.length) := by
  rw [field]
  split
  · simp only [length_append, length_replicate]
    omega
  · simp only [length_append, length_replicate]
    omega

theorem count_field (zeros : Bool) (width : ℕ) (sign text : List UInt8) :
    (field zeros width sign text).count 0 = sign.count 0 + text.count 0 := by
  have hblank : (' '.toUInt8 == 0) = false := by decide
  have hzero : ('0'.toUInt8 == 0) = false := by decide
  rw [field]
  split
  · simp [count_append, count_replicate, hzero]
  · simp [count_append, count_replicate, hblank]

theorem numeral_zero (base : ℕ) : numeral base 0 = ['0'.toUInt8] := by
  simp [numeral, toDigits_zero]

section

variable {k : Conversion} {argument : Argument} {text : List UInt8} {v : BitVec 32}

namespace Conversion

theorem front_eq_nil (h : k.alternate = false) : k.front = [] := by
  rw [front, h]

theorem back_signed (hcode : k.code = .d ∨ k.code = .i) (v : BitVec 32) :
    k.back (.int v) = minus v ++ numeral 10 v.toInt.natAbs := by
  cases k
  rcases hcode with hcode | hcode <;> cases hcode <;> rfl

theorem back_unsigned (hcode : k.code = .u) (v : BitVec 32) :
    k.back (.int v) = numeral 10 v.toNat := by
  cases k
  cases hcode
  rfl

theorem back_octal (hcode : k.code = .o) (v : BitVec 32) : k.back (.int v) = numeral 8 v.toNat := by
  cases k
  cases hcode
  rfl

theorem back_hexadecimal (hcode : k.code = .x) (v : BitVec 32) :
    k.back (.int v) = numeral 16 v.toNat := by
  cases k
  cases hcode
  rfl

theorem front_octal (hcode : k.code = .o) (h : k.alternate = true) : k.front = ['0'.toUInt8] := by
  rw [front, hcode, h]

theorem front_hexadecimal (hcode : k.code = .x) (h : k.alternate = true) :
    k.front = ['0'.toUInt8, 'x'.toUInt8] := by
  rw [front, hcode, h]

theorem length_written (k : Conversion) (argument : Argument) :
    (k.written argument).length = max k.width (k.front.length + (k.back argument).length) := by
  simp only [written, padding, length_append, length_replicate]
  omega

theorem written_eq_field (h : k.front = []) :
    k.written argument = field k.zeros k.width [] (k.back argument) := by
  rw [written, padding, fill, h, field]
  split <;> rfl

theorem written_octal (hcode : k.code = .o) (h : k.alternate = true) (v : BitVec 32) :
    k.written (.int v) =
      '0'.toUInt8 :: (.replicate (k.padding (.int v)) k.fill ++ numeral 8 v.toNat) := by
  rw [written, front_octal hcode h, back_octal hcode]
  rfl

end Conversion

/-- The text is not longer than what is written, and at most a prefix shorter. -/
theorem Defined.length_le (h : Defined k argument text) :
    text.length ≤ (k.written argument).length ∧ (k.written argument).length ≤ text.length + 2 := by
  rw [length_written]
  cases h with
  | character width v | string width s =>
    rw [length_field]
    exact ⟨le_rfl, le_add_right _ 2⟩
  | signed hcode halternate v =>
    rw [length_field, front_eq_nil halternate, back_signed hcode, length_append, length_nil]
    omega
  | unsigned hcode halternate v =>
    rw [length_field, front_eq_nil halternate, back_unsigned hcode]
    omega
  | octal hcode v =>
    rw [length_field, back_octal hcode]
    cases halternate : k.alternate with
    | false =>
      simp only [front_eq_nil halternate, Bool.false_eq_true, false_and, if_false]
      omega
    | true =>
      rw [front_octal hcode halternate]
      split <;> simp only [length_cons, length_nil] <;> omega
  | hexadecimal hcode v =>
    rw [length_field, back_hexadecimal hcode]
    cases halternate : k.alternate with
    | false =>
      simp only [front_eq_nil halternate, Bool.false_eq_true, false_and, if_false]
      omega
    | true =>
      rw [front_hexadecimal hcode halternate]
      split <;> simp only [length_cons, length_nil] <;> omega

theorem Defined.count_zero (h : Defined k argument text) :
    text.count 0 = (k.back argument).count 0 := by
  cases h with
  | character width v | string width s => simp [count_field, back]
  | signed hcode halternate v => rw [count_field, back_signed hcode, count_append]
  | unsigned hcode halternate v =>
    rw [count_field, back_unsigned hcode]
    simp
  | octal hcode v =>
    have hzero : ('0'.toUInt8 == 0) = false := by decide
    rw [count_field, back_octal hcode]
    split <;> simp [count_cons, hzero]
  | hexadecimal hcode v =>
    have hzero : ('0'.toUInt8 == 0) = false := by decide
    have hx : ('x'.toUInt8 == 0) = false := by decide
    rw [count_field, back_hexadecimal hcode]
    split <;> simp [count_cons, hzero, hx]

theorem written_iff_signed (hcode : k.code = .d ∨ k.code = .i) (halternate : k.alternate = false)
    (v : BitVec 32) :
    k.written (.int v) = field k.zeros k.width (minus v) (numeral 10 v.toInt.natAbs) ↔
      Ordered k (.int v) := by
  have hordered : Ordered k (.int v) ↔
      (v.toInt < 0 → k.zeros = true → k.padding (.int v) = 0) := by
    rcases hcode with hcode | hcode <;> simp only [Ordered, hcode]
  rw [hordered, written, front_eq_nil halternate, field, Conversion.fill,
    padding, front_eq_nil halternate, back_signed hcode, minus]
  by_cases hneg : v.toInt < 0
  · cases hzeros : k.zeros with
    | true =>
      have hne : '0'.toUInt8 ≠ '-'.toUInt8 := by decide
      simpa [hneg, add_comm 1] using replicate_append_cons_iff hne _ _
    | false => simp [hneg, add_comm 1]
  · cases k.zeros <;> simp [hneg]

theorem written_iff_octal_zero (hcode : k.code = .o) (halternate : k.alternate = true) :
    k.written (.int 0) = field k.zeros k.width [] ['0'.toUInt8] ↔ k.zeros = true ∧ 2 ≤ k.width := by
  have hzero : numeral 8 (0 : BitVec 32).toNat = ['0'.toUInt8] := numeral_zero 8
  have hpadding : k.padding (.int 0) = k.width - 2 := by
    rw [padding, front_octal hcode halternate, back_octal hcode, hzero]
    rfl
  by_cases hwidth : 2 ≤ k.width
  · obtain ⟨n, hn⟩ := Nat.exists_eq_add_of_le' hwidth
    rw [written_octal hcode halternate, hpadding, hzero, field, Conversion.fill, hn]
    cases k.zeros with
    | true => simp [replicate_succ]
    | false =>
      have hne : '0'.toUInt8 ≠ ' '.toUInt8 := by decide
      simp [replicate_succ, hne]
  · refine iff_of_false (fun heq => ?_) (fun h => hwidth h.2)
    have hlength := congrArg List.length heq
    rw [length_written, length_field, front_octal hcode halternate,
      back_octal hcode, hzero] at hlength
    simp only [length_singleton, length_nil] at hlength
    omega

theorem written_iff_octal (hcode : k.code = .o) (halternate : k.alternate = true) :
    k.written (.int v) = field k.zeros k.width [] ('0'.toUInt8 :: numeral 8 v.toNat) ↔
      k.zeros = true ∨ k.padding (.int v) = 0 := by
  have hpadding : k.padding (.int v) = k.width - ((numeral 8 v.toNat).length + 1) := by
    rw [padding, front_octal hcode halternate, back_octal hcode, add_comm]
    rfl
  rw [written_octal hcode halternate, hpadding, field, Conversion.fill]
  cases k.zeros with
  | true => simp [replicate_append_cons_self]
  | false =>
    have hne : ' '.toUInt8 ≠ '0'.toUInt8 := by decide
    simpa using eq_comm.trans (replicate_append_cons_iff hne _ _)

theorem written_ne_hexadecimal_zero (hcode : k.code = .x) (halternate : k.alternate = true) :
    k.written (.int 0) ≠ field k.zeros k.width [] ['0'.toUInt8] := by
  -- the prefix is written, and is the only place of an x
  intro heq
  have hmem : 'x'.toUInt8 ∈ k.written (.int 0) := by
    rw [written, front_hexadecimal hcode halternate]
    simp
  have hblank : 'x'.toUInt8 ≠ ' '.toUInt8 := by decide
  have hzero : 'x'.toUInt8 ≠ '0'.toUInt8 := by decide
  rw [heq, field] at hmem
  split at hmem <;> simp [mem_replicate, hblank, hzero] at hmem

theorem written_iff_hexadecimal (hcode : k.code = .x) (halternate : k.alternate = true) :
    k.written (.int v) = field k.zeros k.width ['0'.toUInt8, 'x'.toUInt8] (numeral 16 v.toNat) ↔
      k.zeros = true ∨ k.padding (.int v) = 0 := by
  have hpadding : k.padding (.int v) = k.width - (2 + (numeral 16 v.toNat).length) := by
    rw [padding, front_hexadecimal hcode halternate, back_hexadecimal hcode]
    rfl
  rw [written, front_hexadecimal hcode halternate,
    back_hexadecimal hcode, hpadding, field, Conversion.fill]
  cases k.zeros with
  | true => simp
  | false =>
    have hne : '0'.toUInt8 ≠ ' '.toUInt8 := by decide
    generalize hn : k.width - (2 + (numeral 16 v.toNat).length) = n
    cases n with
    | zero => simp
    | succ n => simp [replicate_succ, hne]

/-- **What is written is the text of the standard**, as far as the padding is not too long. -/
theorem Defined.written_iff (h : Defined k argument text) :
    k.written argument = text ↔ Ordered k argument := by
  cases h with
  | character width v | string width s =>
    exact iff_of_true (written_eq_field rfl) trivial
  | signed hcode halternate v => exact written_iff_signed hcode halternate v
  | unsigned hcode halternate v =>
    have hordered : Ordered k (.int v) := by simp [Ordered, hcode]
    rw [written_eq_field (front_eq_nil halternate), back_unsigned hcode]
    exact iff_of_true rfl hordered
  | octal hcode v =>
    have hordered : Ordered k (.int v) ↔ (k.alternate = true → if v = 0 then k.zeros = true ∧ 2 ≤ k.width
        else k.zeros = true ∨ k.padding (.int v) = 0) := by simp only [Ordered, hcode]
    rw [hordered]
    cases halternate : k.alternate with
    | false =>
      simp [written_eq_field (front_eq_nil halternate), back_octal hcode]
    | true =>
      by_cases hv : v = 0
      · subst hv
        simpa [numeral_zero] using written_iff_octal_zero hcode halternate
      · have hne : v ≠ 0#32 := hv
        simpa [hne] using written_iff_octal hcode halternate
  | hexadecimal hcode v =>
    have hordered : Ordered k (.int v) ↔ (k.alternate = true →
        v ≠ 0 ∧ (k.zeros = true ∨ k.padding (.int v) = 0)) := by simp only [Ordered, hcode]
    rw [hordered]
    cases halternate : k.alternate with
    | false =>
      simp [written_eq_field (front_eq_nil halternate), back_hexadecimal hcode]
    | true =>
      by_cases hv : v = 0
      · subst hv
        simpa [numeral_zero] using written_ne_hexadecimal_zero hcode halternate
      · have hne : v ≠ 0#32 := hv
        simpa [hne] using written_iff_hexadecimal hcode halternate

theorem Conversion.take_pad {n : ℕ} (h : n ≤ 51) : k.pad.take n = .replicate n k.fill := by
  have htake : ∀ x : UInt8, (List.replicate 51 x ++ [0]).take n = .replicate n x := by
    intro x
    rw [take_append_of_le_length (by simpa using h), take_replicate, min_eq_left h]
  rw [pad, fill]
  cases k.zeros
  · exact htake _
  · exact htake _

theorem Conversion.length_pad (k : Conversion) : k.pad.length = 52 := by
  rw [pad]
  cases k.zeros <;> rfl

theorem Conversion.count_pad (k : Conversion) : k.pad.count 0 = 1 := by
  rw [pad]
  cases k.zeros
  · decide
  · decide

/-- The conversion is written as the standard says: the padding is not longer than the string that it
is copied from, and is at the right place. -/
def Agrees (k : Conversion) (argument : Argument) : Prop :=
  k.padding argument ≤ 51 ∧ Ordered k argument
deriving Decidable

theorem Defined.width_le (h : Defined k argument text) : k.width ≤ text.length := by
  cases h <;> rw [length_field] <;> exact le_max_left _ _

variable {source : List UInt8} {room : ℕ}

/-- A conversion with a padding that is not too long. -/
theorem Conversion.prints (hpadding : k.padding argument ≤ 51) (hsource : k.back argument <+: source)
    (hroom : (k.written argument).length ≤ room) :
    printTexts room (fieldTexts k.style k.front (k.back argument) source) =
      .ok (k.written argument) := by
  obtain ⟨-, hpad, hwidth⟩ := k.style_fields
  have hsame : k.style.width - (k.front.length + (k.back argument).length) = k.padding argument := by
    rw [hwidth, padding]
  simp only [written, length_append, length_replicate] at hroom
  rw [printTexts_of_le hsource, hsame, hpad, take_pad hpadding, written]
  · rw [hsame, hpad, length_pad]
    omega
  · rw [hsame]
    omega

theorem Defined.prints (h : Defined k argument text) (hagrees : Agrees k argument)
    (hsource : k.back argument <+: source) (hroom : text.length ≤ room) :
    printTexts room (fieldTexts k.style k.front (k.back argument) source) = .ok text := by
  have hwritten := h.written_iff.2 hagrees.2
  rw [← hwritten] at hroom ⊢
  exact Conversion.prints hagrees.1 hsource hroom

/-- A conversion in a buffer that is large enough for what is written: the text is not shorter than
the one of the standard, and is another one unless the conversion agrees. -/
theorem Defined.agrees (h : Defined k argument text) (hsource : k.back argument <+: source)
    (hroom : text.length + 55 ≤ room) {output : List UInt8}
    (hprints : printTexts room (fieldTexts k.style k.front (k.back argument) source) = .ok output) :
    text.length ≤ output.length ∧ output.length ≤ text.length + 2 ∧
      (output = text → Agrees k argument) := by
  obtain ⟨-, hpad, hwidth⟩ := k.style_fields
  have hpadding : k.style.width - (k.front.length + (k.back argument).length) = k.padding argument := by
    rw [hwidth, padding]
  have hlength := h.length_le
  have hwritten : (k.written argument).length =
      k.front.length + k.padding argument + (k.back argument).length := by
    simp only [written, length_append, length_replicate]
    omega
  have hpadLength := k.length_pad
  have hstylePad : k.style.pad.length = 52 := by rw [hpad, hpadLength]
  by_cases hle : k.padding argument ≤ 52
  · rw [printTexts_of_le hsource (by omega) (by omega), hpadding, hpad] at hprints
    cases hprints
    have htake : (k.pad.take (k.padding argument)).length = k.padding argument := by
      rw [length_take]
      omega
    have houtput : (k.front ++ (k.pad.take (k.padding argument) ++ k.back argument)).length =
        (k.written argument).length := by
      rw [length_append, length_append, htake]
      omega
    refine ⟨by omega, by omega, fun heq => ?_⟩
    have hshort : k.padding argument ≤ 51 := by
      by_contra hlong
      -- the terminator of the padding is copied, and is not part of the text
      have hcount := congrArg (List.count 0) heq
      rw [count_append, count_append, take_of_length_le (by omega), k.count_pad,
        h.count_zero] at hcount
      omega
    refine ⟨hshort, h.written_iff.1 ?_⟩
    rw [← heq, written, take_pad hshort]
  · have hfront : k.front.length ≤ 2 := by
      rw [front]
      split <;> simp
    rw [printTexts_of_lt (by omega) (by omega)] at hprints
    cases hprints

end

/-! ### Whole formats -/

theorem zero_not_mem_bytes (piece : Piece) : (0 : UInt8) ∉ piece.bytes := by
  cases piece with
  | literal c hzero _ => simpa [Piece.bytes] using hzero.symm
  | conversion k =>
    have hcode := k.code.endsNumber.2.2.2.2.2
    have hflag : ∀ f : Flag, (0 : UInt8) ≠ f.char.toUInt8 := by
      intro f
      cases f <;> decide
    have hpercent : (0 : UInt8) ≠ '%'.toUInt8 := by decide
    have hwidth : (0 : UInt8) ∉ if k.width = 0 then [] else numeral 10 k.width := by
      split
      · simp
      · exact zero_not_mem_numeral (by decide) (by decide)
    simp [Piece.bytes, Conversion.bytes, hpercent, hwidth, hcode.symm, eq_comm, hflag]

def formatString (pieces : List Piece) : CString :=
  ⟨formatBytes pieces, by
    rw [formatBytes, mem_flatMap]
    rintro ⟨piece, -, hmem⟩
    exact zero_not_mem_bytes piece hmem⟩

/-- The conversion, if it is one, agrees. -/
def Piece.Agrees : Piece → List Argument → Prop
  | .conversion k, argument :: _ => k.code ≠ .percent → Libc.Agrees k argument
  | _, _ => True

def AllAgree : List Piece → List Argument → Prop
  | [], _ => True
  | piece :: pieces, arguments => piece.Agrees arguments ∧ AllAgree pieces (piece.rest arguments)

section

variable {room : ℕ} {t : Printer} {rest : List UInt8}

/-- A conversion is written, and what follows it is next. -/
theorem vsnprintfBody_conversion (hwidth : k.width < 2 ^ 32)
    (hformat : t.format = '%'.toUInt8 :: (k.bytes ++ rest)) (hroom : t.text.length < room)
    {texts : List (List UInt8 × ℕ)} {arguments : List Argument}
    (hargument : argumentTexts k.style t.arguments = .ok (texts, arguments)) :
    vsnprintfBody room t =
      (printTexts room texts).map fun output => .again ⟨rest, arguments, t.text ++ output⟩ := by
  obtain ⟨hsafe, hstyle⟩ := formatStyleOf_bytes hwidth rest
  obtain ⟨style, hparse, rfl⟩ := (endsIff_parseFormatStyle (k.bytes ++ rest)).1 hsafe
  rw [vsnprintfBody, hformat]
  simp only [if_pos hroom, ne_eq, not_true_eq_false, if_false]
  rw [hparse, hstyle]
  simp only [ok_bind, hargument]
  cases printTexts room texts <;> rfl

theorem vsnprintfBody_percent (hcode : k.code = .percent) (hflags : k.flags = [])
    (hwidth : k.width = 0) (hformat : t.format = '%'.toUInt8 :: (k.bytes ++ rest))
    (hroom : t.text.length < room) :
    vsnprintfBody room t = .ok (.again ⟨rest, t.arguments, t.text ++ ['%'.toUInt8]⟩) := by
  have hargument : argumentTexts k.style t.arguments = .ok ([(['%'.toUInt8], 1)], t.arguments) := by
    obtain ⟨flags, width, code⟩ := k
    subst hcode hflags hwidth
    rfl
  rw [vsnprintfBody_conversion (by omega) hformat hroom hargument,
    printTexts_cons (by decide) (by omega)]
  rfl

theorem vsnprintfBody_literal {c : UInt8} (hc : c ≠ '%'.toUInt8) (hformat : t.format = c :: rest)
    (hroom : t.text.length < room) :
    vsnprintfBody room t = .ok (.again ⟨rest, t.arguments, t.text ++ [c]⟩) := by
  rw [vsnprintfBody, hformat]
  simp only [if_pos hroom, if_pos hc]

theorem vsnprintfBody_full (hroom : ¬t.text.length < room) :
    vsnprintfBody room t = .ok (.done t.text) := by
  rw [vsnprintfBody]
  split
  · rfl
  · rw [if_neg hroom]

end

/-- **A pass writes a part of the format.** It is the text of the standard if the conversion agrees;
in a buffer that is large enough, it is so only then, and is not shorter otherwise. -/
theorem Piece.pass {piece : Piece} {arguments : List Argument} {written : List UInt8}
    (rest : List UInt8) (h : piece.c99 arguments = some text) (hlength : text.length < 2 ^ 32)
    (hroom : written.length < room) (hfits : text.length ≤ room) :
    ∃ call : Except Fault (List UInt8),
      vsnprintfBody room ⟨piece.bytes ++ rest, arguments, written⟩ =
        call.map (fun output => .again ⟨rest, piece.rest arguments, written ++ output⟩) ∧
      (piece.Agrees arguments → call = .ok text) ∧
      (text.length + 55 ≤ room → ∀ output, call = .ok output → text.length ≤ output.length ∧
        output.length ≤ text.length + 2 ∧ (output = text → piece.Agrees arguments)) := by
  -- a text that does not depend on an argument
  have hplain : piece.Agrees arguments →
      ∀ output, .ok text = (.ok output : Except Fault (List UInt8)) → text.length ≤ output.length ∧
        output.length ≤ text.length + 2 ∧ (output = text → piece.Agrees arguments) := by
    rintro hagrees output ⟨⟩
    exact ⟨le_rfl, le_add_right _ 2, fun _ => hagrees⟩
  cases piece with
  | literal c hzero hpercent =>
    cases h
    exact ⟨.ok [c], vsnprintfBody_literal hpercent rfl hroom, fun _ => rfl, fun _ => hplain trivial⟩
  | conversion k =>
    rw [Piece.c99] at h
    by_cases hcode : k.code = .percent
    · rw [if_pos hcode] at h
      obtain ⟨hk, h⟩ := ite_none_right_eq_some.1 h
      cases h
      have hrest : Piece.rest (.conversion k) arguments = arguments := if_pos hcode
      refine ⟨.ok ['%'.toUInt8], ?_, fun _ => rfl, fun _ => hplain ?_⟩
      · rw [hrest]
        exact vsnprintfBody_percent hcode hk.1 hk.2 rfl hroom
      · cases arguments with
        | nil => trivial
        | cons argument arguments => exact fun hne => absurd hcode hne
    · rw [if_neg hcode] at h
      cases arguments with
      | nil => cases h
      | cons argument arguments =>
        have hdefined := defined_of_c99Argument h
        obtain ⟨source, hsource, htexts⟩ := argumentTexts_style hdefined arguments
        have hrest : Piece.rest (.conversion k) (argument :: arguments) = arguments := if_neg hcode
        refine ⟨_, ?_, fun hagrees => hdefined.prints (hagrees hcode) hsource hfits,
          fun hlarge output hok => ?_⟩
        · rw [hrest]
          exact vsnprintfBody_conversion (hdefined.width_le.trans_lt hlength) rfl hroom htexts
        · obtain ⟨hlow, hhigh, hagrees⟩ := hdefined.agrees hsource hlarge hok
          exact ⟨hlow, hhigh, fun heq _ => hagrees heq⟩

theorem c99_cons {piece : Piece} {pieces : List Piece} {arguments : List Argument} {out : List UInt8}
    (h : c99 (piece :: pieces) arguments = some out) :
    ∃ text rest, piece.c99 arguments = some text ∧ c99 pieces (piece.rest arguments) = some rest ∧
      out = text ++ rest := by
  rw [c99] at h
  obtain ⟨text, htext, h⟩ := bind_eq_some_iff.1 h
  obtain ⟨rest, hrest, h⟩ := bind_eq_some_iff.1 h
  cases h
  exact ⟨text, rest, htext, hrest, rfl⟩

theorem formatBytes_cons (piece : Piece) (pieces : List Piece) :
    formatBytes (piece :: pieces) = piece.bytes ++ formatBytes pieces := flatMap_cons

/-- The output of a format whose conversions all agree. -/
theorem reaches_of_allAgree (hroom : room < 2 ^ 32) (pieces : List Piece)
    (arguments : List Argument) (written out : List UInt8) (hout : c99 pieces arguments = some out)
    (hagree : AllAgree pieces arguments) (hfits : written.length + out.length ≤ room) :
    ∃ last, Reaches (vsnprintfBody room) ⟨formatBytes pieces, arguments, written⟩ last ∧
      vsnprintfBody room last = .ok (.done (written ++ out)) := by
  induction pieces generalizing arguments written out with
  | nil =>
    cases hout
    exact ⟨_, .refl, by simp [vsnprintfBody, formatBytes]⟩
  | cons piece pieces ih =>
    obtain ⟨text, rest, htext, hrest, rfl⟩ := c99_cons hout
    rw [length_append] at hfits
    by_cases hfull : written.length < room
    · obtain ⟨call, hcall, hagrees, -⟩ := Piece.pass (formatBytes pieces) htext (by omega) hfull
        (by omega)
      rw [hagrees hagree.1] at hcall
      obtain ⟨last, hlast, hdone⟩ := ih _ (written ++ text) rest hrest hagree.2
        (by rw [length_append]; omega)
      refine ⟨last, .head ?_ hlast, by rwa [append_assoc] at hdone⟩
      rw [formatBytes_cons]
      exact hcall
    · -- nothing is left to be written
      have hempty : text ++ rest = [] := length_eq_zero_iff.1 (by rw [length_append]; omega)
      refine ⟨_, .refl, ?_⟩
      rw [hempty, append_nil]
      exact vsnprintfBody_full hfull

/-- The output of a format in a buffer that is large enough: it is not shorter than the one of the
standard, and another one unless all the conversions agree. -/
theorem allAgree_of_reaches (hroom : room < 2 ^ 32) (pieces : List Piece)
    (arguments : List Argument) (written out final : List UInt8) (last : Printer)
    (hout : c99 pieces arguments = some out)
    (hfits : written.length + out.length + 2 * pieces.length + 55 ≤ room)
    (hlast : Reaches (vsnprintfBody room) ⟨formatBytes pieces, arguments, written⟩ last)
    (hdone : vsnprintfBody room last = .ok (.done final)) :
    written.length + out.length ≤ final.length ∧ written <+: final ∧
      (final = written ++ out → AllAgree pieces arguments) := by
  induction pieces generalizing arguments written out with
  | nil =>
    cases hout
    have hbody : vsnprintfBody room ⟨formatBytes [], arguments, written⟩ = .ok (.done written) := rfl
    rcases hlast.cases_head with rfl | ⟨u, hu, -⟩
    · rw [hbody] at hdone
      cases hdone
      exact ⟨by simp, prefix_rfl, fun _ => trivial⟩
    · rw [hbody] at hu
      cases hu
  | cons piece pieces ih =>
    obtain ⟨text, rest, htext, hrest, rfl⟩ := c99_cons hout
    rw [length_append, length_cons] at hfits
    obtain ⟨call, hcall, -, hagrees⟩ := Piece.pass (formatBytes pieces) htext (by omega)
      (by omega : written.length < room) (by omega)
    rw [← formatBytes_cons] at hcall
    cases call with
    | error e =>
      rcases hlast.cases_head with rfl | ⟨u, hu, -⟩
      · rw [hcall] at hdone
        cases hdone
      · rw [hcall] at hu
        cases hu
    | ok output =>
      obtain ⟨hlow, hhigh, heq⟩ := hagrees (by omega) output rfl
      have hnext : Reaches (vsnprintfBody room)
          ⟨formatBytes pieces, piece.rest arguments, written ++ output⟩ last :=
        Reaches.to_done (.single hcall) hlast hdone
      obtain ⟨hfinal, hstarts, hall⟩ := ih _ (written ++ output) rest hrest
        (by rw [length_append]; omega) hnext
      rw [length_append] at hfinal
      refine ⟨by rw [length_append]; omega, (prefix_append _ _).trans hstarts, ?_⟩
      rintro rfl
      -- the lengths add up, so that each of the texts has the right length
      have hsame : output = text := by
        rw [length_append, length_append] at hfinal
        rw [prefix_append_right_inj] at hstarts
        have houtput : output.length = text.length := by omega
        exact (prefix_of_prefix_length_le hstarts (prefix_append text rest)
          houtput.le).eq_of_length houtput
      subst hsame
      exact ⟨heq rfl, hall (append_assoc _ _ _).symm⟩

/-- **The text that `vsnprintf` writes is the one of the standard**, in every buffer that this fits in,
if all the conversions of the format agree, and only if they do, unless the text is as long as the
address space: the padding is at most 51 characters long, a negative number is not padded with zeros, a
number with a prefix is not padded with blanks, and a prefix is not asked for a zero. -/
theorem vsnprintf_renders (pieces : List Piece) (arguments : List Argument) (out : List UInt8)
    (hout : c99 pieces arguments = some out) :
    (AllAgree pieces arguments → ∀ size : BitVec 32, out.length < size.toNat →
      vsnprintf size (formatString pieces) arguments = .ok (some out)) ∧
    (out.length + 2 * pieces.length + 57 < 2 ^ 32 →
      (∀ size : BitVec 32, out.length < size.toNat →
        vsnprintf size (formatString pieces) arguments = .ok (some out)) →
      AllAgree pieces arguments) := by
  constructor
  · intro hagree size hsize
    have hne : size ≠ 0 := by
      rintro rfl
      simp at hsize
    have htoNat := toNat_sub_one hne
    have hroom : (size - 1).toNat < 2 ^ 32 := by omega
    obtain ⟨last, hlast, hdone⟩ := reaches_of_allAgree hroom pieces arguments [] out hout hagree
      (by rw [length_nil]; omega)
    rw [vsnprintf_eq_some_iff]
    exact iterate_eq_done (vsnprintfBody_shrinks _) (lt_succ_self _) hlast hdone
  · intro hlength hall
    have hprints := hall (-1) (by rw [show (-1 : BitVec 32).toNat = 2 ^ 32 - 1 from rfl]; omega)
    rw [vsnprintf_eq_some_iff, show ((-1 : BitVec 32) - 1).toNat = 2 ^ 32 - 2 from rfl] at hprints
    obtain ⟨last, hlast, hdone⟩ := reaches_of_iterate_eq_done hprints
    exact (allAgree_of_reaches (by omega) pieces arguments [] out out last hout
      (by rw [length_nil]; omega) hlast hdone).2.2 rfl

/-- A number is padded with blanks. -/
theorem vsnprintf_renders_number :
    vsnprintf 16 (formatString [.conversion ⟨[], 5, .d⟩]) [.int (-42)] =
      .ok (some ("  -42".toList.map Char.toUInt8)) :=
  (vsnprintf_renders [.conversion ⟨[], 5, .d⟩] [.int (-42)]
    ("  -42".toList.map Char.toUInt8) (by decide +kernel)).1
      ⟨fun _ => by decide +kernel, trivial⟩ 16 (by decide +kernel)

/-- The zeros of a negative number are put in front of its sign, the blanks of a hexadecimal number
behind its prefix, and a prefix in front of a zero. -/
theorem not_vsnprintf_renders :
    (c99 [.conversion ⟨[.zero], 5, .d⟩] [.int (-42)] = some ("-0042".toList.map Char.toUInt8) ∧
      vsnprintf 16 (formatString [.conversion ⟨[.zero], 5, .d⟩]) [.int (-42)] =
        .ok (some ("00-42".toList.map Char.toUInt8))) ∧
    (c99 [.conversion ⟨[.alternate], 6, .x⟩] [.int 255] = some ("  0xff".toList.map Char.toUInt8) ∧
      vsnprintf 16 (formatString [.conversion ⟨[.alternate], 6, .x⟩]) [.int 255] =
        .ok (some ("0x  ff".toList.map Char.toUInt8))) ∧
    (c99 [.conversion ⟨[.alternate], 0, .x⟩] [.int 0] = some ("0".toList.map Char.toUInt8) ∧
      vsnprintf 16 (formatString [.conversion ⟨[.alternate], 0, .x⟩]) [.int 0] =
        .ok (some ("0x0".toList.map Char.toUInt8))) := by
  decide +kernel

end Dx.Libc
