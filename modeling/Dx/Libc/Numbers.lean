import Dx.Libc.Ctype

/-!
# Reading numbers

`strtoul`, `strtol` and `strtod` scan a string from its start and stop at the first character that
does not belong to a number any more. Each character that they scan is classified, and so is the one
at which they stop; the ones after it are never looked at. So each of them stays inside of the table
if and only if the character at which it stops is a 7-bit one (`strtoul_eq`, `inside_strtol_iff`,
`inside_strtod_iff`), where the terminator is one.

`strtod` computes its value in double precision from the digits that it has scanned. That arithmetic
is left out; the digits are given instead.
-/

namespace Dx.Libc

open List

/-! ### Scanning -/

/-- `while (isspace(*nptr)) nptr++`. -/
def skipSpaces : List UInt8 → Except Fault (List UInt8)
  | [] => .ok []    -- the terminator is no space
  | c :: s => do
    if ← isspace c then skipSpaces s else return c :: s

def readSign (s : List UInt8) : Bool × List UInt8 :=
  if current s = '+'.toUInt8 then (false, s.tail)
  else if current s = '-'.toUInt8 then (true, s.tail)
  else (false, s)

def digitOf (c : UInt8) : Except Fault (Option ℕ) := do
  if ← isdigit c then return some (c - '0'.toUInt8).toNat
  else if ← isupper c then return some (c - 'A'.toUInt8 + 10).toNat
  else if ← islower c then return some (c - 'a'.toUInt8 + 10).toNat
  else return none

/-- The base, and where the digits start. -/
def inferBase (base : ℤ) (s : List UInt8) : ℤ × List UInt8 :=
  if base = 0 ∨ base = 16 then
    if current s = '0'.toUInt8 then
      if current s.tail = 'x'.toUInt8 ∨ current s.tail = 'X'.toUInt8 then (16, s.tail.tail)
      else (if base = 0 then 8 else base, s.tail)
    else (if base = 0 then 10 else base, s)
  else (base, s)

/-- Consumes all digits in the range `[0 ... base)`. -/
def readDigits (base : ℤ) : BitVec 32 → List UInt8 → Except Fault (BitVec 32 × List UInt8)
  | value, [] => .ok (value, [])    -- the terminator is no digit
  | value, c :: s => do
    match ← digitOf c with
    | none => return (value, c :: s)
    | some d =>
      if (d : ℤ) < base then readDigits base (value * BitVec.ofInt 32 base + BitVec.ofNat 32 d) s
      else return (value, c :: s)

/-- `strtoul`: the value, and the end of the number. -/
def strtoul (nptr : List UInt8) (base : ℤ) : Except Fault (BitVec 32 × List UInt8) := do
  let s ← skipSpaces nptr
  readDigits (inferBase base s).1 0 (inferBase base s).2

def strtol (nptr : List UInt8) (base : ℤ) : Except Fault (BitVec 32 × List UInt8) := do
  let s ← skipSpaces nptr
  let number ← strtoul (readSign s).2 base
  return (if (readSign s).1 then -number.1 else number.1, number.2)

/-- The parts of a decimal number, each in digits. -/
structure Decimal where
  negative : Bool
  whole : List UInt8
  fraction : List UInt8
  /-- The sign of the exponent. -/
  negativeExponent : Bool
  /-- The digits of the exponent. -/
  exponent : List UInt8
  deriving DecidableEq

/-- `while (isdigit(c))`: the digits, and what follows. -/
def readDecimals : List UInt8 → Except Fault (List UInt8 × List UInt8)
  | [] => .ok ([], [])
  | c :: s => do
    if ← isdigit c then
      let digits ← readDecimals s
      return (c :: digits.1, digits.2)
    else return ([], c :: s)

/-- `read_mantissa`: the digits before and after the point, and what follows. -/
def readMantissa (nptr : List UInt8) : Except Fault ((List UInt8 × List UInt8) × List UInt8) := do
  let whole ← readDecimals nptr
  if current whole.2 = '.'.toUInt8 then
    let fraction ← readDecimals whole.2.tail
    return ((whole.1, fraction.1), fraction.2)
  else return ((whole.1, []), whole.2)

/-- `read_exponent`: the sign and the digits of the exponent, and what follows. -/
def readExponent (nptr : List UInt8) : Except Fault ((Bool × List UInt8) × List UInt8) := do
  if current nptr = 'e'.toUInt8 ∨ current nptr = 'E'.toUInt8 then
    let exponent ← readDecimals (readSign nptr.tail).2
    return (((readSign nptr.tail).1, exponent.1), exponent.2)
  else return ((false, []), nptr)

def strtod (nptr : List UInt8) : Except Fault (Decimal × List UInt8) := do
  let s ← skipSpaces nptr
  if ← isdigit (current (readSign s).2) then
    let mantissa ← readMantissa (readSign s).2
    let exponent ← readExponent mantissa.2
    return (⟨(readSign s).1, mantissa.1.1, mantissa.1.2, exponent.1.1, exponent.1.2⟩, exponent.2)
  else return (⟨(readSign s).1, [], [], false, []⟩, (readSign s).2)

/-! ### Where a scan stops -/

def digitValue (c : UInt8) : Option ℕ :=
  if between '0' '9' c then some (c - '0'.toUInt8).toNat
  else if between 'A' 'Z' c then some (c - 'A'.toUInt8 + 10).toNat
  else if between 'a' 'z' c then some (c - 'a'.toUInt8 + 10).toNat
  else none

def digitBelow (base : ℤ) (c : UInt8) : Bool := (digitValue c).any fun d : ℕ => decide ((d : ℤ) < base)

def afterSpaces (s : List UInt8) : List UInt8 := s.dropWhile space

def strtoulEnd (s : List UInt8) (base : ℤ) : List UInt8 :=
  (inferBase base (afterSpaces s)).2.dropWhile (digitBelow (inferBase base (afterSpaces s)).1)

def strtolEnd (s : List UInt8) (base : ℤ) : List UInt8 :=
  strtoulEnd (readSign (afterSpaces s)).2 base

def afterDecimals (s : List UInt8) : List UInt8 := s.dropWhile (between '0' '9')

def mantissaEnd (s : List UInt8) : List UInt8 :=
  if current (afterDecimals s) = '.'.toUInt8 then afterDecimals (afterDecimals s).tail
  else afterDecimals s

def exponentEnd (s : List UInt8) : List UInt8 :=
  if current s = 'e'.toUInt8 ∨ current s = 'E'.toUInt8 then afterDecimals (readSign s.tail).2 else s

def strtodEnd (s : List UInt8) : List UInt8 :=
  if between '0' '9' (current (readSign (afterSpaces s)).2) then
    exponentEnd (mantissaEnd (readSign (afterSpaces s)).2)
  else (readSign (afterSpaces s)).2

/-! ### The scans stay inside of the table up to there -/

/-- The call scans the string up to `rest`: it comes to its end there, unless the character that it
stops at is not a 7-bit one. -/
def Scans {α : Type} (call : Except Fault (α × List UInt8)) (rest : List UInt8) : Prop :=
  if Ascii (current rest) then ∃ a, call = .ok (a, rest) else call = .error .outside

variable {rest s : List UInt8}

theorem Scans.inside_iff {α : Type} {call : Except Fault (α × List UInt8)} (h : Scans call rest) :
    Inside call ↔ Ascii (current rest) := by
  rw [Scans] at h
  split at h
  · obtain ⟨a, rfl⟩ := h
    exact iff_of_true (inside_ok _) ‹_›
  · rw [h]
    exact iff_of_false (not_inside_error _) ‹_›

theorem current_cons (c : UInt8) (s : List UInt8) : current (c :: s) = c := rfl

theorem ne_of_not_ascii {c d : UInt8} (hc : ¬Ascii c) (hd : Ascii d) : c ≠ d := fun heq => hc (heq ▸ hd)

theorem dropWhile_of_current {p : UInt8 → Bool} (h : p (current s) = false) :
    s.dropWhile p = s := by
  cases s with
  | nil => rfl
  | cons c s => exact dropWhile_cons_of_neg (by simpa [current_cons] using h)

theorem ascii_of_space : ∀ c : UInt8, space c = true → Ascii c := by decide +kernel

theorem digitValue_spec : ∀ c : UInt8, (digitValue c).isSome = true → Ascii c ∧ space c = false := by
  decide +kernel

theorem ascii_of_digitValue (c : UInt8) (h : (digitValue c).isSome = true) : Ascii c :=
  (digitValue_spec c h).1

theorem not_space_of_digitValue (c : UInt8) (h : (digitValue c).isSome = true) : space c = false :=
  (digitValue_spec c h).2

theorem isSome_digitValue {c : UInt8} (h : between '0' '9' c = true) : (digitValue c).isSome = true := by
  rw [digitValue, if_pos h]
  rfl

theorem ascii_of_digit (c : UInt8) (h : between '0' '9' c = true) : Ascii c :=
  ascii_of_digitValue c (isSome_digitValue h)

theorem digitOf_eq (c : UInt8) :
    digitOf c = if Ascii c then .ok (digitValue c) else .error .outside := by
  rw [digitOf, isdigit_eq, isupper_eq, islower_eq, digitValue]
  by_cases hc : Ascii c
  · simp only [if_pos hc]
    cases between '0' '9' c <;> cases between 'A' 'Z' c <;> cases between 'a' 'z' c <;> rfl
  · simp only [if_neg hc]
    rfl

theorem digitBelow_of_not_ascii (base : ℤ) {c : UInt8} (hc : ¬Ascii c) : digitBelow base c = false := by
  have hnone : digitValue c = none := by
    by_contra hne
    exact hc (ascii_of_digitValue c (Option.isSome_iff_ne_none.2 hne))
  rw [digitBelow, hnone]
  rfl

theorem skipSpaces_eq (s : List UInt8) :
    skipSpaces s = if Ascii (current (afterSpaces s)) then .ok (afterSpaces s) else .error .outside := by
  induction s with
  | nil => rfl
  | cons c s ih =>
    rw [skipSpaces, isspace_eq, afterSpaces]
    by_cases hc : Ascii c
    · rw [if_pos hc]
      cases hs : space c with
      | true => rw [dropWhile_cons_of_pos hs]; exact ih
      | false =>
        rw [dropWhile_of_current hs, if_pos (by exact hc)]
        rfl
    · have hs : space c = false := Bool.eq_false_iff.2 fun hs => hc (ascii_of_space c hs)
      rw [if_neg hc, dropWhile_of_current hs, if_neg (by exact hc)]
      rfl

/-- The value of a number, of which `value` has been read before. -/
def digitsValue (base : ℤ) (value : BitVec 32) (digits : List UInt8) : BitVec 32 :=
  digits.foldl
    (fun v c => v * BitVec.ofInt 32 base + BitVec.ofNat 32 ((digitValue c).getD 0)) value

theorem readDigits_eq (base : ℤ) (value : BitVec 32) (s : List UInt8) :
    readDigits base value s =
      if Ascii (current (s.dropWhile (digitBelow base))) then
        .ok (digitsValue base value (s.takeWhile (digitBelow base)), s.dropWhile (digitBelow base))
      else .error .outside := by
  induction s generalizing value with
  | nil => rfl
  | cons c s ih =>
    rw [readDigits, digitOf_eq]
    by_cases hc : Ascii c
    · rw [if_pos hc]
      cases hd : digitBelow base c with
      | true =>
        obtain ⟨d, hval, hlt⟩ : ∃ d, digitValue c = some d ∧ (d : ℤ) < base := by
          simpa [digitBelow, Option.any_eq_true] using hd
        rw [dropWhile_cons_of_pos hd, takeWhile_cons_of_pos hd, hval]
        have := ih (value * BitVec.ofInt 32 base + BitVec.ofNat 32 d)
        simpa [digitsValue, hval, hlt] using this
      | false =>
        rw [dropWhile_of_current hd, takeWhile_cons_of_neg (by simp [hd]), if_pos (by exact hc)]
        cases hval : digitValue c with
        | none => rfl
        | some d =>
          have hge : ¬(d : ℤ) < base := by simpa [digitBelow, hval] using hd
          simp [bind, Except.bind, hge, digitsValue]
    · have hd := digitBelow_of_not_ascii base hc
      rw [if_neg hc, dropWhile_of_current hd, if_neg (by exact hc)]
      rfl

theorem inferBase_snd {base : ℤ} (h : current s ≠ '0'.toUInt8) : (inferBase base s).2 = s := by
  rw [inferBase]
  split
  · rfl
  · rfl

def strtoulValue (s : List UInt8) (base : ℤ) : BitVec 32 :=
  digitsValue (inferBase base (afterSpaces s)).1 0
    ((inferBase base (afterSpaces s)).2.takeWhile (digitBelow (inferBase base (afterSpaces s)).1))

/-- **What `strtoul` computes.** It stays inside of the table when the character that ends the number
is a 7-bit one. -/
theorem strtoul_eq (s : List UInt8) (base : ℤ) :
    strtoul s base =
      if Ascii (current (strtoulEnd s base)) then .ok (strtoulValue s base, strtoulEnd s base)
      else .error .outside := by
  rw [strtoul, skipSpaces_eq]
  by_cases h : Ascii (current (afterSpaces s))
  · rw [if_pos h]
    exact readDigits_eq _ 0 _
  · -- the character after the spaces is where the number ends
    have hend : strtoulEnd s base = afterSpaces s := by
      rw [strtoulEnd, inferBase_snd (ne_of_not_ascii h (by decide)),
        dropWhile_of_current (digitBelow_of_not_ascii _ h)]
    rw [if_neg h, hend, if_neg h]
    rfl

theorem scans_strtoul (s : List UInt8) (base : ℤ) : Scans (strtoul s base) (strtoulEnd s base) := by
  rw [Scans, strtoul_eq]
  split
  · exact ⟨_, rfl⟩
  · rfl

theorem readSign_snd_of_not_ascii (h : ¬Ascii (current s)) : (readSign s).2 = s := by
  rw [readSign, if_neg (ne_of_not_ascii h (by decide)), if_neg (ne_of_not_ascii h (by decide))]

theorem afterSpaces_of_not_ascii (h : ¬Ascii (current s)) : afterSpaces s = s :=
  dropWhile_of_current (Bool.eq_false_iff.2 fun hs => h (ascii_of_space _ hs))

theorem afterDecimals_of_not_ascii (h : ¬Ascii (current s)) : afterDecimals s = s :=
  dropWhile_of_current (Bool.eq_false_iff.2 fun hs => h (ascii_of_digit _ hs))

/-- `strtol` stays inside of the table when the character that ends the number is a 7-bit one. -/
theorem inside_strtol_iff (s : List UInt8) (base : ℤ) :
    Inside (strtol s base) ↔ Ascii (current (strtolEnd s base)) := by
  rw [strtol, skipSpaces_eq]
  by_cases h : Ascii (current (afterSpaces s))
  · rw [if_pos h, strtolEnd, ← (scans_strtoul _ base).inside_iff]
    simp only [ok_bind]
    cases strtoul (readSign (afterSpaces s)).2 base with
    | ok number => exact iff_of_true (inside_ok _) (inside_ok _)
    | error e => exact iff_of_false (not_inside_error _) (not_inside_error _)
  · have hend : current (strtolEnd s base) = current (afterSpaces s) := by
      rw [strtolEnd, readSign_snd_of_not_ascii h, strtoulEnd, afterSpaces_of_not_ascii h,
        inferBase_snd (ne_of_not_ascii h (by decide)),
        dropWhile_of_current (digitBelow_of_not_ascii _ h)]
    rw [if_neg h, hend]
    exact iff_of_false (not_inside_error _) h

/-! ### Decimal numbers -/

theorem scans_readDecimals (s : List UInt8) : Scans (readDecimals s) (afterDecimals s) := by
  induction s with
  | nil => exact ⟨[], rfl⟩
  | cons c s ih =>
    rw [readDecimals, isdigit_eq, Scans]
    by_cases hc : Ascii c
    · rw [if_pos hc]
      cases hd : between '0' '9' c with
      | true =>
        have hrest : afterDecimals (c :: s) = afterDecimals s := dropWhile_cons_of_pos hd
        rw [hrest]
        rw [Scans] at ih
        split
        · rw [if_pos ‹_›] at ih
          obtain ⟨digits, hdigits⟩ := ih
          exact ⟨c :: digits, by simp [bind, Except.bind, hdigits]⟩
        · rw [if_neg ‹_›] at ih
          simp [bind, Except.bind, ih]
      | false =>
        have hrest : afterDecimals (c :: s) = c :: s := dropWhile_of_current hd
        rw [hrest, if_pos (by exact hc)]
        exact ⟨[], rfl⟩
    · rw [if_neg hc, afterDecimals_of_not_ascii (s := c :: s) hc, if_neg (by exact hc)]
      rfl

theorem Scans.bind {α β : Type} {call : Except Fault (α × List UInt8)} {rest' : List UInt8}
    {next : α × List UInt8 → Except Fault (β × List UInt8)} (h : Scans call rest)
    (hnext : ∀ a, Ascii (current rest) → Scans (next (a, rest)) rest')
    (hstop : ¬Ascii (current rest) → rest' = rest) : Scans (call >>= next) rest' := by
  by_cases hc : Ascii (current rest)
  · rw [Scans, if_pos hc] at h
    obtain ⟨a, rfl⟩ := h
    exact hnext a hc
  · rw [Scans, if_neg hc] at h
    rw [h, hstop hc, Scans, if_neg hc]
    rfl

theorem scans_ok {α : Type} (a : α) (h : Ascii (current rest)) : Scans (.ok (a, rest)) rest := by
  rw [Scans, if_pos h]
  exact ⟨a, rfl⟩

theorem scans_readMantissa (s : List UInt8) : Scans (readMantissa s) (mantissaEnd s) := by
  rw [readMantissa]
  refine (scans_readDecimals s).bind (fun whole hc => ?_) (fun hc => ?_)
  · rw [mantissaEnd]
    split
    · refine (scans_readDecimals _).bind (fun fraction hc' => scans_ok _ hc') (fun _ => rfl)
    · exact scans_ok _ hc
  · rw [mantissaEnd, if_neg (ne_of_not_ascii hc (by decide))]

theorem scans_readExponent (h : Ascii (current s)) : Scans (readExponent s) (exponentEnd s) := by
  rw [readExponent, exponentEnd]
  split
  · exact (scans_readDecimals _).bind (fun exponent hc => scans_ok _ hc) (fun _ => rfl)
  · exact scans_ok _ h

theorem exponentEnd_of_not_ascii (h : ¬Ascii (current s)) : exponentEnd s = s := by
  rw [exponentEnd, if_neg]
  rintro (heq | heq)
  · exact ne_of_not_ascii h (by decide) heq
  · exact ne_of_not_ascii h (by decide) heq

theorem scans_strtod (s : List UInt8) : Scans (strtod s) (strtodEnd s) := by
  rw [strtod, skipSpaces_eq]
  by_cases h : Ascii (current (afterSpaces s))
  · rw [if_pos h]
    simp only [bind, Except.bind, isdigit_eq, strtodEnd]
    generalize (readSign (afterSpaces s)).2 = t
    by_cases ht : Ascii (current t)
    · simp only [if_pos ht]
      split
      · refine (scans_readMantissa t).bind (fun mantissa hc => ?_)
          (fun hc => exponentEnd_of_not_ascii hc)
        exact (scans_readExponent hc).bind (fun exponent hc' => scans_ok _ hc') (fun _ => rfl)
      · exact scans_ok _ ht
    · have hd : between '0' '9' (current t) = false :=
        Bool.eq_false_iff.2 fun hd => ht (ascii_of_digit _ hd)
      simp [ht, hd, Scans]
  · have hd : between '0' '9' (current (afterSpaces s)) = false :=
      Bool.eq_false_iff.2 fun hd => h (ascii_of_digit _ hd)
    have hend : strtodEnd s = afterSpaces s := by
      simp [strtodEnd, readSign_snd_of_not_ascii h, hd]
    rw [if_neg h, hend, Scans, if_neg h]
    rfl

/-! ### Strings of 7-bit characters -/

theorem ascii_current_of_suffix {t : List UInt8} (h : t <:+ s) (hs : ∀ c ∈ s, Ascii c) :
    Ascii (current t) := by
  cases t with
  | nil => decide
  | cons c t => exact hs c (h.subset mem_cons_self)

theorem afterSpaces_suffix (s : List UInt8) : afterSpaces s <:+ s := dropWhile_suffix _

theorem afterDecimals_suffix (s : List UInt8) : afterDecimals s <:+ s := dropWhile_suffix _

theorem readSign_suffix (s : List UInt8) : (readSign s).2 <:+ s := by
  rw [readSign]
  split_ifs
  · exact tail_suffix s
  · exact tail_suffix s
  · exact suffix_rfl

theorem inferBase_suffix (base : ℤ) (s : List UInt8) : (inferBase base s).2 <:+ s := by
  rw [inferBase]
  split_ifs
  · exact (tail_suffix _).trans (tail_suffix s)
  · exact tail_suffix s
  · exact tail_suffix s
  · exact suffix_rfl
  · exact suffix_rfl
  · exact suffix_rfl

theorem strtoulEnd_suffix (s : List UInt8) (base : ℤ) : strtoulEnd s base <:+ s :=
  (dropWhile_suffix _).trans ((inferBase_suffix base _).trans (afterSpaces_suffix s))

theorem strtolEnd_suffix (s : List UInt8) (base : ℤ) : strtolEnd s base <:+ s :=
  (strtoulEnd_suffix _ base).trans ((readSign_suffix _).trans (afterSpaces_suffix s))

theorem mantissaEnd_suffix (s : List UInt8) : mantissaEnd s <:+ s := by
  rw [mantissaEnd]
  split
  · exact (afterDecimals_suffix _).trans ((tail_suffix _).trans (afterDecimals_suffix s))
  · exact afterDecimals_suffix s

theorem exponentEnd_suffix (s : List UInt8) : exponentEnd s <:+ s := by
  rw [exponentEnd]
  split
  · exact (afterDecimals_suffix _).trans ((readSign_suffix _).trans (tail_suffix s))
  · exact suffix_rfl

theorem strtodEnd_suffix (s : List UInt8) : strtodEnd s <:+ s := by
  have hsign : (readSign (afterSpaces s)).2 <:+ s := (readSign_suffix _).trans (afterSpaces_suffix s)
  rw [strtodEnd]
  split
  · exact (exponentEnd_suffix _).trans ((mantissaEnd_suffix _).trans hsign)
  · exact hsign

end Dx.Libc
