import Dx.Libc.Strftime
import Dx.Library.Substitution

/-!
# The fields of a date

The text that the standard gives to each conversion of `strftime` in the C locale, where the modifiers
`E` and `O` are ignored, and the dates and formats for which `strftime` writes it.

The standard gives years and centuries as decimal numbers. Here they have the sign of the number and at
least four and two characters, as `printf` writes them for `%04d` and `%02d`, for the years before the
first one and after the year 9999 too.
-/

namespace Dx.Libc

open Library User List Nat

/-! ### The standard -/

/-- A decimal number of at least so many characters: zeros are put behind the sign. -/
def digits (width : ℕ) (n : ℤ) : List UInt8 :=
  field true width (if n < 0 then ['-'.toUInt8] else []) (numeral 10 n.natAbs)

def Tm.trueYear (datetime : Tm) : ℤ := datetime.year + 1900

/-- The text of a part in the standard. -/
def Part.standard (datetime : Tm) : Part → List UInt8
  | .literal c => [c]
  | .shortWeekday => (name Libc.fullWeekday datetime.wday).1.take 3
  | .fullWeekday => (name Libc.fullWeekday datetime.wday).1
  | .shortMonth => (name Libc.fullMonth datetime.mon).1.take 3
  | .fullMonth => (name Libc.fullMonth datetime.mon).1
  | .month => digits 2 (datetime.mon + 1)
  | .day => digits 2 datetime.mday
  | .blankDay => field false 2 [] (numeral 10 datetime.mday.toNat)
  | .hour => digits 2 datetime.hour
  | .hour12 => digits 2 ((datetime.hour + 11) % 12 + 1)
  | .minute => digits 2 datetime.min
  | .second => digits 2 datetime.sec
  | .yearDay => digits 3 (datetime.yday + 1)
  | .half => (if datetime.hour < 12 then cString "AM" else cString "PM").1
  | .isoWeekday => digits 1 (if datetime.wday = 0 then 7 else datetime.wday)
  | .weekday => digits 1 datetime.wday
  | .century => digits 2 (datetime.trueYear.tdiv 100)
  | .yearOfCentury => digits 2 (datetime.trueYear.natAbs % 100 : ℕ)
  | .year | .plainYear => digits 4 datetime.trueYear

inductive Modifier where
  | E | O
  deriving DecidableEq

def Modifier.byte : Modifier → UInt8
  | .E => 'E'.toUInt8
  | .O => 'O'.toUInt8

inductive DatePiece where
  | literal (c : UInt8) (hc : c ≠ 0 ∧ c ≠ '%'.toUInt8)
  | conversion (modifier : Option Modifier) (code : DateCode)

def DatePiece.bytes : DatePiece → List UInt8
  | .literal c _ => [c]
  | .conversion modifier code =>
    '%'.toUInt8 :: (modifier.toList.map Modifier.byte ++ [code.char.toUInt8])

def DatePiece.parts : DatePiece → List Part
  | .literal c _ => [.literal c]
  | .conversion _ code => code.parts

open DatePiece

theorem zero_not_mem_pieces (pieces : List DatePiece) : (0 : UInt8) ∉ pieces.flatMap DatePiece.bytes := by
  rw [mem_flatMap]
  rintro ⟨piece, -, hpiece⟩
  cases piece with
  | literal c hc =>
    rw [DatePiece.bytes, mem_singleton] at hpiece
    exact hc.1 hpiece.symm
  | conversion modifier code =>
    have hmodifiers : ∀ m ∈ [none, some Modifier.E, some .O], ∀ code ∈ dateCodes,
        (0 : UInt8) ∉ (conversion m code).bytes := by decide +kernel
    refine hmodifiers modifier ?_ code (by cases code <;> decide) hpiece
    cases modifier with
    | none => simp
    | some m => cases m <;> simp

def dateFormat (pieces : List DatePiece) : CString :=
  ⟨pieces.flatMap DatePiece.bytes, zero_not_mem_pieces pieces⟩

def standardOutput (datetime : Tm) (pieces : List DatePiece) : List UInt8 :=
  pieces.flatMap fun piece => piece.parts.flatMap (Part.standard datetime)

/-- The condition for a part to be written as in the standard. -/
def Part.Agrees (datetime : Tm) : Part → Prop
  | .shortWeekday => datetime.wday ≠ 4
  | .half => datetime.hour ≠ 11
  | .isoWeekday => False
  | .century => datetime.fullYear.tmod 100 = datetime.trueYear.tdiv 100
  | .yearOfCentury => datetime.fullYear.tmod 100 = (datetime.trueYear.natAbs % 100 : ℕ)
  | .year => datetime.trueYear < 2 ^ 31 ∧ (0 ≤ datetime.trueYear ∨ datetime.trueYear ≤ -100)
  | .plainYear => datetime.trueYear < 2 ^ 31 ∧ (1000 ≤ datetime.trueYear ∨ datetime.trueYear ≤ -100)
  | _ => True

instance (datetime : Tm) : DecidablePred (Part.Agrees datetime) := fun part => by
  cases part <;> unfold Part.Agrees <;> infer_instance

/-! ### Numbers as text -/

section

variable {width least : ℕ} {n m : ℤ}

theorem digitsValue_append {front s : List UInt8} (h : ∀ c ∈ front, (digitValue c).getD 0 = 0) :
    digitsValue 10 0 (front ++ s) = digitsValue 10 0 s := by
  induction front with
  | nil => rfl
  | cons c front ih =>
    rw [forall_mem_cons] at h
    rw [← ih h.2, cons_append, digitsValue, foldl_cons, h.1]
    rfl

def sign (n : ℤ) : List UInt8 := if n < 0 then ['-'.toUInt8] else []

theorem length_sign (n : ℤ) : (sign n).length = if n < 0 then 1 else 0 := by
  rw [sign]
  split <;> rfl

theorem padded_eq (width : ℕ) (n : ℤ) :
    padded '0'.toUInt8 width n =
      (.replicate (width - ((sign n).length + (numeral 10 n.natAbs).length)) '0'.toUInt8 ++ sign n) ++
        numeral 10 n.natAbs := by
  simp only [padded, sign, length_append, append_assoc]

theorem digits_eq (width : ℕ) (n : ℤ) :
    digits width n =
      (sign n ++ .replicate (width - ((sign n).length + (numeral 10 n.natAbs).length)) '0'.toUInt8) ++
        numeral 10 n.natAbs := by
  rw [digits, field, if_pos rfl, sign, append_assoc]

theorem length_numeral_pos (n : ℕ) : 0 < (numeral 10 n).length :=
  length_pos_of_ne_nil numeral_ne_nil

def size (n : ℤ) : ℕ := (if n < 0 then 1 else 0) + (numeral 10 n.natAbs).length

theorem length_padded_zeros (width : ℕ) (n : ℤ) :
    (padded '0'.toUInt8 width n).length = max width (size n) := length_padded _ width n

theorem length_digits (width : ℕ) (n : ℤ) : (digits width n).length = max width (size n) := by
  rw [digits_eq, size]
  simp only [length_append, length_replicate, length_sign]
  omega

theorem count_numeral (n : ℕ) : (numeral 10 n).count '-'.toUInt8 = 0 := by
  refine count_eq_zero.2 fun hmem => ?_
  have hdigit := digitBelow_of_mem_numeral hmem
  revert hdigit
  decide

theorem count_sign (n : ℤ) : (sign n).count '-'.toUInt8 = if n < 0 then 1 else 0 := by
  rw [sign]
  split <;> rfl

theorem count_zeros (k : ℕ) : (List.replicate k '0'.toUInt8).count '-'.toUInt8 = 0 := by
  refine count_eq_zero.2 fun hmem => ?_
  have heq := eq_of_mem_replicate hmem
  revert heq
  decide

theorem count_padded (width : ℕ) (n : ℤ) :
    (padded '0'.toUInt8 width n).count '-'.toUInt8 = if n < 0 then 1 else 0 := by
  rw [padded_eq, count_append, count_append, count_numeral, count_zeros, count_sign]
  omega

theorem count_digits (width : ℕ) (n : ℤ) :
    (digits width n).count '-'.toUInt8 = if n < 0 then 1 else 0 := by
  rw [digits_eq, count_append, count_append, count_numeral, count_zeros, count_sign]
  omega

theorem digitValue_front {k : ℕ} {c : UInt8} (h : c ∈ sign n ∨ c ∈ List.replicate k '0'.toUInt8) :
    (digitValue c).getD 0 = 0 := by
  rcases h with h | h
  · rw [sign] at h
    split at h
    · rw [mem_singleton.1 h]
      decide
    · cases h
  · rw [eq_of_mem_replicate h]
    decide

theorem digitsValue_padded (width : ℕ) (n : ℤ) :
    digitsValue 10 0 (padded '0'.toUInt8 width n) = BitVec.ofNat 32 n.natAbs := by
  rw [padded_eq, digitsValue_append, digitsValue_numeral]
  intro c hc
  exact digitValue_front (mem_append.1 hc).symm

theorem digitsValue_digits (width : ℕ) (n : ℤ) :
    digitsValue 10 0 (digits width n) = BitVec.ofNat 32 n.natAbs := by
  rw [digits_eq, digitsValue_append, digitsValue_numeral]
  intro c hc
  exact digitValue_front (mem_append.1 hc)

theorem eq_of_padded_eq_digits (hn : n.natAbs < 2 ^ 32) (hm : m.natAbs < 2 ^ 32)
    (h : padded '0'.toUInt8 width n = digits least m) : n = m := by
  have hcount := count_padded width n
  have hvalue := digitsValue_padded width n
  rw [h, count_digits] at hcount
  rw [h, digitsValue_digits] at hvalue
  have habs : m.natAbs = n.natAbs := by
    have hnat := congrArg BitVec.toNat hvalue
    rwa [BitVec.toNat_ofNat, BitVec.toNat_ofNat, mod_eq_of_lt hn, mod_eq_of_lt hm] at hnat
  split_ifs at hcount <;> omega

theorem padded_eq_digits_of_nonneg (hn : 0 ≤ n) : padded '0'.toUInt8 width n = digits width n := by
  rw [padded_eq, digits_eq, sign, if_neg (by omega), append_nil, nil_append]

theorem padded_eq_digits_of_le (hwidth : width ≤ size n) (hleast : least ≤ size n) :
    padded '0'.toUInt8 width n = digits least n := by
  rw [size, ← length_sign] at hwidth hleast
  rw [padded_eq, digits_eq, Nat.sub_eq_zero_of_le hwidth, Nat.sub_eq_zero_of_le hleast, replicate_zero,
    append_nil, nil_append]

theorem padded_ne_digits (hn : n < 0) (hwidth : size n < width) :
    padded '0'.toUInt8 width n ≠ digits least n := by
  intro heq
  rw [size, ← length_sign] at hwidth
  obtain ⟨k, hk⟩ := exists_eq_succ_of_ne_zero (sub_ne_zero_of_lt hwidth)
  rw [padded_eq, digits_eq, hk, replicate_succ, sign, if_pos hn] at heq
  simp only [cons_append, List.cons.injEq] at heq
  exact absurd heq.1 (by decide)

theorem lt_size_iff {k : ℕ} (hk : 0 < k) (hn : 0 ≤ n) : k < size n ↔ (10 : ℤ) ^ k ≤ n := by
  have hle := length_numeral_le_iff (n := n.natAbs) hk
  have hcast : ((10 ^ k : ℕ) : ℤ) = 10 ^ k := by simp
  rw [size, if_neg (by omega), zero_add, ← not_le, hle, ← hcast]
  omega

theorem lt_size_neg_iff {k : ℕ} (hk : 0 < k) (hn : n < 0) : k + 1 < size n ↔ n ≤ -(10 : ℤ) ^ k := by
  have hle := length_numeral_le_iff (n := n.natAbs) hk
  have hcast : ((10 ^ k : ℕ) : ℤ) = 10 ^ k := by simp
  rw [size, if_pos hn, ← hcast]
  omega

theorem size_pos (n : ℤ) : 0 < size n := by
  have hpos := length_numeral_pos n.natAbs
  rw [size]
  omega

end

/-! ### The parts -/

section

variable {datetime : Tm}

section

variable (h : datetime.Normal)
include h

theorem Tm.trueYear_bounds :
    -2 ^ 31 + 1900 ≤ datetime.trueYear ∧ datetime.trueYear < 2 ^ 31 + 1900 := by
  obtain ⟨hlow, hhigh⟩ := h.year
  rw [Tm.trueYear]
  omega

/-- The year wraps around in the last years of `tm_year`. -/
theorem Tm.fullYear_cases :
    datetime.trueYear < 2 ^ 31 ∧ datetime.fullYear = datetime.trueYear ∨
      2 ^ 31 ≤ datetime.trueYear ∧ datetime.fullYear = datetime.trueYear - 2 ^ 32 := by
  obtain ⟨hlow, hhigh⟩ := trueYear_bounds h
  rw [Tm.trueYear] at *
  rw [Tm.fullYear, long]
  by_cases hlt : datetime.year + 1900 < 2 ^ 31
  · exact .inl ⟨hlt, Int.bmod_eq_of_le (by omega) (by omega)⟩
  · refine .inr ⟨not_lt.1 hlt, ?_⟩
    rw [← Int.sub_bmod_right]
    exact Int.bmod_eq_of_le (by omega) (by omega)

theorem Tm.hour12_eq : datetime.hour12 = (datetime.hour + 11) % 12 + 1 := by
  obtain ⟨hlow, hhigh⟩ := h.hour
  rw [Tm.hour12, Int.tmod_eq_emod_of_nonneg hlow]
  split <;> omega

theorem shortWeekday_eq_iff :
    (name shortWeekday datetime.wday).1 = (name fullWeekday datetime.wday).1.take 3 ↔
      datetime.wday ≠ 4 := by
  obtain ⟨hlow, hhigh⟩ := h.wday
  obtain ⟨k, hk⟩ := Int.eq_ofNat_of_zero_le hlow
  have hnames : ∀ k : ℕ, k < 7 → ((name shortWeekday k).1 = (name fullWeekday k).1.take 3 ↔ (k : ℤ) ≠ 4) := by
    decide +kernel
  rw [hk]
  exact hnames k (by omega)

theorem shortMonth_eq :
    (name shortMonth datetime.mon).1 = (name fullMonth datetime.mon).1.take 3 := by
  obtain ⟨hlow, hhigh⟩ := h.mon
  obtain ⟨k, hk⟩ := Int.eq_ofNat_of_zero_le hlow
  have hnames : ∀ k < 12, (name shortMonth (k : ℕ)).1 = (name fullMonth k).1.take 3 := by decide +kernel
  rw [hk]
  exact hnames k (by omega)

end

theorem half_eq_iff (datetime : Tm) :
    datetime.half.1 = (if datetime.hour < 12 then cString "AM" else cString "PM").1 ↔
      datetime.hour ≠ 11 := by
  have hne : (cString "AM").1 ≠ (cString "PM").1 := by decide
  rw [Tm.half]
  by_cases hlow : datetime.hour < 11
  · rw [if_pos hlow, if_pos (by omega)]
    exact iff_of_true rfl (by omega)
  · rw [if_neg hlow]
    by_cases hhigh : datetime.hour < 12
    · rw [if_pos hhigh]
      exact iff_of_false hne.symm (by omega)
    · rw [if_neg hhigh]
      exact iff_of_true rfl (by omega)

section

variable (h : datetime.Normal)
include h

theorem blankDay_eq :
    padded ' '.toUInt8 2 datetime.mday = field false 2 [] (numeral 10 datetime.mday.toNat) := by
  have hlow := h.mday.1
  have hnat : datetime.mday.natAbs = datetime.mday.toNat := by omega
  simp only [padded, field, hnat, if_neg (show ¬datetime.mday < 0 by omega), nil_append,
    length_nil, zero_add, Bool.false_eq_true, if_false]

/-- The year of the century as the code computes it, and the year: they are small. -/
theorem Tm.century_bounds :
    (datetime.fullYear.tmod 100).natAbs < 100 ∧ (datetime.trueYear.tdiv 100).natAbs < 2 ^ 32 := by
  obtain ⟨hlow, hhigh⟩ := datetime.fullYear_tmod_bounds
  have hbounds := trueYear_bounds h
  have hdiv : (datetime.trueYear.tdiv 100).natAbs = datetime.trueYear.natAbs / 100 := Int.natAbs_tdiv _ _
  constructor
  · omega
  · omega

theorem century_eq_iff :
    padded '0'.toUInt8 2 (datetime.fullYear.tmod 100) = digits 2 (datetime.trueYear.tdiv 100) ↔
      datetime.fullYear.tmod 100 = datetime.trueYear.tdiv 100 := by
  obtain ⟨hmod, hdiv⟩ := Tm.century_bounds h
  refine ⟨eq_of_padded_eq_digits (by omega) hdiv, fun heq => ?_⟩
  rw [← heq]
  by_cases hneg : datetime.fullYear.tmod 100 < 0
  · have hsize : 2 ≤ size (datetime.fullYear.tmod 100) := by
      have hpos := length_numeral_pos (datetime.fullYear.tmod 100).natAbs
      rw [size, if_pos hneg]
      omega
    exact padded_eq_digits_of_le hsize hsize
  · exact padded_eq_digits_of_nonneg (by omega)

theorem yearOfCentury_eq_iff :
    padded '0'.toUInt8 2 (datetime.fullYear.tmod 100) = digits 2 (datetime.trueYear.natAbs % 100 : ℕ) ↔
      datetime.fullYear.tmod 100 = (datetime.trueYear.natAbs % 100 : ℕ) := by
  obtain ⟨hmod, -⟩ := Tm.century_bounds h
  refine ⟨eq_of_padded_eq_digits (by omega) (by omega), fun heq => ?_⟩
  rw [heq]
  exact padded_eq_digits_of_nonneg (by omega)

/-- The text of the year for each width that the code gives it. -/
theorem year_eq_iff (width : ℕ) :
    padded '0'.toUInt8 width datetime.fullYear = digits 4 datetime.trueYear ↔
      datetime.trueYear < 2 ^ 31 ∧
        padded '0'.toUInt8 width datetime.trueYear = digits 4 datetime.trueYear := by
  have hbounds := Tm.trueYear_bounds h
  rcases Tm.fullYear_cases h with ⟨hlt, heq⟩ | ⟨hge, heq⟩
  · rw [heq, and_iff_right hlt]
  · refine iff_of_false (fun htext => ?_) fun hboth => by omega
    have hsame := eq_of_padded_eq_digits (by omega) (by omega) htext
    omega

namespace Part

/-- **A part is written as in the standard** if and only if it is one of those that agree. -/
theorem text_eq_standard_iff (part : Part) :
    part.text datetime = part.standard datetime ↔ part.Agrees datetime := by
  have hnonneg {width : ℕ} {n : ℤ} (hn : 0 ≤ n) :
      padded '0'.toUInt8 width n = digits width n ↔ True :=
    iff_true_intro (padded_eq_digits_of_nonneg hn)
  cases part with
  | literal c | fullWeekday | fullMonth => exact iff_true_intro rfl
  | shortWeekday => exact shortWeekday_eq_iff h
  | shortMonth => exact iff_true_intro (shortMonth_eq h)
  | month =>
    have hlow := h.mon.1
    exact hnonneg (by simp only [number]; omega)
  | day =>
    have hlow := h.mday.1
    exact hnonneg (by simp only [number]; omega)
  | blankDay => exact iff_true_intro (blankDay_eq h)
  | hour => exact hnonneg h.hour.1
  | hour12 =>
    have hlow := h.hour.1
    rw [standard, ← Tm.hour12_eq h]
    exact hnonneg (by rw [number, Tm.hour12_eq h]; omega)
  | minute => exact hnonneg h.min.1
  | second => exact hnonneg h.sec.1
  | yearDay =>
    have hlow := h.yday.1
    exact hnonneg (by simp only [number]; omega)
  | half => exact half_eq_iff datetime
  | isoWeekday =>
    have hwday := h.wday
    refine iff_false_intro fun htext => ?_
    have hsame := eq_of_padded_eq_digits (by simp only [number]; omega) (by split <;> omega) htext
    simp only [number] at hsame
    split at hsame <;> omega
  | weekday => exact iff_true_intro (padded_eq_digits_of_le (zero_le _) (size_pos _))
  | century => exact century_eq_iff h
  | yearOfCentury => exact yearOfCentury_eq_iff h
  | year =>
    refine (year_eq_iff h 4).trans (and_congr_right fun _ => ?_)
    by_cases hneg : datetime.trueYear < 0
    · have hsize := lt_size_neg_iff (k := 2) (by decide) hneg
      by_cases hfour : 3 < size datetime.trueYear
      · exact iff_of_true (padded_eq_digits_of_le hfour hfour) (.inr (hsize.1 hfour))
      · exact iff_of_false (padded_ne_digits hneg (by omega)) (by omega)
    · exact iff_of_true (padded_eq_digits_of_nonneg (by omega)) (.inl (by omega))
  | plainYear =>
    refine (year_eq_iff h 0).trans (and_congr_right fun _ => ?_)
    have hsize : 3 < size datetime.trueYear ↔ 1000 ≤ datetime.trueYear ∨ datetime.trueYear ≤ -100 := by
      by_cases hneg : datetime.trueYear < 0
      · have hsize := lt_size_neg_iff (k := 2) (by decide) hneg
        omega
      · have hsize := lt_size_iff (k := 3) (n := datetime.trueYear) (by decide) (by omega)
        omega
    rw [← hsize]
    refine ⟨fun htext => ?_, fun hfour => padded_eq_digits_of_le (zero_le _) hfour⟩
    have hlength := length_padded_zeros 0 datetime.trueYear
    rw [htext, length_digits] at hlength
    omega

/-- Apart from the year and its parts, what is written has the length of the text of the standard, and
as many dashes. -/
theorem count_length_eq {part : Part}
    (hpart : part ∉ [.century, .yearOfCentury, .year, .plainYear]) :
    (part.text datetime).count '-'.toUInt8 = (part.standard datetime).count '-'.toUInt8 ∧
      (part.text datetime).length = (part.standard datetime).length := by
  by_cases hagrees : part.Agrees datetime
  · rw [(part.text_eq_standard_iff h).2 hagrees]
    exact ⟨rfl, rfl⟩
  cases part with
  | shortWeekday =>
    have hwday : datetime.wday = 4 := not_not.1 hagrees
    rw [standard, hwday, text]
    simp only [slot, stringSlot, string, hwday, if_true]
    decide +kernel
  | half =>
    have hhour : datetime.hour = 11 := not_not.1 hagrees
    rw [standard, hhour, text]
    simp only [slot, stringSlot, string, Tm.half, hhour, if_true]
    decide +kernel
  | isoWeekday =>
    obtain ⟨hlow, hhigh⟩ := h.wday
    obtain ⟨k, hk⟩ := Int.eq_ofNat_of_zero_le hlow
    have hdays : ∀ k : ℕ, k < 7 →
        (padded '0'.toUInt8 0 (k + 1)).count '-'.toUInt8 =
            (digits 1 (if (k : ℤ) = 0 then 7 else k)).count '-'.toUInt8 ∧
          (padded '0'.toUInt8 0 (k + 1)).length = (digits 1 (if (k : ℤ) = 0 then 7 else k)).length := by
      decide +kernel
    have hday := hdays k (by omega)
    rw [← hk] at hday
    exact hday
  | century | yearOfCentury | year | plainYear => simp at hpart
  | literal | fullWeekday | shortMonth | fullMonth | month | day | blankDay | hour | hour12 | minute | second
  | yearDay | weekday => exact absurd trivial hagrees

end Part

end

theorem tmod_nonpos {n : ℤ} (h : n ≤ 0) : n.tmod 100 ≤ 0 := by
  have hneg : (-n).tmod 100 = -n.tmod 100 := Int.neg_tmod _ _
  have hnonneg := Int.tmod_nonneg 100 (show 0 ≤ -n by omega)
  omega

/-- The signs of the year, of the century and of the year of the century. -/
theorem Tm.century_signs (h : datetime.Normal) :
    (datetime.trueYear.tdiv 100 < 0 → datetime.trueYear ≤ -100) ∧
      (datetime.trueYear < 0 → datetime.fullYear < 0 ∧ datetime.fullYear.tmod 100 ≤ 0) := by
  have hdiv : 100 * datetime.trueYear.tdiv 100 + datetime.trueYear.tmod 100 = datetime.trueYear :=
    Int.mul_tdiv_add_tmod _ _
  constructor
  · intro hcentury
    have hneg : datetime.trueYear < 0 := by
      by_contra hge
      have hnonneg := Int.tdiv_nonneg (not_lt.1 hge) (show (0 : ℤ) ≤ 100 by decide)
      omega
    have hmod := tmod_nonpos hneg.le
    omega
  · intro hneg
    rcases Tm.fullYear_cases h with ⟨-, heq⟩ | ⟨hge, -⟩
    · rw [heq]
      exact ⟨hneg, tmod_nonpos hneg.le⟩
    · omega

/-- What holds of the year and of its parts, and of the other parts, holds of every part. -/
theorem Part.forall_of_year {p : Part → Prop} (hcentury : p .century) (hyearOfCentury : p .yearOfCentury)
    (hyear : p .year) (hplainYear : p .plainYear)
    (hother : ∀ part ∉ [.century, .yearOfCentury, .year, .plainYear], p part) (part : Part) : p part := by
  by_cases hpart : part ∈ [.century, .yearOfCentury, .year, .plainYear]
  · simp only [mem_cons, not_mem_nil, or_false] at hpart
    rcases hpart with rfl | rfl | rfl | rfl
    · exact hcentury
    · exact hyearOfCentury
    · exact hyear
    · exact hplainYear
  · exact hother part hpart

/-- All differences in the number of dashes go in one direction. -/
theorem Part.counts (h : datetime.Normal) :
    (∀ part : Part, (part.text datetime).count '-'.toUInt8 ≤ (part.standard datetime).count '-'.toUInt8) ∨
      ∀ part : Part, (part.standard datetime).count '-'.toUInt8 ≤ (part.text datetime).count '-'.toUInt8 := by
  obtain ⟨hcentury, hyear⟩ := Tm.century_signs h
  have hpadded (width least : ℕ) (n m : ℤ) (hle : n < 0 → m < 0) :
      (padded '0'.toUInt8 width n).count '-'.toUInt8 ≤ (digits least m).count '-'.toUInt8 := by
    rw [count_padded, count_digits]
    split_ifs <;> omega
  have hdigits (width least : ℕ) (n m : ℤ) (hle : m < 0 → n < 0) :
      (digits least m).count '-'.toUInt8 ≤ (padded '0'.toUInt8 width n).count '-'.toUInt8 := by
    rw [count_padded, count_digits]
    split_ifs <;> omega
  by_cases hround : datetime.trueYear.tdiv 100 < 0 ∧ datetime.fullYear.tmod 100 = 0
  · -- the dash of the century is missing
    refine .inl (Part.forall_of_year ?_ ?_ ?_ ?_ fun part hpart => (count_length_eq h hpart).1.le)
    · exact hpadded _ _ _ _ fun hneg => hround.1
    · exact hpadded _ _ _ _ fun hneg => absurd hneg (by simp only [Part.number]; omega)
    · exact hpadded _ _ _ _ fun _ => by omega
    · exact hpadded _ _ _ _ fun _ => by omega
  · -- the century, its year or the wrapped year may have a dash too many
    refine .inr (Part.forall_of_year ?_ ?_ ?_ ?_ fun part hpart => (count_length_eq h hpart).1.ge)
    · exact hdigits _ _ _ _ fun hneg => by simp only [Part.number]; omega
    · exact hdigits _ _ _ _ fun hneg => by omega
    · exact hdigits _ _ _ _ fun hneg => (hyear hneg).1
    · exact hdigits _ _ _ _ fun hneg => (hyear hneg).1

/-- All differences in the length go in one direction, if the numbers of dashes do not differ. -/
theorem Part.lengths (h : datetime.Normal) :
    (∀ part : Part, (part.text datetime).count '-'.toUInt8 = (part.standard datetime).count '-'.toUInt8 →
        (part.text datetime).length ≤ (part.standard datetime).length) ∨
      ∀ part : Part, (part.text datetime).count '-'.toUInt8 = (part.standard datetime).count '-'.toUInt8 →
        (part.standard datetime).length ≤ (part.text datetime).length := by
  obtain ⟨hcentury, hyear⟩ := Tm.century_signs h
  obtain ⟨hmod, -⟩ := Tm.century_bounds h
  have hsigns (width least : ℕ) (n m : ℤ)
      (hcount : (padded '0'.toUInt8 width n).count '-'.toUInt8 = (digits least m).count '-'.toUInt8) :
      n < 0 ↔ m < 0 := by
    rw [count_padded, count_digits] at hcount
    split_ifs at hcount <;> omega
  -- the year that is wrapped has another sign
  have hsame (hcount : datetime.fullYear < 0 ↔ datetime.trueYear < 0) :
      datetime.fullYear = datetime.trueYear := by
    have hbounds := Tm.trueYear_bounds h
    rcases Tm.fullYear_cases h with ⟨-, heq⟩ | ⟨hge, heq⟩
    · exact heq
    · omega
  have hle (width least : ℕ) (n m : ℤ) (hsize : (n < 0 ↔ m < 0) → max width (size n) ≤ max least (size m))
      (hcount : (padded '0'.toUInt8 width n).count '-'.toUInt8 = (digits least m).count '-'.toUInt8) :
      (padded '0'.toUInt8 width n).length ≤ (digits least m).length := by
    rw [length_padded_zeros, length_digits]
    exact hsize (hsigns _ _ _ _ hcount)
  have hge (width least : ℕ) (n m : ℤ) (hsize : (n < 0 ↔ m < 0) → max least (size m) ≤ max width (size n))
      (hcount : (padded '0'.toUInt8 width n).count '-'.toUInt8 = (digits least m).count '-'.toUInt8) :
      (digits least m).length ≤ (padded '0'.toUInt8 width n).length := by
    rw [length_padded_zeros, length_digits]
    exact hsize (hsigns _ _ _ _ hcount)
  have hsmall {n : ℤ} (hn : 0 ≤ n) (hlt : n.natAbs < 100) : size n ≤ 2 := by
    have hsize := lt_size_iff (k := 2) (by decide) hn
    omega
  by_cases hshort : (datetime.fullYear.tmod 100 < 0 ↔ datetime.trueYear.tdiv 100 < 0) →
      size (datetime.fullYear.tmod 100) ≤ max 2 (size (datetime.trueYear.tdiv 100))
  · refine .inl (Part.forall_of_year ?_ ?_ ?_ ?_ fun part hpart _ => (count_length_eq h hpart).2.le)
    · exact hle 2 2 _ _ fun hsign => max_le (le_max_left _ _) (hshort hsign)
    · refine hle 2 2 (datetime.fullYear.tmod 100) _ fun hsign => ?_
      have hle := hsmall (by omega) hmod
      omega
    · exact hle 4 4 _ _ fun hsign => (hsame hsign ▸ le_rfl)
    · refine hle 0 4 datetime.fullYear _ fun hsign => ?_
      rw [hsame hsign]
      omega
  · -- the century is longer than it should be only for a year of four characters or more
    obtain ⟨hboth, hlong⟩ := not_forall.1 hshort
    have hneg : datetime.fullYear.tmod 100 < 0 := by
      by_contra hge
      have hle := hsmall (not_lt.1 hge) hmod
      omega
    have hfour := hcentury (hboth.1 hneg)
    have hsize := (lt_size_neg_iff (k := 2) (by decide) (by omega)).2 hfour
    refine .inr (Part.forall_of_year ?_ ?_ ?_ ?_ fun part hpart _ => (count_length_eq h hpart).2.ge)
    · exact hge 2 2 (datetime.fullYear.tmod 100) _ fun _ => by omega
    · exact hge 2 2 (datetime.fullYear.tmod 100) _ fun _ => by omega
    · exact hge 4 4 _ _ fun hsign => (hsame hsign ▸ le_rfl)
    · refine hge 0 4 datetime.fullYear _ fun hsign => ?_
      rw [hsame hsign]
      omega

end

/-! ### The formats -/

theorem parseDateStyle_conversion (modifier : Option Modifier) (code : DateCode) (rest : List UInt8) :
    parseDateStyle (modifier.toList.map Modifier.byte ++ code.char.toUInt8 :: rest) =
      (code.char.toUInt8, some rest) := by
  cases modifier with
  | none => cases code <;> rfl
  | some m => cases m <;> rfl

theorem fieldText_code (datetime : Tm) (code : DateCode) :
    fieldText datetime code.char.toUInt8 = code.parts.flatMap (Part.text datetime) := by
  have hfind : dateCodes.find? (fun other => other.char.toUInt8 = code.char.toUInt8) = some code := by
    cases code <;> decide
  rw [fieldText, hfind]

theorem DatePiece.bytes_conversion (modifier : Option Modifier) (code : DateCode) (rest : List UInt8) :
    (conversion modifier code).bytes ++ rest =
      '%'.toUInt8 :: (modifier.toList.map Modifier.byte ++ code.char.toUInt8 :: rest) := by
  rw [bytes, cons_append, append_assoc, singleton_append]

theorem complete_pieces (datetime : Tm) (pieces : List DatePiece) :
    complete datetime (pieces.flatMap DatePiece.bytes) =
      (pieces.flatMap parts).flatMap (Part.text datetime) := by
  induction pieces with
  | nil => rw [flatMap_nil, complete]; rfl
  | cons piece pieces ih =>
    rw [flatMap_cons, flatMap_cons, flatMap_append, ← ih]
    cases piece with
    | literal c hc => exact complete_literal hc.2
    | conversion modifier code =>
      have hparse := parseDateStyle_conversion modifier code (pieces.flatMap DatePiece.bytes)
      rw [bytes_conversion, complete_conversion (by rw [hparse]), hparse, fieldText_code]
      rfl

theorem whole_pieces (pieces : List DatePiece) : Whole (pieces.flatMap DatePiece.bytes) := by
  induction pieces with
  | nil => rw [flatMap_nil, Whole]; trivial
  | cons piece pieces ih =>
    rw [flatMap_cons]
    cases piece with
    | literal c hc => exact (whole_literal hc.2).2 ih
    | conversion modifier code =>
      have hparse := parseDateStyle_conversion modifier code (pieces.flatMap DatePiece.bytes)
      rwa [bytes_conversion, whole_conversion (by rw [hparse])]

/-- **`strftime` writes what the standard asks for** if and only if every part of every conversion of the
format is one that agrees on the date, whenever its output fits. -/
theorem strftime_standard_iff {datetime : Tm} (h : datetime.Normal) (pieces : List DatePiece)
    {bufferLength : ℕ} (hfits : (complete datetime (dateFormat pieces).1).length < bufferLength) :
    (∃ value, strftime bufferLength (dateFormat pieces) datetime =
        .ok (standardOutput datetime pieces, value)) ↔
      ∀ piece ∈ pieces, ∀ part ∈ piece.parts, part.Agrees datetime := by
  obtain ⟨result, hresult, rfl⟩ := (endsIff_strftime h bufferLength (dateFormat pieces)).1
    ⟨by omega, .inl (whole_pieces pieces)⟩
  have hcomplete : complete datetime (dateFormat pieces).1 =
      (pieces.flatMap parts).flatMap (Part.text datetime) := complete_pieces datetime pieces
  have hwritten : (∃ value, strftime bufferLength (dateFormat pieces) datetime =
        .ok (standardOutput datetime pieces, value)) ↔
      (pieces.flatMap parts).flatMap (Part.text datetime) =
        (pieces.flatMap parts).flatMap (Part.standard datetime) := by
    rw [hresult, take_of_length_le (by omega), hcomplete, standardOutput, ← flatMap_assoc]
    simp
  have hparts := flatMap_eq_iff (l := pieces.flatMap parts) '-'.toUInt8
    ((Part.counts h).imp (fun hle part _ => hle part) fun hle part _ => hle part)
    ((Part.lengths h).imp (fun hle part _ => hle part) fun hle part _ => hle part)
  rw [hwritten, hparts]
  constructor
  · intro hsame piece hpiece part hpart
    exact (part.text_eq_standard_iff h).1 (hsame part (mem_flatMap.2 ⟨piece, hpiece, hpart⟩))
  · intro hagrees part hpart
    obtain ⟨piece, hpiece, hmem⟩ := mem_flatMap.1 hpart
    exact (part.text_eq_standard_iff h).2 (hagrees piece hpiece part hmem)

/-- The first of January 1970, as a date: `1970-01-01`. -/
theorem strftime_standard_epoch :
    ∃ value, strftime 11 (dateFormat [.conversion none .F]) ⟨0, 0, 0, 1, 0, 70, 4, 0, 0⟩ =
      .ok (standardOutput ⟨0, 0, 0, 1, 0, 70, 4, 0, 0⟩ [.conversion none .F], value) := by
  have hnormal : Tm.Normal ⟨0, 0, 0, 1, 0, 70, 4, 0, 0⟩ := by constructor <;> decide
  have hfits : (complete ⟨0, 0, 0, 1, 0, 70, 4, 0, 0⟩ (dateFormat [.conversion none .F]).1).length < 11 := by
    rw [show (dateFormat [.conversion none .F]).1 =
      [DatePiece.conversion none .F].flatMap DatePiece.bytes from rfl, complete_pieces]
    decide +kernel
  refine (strftime_standard_iff hnormal _ hfits).2 ?_
  decide +kernel

/-- The first of January 1970 was a Thursday, which is written as `The`. -/
theorem not_strftime_standard :
    ¬∀ datetime : Tm, datetime.Normal → ∀ (pieces : List DatePiece) (bufferLength : ℕ),
      (complete datetime (dateFormat pieces).1).length < bufferLength →
      ∃ value, strftime bufferLength (dateFormat pieces) datetime =
        .ok (standardOutput datetime pieces, value) := by
  intro hstandard
  have hnormal : Tm.Normal ⟨0, 0, 0, 1, 0, 70, 4, 0, 0⟩ := by constructor <;> decide
  have hfits : (complete ⟨0, 0, 0, 1, 0, 70, 4, 0, 0⟩ (dateFormat [.conversion none .a]).1).length < 5 := by
    rw [show (dateFormat [.conversion none .a]).1 =
      [DatePiece.conversion none .a].flatMap DatePiece.bytes from rfl, complete_pieces]
    decide +kernel
  obtain ⟨value, hvalue⟩ := hstandard _ hnormal _ _ hfits
  have hcalled : strftime 5 (dateFormat [.conversion none .a]) ⟨0, 0, 0, 1, 0, 70, 4, 0, 0⟩ =
      .ok ((cString "The").1, 3) := by
    decide +kernel
  rw [hcalled, Except.ok.injEq, Prod.mk.injEq] at hvalue
  exact absurd hvalue.1 (by decide +kernel)

end Dx.Libc
