import Dx.Libc.Format
import Mathlib.Data.List.GetD
import Mathlib.Data.List.TakeWhile

/-!
# Integers as texts and back

`uitoa` generates the digits of a value from the lowest one on and reverses them in place with
`strrev`; `itoa` puts a sign in front of them. `strtoul` and `strtol` read the value back, in every
radix for which there are digits: the digits that are generated are digits in the radix, and their
value is computed by the same steps that took it apart (`digitsValue_uitoaLoop`).

`strtoul` asserts that the base is below 36. The production build leaves assertions out; in a debug
build, the largest radix is refused.
-/

namespace Dx.Libc

open List

/-! ### The reversal -/

/-- The loop of `strrev`, over the two ends that have not been exchanged. -/
def strrevLoop (string : List UInt8) (left right : ℕ) : List UInt8 :=
  if left < right then
    strrevLoop ((string.set left (string.getD right 0)).set right (string.getD left 0)) (left + 1)
      (right - 1)
  else string
termination_by right - left

/-- `strrev`. A string without characters has its ends in the wrong order, too. -/
def strrev (string : List UInt8) : List UInt8 := strrevLoop string 0 (string.length - 1)

theorem getElem?_strrevLoop (string : List UInt8) (left right i : ℕ) (hright : right < string.length) :
    (strrevLoop string left right)[i]? =
      if left ≤ i ∧ i ≤ right then string[left + right - i]? else string[i]? := by
  fun_induction strrevLoop string left right with
  | case1 string left right hlt ih =>
    have hlength : right - 1 < ((string.set left (string.getD right 0)).set right
        (string.getD left 0)).length := by
      simp only [length_set]
      omega
    have hget : ∀ j, j < string.length → some (string.getD j 0) = string[j]? := by
      intro j hj
      rw [getD_eq_getElem _ _ hj, List.getElem?_eq_getElem hj]
    rw [ih hlength]
    by_cases hends : i = left ∨ i = right
    · -- the two ends are exchanged in this pass
      rw [if_neg (by omega), if_pos (by omega)]
      rcases hends with rfl | rfl
      · rw [List.getElem?_set_ne (by omega), List.getElem?_set_self (by omega), hget _ hright,
          Nat.add_sub_cancel_left]
      · rw [List.getElem?_set_self (by simpa using hright), hget _ (by omega), Nat.add_sub_cancel]
    · by_cases hi : left + 1 ≤ i ∧ i ≤ right - 1
      · have heq : left + 1 + (right - 1) - i = left + right - i := by omega
        rw [if_pos hi, if_pos (by omega), heq, List.getElem?_set_ne (by omega),
          List.getElem?_set_ne (by omega)]
      · rw [if_neg hi, if_neg (by omega), List.getElem?_set_ne (by omega),
          List.getElem?_set_ne (by omega)]
  | case2 string left right hle =>
    split
    case isTrue hi =>
      have heq : left + right - i = i := by omega
      rw [heq]
    case isFalse => rfl

theorem strrev_eq (string : List UInt8) : strrev string = string.reverse := by
  cases hstring : string with
  | nil => simp [strrev, strrevLoop]
  | cons c s =>
    rw [← hstring]
    have hpos : 0 < string.length := by simp [hstring]
    apply ext_getElem?
    intro i
    rw [strrev, getElem?_strrevLoop _ _ _ _ (by omega)]
    by_cases hi : i < string.length
    · rw [if_pos (by omega), List.getElem?_reverse hi, Nat.zero_add]
    · rw [if_neg (by omega), List.getElem?_eq_none (by omega),
        List.getElem?_eq_none (by rw [length_reverse]; omega)]

/-! ### The digits -/

section

variable {radix n value : ℕ}

theorem digitCharacter_spec : ∀ r < 36, digitValue (digitCharacter r) = some r ∧
    Ascii (digitCharacter r) ∧ space (digitCharacter r) = false ∧
    (digitCharacter r = '0'.toUInt8 ↔ r = 0) ∧ digitCharacter r ≠ '+'.toUInt8 ∧
    digitCharacter r ≠ '-'.toUInt8 := by
  decide

theorem mem_uitoaLoop (hradix : 0 < radix) {c : UInt8} (h : c ∈ uitoaLoop radix n value) :
    ∃ r < radix, c = digitCharacter r := by
  induction n generalizing value with
  | zero => cases h
  | succ n ih =>
    rw [uitoaLoop, mem_cons] at h
    rcases h with rfl | h
    · exact ⟨value % radix, Nat.mod_lt _ hradix, rfl⟩
    · split at h
      · exact ih h
      · cases h

theorem digitBelow_digitCharacter {r : ℕ} (h : r < radix) (hradix : radix ≤ 36) :
    digitBelow radix (digitCharacter r) = true := by
  rw [digitBelow, (digitCharacter_spec r (by omega)).1]
  simpa using h

/-- **The digits have the value** that they were generated from. -/
theorem digitsValue_uitoaLoop (hlow : 1 < radix) (hhigh : radix ≤ 36) (hvalue : value < radix ^ n) :
    digitsValue radix 0 (uitoaLoop radix n value).reverse = BitVec.ofNat 32 value := by
  induction n generalizing value with
  | zero =>
    have hzero : value = 0 := by simpa using hvalue
    subst hzero
    rfl
  | succ n ih =>
    have hdiv : value / radix < radix ^ n := Nat.div_lt_of_lt_mul (by rwa [← pow_succ'])
    have hdigit := (digitCharacter_spec (value % radix) ((Nat.mod_lt _ (by omega)).trans_le hhigh)).1
    -- the digits above the lowest one have the value of the quotient, also when there are none
    have hrest : digitsValue radix 0
        (if 0 < value / radix then uitoaLoop radix n (value / radix) else []).reverse =
          BitVec.ofNat 32 (value / radix) := by
      split
      · exact ih hdiv
      · have hzero : value / radix = 0 := Nat.eq_zero_of_not_pos ‹_›
        rw [hzero]
        rfl
    rw [digitsValue] at hrest
    rw [uitoaLoop, reverse_cons, digitsValue, foldl_append, hrest, foldl_cons,
      foldl_nil, hdigit, Option.getD_some, BitVec.ofInt_natCast, ← BitVec.ofNat_mul,
      ← BitVec.ofNat_add]
    congr 1
    rw [Nat.mul_comm, Nat.div_add_mod]

theorem current_uitoaLoop (hlow : 1 < radix) (hhigh : radix ≤ 36) (hvalue : value < radix ^ (n + 1)) :
    current (uitoaLoop radix (n + 1) value).reverse = '0'.toUInt8 → value = 0 := by
  induction n generalizing value with
  | zero =>
    have hlt : value < radix := by simpa using hvalue
    rw [uitoaLoop, if_neg (by simp [Nat.div_eq_of_lt hlt]), Nat.mod_eq_of_lt hlt]
    exact (digitCharacter_spec value (by omega)).2.2.2.1.1
  | succ n ih =>
    rw [uitoaLoop, reverse_cons]
    by_cases hlt : value < radix
    · rw [if_neg (by simp [Nat.div_eq_of_lt hlt]), Nat.mod_eq_of_lt hlt]
      exact (digitCharacter_spec value (by omega)).2.2.2.1.1
    · have hpos : 0 < value / radix := Nat.div_pos (by omega) (by omega)
      have hdiv : value / radix < radix ^ (n + 1) := Nat.div_lt_of_lt_mul (by rwa [← pow_succ'])
      have hne : (uitoaLoop radix (n + 1) (value / radix)).reverse ≠ [] := by
        rw [uitoaLoop]
        simp
      obtain ⟨c, s, hcons⟩ := exists_cons_of_ne_nil hne
      rw [if_pos hpos]
      intro hcurrent
      have hzero := ih hdiv (by rw [hcons] at hcurrent ⊢; exact hcurrent)
      omega

end

section

variable {radix : ℕ} (value : BitVec 32)

theorem uitoa_ne_nil : uitoa value radix ≠ [] := by
  rw [uitoa, uitoaLoop]
  simp

theorem toNat_lt_pow (hlow : 1 < radix) : value.toNat < radix ^ 32 :=
  value.isLt.trans_le (Nat.pow_le_pow_left hlow 32)

theorem mem_uitoa (hlow : 1 < radix) {c : UInt8} (h : c ∈ uitoa value radix) :
    ∃ r < radix, c = digitCharacter r :=
  mem_uitoaLoop (by omega) (mem_reverse.1 h)

theorem digitBelow_of_mem_uitoa (hlow : 1 < radix) (hhigh : radix ≤ 36) :
    ∀ c ∈ uitoa value radix, digitBelow radix c = true := by
  intro c hc
  obtain ⟨r, hr, rfl⟩ := mem_uitoa value hlow hc
  exact digitBelow_digitCharacter hr hhigh

theorem current_uitoa (hlow : 1 < radix) : ∃ r < radix, current (uitoa value radix) = digitCharacter r := by
  have hne : uitoa value radix ≠ [] := uitoa_ne_nil value
  obtain ⟨c, s, hcons⟩ := exists_cons_of_ne_nil hne
  obtain ⟨r, hr, hc⟩ := mem_uitoa value hlow (c := c) (by simp [hcons])
  exact ⟨r, hr, by rw [hcons]; exact hc⟩

theorem afterSpaces_uitoa (hlow : 1 < radix) (hhigh : radix ≤ 36) :
    afterSpaces (uitoa value radix) = uitoa value radix := by
  obtain ⟨r, hr, hcurrent⟩ := current_uitoa value hlow
  refine dropWhile_of_current ?_
  rw [hcurrent]
  exact (digitCharacter_spec r (by omega)).2.2.1

theorem strtoul_of_digits {s : List UInt8} (hspaces : afterSpaces s = s)
    (hbase : inferBase radix s = ((radix : ℤ), s)) (hdigits : ∀ c ∈ s, digitBelow radix c = true) :
    strtoul s radix = .ok (digitsValue radix 0 s, []) := by
  have hend : strtoulEnd s radix = [] := by
    rw [strtoulEnd, hspaces, hbase]
    exact dropWhile_eq_nil_iff.2 hdigits
  have hvalue : strtoulValue s radix = digitsValue radix 0 s := by
    rw [strtoulValue, hspaces, hbase]
    congr 1
    exact takeWhile_eq_self_iff.2 hdigits
  rw [strtoul_eq, hend, hvalue, if_pos (by decide)]

/-- **`strtoul` reads what `uitoa` has written.** -/
theorem strtoul_uitoa (hlow : 1 < radix) (hhigh : radix ≤ 36) :
    strtoul (uitoa value radix) radix = .ok (value, []) := by
  by_cases hzero : radix = 16 ∧ value = 0
  · -- the zero could be the start of a prefix, but nothing follows it
    obtain ⟨rfl, rfl⟩ := hzero
    rfl
  · have hbase : inferBase radix (uitoa value radix) = ((radix : ℤ), uitoa value radix) := by
      rw [inferBase]
      by_cases hsixteen : radix = 16
      · have hcurrent : current (uitoa value radix) ≠ '0'.toUInt8 := by
          intro hcurrent
          refine hzero ⟨hsixteen, BitVec.eq_of_toNat_eq ?_⟩
          exact current_uitoaLoop hlow hhigh (toNat_lt_pow value hlow) hcurrent
        have hne : (radix : ℤ) ≠ 0 := by omega
        rw [if_pos (.inr (by omega)), if_neg hcurrent, if_neg hne]
      · rw [if_neg (by omega)]
    rw [strtoul_of_digits (afterSpaces_uitoa value hlow hhigh) hbase
      (digitBelow_of_mem_uitoa value hlow hhigh), uitoa,
      digitsValue_uitoaLoop hlow hhigh (toNat_lt_pow value hlow), BitVec.ofNat_toNat,
      BitVec.setWidth_eq]

theorem readSign_uitoa (hlow : 1 < radix) (hhigh : radix ≤ 36) :
    readSign (uitoa value radix) = (false, uitoa value radix) := by
  obtain ⟨r, hr, hcurrent⟩ := current_uitoa value hlow
  obtain ⟨-, -, -, -, hplus, hminus⟩ := digitCharacter_spec r (by omega)
  rw [readSign, hcurrent, if_neg hplus, if_neg hminus]

theorem skipSpaces_uitoa (hlow : 1 < radix) (hhigh : radix ≤ 36) :
    skipSpaces (uitoa value radix) = .ok (uitoa value radix) := by
  obtain ⟨r, hr, hcurrent⟩ := current_uitoa value hlow
  rw [skipSpaces_eq, afterSpaces_uitoa value hlow hhigh, hcurrent,
    if_pos (digitCharacter_spec r (by omega)).2.1]

/-- **`strtol` reads what `itoa` has written**, the most negative number included. -/
theorem strtol_itoa : strtol (itoa value 10) 10 = .ok (value, []) := by
  have hread : ∀ v : BitVec 32, strtoul (uitoa v 10) 10 = .ok (v, []) :=
    fun v => strtoul_uitoa v (by decide) (by decide)
  rw [strtol, itoa]
  by_cases hneg : value.slt 0 = true
  · have hspaces : skipSpaces ('-'.toUInt8 :: uitoa (-value) 10) =
        .ok ('-'.toUInt8 :: uitoa (-value) 10) := by
      rw [skipSpaces_eq]
      rfl
    have hsign : readSign ('-'.toUInt8 :: uitoa (-value) 10) = (true, uitoa (-value) 10) := rfl
    rw [if_pos ⟨hneg, rfl⟩, if_pos hneg, singleton_append, hspaces]
    simp [bind, Except.bind, hsign, hread]
  · rw [if_neg (fun h => hneg h.1), if_neg hneg, nil_append,
      skipSpaces_uitoa value (by decide) (by decide)]
    simp [bind, Except.bind, readSign_uitoa value, hread]

end

/-! ### The builds -/

/-- The assertions of `strtoul`. -/
def BaseAsserted (base : ℤ) : Prop := (base = 0 ∨ 2 ≤ base) ∧ base < 36
deriving Decidable

/-- `strtoul` in a debug build or in a production build, which leaves the assertions out. `none` is
the call of `abort`. -/
def strtoulIn (debug : Bool) (nptr : List UInt8) (base : ℤ) :
    Option (Except Fault (BitVec 32 × List UInt8)) :=
  if debug ∧ ¬BaseAsserted base then none else some (strtoul nptr base)

/-- **The round trip of integers.** For every value and every radix from 2 to 36, `strtoul` reads the
text that `uitoa` has made by reversing the digits, up to its terminator, unless it is a debug build
and the radix is 36; and for every value, `strtol` reads the text of `itoa` in radix 10. -/
theorem integer_round_trip (value : BitVec 32) (radix : ℕ) (hlow : 2 ≤ radix) (hhigh : radix ≤ 36) :
    (uitoa value radix = strrev (uitoaLoop radix 32 value.toNat) ∧
      ∀ debug, strtoulIn debug (uitoa value radix) radix = some (.ok (value, [])) ↔
        ¬(debug = true ∧ radix = 36)) ∧
    strtol (itoa value 10) 10 = .ok (value, []) := by
  refine ⟨⟨(strrev_eq _).symm, fun debug => ?_⟩, strtol_itoa value⟩
  have hasserted : BaseAsserted radix ↔ radix ≠ 36 := by
    rw [BaseAsserted]
    omega
  rw [strtoulIn]
  by_cases h : debug = true ∧ radix = 36
  · rw [if_pos ⟨h.1, fun hbase => hasserted.1 hbase h.2⟩]
    exact iff_of_false (by simp) (fun hnot => hnot h)
  · rw [if_neg (fun hrefused => h ⟨hrefused.1, by_contra fun hne => hrefused.2 (hasserted.2 hne)⟩),
      strtoul_uitoa value hlow hhigh]
    exact iff_of_true rfl h

/-- A hexadecimal text, and the most negative number. -/
theorem integer_round_trip_hexadecimal :
    strtoulIn true (uitoa 0x80000000 16) 16 = some (.ok (0x80000000, [])) ∧
      strtol (itoa 0x80000000 10) 10 = .ok (0x80000000, []) :=
  ⟨((integer_round_trip 0x80000000 16 (by decide) (by decide)).1.2 true).2 (by decide),
    (integer_round_trip 0x80000000 16 (by decide) (by decide)).2⟩

/-- The largest radix is refused by the assertion that the base is below it. -/
theorem not_integer_round_trip :
    strtoulIn true (uitoa 35 36) 36 = none ∧ strtoulIn false (uitoa 35 36) 36 = some (.ok (35, [])) := by
  decide +kernel

end Dx.Libc
