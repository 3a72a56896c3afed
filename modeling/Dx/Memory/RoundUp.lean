import Dx.Memory.Bitmap

/-!
# Rounding up to a power of two

`round_up_2n` of `bits.hpp` spreads the highest bit of `value - 1` over all lower ones, by five shifts
of 1, 2, 4, 8 and 16. Up to 2^31 the result is not below the value; beyond, it overflows to 0.
-/

namespace Dx.Memory

open Nat BitVec

/-- One stage of `round_up_2n`: every bit is spread over twice as many bits below it. -/
theorem getLsbD_spread {x y : BitVec 32} {n : ℕ}
    (h : ∀ i k, k < n → x.getLsbD (i + k) = true → y.getLsbD i = true) (i k : ℕ) (hk : k < 2 * n)
    (hx : x.getLsbD (i + k) = true) : (y ||| (y >>> n)).getLsbD i = true := by
  rw [getLsbD_or, getLsbD_ushiftRight]
  rcases lt_or_ge k n with hlow | hhigh
  · rw [h i k hlow hx, Bool.true_or]
  · have hshift : y.getLsbD (n + i) = true :=
      h (n + i) (k - n) (by omega) (by rwa [show n + i + (k - n) = i + k by omega])
    rw [hshift, Bool.or_true]

variable {value : BitVec 32}

/-- The bits of `round_up_2n(value) - 1` below the highest one of `value - 1`. -/
theorem getLsbD_roundUp2n_sub_one {i j : ℕ} (hij : i ≤ j) (hj : j < 32)
    (h : (value - 1).getLsbD j = true) : (roundUp2n value - 1).getLsbD i = true := by
  have h1 : ∀ i k, k < 1 → (value - 1).getLsbD (i + k) = true → (value - 1).getLsbD i = true := by
    intro i k hk hx
    rwa [Nat.lt_one_iff.1 hk] at hx
  have h32 := getLsbD_spread (getLsbD_spread (getLsbD_spread (getLsbD_spread (getLsbD_spread h1))))
    i (j - i) (by omega) (by rwa [Nat.add_sub_cancel' hij])
  rw [roundUp2n, add_sub_cancel]
  exact h32

theorem toNat_le_roundUp2n_sub_one (value : BitVec 32) :
    (value - 1).toNat ≤ (roundUp2n value - 1).toNat := by
  refine le_of_testBit fun i hi => ?_
  exact getLsbD_roundUp2n_sub_one (le_refl i) (lt_of_getLsbD hi) hi

theorem toNat_sub_one (hpos : 0 < value.toNat) : (value - 1).toNat = value.toNat - 1 := by
  have hone : (1 : BitVec 32).toNat = 1 := rfl
  rw [toNat_sub, hone]
  omega

theorem roundUp2n_eq_zero (h : 2 ^ 31 < value.toNat) : roundUp2n value = 0 := by
  have hsub := toNat_sub_one (zero_lt_of_lt h)
  have htop : (value - 1).getLsbD 31 = true := by
    rw [BitVec.getLsbD, testBit_eq_decide_div_mod_eq, decide_eq_true_eq]
    omega
  have hones : roundUp2n value - 1 = 0xFFFFFFFF#32 := by
    refine eq_of_getLsbD_eq fun i hi => ?_
    rw [getLsbD_roundUp2n_sub_one (by omega) (by decide) htop, getLsbD_ones, decide_eq_true hi]
  calc roundUp2n value = roundUp2n value - 1 + 1 := (sub_add_cancel _ _).symm
    _ = 0xFFFFFFFF#32 + 1 := by rw [hones]
    _ = 0 := by decide

/-- A stage of `round_up_2n` does not reach bit 31. -/
theorem toNat_spread_lt {x : BitVec 32} (h : x.toNat < 2 ^ 31) (n : ℕ) :
    (x ||| (x >>> n)).toNat < 2 ^ 31 := by
  rw [toNat_or, toNat_ushiftRight]
  exact or_lt_two_pow h ((shiftRight_le _ _).trans_lt h)

theorem le_roundUp2n (hpos : 0 < value.toNat) (h : value.toNat ≤ 2 ^ 31) :
    value.toNat ≤ (roundUp2n value).toNat := by
  have hsub := toNat_sub_one hpos
  have hle := toNat_le_roundUp2n_sub_one value
  have hlt : (roundUp2n value - 1).toNat < 2 ^ 31 := by
    have hfirst : (value - 1).toNat < 2 ^ 31 := by omega
    rw [roundUp2n, add_sub_cancel]
    exact toNat_spread_lt (toNat_spread_lt (toNat_spread_lt (toNat_spread_lt
      (toNat_spread_lt hfirst 1) 2) 4) 8) 16
  have hresult : 0 < (roundUp2n value).toNat := by
    by_contra hzero
    have hone : (1 : BitVec 32).toNat = 1 := rfl
    rw [toNat_sub, hone] at hlt
    omega
  rw [toNat_sub_one hresult] at hle
  omega

/-- The lowest bit below a result, for every value but 1. -/
theorem getLsbD_zero_roundUp2n_sub_one (h : value ≠ 1) :
    (roundUp2n value - 1).getLsbD 0 = true := by
  obtain ⟨j, hj, hbit⟩ : ∃ j < 32, (value - 1).getLsbD j = true := by
    by_contra hnone
    have hzero : value - 1 = 0#32 := eq_of_getLsbD_eq fun j hj => by
      rw [getLsbD_zero]
      exact Bool.eq_false_of_not_eq_true fun hbit => hnone ⟨j, hj, hbit⟩
    refine h ?_
    rw [← BitVec.sub_add_cancel value 1, hzero]
    rfl
  exact getLsbD_roundUp2n_sub_one (zero_le j) hj hbit

theorem roundUp2n_even (h : 2 ≤ (roundUp2n value).toNat) : (roundUp2n value).toNat % 2 = 0 := by
  have hne : value ≠ 1 := by
    rintro rfl
    exact absurd h (by decide)
  have hodd := getLsbD_zero_roundUp2n_sub_one hne
  rw [BitVec.getLsbD, testBit_eq_decide_div_mod_eq, decide_eq_true_eq, toNat_sub_one (by omega)]
    at hodd
  omega

theorem findOneBit32_roundUp2n (h : 2 ≤ (roundUp2n value).toNat) :
    1 ≤ findOneBit32 (roundUp2n value) ∧ findOneBit32 (roundUp2n value) < 32 ∧
      2 ^ findOneBit32 (roundUp2n value) ≤ (roundUp2n value).toNat := by
  have heven := roundUp2n_even h
  rcases findOneBit32_cases (roundUp2n value) with ⟨-, hall⟩ | ⟨hlt, hbit, -⟩
  · have hzero : roundUp2n value = 0#32 := eq_of_getLsbD_eq fun i hi => by
      rw [hall i hi, getLsbD_zero]
    rw [hzero] at h
    exact absurd h (by decide)
  · refine ⟨?_, hlt, ge_two_pow_of_testBit hbit⟩
    by_contra hlow
    rw [show findOneBit32 (roundUp2n value) = 0 by omega, BitVec.getLsbD,
      testBit_eq_decide_div_mod_eq, decide_eq_true_eq] at hbit
    omega

end Dx.Memory
