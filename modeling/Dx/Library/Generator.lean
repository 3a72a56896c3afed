import Mathlib.NumberTheory.LucasPrimality
import Mathlib.FieldTheory.Finite.Basic

/-!
# Multiplicative generators

The generator `x ↦ g * x % p` never leaves the numbers from 1 to `p - 1` when `p` is prime, and when
`g` is a primitive root it goes through all of them, wherever it begins (`exists_iterate`). So a loop
that draws until it likes the number ends, whatever it is waiting for.

That `p` is prime and `g` a primitive root is one test of Lucas, for which `p - 1` has to be taken
apart into its factors (`primitive_of_factors`); the powers are computed by `powMod`.
-/

namespace Dx.Library

open Function Nat

/-- `g` is a primitive root of the prime `p`. -/
structure Primitive (p g : ℕ) : Prop where
  prime : p.Prime
  order : orderOf (g : ZMod p) = p - 1

def draw (p g x : ℕ) : ℕ := g * x % p

variable {p g x y n : ℕ}

/-! ### The test -/

/-- `g ^ n % p`, where `n` has at most so many bits. -/
def powMod (p : ℕ) : ℕ → ℕ → ℕ → ℕ
  | 0, _, _ => 1 % p
  | bits + 1, g, n =>
    if n % 2 = 1 then powMod p bits (g * g % p) (n / 2) * g % p
    else powMod p bits (g * g % p) (n / 2)

theorem powMod_eq (bits : ℕ) (h : n < 2 ^ bits) : powMod p bits g n = g ^ n % p := by
  induction bits generalizing g n with
  | zero =>
    have hn : n = 0 := by simpa using h
    rw [hn, powMod, pow_zero]
  | succ bits ih =>
    have hhalf : n / 2 < 2 ^ bits := by
      rw [pow_succ] at h
      omega
    have hsquare : (g * g % p) ^ (n / 2) % p = g ^ (2 * (n / 2)) % p := by
      rw [← pow_mod, pow_mul, sq]
    rw [powMod, ih hhalf, hsquare]
    split
    case isTrue hodd =>
      rw [mod_mul_mod, ← pow_succ, show 2 * (n / 2) + 1 = n by omega]
    case isFalse heven => rw [show 2 * (n / 2) = n by omega]

theorem cast_pow_eq_one_iff (hp : 1 < p) : (g : ZMod p) ^ n = 1 ↔ g ^ n % p = 1 := by
  rw [← cast_pow, ← cast_one, ZMod.natCast_eq_natCast_iff', mod_eq_of_lt hp]

/-- **Lucas's test.** -/
theorem primitive_of_factors (factors : List ℕ) (bits : ℕ) (hp : 1 < p) (hbits : p ≤ 2 ^ bits)
    (hprod : factors.prod = p - 1) (hprime : ∀ r ∈ factors, r.Prime)
    (hone : powMod p bits g (p - 1) = 1)
    (hother : ∀ r ∈ factors, powMod p bits g ((p - 1) / r) ≠ 1) : Primitive p g := by
  have hfull : (g : ZMod p) ^ (p - 1) = 1 := by
    rw [cast_pow_eq_one_iff hp, ← powMod_eq bits (by omega)]
    exact hone
  have hpart : ∀ q : ℕ, q.Prime → q ∣ p - 1 → (g : ZMod p) ^ ((p - 1) / q) ≠ 1 := by
    intro q hq hdvd
    rw [← hprod] at hdvd
    obtain ⟨r, hr, hqr⟩ := (Prime.dvd_prod_iff hq.prime).1 hdvd
    obtain rfl := (prime_dvd_prime_iff_eq hq (hprime r hr)).1 hqr
    have hle : (p - 1) / q ≤ p - 1 := div_le_self _ _
    rw [Ne, cast_pow_eq_one_iff hp, ← powMod_eq bits (by omega)]
    exact hother q hr
  exact ⟨lucas_primality p g hfull hpart,
    orderOf_eq_of_pow_and_pow_div_prime (by omega) hfull hpart⟩

/-! ### The numbers that are drawn -/

theorem iterate_draw (hx : x < p) : (draw p g)^[n] x = g ^ n * x % p := by
  induction n with
  | zero => rw [iterate_zero, id, pow_zero, one_mul, mod_eq_of_lt hx]
  | succ n ih =>
    rw [iterate_succ', comp, ih, draw, mul_mod_mod, pow_succ', mul_assoc]

theorem Primitive.coprime (h : Primitive p g) (hp : 1 < p - 1) : g.Coprime p := by
  have : Fact p.Prime := ⟨h.prime⟩
  rw [coprime_comm, h.prime.coprime_iff_not_dvd]
  intro hdvd
  have hzero : (g : ZMod p) = 0 := (ZMod.natCast_eq_zero_iff g p).2 hdvd
  have horder := h.order
  rw [hzero, orderOf_zero] at horder
  omega

theorem Primitive.draw_pos (h : Primitive p g) (hp : 1 < p - 1) (hx : 0 < x) (hlt : x < p) :
    0 < draw p g x ∧ draw p g x < p := by
  refine ⟨Nat.pos_of_ne_zero fun hzero => ?_, Nat.mod_lt _ (by omega)⟩
  have hdvd := (h.coprime hp).symm.dvd_of_dvd_mul_left (Nat.dvd_of_mod_eq_zero hzero)
  exact absurd (Nat.le_of_dvd hx hdvd) (Nat.not_le_of_lt hlt)

/-- **Every number is drawn**, wherever the generator begins. -/
theorem Primitive.exists_iterate (h : Primitive p g) (hp : 1 < p - 1) (hx : 0 < x) (hxp : x < p)
    (hy : 0 < y) (hyp : y < p) : ∃ n, (draw p g)^[n] x = y := by
  have : Fact p.Prime := ⟨h.prime⟩
  have hnonzero : ∀ z : ℕ, 0 < z → z < p → (z : ZMod p) ≠ 0 := by
    intro z hz hzp hzero
    exact absurd (Nat.le_of_dvd hz ((ZMod.natCast_eq_zero_iff z p).1 hzero)) (Nat.not_le_of_lt hzp)
  -- the powers of `g` are all units, since there are as many of them
  let u : (ZMod p)ˣ := ZMod.unitOfCoprime g (h.coprime hp)
  have hu : ((u : (ZMod p)ˣ) : ZMod p) = g := ZMod.coe_unitOfCoprime g (h.coprime hp)
  have horder : orderOf u = Nat.card (ZMod p)ˣ := by
    rw [← orderOf_units, hu, h.order, Nat.card_eq_fintype_card, ZMod.card_units]
  let a : (ZMod p)ˣ := Units.mk0 (x : ZMod p) (hnonzero x hx hxp)
  let b : (ZMod p)ˣ := Units.mk0 (y : ZMod p) (hnonzero y hy hyp)
  have htop : Subgroup.zpowers u = ⊤ :=
    Subgroup.eq_top_of_card_eq _ ((Nat.card_zpowers u).trans horder)
  have hmem : b * a⁻¹ ∈ Submonoid.powers u := by
    rw [mem_powers_iff_mem_zpowers, htop]
    exact Subgroup.mem_top _
  obtain ⟨n, hn⟩ := hmem
  have hcast : ((g ^ n * x : ℕ) : ZMod p) = (y : ℕ) := by
    have hunits : u ^ n * a = b := by
      rw [show u ^ n = b * a⁻¹ from hn, inv_mul_cancel_right]
    have hval := congrArg (Units.val) hunits
    rw [Units.val_mul, Units.val_pow_eq_pow_val, hu] at hval
    rw [Nat.cast_mul, Nat.cast_pow]
    exact hval
  refine ⟨n, ?_⟩
  rw [iterate_draw hxp, (ZMod.natCast_eq_natCast_iff' _ _ _).1 hcast, Nat.mod_eq_of_lt hyp]

end Dx.Library
