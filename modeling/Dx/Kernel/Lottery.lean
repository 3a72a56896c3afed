import Mathlib.Tactic.NormNum.Prime
import Dx.Library.Generator
import Dx.Library.PackedPool
import Dx.Memory.RoundUp

/-!
# The lottery

The scheduler draws a message from the pool of pending messages with `rand(max)`, which takes the low
bits of one number after another of the generator of `rand.c` until they are below `max`.

The generator multiplies by 16807, modulo the prime 2^31 - 1. As 16807 is a primitive root of it, the
generator comes to 1 sooner or later, and 1 is below every `max` beyond 1: so the loop ends
(`select_random_terminates`). It ends as well when the generator has got stuck at 0, as it does after
two of the seeds, which `srand` reduces to 0 (`generator_alive_iff`).
-/

namespace Dx.Kernel

open Library Memory Function Nat BitVec

def prngG : ℕ := 16807
def prngM : ℕ := 2147483647

/-- `rand()`: the result, and then `random_seed`. -/
def rand (randomSeed : BitVec 32) : BitVec 32 × BitVec 32 :=
  let result64 := (BitVec.ofNat 64 prngG * randomSeed.setWidth 64) % BitVec.ofNat 64 prngM
  let result32 := result64.setWidth 32
  (result32, result32)

/-- `srand(seed)`: `random_seed`. -/
def srand (seed : BitVec 32) : BitVec 32 :=
  let seed := if seed = 0 then seed + 1 else seed
  seed % BitVec.ofNat 32 prngM

/-- The loop of `rand(max)`, of no more than `n` turns: the result, and `random_seed`. -/
def randLoop (max mask : BitVec 32) : ℕ → BitVec 32 → Option (BitVec 32 × BitVec 32)
  | 0, _ => none
  | n + 1, randomSeed =>
    let result := (rand randomSeed).1 &&& mask
    if max ≤ result then randLoop max mask n (rand randomSeed).2
    else some (result, (rand randomSeed).2)

/-- `rand(max)`, of no more than `n` turns. -/
def randBelow (max : BitVec 32) (n : ℕ) (randomSeed : BitVec 32) : Option (BitVec 32 × BitVec 32) :=
  randLoop max (roundUp2n max - 1) n randomSeed

/-- `message_pool_c::select_random()`, with the state of the generator. An empty pool stops the
kernel. -/
def selectRandom {α : Type} (pool : Pool α) (n : ℕ) (randomSeed : BitVec 32) :
    Option (α × BitVec 32) :=
  if pool.items = [] then none
  else (randBelow (BitVec.ofNat 32 pool.items.length) n randomSeed).bind fun (index, randomSeed) =>
    (pool.items[index.toNat]?).map fun message => (message, randomSeed)

/-- The states of the generator: `random_seed` is 1 until `srand` is called. -/
inductive Generated : BitVec 32 → Prop
  | start : Generated 1
  | srand (seed : BitVec 32) : Generated (srand seed)
  | rand {randomSeed : BitVec 32} : Generated randomSeed → Generated (rand randomSeed).2

/-! ### The generator -/

/-- 16807 is a primitive root of 2^31 - 1. -/
theorem primitive_prng : Primitive prngM prngG := by
  refine primitive_of_factors [2, 3, 3, 7, 11, 31, 151, 331] 31 (by decide) (by decide)
    (by decide) ?_ (by decide +kernel) (by decide +kernel)
  norm_num

theorem rand_snd (x : BitVec 32) : (rand x).2 = (rand x).1 := rfl

theorem toNat_rand (x : BitVec 32) : (rand x).1.toNat = draw prngM prngG x.toNat := by
  have hg : (BitVec.ofNat 64 prngG).toNat = 16807 := rfl
  have hm : (BitVec.ofNat 64 prngM).toNat = 2147483647 := rfl
  have hprod : (BitVec.ofNat 64 prngG * x.setWidth 64).toNat = 16807 * x.toNat := by
    rw [toNat_mul, toNat_setWidth, hg, mod_eq_of_lt (by omega)]
    omega
  have hresult : (rand x).1.toNat = 16807 * x.toNat % 2147483647 % 2 ^ 32 := by
    rw [rand, toNat_setWidth, toNat_umod, hprod, hm]
  rw [hresult, mod_eq_of_lt (by omega)]
  rfl

theorem toNat_srand (seed : BitVec 32) :
    (srand seed).toNat = (if seed = 0 then 1 else seed.toNat) % prngM := by
  rw [srand, toNat_umod]
  split
  case isTrue h =>
    rw [h]
    rfl
  case isFalse => rfl

theorem Generated.lt {x : BitVec 32} (h : Generated x) : x.toNat < prngM := by
  cases h with
  | start => decide
  | srand seed =>
    rw [toNat_srand]
    exact mod_lt _ (by decide)
  | rand =>
    rw [rand_snd, toNat_rand]
    exact mod_lt _ (by decide)

theorem toNat_iterate_rand (x : BitVec 32) (n : ℕ) :
    ((fun x => (rand x).2)^[n] x).toNat = (draw prngM prngG)^[n] x.toNat := by
  induction n generalizing x with
  | zero => rfl
  | succ n ih => rw [iterate_succ_apply, ih, iterate_succ_apply, rand_snd, toNat_rand]

theorem iterate_rand_zero (n : ℕ) : (fun x => (rand x).2)^[n] 0 = 0 := iterate_fixed (by decide) n

theorem iterate_rand_pos {x : BitVec 32} (hx : 0 < x.toNat) (hlt : x.toNat < prngM) (n : ℕ) :
    0 < ((fun x => (rand x).2)^[n] x).toNat ∧ ((fun x => (rand x).2)^[n] x).toNat < prngM := by
  induction n generalizing x with
  | zero => exact ⟨hx, hlt⟩
  | succ n ih =>
    obtain ⟨hpos, hlt⟩ := primitive_prng.draw_pos (by decide) hx hlt
    rw [← toNat_rand, ← rand_snd] at hpos hlt
    exact ih hpos hlt

/-- **The generator is alive**, in the numbers from 1 to 2^31 - 2, exactly after the seeds that
`srand` does not reduce to 0. -/
theorem generator_alive_iff (seed : BitVec 32) :
    (∀ n, 1 ≤ ((fun x => (rand x).2)^[n] (srand seed)).toNat ∧
      ((fun x => (rand x).2)^[n] (srand seed)).toNat ≤ 2 ^ 31 - 2) ↔
      seed ≠ 0x7FFFFFFF ∧ seed ≠ 0xFFFFFFFE := by
  constructor
  · intro h
    have hfirst := (h 0).1
    constructor
    · rintro rfl
      exact absurd hfirst (by decide)
    · rintro rfl
      exact absurd hfirst (by decide)
  · rintro ⟨hne, hne'⟩ n
    have hm : prngM = 2147483647 := rfl
    have hpos : 0 < (srand seed).toNat := by
      refine pos_of_ne_zero fun hzero => ?_
      rw [toNat_srand] at hzero
      split at hzero
      case isTrue => exact absurd hzero (by decide)
      case isFalse hseed =>
        rw [hm] at hzero
        have hlt := seed.isLt
        have h0 : seed.toNat ≠ 0 := fun h => hseed (eq_of_toNat_eq h)
        have h1 : seed.toNat ≠ 0x7FFFFFFF := fun h => hne (eq_of_toNat_eq h)
        have h2 : seed.toNat ≠ 0xFFFFFFFE := fun h => hne' (eq_of_toNat_eq h)
        omega
    obtain ⟨hpos, hlt⟩ := iterate_rand_pos hpos (Generated.srand seed).lt n
    omega

/-- The seed 2^31 - 1 is reduced to 0, and nothing but 0 is drawn from then on. -/
theorem generator_dead : srand 0x7FFFFFFF = 0 ∧
    ∀ n, (fun x => (rand x).2)^[n] (srand 0x7FFFFFFF) = 0 := by
  have hzero : srand 0x7FFFFFFF = 0 := by decide
  exact ⟨hzero, fun n => hzero ▸ iterate_rand_zero n⟩

/-! ### The loop -/

section

variable {max mask x r x' : BitVec 32} {n : ℕ}

theorem randLoop_lt (h : randLoop max mask n x = some (r, x')) : r.toNat < max.toNat := by
  induction n generalizing x with
  | zero => cases h
  | succ n ih =>
    rw [randLoop] at h
    split at h
    case isTrue => exact ih h
    case isFalse hlt =>
      cases h
      exact Nat.lt_of_not_le hlt

/-- The loop ends when a number is drawn that it likes, if it has not ended before. -/
theorem randLoop_ends (h : ¬ max ≤ (rand ((fun x => (rand x).2)^[n] x)).1 &&& mask) :
    ∃ result, randLoop max mask (n + 1) x = some result := by
  induction n generalizing x with
  | zero => exact ⟨_, if_neg h⟩
  | succ n ih =>
    rw [randLoop]
    split
    case isTrue => exact ih h
    case isFalse => exact ⟨_, rfl⟩

theorem one_and_mask (h : max ≠ 1) : 1 &&& (roundUp2n max - 1) = 1 := by
  refine eq_of_getLsbD_eq fun i hi => ?_
  rw [getLsbD_and]
  by_cases h0 : i = 0
  · rw [h0, getLsbD_zero_roundUp2n_sub_one h]
    rfl
  · have hbit : (1 : BitVec 32).getLsbD i = false := by
      rw [show (1 : BitVec 32) = 1#32 from rfl, getLsbD_one]
      simp [h0]
    rw [hbit, Bool.false_and]

/-- **The loop ends**, and draws a number below `max`. -/
theorem randBelow_ends (hx : x.toNat < prngM) (hmax : 0 < max.toNat) :
    ∃ n r x', randBelow max n x = some (r, x') ∧ r.toNat < max.toNat := by
  suffices hn : ∃ n, ¬ max ≤ (rand ((fun x => (rand x).2)^[n] x)).1 &&& (roundUp2n max - 1) by
    obtain ⟨n, hn⟩ := hn
    obtain ⟨⟨r, x'⟩, hloop⟩ := randLoop_ends hn
    exact ⟨n + 1, r, x', hloop, randLoop_lt hloop⟩
  have hle : ∀ {r : BitVec 32}, r.toNat < max.toNat → ¬ max ≤ r := fun hr => Nat.not_le_of_lt hr
  have hzero : ∀ {r : BitVec 32}, r = 0 → ¬ max ≤ r := by
    rintro r rfl
    exact hle hmax
  by_cases hone : max = 1
  · -- there is only one number below 1
    refine ⟨0, hzero ?_⟩
    have hmask : roundUp2n max - 1 = 0 := by
      rw [hone]
      decide
    rw [hmask]
    exact and_zero
  · by_cases hx0 : x.toNat = 0
    · refine ⟨0, hzero ?_⟩
      rw [show x = 0#32 from eq_of_toNat_eq hx0]
      exact zero_and
    · -- the generator comes to 1
      obtain ⟨hpos, hlt⟩ := primitive_prng.draw_pos (by decide) (Nat.pos_of_ne_zero hx0) hx
      obtain ⟨n, hn⟩ := primitive_prng.exists_iterate (by decide) hpos hlt Nat.one_pos (by decide)
      refine ⟨n, hle ?_⟩
      have hdrawn : (rand ((fun x => (rand x).2)^[n] x)).1 = 1 := by
        refine eq_of_toNat_eq ?_
        rw [← iterate_succ_apply, iterate_succ_apply', ← toNat_iterate_rand] at hn
        rw [toNat_rand]
        exact hn
      rw [hdrawn, one_and_mask hone]
      exact Nat.lt_of_le_of_ne hmax fun h => hone (eq_of_toNat_eq h.symm)

end

/-- **The draw.** From every state of the generator and for every `max`, `rand(max)` ends with a
number below `max`, so `select_random` finds a message in every pool that is not empty. -/
theorem select_random_terminates {x : BitVec 32} (hx : Generated x) :
    (∀ max : BitVec 32, 1 ≤ max.toNat →
      ∃ n r x', randBelow max n x = some (r, x') ∧ r.toNat < max.toNat) ∧
    ∀ {α : Type} (pool : Pool α), pool.items ≠ [] → pool.items.length < 2 ^ 32 →
      ∃ n message x', selectRandom pool n x = some (message, x') ∧ message ∈ pool.items := by
  refine ⟨fun max hmax => randBelow_ends hx.lt hmax, fun pool hpool hlength => ?_⟩
  have hcount : (BitVec.ofNat 32 pool.items.length).toNat = pool.items.length :=
    mod_eq_of_lt hlength
  have hpos : 0 < (BitVec.ofNat 32 pool.items.length).toNat := by
    rw [hcount]
    exact List.length_pos_of_ne_nil hpool
  obtain ⟨n, r, x', hdraw, hr⟩ := randBelow_ends hx.lt hpos
  rw [hcount] at hr
  refine ⟨n, pool.items[r.toNat], x', ?_, List.getElem_mem hr⟩
  rw [selectRandom, if_neg hpool, hdraw, Option.bind_some]
  dsimp only
  rw [List.getElem?_eq_getElem hr, Option.map_some]

/-- The first draw of all: 16807, of which the two lowest bits are 3, and then 282475249. -/
theorem select_random_terminates_first : Generated 1 ∧ randBelow 3 1 1 = none ∧
    randBelow 3 2 1 = some (1, 282475249) ∧
    ∃ n r x', randBelow 3 n 1 = some (r, x') ∧ r.toNat < 3 :=
  ⟨.start, by decide, by decide, (select_random_terminates .start).1 3 (by decide)⟩

end Dx.Kernel
