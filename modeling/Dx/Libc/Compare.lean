import Dx.Libc.Ctype
import Dx.User.Arguments
import Mathlib.Data.Sign.Defs

/-!
# Comparing strings

`memcmp` and `strcmp` subtract plain characters, which are signed, up to the first difference.
`strcmp` subtracts the character of the second string from the one of the first, and `memcmp` the other
way round. So the two are ordered by the first characters that differ, as signed numbers, the
terminator included (`strcmp_lt_iff`): both are total orders, one the reverse of the other, and neither
is the order of the bytes taken as unsigned values.
-/

namespace Dx.Libc

open User List

/-! ### The loops -/

/-- A plain character, as an operand. -/
def plain (c : UInt8) : ℤ := c.toBitVec.toInt

/-- `memcmp`, of two buffers. -/
def memcmp : List UInt8 → List UInt8 → ℕ → Except Fault ℤ
  | _, _, 0 => .ok 0
  | byte0 :: buffer0, byte1 :: buffer1, count + 1 =>
    if plain byte1 - plain byte0 = 0 then memcmp buffer0 buffer1 count
    else .ok (plain byte1 - plain byte0)
  | _, _, _ => .error .outside

def strcmp : List UInt8 → List UInt8 → ℤ
  | [], s2 => plain 0 - plain (current s2)
  | c :: s1, s2 =>
    if plain c - plain (current s2) = 0 then strcmp s1 s2.tail else plain c - plain (current s2)

/-- `memcmp` over the shorter length, and the terminator. -/
def memcmpStrings (s1 s2 : CString) : Except Fault ℤ :=
  memcmp (s1.1 ++ [0]) (s2.1 ++ [0]) (min s1.1.length s2.1.length + 1)

/-! ### The first difference -/

/-- The first characters in which two strings differ, where a terminator may be one of them. -/
def firstDifference : List UInt8 → List UInt8 → Option (UInt8 × UInt8)
  | [], [] => none
  | [], d :: _ => some (0, d)
  | c :: _, [] => some (c, 0)
  | c :: s, d :: t => if c = d then firstDifference s t else some (c, d)

/-- The order of the bytes taken as unsigned values, as a sign. -/
def lexSign (s t : List UInt8) : ℤ := if s < t then -1 else if t < s then 1 else 0

theorem plain_inj {c d : UInt8} : plain c = plain d ↔ c = d := by
  rw [plain, plain, BitVec.toInt_inj, UInt8.toBitVec_inj]

theorem plain_zero : plain 0 = 0 := rfl

section

variable {s t : List UInt8}

theorem firstDifference_eq_none_iff : firstDifference s t = none ↔ s = t := by
  induction s generalizing t with
  | nil => cases t <;> simp [firstDifference]
  | cons c s ih =>
    cases t with
    | nil => simp [firstDifference]
    | cons d t =>
      rw [firstDifference]
      split
      case isTrue heq => simp [heq, ih]
      case isFalse hne => simp [hne]

theorem strcmp_eq (hs : 0 ∉ s) (ht : 0 ∉ t) :
    strcmp s t = match firstDifference s t with
      | none => 0
      | some (c, d) => plain c - plain d := by
  induction s generalizing t with
  | nil => cases t <;> rfl
  | cons c s ih =>
    rw [mem_cons, not_or] at hs
    cases t with
    | nil =>
      have hne : plain c - plain (current []) ≠ 0 := by
        rw [sub_ne_zero, ne_eq, plain_inj]
        exact Ne.symm hs.1
      rw [strcmp, if_neg hne]
      rfl
    | cons d t =>
      rw [mem_cons, not_or] at ht
      have hzero : plain c - plain (current (d :: t)) = 0 ↔ c = d := by
        rw [sub_eq_zero, plain_inj]
        rfl
      rw [strcmp, firstDifference]
      by_cases heq : c = d
      · rw [if_pos (hzero.2 heq), if_pos heq]
        exact ih hs.2 ht.2
      · rw [if_neg (hzero.not.2 heq), if_neg heq]
        rfl

theorem memcmp_eq (hs : 0 ∉ s) (ht : 0 ∉ t) :
    memcmp (s ++ [0]) (t ++ [0]) (min s.length t.length + 1) =
      .ok (match firstDifference s t with
        | none => 0
        | some (c, d) => plain d - plain c) := by
  induction s generalizing t with
  | nil =>
    cases t with
    | nil => rfl
    | cons d t =>
      rw [mem_cons, not_or] at ht
      have hne : plain d - plain 0 ≠ 0 := by
        rw [sub_ne_zero, ne_eq, plain_inj]
        exact Ne.symm ht.1
      simp [memcmp, hne, firstDifference]
  | cons c s ih =>
    rw [mem_cons, not_or] at hs
    cases t with
    | nil =>
      have hne : plain 0 - plain c ≠ 0 := by
        rw [sub_ne_zero, ne_eq, plain_inj]
        exact hs.1
      simp [memcmp, hne, firstDifference]
    | cons d t =>
      rw [mem_cons, not_or] at ht
      have hzero : plain d - plain c = 0 ↔ c = d := by
        rw [sub_eq_zero, plain_inj, eq_comm]
      rw [length_cons, length_cons, Nat.add_min_add_right, cons_append,
        cons_append, memcmp, firstDifference]
      by_cases heq : c = d
      · rw [if_pos (hzero.2 heq), if_pos heq]
        exact ih hs.2 ht.2
      · rw [if_neg (hzero.not.2 heq), if_neg heq]

theorem lexSign_eq (ht : 0 ∉ t) :
    lexSign s t = match firstDifference s t with
      | none => 0
      | some (c, d) => if c < d then -1 else 1 := by
  induction s generalizing t with
  | nil =>
    cases t with
    | nil => simp [lexSign, firstDifference]
    | cons d t =>
      rw [mem_cons, not_or] at ht
      have hpos : 0 < d := UInt8.pos_iff_ne_zero.2 (Ne.symm ht.1)
      simp [lexSign, firstDifference, hpos]
  | cons c s ih =>
    cases t with
    | nil => simp [lexSign, firstDifference]
    | cons d t =>
      rw [mem_cons, not_or] at ht
      rw [firstDifference]
      by_cases heq : c = d
      · subst heq
        rw [if_pos rfl, ← ih ht.2]
        simp [lexSign]
      · rw [if_neg heq]
        by_cases hlt : c < d
        · simp [lexSign, cons_lt_cons_iff, hlt]
        · have hnat : c.toNat ≠ d.toNat := fun hsame => heq (UInt8.toNat_inj.1 hsame)
          have hgt : d < c := by
            rw [UInt8.lt_iff_toNat_lt] at hlt ⊢
            omega
          simp [lexSign, cons_lt_cons_iff, hlt, heq, hgt]

theorem ne_of_firstDifference (hs : 0 ∉ s) (ht : 0 ∉ t) {c d : UInt8}
    (h : firstDifference s t = some (c, d)) : c ≠ d := by
  induction s generalizing t with
  | nil =>
    cases t with
    | nil => cases h
    | cons e t =>
      cases h
      exact fun heq => ht (heq ▸ mem_cons_self)
  | cons e s ih =>
    rw [mem_cons, not_or] at hs
    cases t with
    | nil =>
      cases h
      exact Ne.symm hs.1
    | cons f t =>
      rw [mem_cons, not_or] at ht
      rw [firstDifference] at h
      split at h
      · exact ih hs.2 ht.2 h
      · cases h
        assumption

end

/-! ### The orders -/

theorem plain_eq (c : UInt8) : plain c = if c.toNat < 128 then (c.toNat : ℤ) else c.toNat - 256 := by
  have htoInt : plain c = if 2 * c.toNat < 256 then (c.toNat : ℤ) else c.toNat - 256 :=
    BitVec.toInt_eq_toNat_cond c.toBitVec
  rw [htoInt]
  by_cases h : c.toNat < 128
  · rw [if_pos h, if_pos (by omega)]
  · rw [if_neg h, if_neg (by omega)]

/-- The order of plain characters is that of bytes, on either side of 0x80. -/
theorem plain_lt_iff (c d : UInt8) :
    (plain c < plain d ↔ c < d) ↔ (Ascii c ↔ Ascii d) := by
  have hc := c.toNat_lt
  have hd := d.toNat_lt
  have hascii : ∀ e : UInt8, Ascii e ↔ e.toNat < 128 := fun e => UInt8.lt_iff_toNat_lt
  rw [plain_eq, plain_eq, UInt8.lt_iff_toNat_lt, hascii, hascii]
  split <;> split <;> omega

/-- A string as a list of numbers, the terminator included. -/
def key (s : List UInt8) : List ℤ := s.map plain ++ [0]

theorem key_inj {s t : CString} : key s.1 = key t.1 ↔ s = t := by
  constructor
  · intro h
    have hmap := append_cancel_right h
    exact Subtype.ext (map_injective_iff.2 (fun _ _ => plain_inj.1) hmap)
  · rintro rfl
    rfl

theorem strcmp_lt_iff {s t : List UInt8} (hs : 0 ∉ s) (ht : 0 ∉ t) :
    strcmp s t < 0 ↔ key s < key t := by
  induction s generalizing t with
  | nil =>
    cases t with
    | nil => simp [strcmp, key, current]
    | cons d t =>
      rw [mem_cons, not_or] at ht
      have hd : plain 0 ≠ plain d := fun heq => ht.1 (plain_inj.1 heq)
      rw [plain_zero] at hd
      simp [strcmp, key, current, plain_zero, cons_lt_cons_iff, hd]
  | cons c s ih =>
    rw [mem_cons, not_or] at hs
    cases t with
    | nil =>
      have hc : plain c ≠ plain 0 := fun heq => hs.1 (plain_inj.1 heq).symm
      rw [plain_zero] at hc
      simp [strcmp, key, current, plain_zero, cons_lt_cons_iff, hc]
    | cons d t =>
      rw [mem_cons, not_or] at ht
      have hrest := ih hs.2 ht.2
      rw [key, key] at hrest
      by_cases heq : plain c = plain d
      · simp [strcmp, key, current, heq, hrest]
      · simp [strcmp, key, current, cons_lt_cons_iff, heq, sub_eq_zero]

/-- **`memcmp` is `strcmp` with the other sign.** -/
theorem memcmpStrings_eq (s t : CString) : memcmpStrings s t = .ok (-strcmp s.1 t.1) := by
  rw [memcmpStrings, memcmp_eq s.2 t.2, strcmp_eq s.2 t.2]
  cases firstDifference s.1 t.1 with
  | none => rfl
  | some pair => rw [neg_sub]

theorem strcmp_eq_zero_iff (s t : CString) : strcmp s.1 t.1 = 0 ↔ s = t := by
  have heq : s = t ↔ firstDifference s.1 t.1 = none := by
    rw [firstDifference_eq_none_iff]
    exact Subtype.ext_iff
  rw [heq, strcmp_eq s.2 t.2]
  cases hdiff : firstDifference s.1 t.1 with
  | none => simp
  | some pair =>
    have hne := ne_of_firstDifference s.2 t.2 hdiff
    simp [sub_eq_zero, plain_inj, hne]

theorem strcmp_le_iff (s t : CString) : strcmp s.1 t.1 ≤ 0 ↔ key s.1 ≤ key t.1 := by
  rw [le_iff_lt_or_eq, strcmp_lt_iff s.2 t.2, strcmp_eq_zero_iff, ← key_inj, ← le_iff_lt_or_eq]

/-- The sign of the difference of two characters is that of their order as bytes. -/
theorem sign_plain_sub_iff {c d : UInt8} (hne : c ≠ d) :
    (plain c - plain d).sign = (if c < d then -1 else 1) ↔ (Ascii c ↔ Ascii d) := by
  have hplain : plain c ≠ plain d := fun heq => hne (plain_inj.1 heq)
  rw [← plain_lt_iff]
  by_cases hlt : plain c < plain d
  · rw [Int.sign_eq_neg_one_of_neg (by omega)]
    split <;> simp [*]
  · rw [Int.sign_eq_one_of_pos (by omega)]
    split <;> simp [*]

theorem sign_neg_plain_sub_iff {c d : UInt8} (hne : c ≠ d) :
    (-(plain c - plain d)).sign = (if c < d then -1 else 1) ↔ ¬(Ascii c ↔ Ascii d) := by
  have hplain : plain c ≠ plain d := fun heq => hne (plain_inj.1 heq)
  rw [← sign_plain_sub_iff hne, Int.sign_neg]
  by_cases hlt : plain c < plain d
  · rw [Int.sign_eq_neg_one_of_neg (by omega)]
    split <;> decide
  · rw [Int.sign_eq_one_of_pos (by omega)]
    split <;> decide

structure TotallyOrders (r : CString → CString → Prop) : Prop where
  total : ∀ s t, r s t ∨ r t s
  antisymm : ∀ s t, r s t → r t s → s = t
  trans : ∀ s t u, r s t → r t u → r s u

theorem totallyOrders_of_key {r : CString → CString → Prop} (h : ∀ s t, r s t ↔ key s.1 ≤ key t.1) :
    TotallyOrders r where
  total s t := by
    rw [h, h]
    exact le_total _ _
  antisymm s t hst hts := key_inj.1 (le_antisymm ((h s t).1 hst) ((h t s).1 hts))
  trans s t u hst htu := (h s u).2 (((h s t).1 hst).trans ((h t u).1 htu))

theorem TotallyOrders.swap {r : CString → CString → Prop} (h : TotallyOrders r) :
    TotallyOrders fun s t => r t s where
  total s t := h.total t s
  antisymm s t hst hts := h.antisymm s t hts hst
  trans s t u hst htu := h.trans u t s htu hst

/-- **The orders of strings.** The signs of `memcmp` and of `strcmp` are the same only for a string
and itself. The sign of `strcmp` is the order of the bytes as unsigned values if and only if the first
ones that differ, if any, are on the same side of 0x80, and the sign of `memcmp` if and only if they
are not. Both are total orders. -/
theorem comparisons (s t : CString) :
    (∃ r, memcmpStrings s t = .ok r ∧
      (r.sign = (strcmp s.1 t.1).sign ↔ s = t) ∧
      ((strcmp s.1 t.1).sign = lexSign s.1 t.1 ↔
        ∀ c d, firstDifference s.1 t.1 = some (c, d) → (Ascii c ↔ Ascii d)) ∧
      (r.sign = lexSign s.1 t.1 ↔
        ∀ c d, firstDifference s.1 t.1 = some (c, d) → ¬(Ascii c ↔ Ascii d))) ∧
    TotallyOrders (fun s t => strcmp s.1 t.1 ≤ 0) ∧
    TotallyOrders fun s t => ∃ r, memcmpStrings s t = .ok r ∧ r ≤ 0 := by
  have horder : TotallyOrders fun s t => strcmp s.1 t.1 ≤ 0 := totallyOrders_of_key strcmp_le_iff
  refine ⟨⟨-strcmp s.1 t.1, memcmpStrings_eq s t, ?_, ?_, ?_⟩, horder, ?_⟩
  · rw [← strcmp_eq_zero_iff, Int.sign_neg, neg_eq_self, Int.sign_eq_zero_iff_zero]
  · rw [strcmp_eq s.2 t.2, lexSign_eq t.2]
    cases hdiff : firstDifference s.1 t.1 with
    | none => simp
    | some pair =>
      have hne := ne_of_firstDifference s.2 t.2 hdiff
      simpa [Prod.ext_iff] using sign_plain_sub_iff hne
  · rw [strcmp_eq s.2 t.2, lexSign_eq t.2]
    cases hdiff : firstDifference s.1 t.1 with
    | none => simp
    | some pair =>
      have hne := ne_of_firstDifference s.2 t.2 hdiff
      simpa [Prod.ext_iff] using sign_neg_plain_sub_iff hne
  · have hkey : ∀ s t : CString, (∃ r, memcmpStrings t s = .ok r ∧ r ≤ 0) ↔ key s.1 ≤ key t.1 := by
      intro s t
      rw [memcmpStrings_eq, ← not_lt, ← strcmp_lt_iff t.2 s.2]
      simp
    exact (totallyOrders_of_key hkey).swap

/-- The first of two letters is the smaller one for `strcmp` and the larger one for `memcmp`, and a
character of 0x80 is smaller than a letter for `strcmp`. -/
theorem not_comparisons :
    (strcmp ['a'.toUInt8] ['b'.toUInt8] = -1 ∧
      memcmpStrings ⟨['a'.toUInt8], by decide⟩ ⟨['b'.toUInt8], by decide⟩ = .ok 1 ∧
      lexSign ['a'.toUInt8] ['b'.toUInt8] = -1) ∧
    (strcmp [0x80] ['a'.toUInt8] = -225 ∧
      memcmpStrings ⟨[0x80], by decide⟩ ⟨['a'.toUInt8], by decide⟩ = .ok 225 ∧
      lexSign [0x80] ['a'.toUInt8] = 1) := by
  decide +kernel

end Dx.Libc
