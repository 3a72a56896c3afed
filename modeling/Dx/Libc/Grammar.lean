import Dx.Libc.Numbers
import Dx.Library.LongestMatch
import Dx.User.Arguments

/-!
# Where numbers end

`strtoul`, `strtol` and `strtod` report the place where they have stopped. They never go back: what
they have taken for the start of a number is not given back when the number does not go on. The
languages of numbers are given here, and the places behind their longest words.

A `0x` that no digit follows is taken as a whole, where the number is only the zero. White space and a
sign are taken also when no number follows, and `strtol` takes white space behind the sign. An exponent
is taken also when it has no digits. In all other cases, the end is the right one
(`numbers_end_iff`).
-/

namespace Dx.Libc

open Library User List

/-! ### The languages -/

/-- A number in the base, without a prefix. The base 0 stands for a decimal number, or for an octal one
if it starts with a zero. -/
def PlainNumber (base : ℤ) (w : List UInt8) : Prop :=
  if base = 0 then
    (SomeOf (digitBelow 10) w ∧ current w ≠ '0'.toUInt8) ∨
      ∃ d, w = '0'.toUInt8 :: d ∧ AllOf (digitBelow 8) d
  else SomeOf (digitBelow base) w

/-- A hexadecimal number with its prefix. -/
def PrefixedNumber (w : List UInt8) : Prop :=
  ∃ x d, w = '0'.toUInt8 :: x :: d ∧ (x = 'x'.toUInt8 ∨ x = 'X'.toUInt8) ∧ SomeOf (digitBelow 16) d

/-- A number without a sign. -/
def UnsignedNumber (base : ℤ) (w : List UInt8) : Prop :=
  PlainNumber base w ∨ ((base = 0 ∨ base = 16) ∧ PrefixedNumber w)

def isSign (c : UInt8) : Bool := c = '+'.toUInt8 ∨ c = '-'.toUInt8

def OptionalSign (w : List UInt8) : Prop := w = [] ∨ ∃ c, w = [c] ∧ isSign c = true

def Fraction (w : List UInt8) : Prop := w = [] ∨ ∃ d, w = '.'.toUInt8 :: d ∧ AllOf (between '0' '9') d

def isMark (c : UInt8) : Bool := c = 'e'.toUInt8 ∨ c = 'E'.toUInt8

def Exponent (w : List UInt8) : Prop :=
  w = [] ∨ ∃ x d, w = x :: d ∧ isMark x = true ∧ Seq OptionalSign (SomeOf (between '0' '9')) d

/-- The numbers of `strtoul`. -/
def strtoulNumber (base : ℤ) : List UInt8 → Prop := Seq (AllOf space) (UnsignedNumber base)

/-- The numbers of `strtol`. -/
def strtolNumber (base : ℤ) : List UInt8 → Prop :=
  Seq (AllOf space) (Seq OptionalSign (UnsignedNumber base))

/-- The numbers of `strtod`. -/
def strtodNumber : List UInt8 → Prop :=
  Seq (AllOf space) (Seq OptionalSign (Seq (SomeOf (between '0' '9')) (Seq Fraction Exponent)))

/-! ### Signs -/

variable {s : List UInt8}

theorem current_eq_cons {p : UInt8 → Bool} (hzero : p 0 = false) (h : p (current s) = true) :
    ∃ c t, s = c :: t ∧ p c = true := by
  cases s with
  | nil => exact absurd h (by simpa [current] using hzero)
  | cons c t => exact ⟨c, t, rfl, h⟩

theorem readSign_cons {c : UInt8} (h : isSign c = true) (s : List UInt8) : (readSign (c :: s)).2 = s := by
  rw [readSign, current_cons]
  split
  · rfl
  · rw [if_pos]
    · rfl
    · simpa [isSign, *] using h

theorem readSign_of_not (h : isSign (current s) = false) : (readSign s).2 = s := by
  have hne : current s ≠ '+'.toUInt8 ∧ current s ≠ '-'.toUInt8 := by simpa [isSign] using h
  rw [readSign, if_neg hne.1, if_neg hne.2]

theorem matches_sign (s : List UInt8) : Matches OptionalSign s (readSign s).2 := by
  cases hs : isSign (current s) with
  | true =>
    obtain ⟨c, s, rfl, hc⟩ := current_eq_cons (by decide) hs
    rw [readSign_cons hc]
    refine ⟨⟨[c], rfl, .inr ⟨c, rfl, hc⟩⟩, ?_⟩
    rintro w r hw (rfl | ⟨d, rfl, -⟩)
    · rw [nil_append] at hw
      rw [← hw]
      exact Nat.le_succ _
    · cases hw
      exact le_rfl
  | false =>
    rw [readSign_of_not hs]
    refine ⟨⟨[], rfl, .inl rfl⟩, ?_⟩
    rintro w r rfl (rfl | ⟨d, rfl, hd⟩)
    · exact le_rfl
    · exact absurd hd (Bool.eq_false_iff.1 hs)

theorem eager_sign {M : List UInt8 → Prop} (hM : StartsOutside isSign M) (s : List UInt8) :
    Eager OptionalSign M s (readSign s).2 := by
  rintro x t' rfl (rfl | ⟨c, rfl, hc⟩) hne y r rfl hMy
  · cases y with
    | nil => rfl
    | cons c y =>
      have hkept : (readSign (c :: y ++ r)).2 = c :: y ++ r := readSign_of_not (hM c y hMy)
      rw [nil_append, hkept] at hne
      exact absurd rfl hne
  · rw [singleton_append, readSign_cons hc] at hne
    exact absurd rfl hne

/-! ### Numbers without a sign -/

def HexPrefixed (base : ℤ) (t : List UInt8) : Prop :=
  (base = 0 ∨ base = 16) ∧ current t = '0'.toUInt8 ∧
    (current t.tail = 'x'.toUInt8 ∨ current t.tail = 'X'.toUInt8)
deriving Decidable

/-- A number is at the start of the string, and behind its prefix, if it has one. -/
def Reads (base : ℤ) (t : List UInt8) : Prop :=
  if HexPrefixed base t then digitBelow 16 (current t.tail.tail) = true
  else digitBelow (if base = 0 then 10 else base) (current t) = true
deriving Decidable

/-- Where the digits end, without white space in front of them. -/
def numberEnd (base : ℤ) (t : List UInt8) : List UInt8 :=
  (inferBase base t).2.dropWhile (digitBelow (inferBase base t).1)

section

variable {base : ℤ} {t : List UInt8} {p : UInt8 → Bool} {w r : List UInt8} {x : UInt8}

theorem numberEnd_of_hexPrefixed (h : HexPrefixed base t) :
    numberEnd base t = t.tail.tail.dropWhile (digitBelow 16) := by
  rw [numberEnd, inferBase, if_pos h.1, if_pos h.2.1, if_pos h.2.2]

theorem takeWhile_ne_nil (hzero : p 0 = false) (h : p (current t) = true) : t.takeWhile p ≠ [] := by
  obtain ⟨c, t, rfl, hc⟩ := current_eq_cons hzero h
  rw [takeWhile_cons_of_pos hc]
  simp

theorem takeWhile_eq_nil (h : p (current t) = false) : t.takeWhile p = [] := by
  cases t with
  | nil => rfl
  | cons c t => exact takeWhile_cons_of_neg (by simpa [current] using h)

theorem digitBelow_zero (base : ℤ) : digitBelow base 0 = false := rfl

theorem current_eq_zero {s : List UInt8} (h : current s = '0'.toUInt8) : ∃ t, s = '0'.toUInt8 :: t := by
  cases s with
  | nil => cases h
  | cons c t => exact ⟨t, by rw [← h]; rfl⟩

theorem numberEnd_of_ne_zero (hbase : base ≠ 0) (hhex : ¬HexPrefixed base t) :
    numberEnd base t = t.dropWhile (digitBelow base) := by
  rw [numberEnd, inferBase]
  split
  case isFalse => rfl
  case isTrue hinfer =>
    have hsixteen : base = 16 := hinfer.resolve_left hbase
    split
    case isFalse => rfl
    case isTrue hzero =>
      obtain ⟨t, rfl⟩ := current_eq_zero hzero
      rw [if_neg fun hx => hhex ⟨hinfer, hzero, hx⟩, hsixteen]
      have hdigit : digitBelow 16 '0'.toUInt8 = true := by decide
      exact (dropWhile_cons_of_pos hdigit).symm

theorem matches_plainNumber (hhex : ¬HexPrefixed base t) (h : Reads base t) :
    Matches (PlainNumber base) t (numberEnd base t) := by
  rw [Reads, if_neg hhex] at h
  by_cases hbase : base = 0
  · subst hbase
    by_cases hzero : current t = '0'.toUInt8
    · -- an octal number
      obtain ⟨t, rfl⟩ := current_eq_zero hzero
      have hend : numberEnd 0 ('0'.toUInt8 :: t) = t.dropWhile (digitBelow 8) := by
        rw [numberEnd, inferBase, if_pos (.inl rfl), if_pos hzero,
          if_neg fun hx => hhex ⟨.inl rfl, hzero, hx⟩]
        rfl
      have hdigits := matches_allOf (digitBelow 8) t
      rw [hend]
      refine ⟨?_, ?_⟩
      · obtain ⟨d, hd, hall⟩ := hdigits.word
        exact ⟨'0'.toUInt8 :: d, congrArg _ hd, .inr ⟨d, rfl, hall⟩⟩
      · rintro w r hw (⟨⟨hne, -⟩, hfirst⟩ | ⟨d, rfl, hall⟩)
        · obtain ⟨c, w, rfl⟩ := exists_cons_of_ne_nil hne
          cases hw
          exact absurd rfl hfirst
        · exact hdigits.longest d r (List.cons.inj hw).2 hall
    · have hend : numberEnd 0 t = t.dropWhile (digitBelow 10) := by
        rw [numberEnd, inferBase, if_pos (.inl rfl), if_neg hzero]
        rfl
      have hsome := matches_someOf (takeWhile_ne_nil (digitBelow_zero 10) h)
      rw [hend]
      refine ⟨?_, ?_⟩
      · obtain ⟨w, hw, hne, hall⟩ := hsome.word
        refine ⟨w, hw, .inl ⟨⟨hne, hall⟩, ?_⟩⟩
        obtain ⟨c, w, rfl⟩ := exists_cons_of_ne_nil hne
        rw [hw] at hzero
        exact hzero
      · rintro w r hw (⟨hw', -⟩ | ⟨d, rfl, -⟩)
        · exact hsome.longest w r hw hw'
        · rw [hw] at hzero
          exact absurd rfl hzero
  · rw [if_neg hbase] at h
    have hsome := matches_someOf (takeWhile_ne_nil (digitBelow_zero base) h)
    rw [numberEnd_of_ne_zero hbase hhex]
    refine ⟨?_, ?_⟩
    · obtain ⟨w, hw, hword⟩ := hsome.word
      exact ⟨w, hw, by rwa [PlainNumber, if_neg hbase]⟩
    · intro w r hw hword
      rw [PlainNumber, if_neg hbase] at hword
      exact hsome.longest w r hw hword

theorem noMatch_plainNumber (hhex : ¬HexPrefixed base t) (h : ¬Reads base t) :
    NoMatch (PlainNumber base) t ∧ numberEnd base t = t := by
  rw [Reads, if_neg hhex, Bool.not_eq_true] at h
  by_cases hbase : base = 0
  · subst hbase
    have hzero : current t ≠ '0'.toUInt8 := by
      intro hzero
      rw [hzero] at h
      exact absurd h (by decide)
    constructor
    · rintro w r rfl (⟨hsome, -⟩ | ⟨d, rfl, -⟩)
      · exact noMatch_someOf (takeWhile_eq_nil h) w r rfl hsome
      · exact hzero rfl
    · rw [numberEnd, inferBase, if_pos (.inl rfl), if_neg hzero]
      exact dropWhile_of_current h
  · rw [if_neg hbase] at h
    constructor
    · intro w r hw hword
      rw [PlainNumber, if_neg hbase] at hword
      exact noMatch_someOf (takeWhile_eq_nil h) w r hw hword
    · rw [numberEnd_of_ne_zero hbase hhex]
      exact dropWhile_of_current h

theorem unsignedNumber_iff (hhex : ¬HexPrefixed base t) (hw : t = w ++ r) :
    UnsignedNumber base w ↔ PlainNumber base w := by
  refine ⟨?_, .inl⟩
  rintro (hplain | ⟨hbase, x, d, rfl, hx, -⟩)
  · exact hplain
  · rw [hw] at hhex
    exact absurd ⟨hbase, rfl, hx⟩ hhex

theorem HexPrefixed.eq_cons (h : HexPrefixed base t) :
    ∃ x d, t = '0'.toUInt8 :: x :: d ∧ (x = 'x'.toUInt8 ∨ x = 'X'.toUInt8) := by
  obtain ⟨-, hzero, hx⟩ := h
  obtain ⟨t, rfl⟩ := current_eq_zero hzero
  cases t with
  | nil => rcases hx with hx | hx <;> cases hx
  | cons x d => exact ⟨x, d, rfl, hx⟩

theorem not_digitBelow_x (hx : x = 'x'.toUInt8 ∨ x = 'X'.toUInt8) :
    digitBelow 8 x = false ∧ digitBelow 16 x = false := by
  rcases hx with rfl | rfl <;> decide

theorem eq_nil_of_allOf {d : List UInt8} (hx : p x = false) (hw : x :: d = w ++ r)
    (hall : AllOf p w) : w = [] := by
  cases w with
  | nil => rfl
  | cons c w =>
    cases hw
    exact absurd (hall x mem_cons_self) (Bool.eq_false_iff.1 hx)

/-- A plain number in front of an `x` is a single zero. -/
theorem plainNumber_iff (hhex : HexPrefixed base t) (hw : t = w ++ r) :
    PlainNumber base w ↔ r = t.tail := by
  obtain ⟨x, d, rfl, hx⟩ := hhex.eq_cons
  obtain ⟨hoctal, hsixteen⟩ := not_digitBelow_x hx
  constructor
  · intro hword
    rcases hhex.1 with rfl | rfl
    · rcases hword with ⟨⟨hne, -⟩, hfirst⟩ | ⟨e, rfl, hall⟩
      · obtain ⟨c, w, rfl⟩ := exists_cons_of_ne_nil hne
        exact absurd (List.cons.inj hw).1.symm hfirst
      · have htail := (List.cons.inj hw).2
        have hempty := eq_nil_of_allOf hoctal htail hall
        rw [hempty] at htail
        exact htail.symm
    · obtain ⟨hne, hall⟩ : SomeOf (digitBelow 16) w := hword
      obtain ⟨c, w, rfl⟩ := exists_cons_of_ne_nil hne
      have htail := (List.cons.inj hw).2
      have hempty := eq_nil_of_allOf hsixteen htail fun e he => hall e (mem_cons_of_mem c he)
      rw [hempty] at htail
      exact htail.symm
  · rintro rfl
    have hzero : w = ['0'.toUInt8] := append_cancel_right hw.symm
    subst hzero
    rcases hhex.1 with rfl | rfl
    · exact .inr ⟨[], rfl, by simp [AllOf]⟩
    · exact ⟨by simp, by simp [AllOf]; decide⟩

theorem matches_hexadecimal (hhex : HexPrefixed base t) (h : Reads base t) :
    Matches (UnsignedNumber base) t (numberEnd base t) := by
  rw [Reads, if_pos hhex] at h
  rw [numberEnd_of_hexPrefixed hhex]
  obtain ⟨x, d, rfl, hx⟩ := hhex.eq_cons
  have hsome : Matches (SomeOf (digitBelow 16)) d (d.dropWhile (digitBelow 16)) :=
    matches_someOf (takeWhile_ne_nil (digitBelow_zero 16) h)
  refine ⟨?_, ?_⟩
  · obtain ⟨w, hw, hword⟩ := hsome.word
    exact ⟨'0'.toUInt8 :: x :: w, congrArg (fun e => '0'.toUInt8 :: x :: e) hw,
      .inr ⟨hhex.1, x, w, rfl, hx, hword⟩⟩
  · rintro w r hw (hword | ⟨-, y, e, rfl, -, hword⟩)
    · rw [(plainNumber_iff hhex hw).1 hword]
      exact (dropWhile_suffix _).length_le.trans (Nat.le_succ _)
    · cases hw
      exact hsome.longest e r rfl hword

/-- A prefix that no digit follows: the number is the zero. -/
theorem matches_zero (hhex : HexPrefixed base t) (h : ¬Reads base t) :
    Matches (UnsignedNumber base) t t.tail ∧ numberEnd base t ≠ t.tail := by
  rw [Reads, if_pos hhex, Bool.not_eq_true] at h
  rw [numberEnd_of_hexPrefixed hhex]
  obtain ⟨x, d, rfl, hx⟩ := hhex.eq_cons
  have hno : NoMatch (SomeOf (digitBelow 16)) d := noMatch_someOf (takeWhile_eq_nil h)
  refine ⟨⟨⟨['0'.toUInt8], rfl, .inl ((plainNumber_iff hhex rfl).2 rfl)⟩, ?_⟩, ?_⟩
  · rintro w r hw (hword | ⟨-, y, e, rfl, -, hword⟩)
    · rw [(plainNumber_iff hhex hw).1 hword]
    · cases hw
      exact absurd hword (hno e r rfl)
  · have hend : d.dropWhile (digitBelow 16) = d := dropWhile_of_current h
    rw [tail_cons, tail_cons, hend]
    exact fun heq => absurd (congrArg List.length heq) (by simp)

/-- **The end of a number** is the right one. -/
theorem Reads.matches (h : Reads base t) : Matches (UnsignedNumber base) t (numberEnd base t) := by
  by_cases hhex : HexPrefixed base t
  · exact matches_hexadecimal hhex h
  · have hplain := matches_plainNumber hhex h
    refine ⟨?_, ?_⟩
    · obtain ⟨w, hw, hword⟩ := hplain.word
      exact ⟨w, hw, .inl hword⟩
    · intro w r hw hword
      exact hplain.longest w r hw ((unsignedNumber_iff hhex hw).1 hword)

theorem noMatch_unsignedNumber (hhex : ¬HexPrefixed base t) (h : ¬Reads base t) :
    NoMatch (UnsignedNumber base) t ∧ numberEnd base t = t := by
  obtain ⟨hno, hend⟩ := noMatch_plainNumber hhex h
  exact ⟨fun w r hw hword => hno w r hw ((unsignedNumber_iff hhex hw).1 hword), hend⟩

theorem isSome_of_digitBelow {c : UInt8} (h : digitBelow base c = true) : (digitValue c).isSome = true := by
  rw [digitBelow, Option.any_eq_true] at h
  obtain ⟨d, hd, -⟩ := h
  rw [hd]
  rfl

theorem startsOutside_unsignedNumber (hp : ∀ c, (digitValue c).isSome = true → p c = false) :
    StartsOutside p (UnsignedNumber base) := by
  rintro c w (hword | ⟨-, x, d, hw, -, -⟩)
  · apply hp
    rw [PlainNumber] at hword
    split at hword
    · rcases hword with ⟨hsome, -⟩ | ⟨d, hw, -⟩
      · exact isSome_of_digitBelow (hsome.2 c mem_cons_self)
      · rw [(List.cons.inj hw).1]
        decide
    · exact isSome_of_digitBelow (hword.2 c mem_cons_self)
  · rw [(List.cons.inj hw).1]
    exact hp _ (by decide)

theorem not_unsignedNumber_nil : ¬UnsignedNumber base [] := by
  rintro (hword | ⟨-, x, d, hw, -⟩)
  · rw [PlainNumber] at hword
    split at hword
    · rcases hword with ⟨hsome, -⟩ | ⟨d, hw, -⟩
      · exact hsome.1 rfl
      · cases hw
    · exact hword.1 rfl
  · cases hw

end

theorem not_sign_of_digitValue (c : UInt8) (h : (digitValue c).isSome = true) : isSign c = false := by
  refine Bool.eq_false_iff.2 fun hsign => ?_
  rcases of_decide_eq_true hsign with rfl | rfl <;> exact absurd h (by decide)

theorem not_space_of_sign (c : UInt8) (h : isSign c = true) : space c = false := by
  rcases of_decide_eq_true h with rfl | rfl <;> decide

theorem startsOutside_sign : StartsOutside space OptionalSign := by
  rintro c w (hw | ⟨d, hw, hd⟩)
  · cases hw
  · cases hw
    exact not_space_of_sign c hd

/-! ### Integers -/

section

variable {base : ℤ} {s : List UInt8} {M : List UInt8 → Prop}

theorem stopsAt_strtoulNumber_iff :
    StopsAt (strtoulNumber base) s (strtoulEnd s base) ↔
      Reads base (afterSpaces s) ∨ (¬HexPrefixed base (afterSpaces s) ∧ afterSpaces s = s) := by
  have houtside : StartsOutside space (UnsignedNumber base) :=
    startsOutside_unsignedNumber not_space_of_digitValue
  have hend : strtoulEnd s base = numberEnd base (afterSpaces s) := rfl
  rw [hend]
  by_cases hreads : Reads base (afterSpaces s)
  · exact iff_of_true (.inl (hreads.matches.allOf_seq houtside)) (.inl hreads)
  · rw [or_iff_right hreads]
    by_cases hhex : HexPrefixed base (afterSpaces s)
    · obtain ⟨hmatches, hne⟩ := matches_zero hhex hreads
      rw [strtoulNumber, (hmatches.allOf_seq houtside).stopsAt_iff]
      exact iff_of_false hne fun h => h.1 hhex
    · obtain ⟨hno, hend⟩ := noMatch_unsignedNumber hhex hreads
      rw [strtoulNumber, (hno.allOf_seq houtside not_unsignedNumber_nil).stopsAt_iff, hend,
        and_iff_right hhex]

theorem numberEnd_suffix (base : ℤ) (t : List UInt8) : numberEnd base t <:+ t :=
  (dropWhile_suffix _).trans (inferBase_suffix base t)

theorem length_afterSpaces_lt (h : space (current s) = true) : (afterSpaces s).length < s.length := by
  obtain ⟨c, s, rfl, hc⟩ := current_eq_cons (by decide) h
  rw [afterSpaces, dropWhile_cons_of_pos hc]
  exact Nat.lt_succ_of_le (dropWhile_suffix _).length_le

def afterSign (s : List UInt8) : List UInt8 := (readSign (afterSpaces s)).2

theorem afterSign_suffix (s : List UInt8) : afterSign s <:+ s :=
  (readSign_suffix _).trans (afterSpaces_suffix s)

/-- A longest word behind white space and a sign. -/
theorem matches_signed {r : List UInt8} (hspace : StartsOutside space M)
    (hsign : StartsOutside isSign M) (h : Matches M (afterSign s) r) :
    Matches (Seq (AllOf space) (Seq OptionalSign M)) s r :=
  ((matches_sign _).seq h (eager_sign hsign _)).allOf_seq (startsOutside_sign.seq hspace)

theorem noMatch_signed (hspace : StartsOutside space M) (hsign : StartsOutside isSign M)
    (hne : ¬M []) (h : NoMatch M (afterSign s)) :
    NoMatch (Seq (AllOf space) (Seq OptionalSign M)) s := by
  refine (h.seq hne (eager_sign hsign _)).allOf_seq (startsOutside_sign.seq hspace) ?_
  rintro ⟨x, y, hw, -, hMy⟩
  rw [(append_eq_nil_iff.1 hw.symm).2] at hMy
  exact hne hMy

theorem stopsAt_strtolNumber_iff :
    StopsAt (strtolNumber base) s (strtolEnd s base) ↔
      space (current (afterSign s)) = false ∧
        (Reads base (afterSign s) ∨ (¬HexPrefixed base (afterSign s) ∧ afterSign s = s)) := by
  have hspace : StartsOutside space (UnsignedNumber base) :=
    startsOutside_unsignedNumber not_space_of_digitValue
  have hsign : StartsOutside isSign (UnsignedNumber base) :=
    startsOutside_unsignedNumber not_sign_of_digitValue
  have hend : strtolEnd s base = numberEnd base (afterSpaces (afterSign s)) := rfl
  cases hblank : space (current (afterSign s)) with
  | true =>
    -- the white space behind the sign is taken, too
    have hno : NoMatch (UnsignedNumber base) (afterSign s) := by
      rintro w r hw hword
      cases w with
      | nil => exact not_unsignedNumber_nil hword
      | cons c w =>
        rw [hw] at hblank
        exact Bool.eq_false_iff.1 (hspace c w hword) hblank
    rw [strtolNumber, (noMatch_signed hspace hsign not_unsignedNumber_nil hno).stopsAt_iff]
    refine iff_of_false (fun heq => ?_) (fun h => nomatch h.1)
    have hshort := length_afterSpaces_lt hblank
    have hsuffix := (numberEnd_suffix base (afterSpaces (afterSign s))).length_le
    have hwhole := (afterSign_suffix s).length_le
    rw [← hend, heq] at hsuffix
    omega
  | false =>
    have hkept : afterSpaces (afterSign s) = afterSign s := dropWhile_of_current hblank
    rw [hend, hkept, and_iff_right rfl]
    by_cases hreads : Reads base (afterSign s)
    · exact iff_of_true (.inl (matches_signed hspace hsign hreads.matches)) (.inl hreads)
    · rw [or_iff_right hreads]
      by_cases hhex : HexPrefixed base (afterSign s)
      · obtain ⟨hmatches, hne⟩ := matches_zero hhex hreads
        rw [strtolNumber, (matches_signed hspace hsign hmatches).stopsAt_iff]
        exact iff_of_false hne fun h => h.1 hhex
      · obtain ⟨hno, hend⟩ := noMatch_unsignedNumber hhex hreads
        rw [strtolNumber, (noMatch_signed hspace hsign not_unsignedNumber_nil hno).stopsAt_iff, hend,
          and_iff_right hhex]

end

/-! ### Decimal numbers -/

section

variable {s t v : List UInt8} {c : UInt8}

def fractionEnd (t : List UInt8) : List UInt8 :=
  if current t = '.'.toUInt8 then afterDecimals t.tail else t

theorem current_eq_point (h : current t = '.'.toUInt8) : ∃ d, t = '.'.toUInt8 :: d := by
  cases t with
  | nil => cases h
  | cons c d => exact ⟨d, by rw [← h]; rfl⟩

theorem matches_fraction (t : List UInt8) : Matches Fraction t (fractionEnd t) := by
  rw [fractionEnd]
  split
  case isTrue hpoint =>
    obtain ⟨d, rfl⟩ := current_eq_point hpoint
    have hdigits := matches_allOf (between '0' '9') d
    refine ⟨?_, ?_⟩
    · obtain ⟨w, hw, hall⟩ := hdigits.word
      exact ⟨'.'.toUInt8 :: w, congrArg _ hw, .inr ⟨w, rfl, hall⟩⟩
    · rintro w r hw (rfl | ⟨e, rfl, hall⟩)
      · rw [nil_append] at hw
        rw [← hw]
        exact (afterDecimals_suffix d).length_le.trans (Nat.le_succ _)
      · exact hdigits.longest e r (List.cons.inj hw).2 hall
  case isFalse hpoint =>
    refine ⟨⟨[], rfl, .inl rfl⟩, ?_⟩
    rintro w r rfl (rfl | ⟨e, rfl, -⟩)
    · exact le_rfl
    · exact absurd rfl hpoint

theorem isMark_iff : isMark c = true ↔ c = 'e'.toUInt8 ∨ c = 'E'.toUInt8 := by simp [isMark]

theorem mark_spec (c : UInt8) (h : isMark c = true) :
    c ≠ '.'.toUInt8 ∧ between '0' '9' c = false ∧ isSign c = false := by
  rcases isMark_iff.1 h with rfl | rfl <;> decide

theorem Exponent.isMark {w : List UInt8} (h : Exponent (c :: w)) : isMark c = true := by
  rcases h with hw | ⟨x, d, hw, hx, -⟩
  · cases hw
  · cases hw
    exact hx

theorem eager_fraction (t : List UInt8) : Eager Fraction Exponent t (fractionEnd t) := by
  rintro x t' rfl hx hne y r rfl hMy
  cases y with
  | nil => rfl
  | cons c y =>
    obtain ⟨hpoint, hdigit, -⟩ := mark_spec c hMy.isMark
    rcases hx with rfl | ⟨d, rfl, hall⟩
    · have hkept : fractionEnd (c :: y ++ r) = c :: y ++ r := if_neg hpoint
      rw [nil_append, hkept] at hne
      exact absurd rfl hne
    · have hend : fractionEnd ('.'.toUInt8 :: d ++ (c :: y ++ r)) = c :: y ++ r := by
        have hdrop : afterDecimals (d ++ (c :: y ++ r)) = c :: y ++ r := by
          rw [afterDecimals, dropWhile_append_of_pos hall]
          exact dropWhile_of_current hdigit
        exact (if_pos rfl).trans hdrop
      rw [hend] at hne
      exact absurd rfl hne

def ExponentReads (v : List UInt8) : Prop :=
  isMark (current v) = true → between '0' '9' (current (readSign v.tail).2) = true
deriving Decidable

theorem startsOutside_digits : StartsOutside isSign (SomeOf (between '0' '9')) := by
  intro c w hw
  exact not_sign_of_digitValue c (isSome_digitValue (hw.2 c mem_cons_self))

theorem matches_exponentDigits (h : between '0' '9' (current (readSign t).2) = true) :
    Matches (Seq OptionalSign (SomeOf (between '0' '9'))) t (afterDecimals (readSign t).2) :=
  (matches_sign t).seq (matches_someOf (takeWhile_ne_nil (by decide) h)) (eager_sign startsOutside_digits t)

theorem noMatch_exponentDigits (h : between '0' '9' (current (readSign t).2) = false) :
    NoMatch (Seq OptionalSign (SomeOf (between '0' '9'))) t :=
  (noMatch_someOf (takeWhile_eq_nil h)).seq (fun hempty => hempty.1 rfl) (eager_sign startsOutside_digits t)

theorem matches_exponent (h : ExponentReads v) : Matches Exponent v (exponentEnd v) := by
  rw [exponentEnd]
  split
  case isTrue he =>
    have hmark := isMark_iff.2 he
    have hdigits := matches_exponentDigits (h hmark)
    obtain ⟨x, d, rfl, hx⟩ := current_eq_cons (by decide) hmark
    refine ⟨?_, ?_⟩
    · obtain ⟨w, hw, hword⟩ := hdigits.word
      exact ⟨x :: w, congrArg _ hw, .inr ⟨x, w, rfl, hx, hword⟩⟩
    · rintro w r hw (rfl | ⟨y, e, rfl, -, hword⟩)
      · rw [nil_append] at hw
        rw [← hw]
        exact hdigits.suffix.length_le.trans (Nat.le_succ _)
      · exact hdigits.longest e r (List.cons.inj hw).2 hword
  case isFalse he =>
    refine ⟨⟨[], rfl, .inl rfl⟩, ?_⟩
    rintro w r rfl (rfl | ⟨y, e, rfl, hy, -⟩)
    · exact le_rfl
    · exact absurd (isMark_iff.1 hy) he

/-- The mark of an exponent without digits is not a part of the number. -/
theorem matches_exponent_nil (h : ¬ExponentReads v) : Matches Exponent v v ∧ exponentEnd v ≠ v := by
  rw [ExponentReads, Classical.not_imp, Bool.not_eq_true] at h
  obtain ⟨hmark, hdigits⟩ := h
  have hno := noMatch_exponentDigits hdigits
  have hend : exponentEnd v = afterDecimals (readSign v.tail).2 := by
    rw [exponentEnd, if_pos (isMark_iff.1 hmark)]
  have hsuffix := ((afterDecimals_suffix _).trans (readSign_suffix v.tail)).length_le
  rw [← hend] at hsuffix
  obtain ⟨x, d, rfl, -⟩ := current_eq_cons (by decide) hmark
  refine ⟨⟨⟨[], rfl, .inl rfl⟩, ?_⟩, ?_⟩
  · rintro w r hw (rfl | ⟨y, e, rfl, -, hword⟩)
    · exact (congrArg List.length hw).le
    · exact absurd hword (hno e r (List.cons.inj hw).2)
  · intro heq
    rw [heq] at hsuffix
    exact absurd hsuffix (by simp)

theorem startsOutside_decimal {p : UInt8 → Bool} {M : List UInt8 → Prop}
    (hp : ∀ c, between '0' '9' c = true → p c = false) :
    StartsOutside p (Seq (SomeOf (between '0' '9')) M) := by
  rintro c w ⟨x, y, hw, ⟨hne, hall⟩, -⟩
  obtain ⟨d, x, rfl⟩ := exists_cons_of_ne_nil hne
  cases hw
  exact hp c (hall c mem_cons_self)

theorem startsOutside_fraction : StartsOutside (between '0' '9') (Seq Fraction Exponent) := by
  refine StartsOutside.seq ?_ fun c w h => (mark_spec c h.isMark).2.1
  rintro c w (hw | ⟨d, hw, -⟩)
  · cases hw
  · rw [(List.cons.inj hw).1]
    decide

theorem matches_decimal {r : List UInt8} (hdigit : between '0' '9' (current t) = true)
    (h : Matches Exponent (mantissaEnd t) r) :
    Matches (Seq (SomeOf (between '0' '9')) (Seq Fraction Exponent)) t r := by
  refine Matches.someOf_seq startsOutside_fraction (takeWhile_ne_nil (by decide) hdigit) ?_
  exact (matches_fraction (afterDecimals t)).seq h (eager_fraction (afterDecimals t))

theorem stopsAt_strtodNumber_iff :
    StopsAt strtodNumber s (strtodEnd s) ↔
      if between '0' '9' (current (afterSign s)) = true then ExponentReads (mantissaEnd (afterSign s))
      else afterSign s = s := by
  have hspace : StartsOutside space (Seq (SomeOf (between '0' '9')) (Seq Fraction Exponent)) :=
    startsOutside_decimal fun c hc => not_space_of_digitValue c (isSome_digitValue hc)
  have hsign : StartsOutside isSign (Seq (SomeOf (between '0' '9')) (Seq Fraction Exponent)) :=
    startsOutside_decimal fun c hc => not_sign_of_digitValue c (isSome_digitValue hc)
  have hend : strtodEnd s = if between '0' '9' (current (afterSign s)) then
      exponentEnd (mantissaEnd (afterSign s)) else afterSign s := rfl
  rw [hend]
  by_cases hdigit : between '0' '9' (current (afterSign s)) = true
  · rw [if_pos hdigit, if_pos hdigit]
    by_cases hreads : ExponentReads (mantissaEnd (afterSign s))
    · have hmatches := matches_decimal hdigit (matches_exponent hreads)
      exact iff_of_true (.inl (matches_signed hspace hsign hmatches)) hreads
    · obtain ⟨hexponent, hne⟩ := matches_exponent_nil hreads
      have hmatches := matches_decimal hdigit hexponent
      rw [strtodNumber, (matches_signed hspace hsign hmatches).stopsAt_iff]
      exact iff_of_false hne hreads
  · rw [if_neg hdigit, if_neg hdigit]
    have hno : NoMatch (Seq (SomeOf (between '0' '9')) (Seq Fraction Exponent)) (afterSign s) := by
      rintro w r hw ⟨x, y, rfl, ⟨hne, hall⟩, -⟩
      obtain ⟨c, x, rfl⟩ := exists_cons_of_ne_nil hne
      rw [hw] at hdigit
      exact hdigit (hall c mem_cons_self)
    have hempty : ¬Seq (SomeOf (between '0' '9')) (Seq Fraction Exponent) [] := by
      rintro ⟨x, y, hw, ⟨hne, -⟩, -⟩
      exact hne (append_eq_nil_iff.1 hw.symm).1
    rw [strtodNumber, (noMatch_signed hspace hsign hempty hno).stopsAt_iff]

end

/-! ### The results -/

theorem strtol_ok {base : ℤ} (h : ∀ c ∈ s, Ascii c) :
    ∃ value, strtol s base = .ok (value, strtolEnd s base) := by
  have hspaces : Ascii (current (afterSpaces s)) := ascii_current_of_suffix (afterSpaces_suffix s) h
  have hend : Ascii (current (strtoulEnd (readSign (afterSpaces s)).2 base)) :=
    ascii_current_of_suffix (strtolEnd_suffix s base) h
  rw [strtol, skipSpaces_eq, if_pos hspaces]
  simp only [ok_bind, strtoul_eq, if_pos hend]
  exact ⟨_, rfl⟩

/-- **The numbers end where the longest one does**, and at the start of a string without a number, in
these cases and no others. For `strtoul`: a digit follows a prefix; or, without a prefix, there is a
number, or no white space. For `strtol`, the same behind the sign, where no white space may follow the
sign, and where there is neither white space nor a sign if there is no number. For `strtod`: digits
follow the mark of an exponent; or there is no number, no white space and no sign. -/
theorem numbers_end_iff (s : CString) (h : ∀ c ∈ s.1, Ascii c) :
    (∀ base : ℤ, ∃ value rest, strtoul s.1 base = .ok (value, rest) ∧
      (StopsAt (strtoulNumber base) s.1 rest ↔
        Reads base (afterSpaces s.1) ∨ (¬HexPrefixed base (afterSpaces s.1) ∧ afterSpaces s.1 = s.1))) ∧
    (∀ base : ℤ, ∃ value rest, strtol s.1 base = .ok (value, rest) ∧
      (StopsAt (strtolNumber base) s.1 rest ↔ space (current (afterSign s.1)) = false ∧
        (Reads base (afterSign s.1) ∨ (¬HexPrefixed base (afterSign s.1) ∧ afterSign s.1 = s.1)))) ∧
    ∃ value rest, strtod s.1 = .ok (value, rest) ∧
      (StopsAt strtodNumber s.1 rest ↔
        if between '0' '9' (current (afterSign s.1)) = true then
          ExponentReads (mantissaEnd (afterSign s.1))
        else afterSign s.1 = s.1) := by
  refine ⟨fun base => ?_, fun base => ?_, ?_⟩
  · have hend : Ascii (current (strtoulEnd s.1 base)) :=
      ascii_current_of_suffix (strtoulEnd_suffix s.1 base) h
    refine ⟨strtoulValue s.1 base, _, ?_, stopsAt_strtoulNumber_iff⟩
    rw [strtoul_eq, if_pos hend]
  · obtain ⟨value, hvalue⟩ := strtol_ok h
    exact ⟨value, _, hvalue, stopsAt_strtolNumber_iff⟩
  · have hend : Ascii (current (strtodEnd s.1)) := ascii_current_of_suffix (strtodEnd_suffix s.1) h
    have hscans := scans_strtod s.1
    rw [Scans, if_pos hend] at hscans
    obtain ⟨value, hvalue⟩ := hscans
    exact ⟨value, _, hvalue, stopsAt_strtodNumber_iff⟩

/-- A number that ends at a letter. -/
theorem numbers_end_twelve :
    StopsAt (strtoulNumber 10) [' '.toUInt8, '1'.toUInt8, '2'.toUInt8, 'a'.toUInt8] ['a'.toUInt8] := by
  obtain ⟨value, rest, hread, hiff⟩ := (numbers_end_iff
    ⟨[' '.toUInt8, '1'.toUInt8, '2'.toUInt8, 'a'.toUInt8], by decide⟩ (by decide +kernel)).1 10
  have heval : strtoul [' '.toUInt8, '1'.toUInt8, '2'.toUInt8, 'a'.toUInt8] 10 =
      .ok (12, ['a'.toUInt8]) := by decide +kernel
  rw [heval] at hread
  cases hread
  exact hiff.2 (.inl (by decide +kernel))

/-- The prefix of a number without digits is taken as a whole, and so is a sign without a number, and
an exponent without digits. -/
theorem not_numbers_end :
    (strtoul ['0'.toUInt8, 'x'.toUInt8, 'g'.toUInt8] 16 = .ok (0, ['g'.toUInt8]) ∧
      ¬StopsAt (strtoulNumber 16) ['0'.toUInt8, 'x'.toUInt8, 'g'.toUInt8] ['g'.toUInt8]) ∧
    (strtol ['-'.toUInt8] 10 = .ok (0, []) ∧ ¬StopsAt (strtolNumber 10) ['-'.toUInt8] []) ∧
    (strtod ['1'.toUInt8, 'e'.toUInt8] = .ok (⟨false, ['1'.toUInt8], [], false, []⟩, []) ∧
      ¬StopsAt strtodNumber ['1'.toUInt8, 'e'.toUInt8] []) := by
  have hhex : ¬StopsAt (strtoulNumber 16) ['0'.toUInt8, 'x'.toUInt8, 'g'.toUInt8]
      (strtoulEnd ['0'.toUInt8, 'x'.toUInt8, 'g'.toUInt8] 16) :=
    stopsAt_strtoulNumber_iff.not.2 (by decide +kernel)
  have hsign : ¬StopsAt (strtolNumber 10) ['-'.toUInt8] (strtolEnd ['-'.toUInt8] 10) :=
    stopsAt_strtolNumber_iff.not.2 (by decide +kernel)
  have hmark : ¬StopsAt strtodNumber ['1'.toUInt8, 'e'.toUInt8] (strtodEnd ['1'.toUInt8, 'e'.toUInt8]) :=
    stopsAt_strtodNumber_iff.not.2 (by decide +kernel)
  exact ⟨⟨by decide +kernel, hhex⟩, ⟨by decide +kernel, hsign⟩, by decide +kernel, hmark⟩

end Dx.Libc
