import Dx.Libc.Ctype
import Dx.Library.Loop
import Dx.Memory.Bitmap
import Dx.User.Arguments
import Mathlib.Data.List.TakeWhile
import Mathlib.Order.Bounds.Defs

/-!
# Searching in strings

`strspn`, `strcspn` and `strpbrk` put the characters of their second string in a bitmap of 256 bits
and scan the first string with it. `strstr` keeps a table of 255 distances, by which the pattern is
moved along the text. The bitmap and the table are indexed by plain characters, and those are signed:
the index that is made of a character of 0x80 or above is negative, or, where it becomes unsigned, far
beyond the end.

In strings of 7-bit characters, the bitmap is the set of the characters (`mark_setBit`,
`mark_clearBit`), so that the scans find what they are to find (`span_functions`). And the distances
never move the pattern beyond an occurrence
(`not_mem_occurrences_of_skip`), so that `strstr` finds the first one (`strstr_first`).
-/

namespace Dx.Libc

open Library User Function List
open Memory (bit getLsbD_bit)

/-! ### The bitmap -/

def wordSize : ℕ := 32
def wordCount : ℕ := 256 / wordSize

/-- A character as an operand next to one of type `size_t`. -/
def promote (c : UInt8) : ℕ := (c.toBitVec.signExtend 32).toNat

def wordIndex (c : UInt8) : ℕ := promote c / wordSize
def bitIndex (c : UInt8) : ℕ := promote c % wordSize

/-- The words of a bitmap, below `wordCount`. -/
abbrev Words := ℕ → BitVec 32

def setBit (bitmap : Words) (c : UInt8) : Except Fault Words :=
  if wordIndex c < wordCount then
    .ok (Function.update bitmap (wordIndex c) (bitmap (wordIndex c) ||| bit (bitIndex c)))
  else .error .outside

def clearBit (bitmap : Words) (c : UInt8) : Except Fault Words :=
  if wordIndex c < wordCount then
    .ok (Function.update bitmap (wordIndex c) (bitmap (wordIndex c) &&& ~~~bit (bitIndex c)))
  else .error .outside

def isSet (bitmap : Words) (c : UInt8) : Except Fault Bool :=
  if wordIndex c < wordCount then .ok ((bitmap (wordIndex c)).getLsbD (bitIndex c))
  else .error .outside

/-- `while (*s2)`: each character of the string is set, or cleared. -/
def mark (change : Words → UInt8 → Except Fault Words) : Words → List UInt8 → Except Fault Words
  | bitmap, [] => .ok bitmap
  | bitmap, c :: s2 => do
    let bitmap ← change bitmap c
    mark change bitmap s2

def findPrefix (bitmap : Words) : List UInt8 → Except Fault (List UInt8)
  | [] => do
    -- behind the terminator there is nothing to scan
    if ← isSet bitmap 0 then .error .outside else return []
  | c :: s1 => do
    if ← isSet bitmap c then findPrefix bitmap s1 else return c :: s1

def strspn (s1 s2 : CString) : Except Fault ℕ := do
  let bitmap ← mark setBit (fun _ => 0) s2.1
  let c ← findPrefix bitmap s1.1
  return s1.1.length - c.length

def strcspn (s1 s2 : CString) : Except Fault ℕ := do
  let bitmap ← mark clearBit (fun _ => BitVec.allOnes 32) s2.1
  let bitmap ← clearBit bitmap 0
  let c ← findPrefix bitmap s1.1
  return s1.1.length - c.length

/-- The loop of `strpbrk`. -/
def findAny (bitmap : Words) : List UInt8 → Except Fault (Option (List UInt8))
  | [] => .ok none
  | c :: s1 => do
    if ← isSet bitmap c then return some (c :: s1) else findAny bitmap s1

def strpbrk (s1 s2 : CString) : Except Fault (Option (List UInt8)) := do
  let bitmap ← mark setBit (fun _ => 0) s2.1
  findAny bitmap s1.1

/-! ### The table of distances -/

def ucharMax : ℕ := 255

/-- The character of the string at the index, or its terminator. -/
def charAt (s : List UInt8) (i : ℕ) : Except Fault UInt8 :=
  if i ≤ s.length then .ok (s.getD i 0) else .error .outside

/-- `(int)c`, as an index of `bad_character_skip`. -/
def skipIndex (c : UInt8) : Except Fault ℕ :=
  if 0 ≤ c.toBitVec.toInt ∧ c.toBitVec.toInt < ucharMax then .ok c.toBitVec.toInt.toNat
  else .error .outside

/-- The loop that stores the distances of the characters, from the index `i` on. -/
def storeSkips (patternLength : ℕ) :
    ℕ → List UInt8 → (ℕ → ℕ) → Except Fault (ℕ → ℕ)
  | _, [], table => .ok table
  | i, c :: pattern, table => do
    let index ← skipIndex c
    storeSkips patternLength (i + 1) pattern (Function.update table index (patternLength - i - 1))

/-- `bad_character_skip`, below `ucharMax`. The last character of the pattern is not scanned. -/
def badCharacterSkip (pattern : List UInt8) : Except Fault (ℕ → ℕ) :=
  storeSkips pattern.length 0 pattern.dropLast fun _ => pattern.length

/-- Scans backwards from the offset: is the pattern found at `start`? -/
def matchBackwards (text pattern : List UInt8) (start : ℕ) : ℕ → Except Fault Bool
  | 0 => .ok true
  | offset + 1 => do
    let c ← charAt pattern offset
    let d ← charAt text (start + offset)
    if c = d then matchBackwards text pattern start offset else return false

/-- The loop of `strstr`, over the place in the text. -/
def searchBody (text pattern : List UInt8) (skip : ℕ → ℕ) (start : ℕ) :
    Except Fault (Pass ℕ (Option ℕ)) := do
  if start + pattern.length < text.length + 1 then    -- `text < search_end`
    if ← matchBackwards text pattern start pattern.length then return .done (some start)
    else
      let c ← charAt text (start + (pattern.length - 1))
      let index ← skipIndex c
      return .again (start + skip index)
  else return .done none

/-- `strstr`: where the pattern is found. Each pass of the loop moves the place on. -/
def strstr (text pattern : CString) : Except Fault (Pass ℕ (Option ℕ)) := do
  let skip ← badCharacterSkip pattern.1
  iterate (searchBody text.1 pattern.1 skip) (text.1.length + 2) 0

/-! ### The bitmap as a set of characters -/

theorem index_spec : ∀ c : UInt8, (wordIndex c < wordCount ↔ Ascii c) ∧
    (Ascii c → wordIndex c * 32 + bitIndex c = c.toNat) ∧
      skipIndex c = if Ascii c then .ok c.toNat else .error .outside := by
  decide +kernel

theorem wordIndex_lt_iff (c : UInt8) : wordIndex c < wordCount ↔ Ascii c := (index_spec c).1

theorem index_eq (c : UInt8) (h : Ascii c) : wordIndex c * 32 + bitIndex c = c.toNat :=
  (index_spec c).2.1 h

theorem bitIndex_lt (c : UInt8) : bitIndex c < 32 := Nat.mod_lt _ (by decide)

/-- The bitmap holds the 7-bit characters for which `p` is true. -/
def Holds (bitmap : Words) (p : UInt8 → Bool) : Prop :=
  ∀ c, isSet bitmap c = if Ascii c then .ok (p c) else .error .outside

variable {bitmap : Words} {p : UInt8 → Bool} {s pattern text : List UInt8} {n i start : ℕ}
  {table skip : ℕ → ℕ}

theorem holds_iff :
    Holds bitmap p ↔ ∀ c, Ascii c → (bitmap (wordIndex c)).getLsbD (bitIndex c) = p c := by
  simp only [Holds, isSet, wordIndex_lt_iff]
  constructor
  · intro h c hc
    simpa [hc] using h c
  · intro h c
    by_cases hc : Ascii c
    · simp [hc, h c hc]
    · simp [hc]

theorem eq_of_index {c d : UInt8} (hc : Ascii c) (hd : Ascii d) (hword : wordIndex c = wordIndex d)
    (hbit : bitIndex c = bitIndex d) : c = d := by
  apply UInt8.toNat_inj.1
  rw [← index_eq c hc, ← index_eq d hd, hword, hbit]

/-- The change of a bit writes `v` for a 7-bit character, and fails for any other. -/
def Writes (change : Words → UInt8 → Except Fault Words) (v : Bool) : Prop :=
  (∀ bitmap p c, Holds bitmap p → Ascii c →
    ∃ bitmap', change bitmap c = .ok bitmap' ∧ Holds bitmap' fun d => if d = c then v else p d) ∧
  ∀ bitmap c, ¬Ascii c → change bitmap c = .error .outside

/-- A word with another bit for a 7-bit character is one of a bitmap with another value for it. -/
theorem Holds.update {c : UInt8} {word : BitVec 32} {v : Bool} (h : Holds bitmap p) (hc : Ascii c)
    (hword : ∀ i < 32, word.getLsbD i = if i = bitIndex c then v else (bitmap (wordIndex c)).getLsbD i) :
    Holds (update bitmap (wordIndex c) word) fun d => if d = c then v else p d := by
  refine holds_iff.2 fun d hd => ?_
  rw [← holds_iff.1 h d hd, update_apply]
  by_cases hdc : d = c
  · simp [hdc, hword _ (bitIndex_lt c)]
  · rw [if_neg hdc]
    split
    · have hbit : bitIndex d ≠ bitIndex c := fun hbit => hdc (eq_of_index hd hc ‹_› hbit)
      rw [hword _ (bitIndex_lt d), if_neg hbit, ‹wordIndex d = wordIndex c›]
    · rfl

theorem writes_setBit : Writes setBit true := by
  refine ⟨fun bitmap p c h hc => ⟨_, if_pos ((wordIndex_lt_iff c).2 hc), h.update hc fun i hi => ?_⟩,
    fun bitmap c hc => if_neg ((wordIndex_lt_iff c).not.2 hc)⟩
  rw [BitVec.getLsbD_or, getLsbD_bit (bitIndex_lt c)]
  by_cases hi : i = bitIndex c <;> simp [hi]

theorem writes_clearBit : Writes clearBit false := by
  refine ⟨fun bitmap p c h hc => ⟨_, if_pos ((wordIndex_lt_iff c).2 hc), h.update hc fun i hi => ?_⟩,
    fun bitmap c hc => if_neg ((wordIndex_lt_iff c).not.2 hc)⟩
  rw [BitVec.getLsbD_and, BitVec.getLsbD_not, getLsbD_bit (bitIndex_lt c)]
  by_cases heq : i = bitIndex c
  · simp [heq]
  · simp [heq, hi]

theorem holds_zero : Holds (fun _ => 0) fun _ => false := by
  simp [holds_iff]

theorem holds_allOnes : Holds (fun _ => BitVec.allOnes 32) fun _ => true := by
  refine holds_iff.2 fun c _ => ?_
  rw [BitVec.getLsbD_allOnes, decide_eq_true (bitIndex_lt c)]

section

variable {change : Words → UInt8 → Except Fault Words} {v : Bool} {bitmap : Words}
  {p : UInt8 → Bool} {s : List UInt8}

theorem Writes.mark (hchange : Writes change v) (h : Holds bitmap p) (hs : ∀ c ∈ s, Ascii c) :
    ∃ bitmap', mark change bitmap s = .ok bitmap' ∧ Holds bitmap' fun d => if d ∈ s then v else p d := by
  induction s generalizing bitmap p with
  | nil => exact ⟨bitmap, rfl, by simpa using h⟩
  | cons c s ih =>
    obtain ⟨next, hnext, hholds⟩ := hchange.1 bitmap p c h (hs c mem_cons_self)
    obtain ⟨last, hlast, hmark⟩ := ih hholds fun d hd => hs d (mem_cons_of_mem c hd)
    refine ⟨last, by simp [Libc.mark, hnext, hlast], ?_⟩
    have heq : (fun d => if d ∈ c :: s then v else p d) =
        fun d => if d ∈ s then v else if d = c then v else p d := by
      funext d
      by_cases hd : d ∈ s <;> by_cases hc : d = c <;> simp [hd, hc]
    rwa [heq]

end

/-- The bitmap of `strspn` and `strpbrk`, for a set of 7-bit characters. -/
theorem mark_setBit (hs : ∀ c ∈ s, Ascii c) :
    ∃ bitmap, mark setBit (fun _ => 0) s = .ok bitmap ∧ Holds bitmap fun d => decide (d ∈ s) := by
  obtain ⟨bitmap, hmark, hholds⟩ := writes_setBit.mark holds_zero hs
  have hp : (fun d => if d ∈ s then true else false) = fun d => decide (d ∈ s) := by
    funext d
    simp
  exact ⟨bitmap, hmark, hp ▸ hholds⟩

/-- The bitmap of `strcspn`, as it is for the characters of another string. -/
theorem mark_clearBit (hs : ∀ c ∈ s, Ascii c) :
    ∃ marked bitmap, mark clearBit (fun _ => BitVec.allOnes 32) s = .ok marked ∧
      clearBit marked 0 = .ok bitmap ∧ Holds bitmap fun d => decide (d ≠ 0 ∧ d ∉ s) := by
  obtain ⟨marked, hmark, hmarked⟩ := writes_clearBit.mark holds_allOnes hs
  obtain ⟨bitmap, hclear, hholds⟩ := writes_clearBit.1 marked _ 0 hmarked (by decide)
  have hp : (fun d => if d = 0 then false else if d ∈ s then false else true) =
      fun d => decide (d ≠ 0 ∧ d ∉ s) := by
    funext d
    by_cases hzero : d = 0 <;> simp [hzero]
  exact ⟨marked, bitmap, hmark, hclear, hp ▸ hholds⟩

theorem takeWhile_congr {q : UInt8 → Bool} (h : ∀ c ∈ s, p c = q c) :
    s.takeWhile p = s.takeWhile q ∧ s.dropWhile p = s.dropWhile q := by
  induction s with
  | nil => exact ⟨rfl, rfl⟩
  | cons c s ih =>
    obtain ⟨hc, hs⟩ := forall_mem_cons.1 h
    simp only [takeWhile_cons, dropWhile_cons, hc, ih hs, and_self]

theorem takeWhile_ne_zero (s1 : CString) (set : List UInt8) :
    s1.1.takeWhile (fun c => decide (c ≠ 0 ∧ c ∉ set)) = s1.1.takeWhile (fun c => decide (c ∉ set)) ∧
      s1.1.dropWhile (fun c => decide (c ≠ 0 ∧ c ∉ set)) =
        s1.1.dropWhile fun c => decide (c ∉ set) := by
  refine takeWhile_congr fun c hc => ?_
  have hne : c ≠ 0 := fun heq => s1.2 (heq ▸ hc)
  simp [hne]

/-- The lengths of the beginnings of a string in which all characters are as `p` says. -/
def prefixLengths (p : UInt8 → Bool) (s : List UInt8) : Set ℕ :=
  { n | n ≤ s.length ∧ ∀ c ∈ s.take n, p c }

/-- The places of a string's characters that are as `p` says. -/
def places (p : UInt8 → Bool) (s : List UInt8) : Set ℕ := { i | ∃ c, s[i]? = some c ∧ p c }

theorem isGreatest_takeWhile (p : UInt8 → Bool) (s : List UInt8) :
    IsGreatest (prefixLengths p s) (s.takeWhile p).length := by
  have hpre := takeWhile_prefix p (l := s)
  refine ⟨⟨hpre.length_le, ?_⟩, ?_⟩
  · rw [← prefix_iff_eq_take.1 hpre]
    exact fun c hc => mem_takeWhile_imp hc
  · rintro n ⟨hn, hall⟩
    have hsplit : (s.take n ++ s.drop n).takeWhile p = s.take n ++ (s.drop n).takeWhile p :=
      takeWhile_append_of_pos hall
    rw [take_append_drop] at hsplit
    rw [hsplit, length_append, length_take, min_eq_left hn]
    exact Nat.le_add_right n _

theorem findPrefix_eq (h : Holds bitmap p) (hzero : p 0 = false) (hs : ∀ c ∈ s, Ascii c) :
    findPrefix bitmap s = .ok (s.dropWhile p) := by
  induction s with
  | nil => simp [findPrefix, h 0, hzero]
  | cons c s ih =>
    obtain ⟨hc, hs⟩ := forall_mem_cons.1 hs
    cases hp : p c with
    | true => simp [findPrefix, h c, hc, hp, ih hs]
    | false => simp [findPrefix, h c, hc, hp]

theorem findAny_eq (h : Holds bitmap p) (hs : ∀ c ∈ s, Ascii c) :
    findAny bitmap s = .ok none ∧ places p s = ∅ ∨
      ∃ i, findAny bitmap s = .ok (some (s.drop i)) ∧ IsLeast (places p s) i := by
  induction s with
  | nil => exact .inl ⟨rfl, by simp [places]⟩
  | cons c s ih =>
    obtain ⟨hc, hs⟩ := forall_mem_cons.1 hs
    cases hp : p c with
    | true =>
      refine .inr ⟨0, ?_, ⟨c, rfl, hp⟩, fun i _ => Nat.zero_le i⟩
      simp [findAny, h c, hc, hp]
    | false =>
      have hnext : findAny bitmap (c :: s) = findAny bitmap s := by
        simp [findAny, h c, hc, hp]
      have hplaces : ∀ i, i ∈ places p (c :: s) ↔ ∃ j ∈ places p s, i = j + 1 := by
        rintro (_ | i) <;> simp [places, hp]
      rw [hnext]
      rcases ih hs with ⟨hfind, hempty⟩ | ⟨i, hfind, hmem, hleast⟩
      · refine .inl ⟨hfind, Set.eq_empty_of_forall_notMem fun i hi => ?_⟩
        obtain ⟨j, hj, -⟩ := (hplaces i).1 hi
        exact (hempty ▸ hj : j ∈ (∅ : Set ℕ))
      · refine .inr ⟨i + 1, hfind, (hplaces _).2 ⟨i, hmem, rfl⟩, fun k hk => ?_⟩
        obtain ⟨j, hj, rfl⟩ := (hplaces k).1 hk
        exact Nat.succ_le_succ (hleast hj)

/-- **For strings of 7-bit characters, `strspn`, `strcspn` and `strpbrk` find what they are to find**:
the longest beginning inside of the set, the longest one outside of it, and the first character in the
set, or none. No character behind a terminator is read. -/
theorem span_functions (s1 s2 : CString) (h1 : ∀ c ∈ s1.1, Ascii c) (h2 : ∀ c ∈ s2.1, Ascii c) :
    (∃ n, strspn s1 s2 = .ok n ∧ IsGreatest (prefixLengths (fun c => decide (c ∈ s2.1)) s1.1) n) ∧
    (∃ n, strcspn s1 s2 = .ok n ∧ IsGreatest (prefixLengths (fun c => decide (c ∉ s2.1)) s1.1) n) ∧
    (strpbrk s1 s2 = .ok none ∧ places (fun c => decide (c ∈ s2.1)) s1.1 = ∅ ∨
      ∃ i, strpbrk s1 s2 = .ok (some (s1.1.drop i)) ∧
        IsLeast (places (fun c => decide (c ∈ s2.1)) s1.1) i) := by
  obtain ⟨bitmap, hmark, hholds⟩ := mark_setBit h2
  obtain ⟨marked, cleared, hmarked, hclear, hother⟩ := mark_clearBit h2
  have hlength : ∀ p : UInt8 → Bool, s1.1.length - (s1.1.dropWhile p).length =
      (s1.1.takeWhile p).length := by
    intro p
    have hsum := congrArg List.length (takeWhile_append_dropWhile (p := p) (l := s1.1))
    rw [length_append] at hsum
    omega
  refine ⟨⟨_, ?_, isGreatest_takeWhile _ _⟩, ⟨_, ?_, isGreatest_takeWhile _ _⟩, ?_⟩
  · simp only [strspn, hmark, findPrefix_eq hholds (decide_eq_false s2.2) h1, ok_bind, pure_eq_ok,
      hlength]
  · simp only [strcspn, hmarked, hclear, findPrefix_eq hother (by simp) h1, ok_bind, pure_eq_ok,
      hlength, (takeWhile_ne_zero s1 s2.1).1]
  · simp only [strpbrk, hmark, ok_bind]
    exact findAny_eq hholds h1

/-- Two characters of the first string are in the set. -/
theorem span_functions_ab :
    IsGreatest (prefixLengths (fun c => decide (c ∈ ['b'.toUInt8, 'a'.toUInt8]))
      ['a'.toUInt8, 'b'.toUInt8, 'c'.toUInt8]) 2 := by
  obtain ⟨⟨n, hn, hgreatest⟩, -⟩ := span_functions
    ⟨['a'.toUInt8, 'b'.toUInt8, 'c'.toUInt8], by decide⟩ ⟨['b'.toUInt8, 'a'.toUInt8], by decide⟩
    (by decide +kernel) (by decide +kernel)
  have heval : strspn ⟨['a'.toUInt8, 'b'.toUInt8, 'c'.toUInt8], by decide⟩
      ⟨['b'.toUInt8, 'a'.toUInt8], by decide⟩ = .ok 2 := by decide +kernel
  rw [heval] at hn
  cases hn
  exact hgreatest

/-! ### The search for a pattern -/

theorem skipIndex_eq (c : UInt8) : skipIndex c = if Ascii c then .ok c.toNat else .error .outside :=
  (index_spec c).2.2

theorem storeSkips_error (h : ¬∀ c ∈ pattern, Ascii c) :
    storeSkips n i pattern table = .error .outside := by
  induction pattern generalizing i table with
  | nil => simp at h
  | cons c pattern ih =>
    rw [storeSkips, skipIndex_eq]
    by_cases hc : Ascii c
    · have hrest : ¬∀ d ∈ pattern, Ascii d := fun hall => h (forall_mem_cons.2 ⟨hc, hall⟩)
      rw [if_pos hc]
      exact ih hrest
    · rw [if_neg hc]
      rfl

theorem storeSkips_ok (h : ∀ c ∈ pattern, Ascii c) (hlen : i + pattern.length < n)
    (htable : ∀ k, 0 < table k) :
    ∃ table', storeSkips n i pattern table = .ok table' ∧ ∀ k, 0 < table' k := by
  induction pattern generalizing i table with
  | nil => exact ⟨table, rfl, htable⟩
  | cons c pattern ih =>
    obtain ⟨hc, hrest⟩ := forall_mem_cons.1 h
    rw [length_cons] at hlen
    rw [storeSkips, skipIndex_eq, if_pos hc]
    refine ih hrest (by omega) fun k => ?_
    rw [update_apply]
    split
    · omega
    · exact htable k

theorem badCharacterSkip_ok (h : ∀ c ∈ pattern.dropLast, Ascii c) :
    ∃ skip, badCharacterSkip pattern = .ok skip ∧ (pattern ≠ [] → ∀ k, 0 < skip k) := by
  cases pattern with
  | nil => exact ⟨_, rfl, fun hne => absurd rfl hne⟩
  | cons c pattern =>
    have hlen : 0 + (c :: pattern).dropLast.length < (c :: pattern).length := by simp
    obtain ⟨skip, hskip, hpos⟩ := storeSkips_ok h hlen fun _ => Nat.succ_pos _
    exact ⟨skip, hskip, fun _ => hpos⟩

def OccursAt (text pattern : List UInt8) (start : ℕ) : Prop :=
  ∀ i < pattern.length, pattern.getD i 0 = text.getD (start + i) 0

theorem charAt_of_le (h : i ≤ s.length) : charAt s i = .ok (s.getD i 0) := if_pos h

theorem matchBackwards_eq {offset : ℕ} (htext : start + pattern.length ≤ text.length)
    (hoffset : offset ≤ pattern.length) :
    matchBackwards text pattern start offset =
      .ok (decide (∀ i < offset, pattern.getD i 0 = text.getD (start + i) 0)) := by
  induction offset with
  | zero => simp [matchBackwards]
  | succ offset ih =>
    rw [matchBackwards, charAt_of_le (by omega), charAt_of_le (by omega)]
    simp only [ok_bind, Nat.forall_lt_succ_right]
    split
    case isTrue heq =>
      rw [ih (by omega)]
      simp only [heq, and_true]
    case isFalse hne =>
      rw [decide_eq_false fun hall => hne hall.2]
      rfl

section

variable {text pattern : List UInt8} {skip : ℕ → ℕ} {start : ℕ}

theorem searchBody_of_gt (h : ¬start + pattern.length ≤ text.length) :
    searchBody text pattern skip start = .ok (.done none) := by
  rw [searchBody, if_neg (by omega)]
  rfl

theorem searchBody_of_occurs (h : start + pattern.length ≤ text.length)
    (hoccurs : OccursAt text pattern start) :
    searchBody text pattern skip start = .ok (.done (some start)) := by
  have hmatch : matchBackwards text pattern start pattern.length = .ok true := by
    rw [matchBackwards_eq h le_rfl]
    exact congrArg _ (decide_eq_true hoccurs)
  rw [searchBody, if_pos (by omega), hmatch]
  rfl

/-- Where the pattern is not found, it is moved on by the distance of the last character of the text
that it was compared with. -/
theorem searchBody_of_not_occurs (h : start + pattern.length ≤ text.length)
    (hoccurs : ¬OccursAt text pattern start) :
    searchBody text pattern skip start =
      if Ascii (text.getD (start + (pattern.length - 1)) 0) then
        .ok (.again (start + skip (text.getD (start + (pattern.length - 1)) 0).toNat))
      else .error .outside := by
  have hmatch : matchBackwards text pattern start pattern.length = .ok false := by
    rw [matchBackwards_eq h le_rfl]
    exact congrArg _ (decide_eq_false hoccurs)
  rw [searchBody, if_pos (by omega), hmatch, charAt_of_le (by omega)]
  simp only [bind, Except.bind, skipIndex_eq, Bool.false_eq_true, if_false]
  by_cases hc : Ascii (text.getD (start + (pattern.length - 1)) 0)
  · simp only [if_pos hc]
    rfl
  · simp only [if_neg hc]

theorem searchBody_shrinks (hskip : pattern ≠ [] → ∀ k, 0 < skip k) :
    Shrinks (searchBody text pattern skip) fun start => text.length + 1 - start := by
  intro start next hnext
  by_cases h : start + pattern.length ≤ text.length
  · by_cases hoccurs : OccursAt text pattern start
    · rw [searchBody_of_occurs h hoccurs] at hnext
      cases hnext
    · have hne : pattern ≠ [] := fun hnil => hoccurs (by simp [OccursAt, hnil])
      rw [searchBody_of_not_occurs h hoccurs] at hnext
      split at hnext
      · cases hnext
        have := hskip hne (text.getD (start + (pattern.length - 1)) 0).toNat
        dsimp only
        omega
      · cases hnext
  · rw [searchBody_of_gt h] at hnext
    cases hnext

theorem searchBody_eq_error_iff {e : Fault} :
    searchBody text pattern skip start = .error e ↔
      e = .outside ∧ start + pattern.length ≤ text.length ∧ ¬OccursAt text pattern start ∧
        ¬Ascii (text.getD (start + (pattern.length - 1)) 0) := by
  by_cases h : start + pattern.length ≤ text.length
  · by_cases hoccurs : OccursAt text pattern start
    · simp [searchBody_of_occurs h hoccurs, hoccurs]
    · rw [searchBody_of_not_occurs h hoccurs]
      split <;> simp_all [eq_comm]
  · simp [searchBody_of_gt h, h]

end

/-- The pattern is compared with the text at this place. -/
def Compared (text pattern : List UInt8) (start : ℕ) : Prop :=
  ∃ skip, badCharacterSkip pattern = .ok skip ∧ Reaches (searchBody text pattern skip) 0 start ∧
    start + pattern.length ≤ text.length

/-- `strstr` stays inside of its table when the characters of the pattern but the last, and the last
character of the text in each comparison that fails, are 7-bit ones. Then it comes to its end. -/
theorem inside_strstr_iff (text pattern : CString) :
    (∃ found, strstr text pattern = .ok (.done found)) ↔
      (∀ c ∈ pattern.1.dropLast, Ascii c) ∧
        ∀ start, Compared text.1 pattern.1 start → ¬OccursAt text.1 pattern.1 start →
          Ascii (text.1.getD (start + (pattern.1.length - 1)) 0) := by
  by_cases hpattern : ∀ c ∈ pattern.1.dropLast, Ascii c
  · obtain ⟨skip, hskip, hpos⟩ := badCharacterSkip_ok hpattern
    have hshrinks : Shrinks (searchBody text.1 pattern.1 skip) fun start => text.1.length + 1 - start :=
      searchBody_shrinks hpos
    have hdone := iterate_done_iff hshrinks (show text.1.length + 1 - 0 < text.1.length + 2 by omega)
    rw [strstr, hskip]
    refine hdone.trans ⟨fun h => ⟨hpattern, ?_⟩, fun h start hreach e he => ?_⟩
    · rintro start ⟨skip', hskip', hreach, hlen⟩ hoccurs
      rw [hskip] at hskip'
      cases hskip'
      by_contra hc
      exact h start hreach .outside (searchBody_eq_error_iff.2 ⟨rfl, hlen, hoccurs, hc⟩)
    · obtain ⟨-, hlen, hoccurs, hc⟩ := searchBody_eq_error_iff.1 he
      exact hc (h.2 start ⟨skip, hskip, hreach, hlen⟩ hoccurs)
  · have herror : strstr text pattern = .error .outside := by
      rw [strstr, badCharacterSkip, storeSkips_error hpattern]
      rfl
    rw [herror]
    exact iff_of_false (fun ⟨_, h⟩ => nomatch h) fun h => hpattern h.1

/-! ### The first occurrence -/

theorem storeSkips_le {b k : ℕ} {table' : ℕ → ℕ} (h : storeSkips n i pattern table = .ok table')
    (hb : n - i - 1 ≤ b) (htable : table k ≤ b) : table' k ≤ b := by
  induction pattern generalizing i table with
  | nil =>
    cases h
    exact htable
  | cons c pattern ih =>
    rw [storeSkips, skipIndex_eq] at h
    by_cases hc : Ascii c
    · rw [if_pos hc] at h
      refine ih h (by omega) ?_
      rw [update_apply]
      split
      · exact hb
      · exact htable
    · rw [if_neg hc] at h
      cases h

/-- The distance of a character is at most the one from any of its places to the end. -/
theorem storeSkips_get {j : ℕ} {table' : ℕ → ℕ} (h : storeSkips n i pattern table = .ok table')
    (hj : j < pattern.length) : table' (pattern.getD j 0).toNat ≤ n - (i + j) - 1 := by
  induction pattern generalizing i j table with
  | nil => cases hj
  | cons c pattern ih =>
    rw [storeSkips, skipIndex_eq] at h
    by_cases hc : Ascii c
    · rw [if_pos hc] at h
      cases j with
      | zero =>
        refine storeSkips_le h (by omega) ?_
        rw [getD_cons_zero, update_self]
        exact le_rfl
      | succ j =>
        have hrest := ih h (Nat.lt_of_succ_lt_succ hj)
        rw [getD_cons_succ]
        omega
    · rw [if_neg hc] at h
      cases h

/-- No distance moves the pattern beyond a place where it can be found. -/
theorem badCharacterSkip_le (h : badCharacterSkip pattern = .ok skip) :
    (∀ k, skip k ≤ pattern.length) ∧
      ∀ j, j + 1 < pattern.length → skip (pattern.getD j 0).toNat ≤ pattern.length - 1 - j := by
  refine ⟨fun k => storeSkips_le h (by omega) le_rfl, fun j hj => ?_⟩
  have hlength : j < pattern.dropLast.length := by
    rw [length_dropLast]
    omega
  have hget : pattern.dropLast.getD j 0 = pattern.getD j 0 := by
    rw [getD_eq_getElem _ _ hlength, getD_eq_getElem _ _ (by omega), getElem_dropLast]
  have hle := storeSkips_get h hlength
  rw [hget] at hle
  omega

theorem occursAt_iff (h : start + pattern.length ≤ text.length) :
    OccursAt text pattern start ↔ pattern <+: text.drop start := by
  rw [prefix_iff_getElem?]
  refine forall₂_congr fun i hi => ?_
  rw [List.getElem?_drop, List.getElem?_eq_getElem (by omega), getD_eq_getElem _ _ hi,
    getD_eq_getElem _ _ (by omega), Option.some_inj, eq_comm]

def occurrences (text pattern : List UInt8) : Set ℕ := { start | pattern <+: text.drop start }

theorem le_of_mem_occurrences (hne : pattern ≠ []) (h : start ∈ occurrences text pattern) :
    start + pattern.length ≤ text.length := by
  have hlength := h.length_le
  have hpos := length_pos_iff.2 hne
  rw [length_drop] at hlength
  omega

/-- **The places that are skipped are no occurrences**: the last character that was compared would be
in the pattern, nearer to its end than the distance says. -/
theorem not_mem_occurrences_of_skip {q : ℕ} (hskip : badCharacterSkip pattern = .ok skip)
    (hne : pattern ≠ []) (hlow : start < q)
    (hhigh : q < start + skip (text.getD (start + (pattern.length - 1)) 0).toNat) :
    q ∉ occurrences text pattern := by
  intro hq
  have hlength := le_of_mem_occurrences hne hq
  have hoccurs := (occursAt_iff hlength).2 hq
  obtain ⟨hle, hget⟩ := badCharacterSkip_le hskip
  have hall := hle (text.getD (start + (pattern.length - 1)) 0).toNat
  have hplace : q + (start + (pattern.length - 1) - q) = start + (pattern.length - 1) := by omega
  have hsame := hoccurs (start + (pattern.length - 1) - q) (by omega)
  have hnear := hget (start + (pattern.length - 1) - q) (by omega)
  rw [hsame, hplace] at hnear
  omega

/-- No pass leaves an occurrence behind. -/
theorem le_of_reaches (hskip : badCharacterSkip pattern = .ok skip)
    (h : Reaches (searchBody text pattern skip) 0 start) :
    start ∈ lowerBounds (occurrences text pattern) := by
  induction h with
  | refl => exact fun q _ => Nat.zero_le q
  | @tail place next _ hstep ih =>
    intro q hq
    have hle := ih hq
    by_cases hlength : place + pattern.length ≤ text.length
    swap
    · rw [searchBody_of_gt hlength] at hstep
      cases hstep
    by_cases hoccurs : OccursAt text pattern place
    · rw [searchBody_of_occurs hlength hoccurs] at hstep
      cases hstep
    have hne : pattern ≠ [] := fun hnil => hoccurs (by simp [OccursAt, hnil])
    rw [searchBody_of_not_occurs hlength hoccurs] at hstep
    split at hstep
    · cases hstep
      by_contra hlt
      have hother : place ≠ q := by
        rintro rfl
        exact hoccurs ((occursAt_iff hlength).2 hq)
      have hlow : place < q := by omega
      exact not_mem_occurrences_of_skip hskip hne hlow (by omega) hq
    · cases hstep

/-- **`strstr` finds the first occurrence of the pattern**, or that there is none, in strings of 7-bit
characters. -/
theorem strstr_first (text pattern : CString) (htext : ∀ c ∈ text.1, Ascii c)
    (hpattern : ∀ c ∈ pattern.1, Ascii c) :
    ∃ found, strstr text pattern = .ok (.done found) ∧
      (∀ start, found = some start ↔ IsLeast (occurrences text.1 pattern.1) start) ∧
      (found = none ↔ occurrences text.1 pattern.1 = ∅) := by
  have hascii : ∀ i, Ascii (text.1.getD i 0) := by
    intro i
    rw [getD_eq_getElem?_getD]
    cases hget : text.1[i]? with
    | none => decide
    | some c => exact htext c (mem_of_getElem? hget)
  obtain ⟨found, hfound⟩ := (inside_strstr_iff text pattern).2
    ⟨fun c hc => hpattern c (mem_of_mem_dropLast hc), fun start _ _ => hascii _⟩
  refine ⟨found, hfound, ?_⟩
  obtain ⟨skip, hskip, -⟩ := badCharacterSkip_ok fun c hc => hpattern c (mem_of_mem_dropLast hc)
  rw [strstr, hskip] at hfound
  obtain ⟨last, hlast, hdone⟩ := reaches_of_iterate_eq_done hfound
  have hlower := le_of_reaches hskip hlast
  by_cases hlength : last + pattern.1.length ≤ text.1.length
  · -- the loop is left only where the pattern is found
    have hoccurs : OccursAt text.1 pattern.1 last := by
      by_contra hoccurs
      rw [searchBody_of_not_occurs hlength hoccurs, if_pos (hascii _)] at hdone
      cases hdone
    rw [searchBody_of_occurs hlength hoccurs] at hdone
    cases hdone
    have hleast : IsLeast (occurrences text.1 pattern.1) last := ⟨(occursAt_iff hlength).1 hoccurs, hlower⟩
    refine ⟨fun start => ?_, iff_of_false (by simp) (Set.Nonempty.ne_empty ⟨last, hleast.1⟩)⟩
    rw [Option.some_inj]
    exact ⟨fun heq => heq ▸ hleast, fun h => le_antisymm (hleast.2 h.1) (h.2 hleast.1)⟩
  · rw [searchBody_of_gt hlength] at hdone
    cases hdone
    have hempty : occurrences text.1 pattern.1 = ∅ := by
      refine Set.eq_empty_of_forall_notMem fun q hq => hlength ?_
      have hle := hlower hq
      by_cases hne : pattern.1 = []
      · -- the pattern without characters is everywhere, so that the search has not gone on
        have hzero : last ≤ 0 := hlower (by simp [occurrences, hne])
        rw [hne, length_nil]
        omega
      · have hq' := le_of_mem_occurrences hne hq
        omega
    refine ⟨fun start => iff_of_false (by simp) fun h => ?_, iff_of_true rfl hempty⟩
    rw [hempty] at h
    exact h.1

/-- The pattern is in the text twice, and the first place is found. -/
theorem strstr_first_ab :
    IsLeast (occurrences ['a'.toUInt8, 'c'.toUInt8, 'a'.toUInt8, 'b'.toUInt8, 'a'.toUInt8, 'b'.toUInt8]
      ['a'.toUInt8, 'b'.toUInt8]) 2 := by
  obtain ⟨found, hfound, hsome, -⟩ := strstr_first
    ⟨['a'.toUInt8, 'c'.toUInt8, 'a'.toUInt8, 'b'.toUInt8, 'a'.toUInt8, 'b'.toUInt8], by decide⟩
    ⟨['a'.toUInt8, 'b'.toUInt8], by decide⟩ (by decide +kernel) (by decide +kernel)
  refine (hsome 2).1 ?_
  have heval : strstr
      ⟨['a'.toUInt8, 'c'.toUInt8, 'a'.toUInt8, 'b'.toUInt8, 'a'.toUInt8, 'b'.toUInt8], by decide⟩
      ⟨['a'.toUInt8, 'b'.toUInt8], by decide⟩ = .ok (.done (some 2)) := by decide +kernel
  rw [heval] at hfound
  cases hfound
  rfl

end Dx.Libc
