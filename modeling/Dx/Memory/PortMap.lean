import Dx.Memory.Bitmap

/-!
# The map of I/O ports

`io_port_map.cpp`: a bit for each of the 65536 ports of the processor, in 2048 words. A bit that is
set forbids the port. `disable` and `enable` are the same code, up to what they do to a part of a word
and what they write into a whole word; so there is one definition for both, and one description of
the bits it leaves (`changeFrom_spec`).

They are not as alike as they should be. A whole word of enabled ports is 0, but a whole word of
disabled ports is written as 0xFF, which forbids the first eight ports of the word and allows the
other 24.
-/

namespace Dx.Memory

open BitVec

/-- `io_port_map_c`: the words of the map, and from word 2048 on what lies behind it in memory. -/
structure PortMap where
  word : ℕ → BitVec 32

namespace PortMap

def wordCount : ℕ := 2048

def wordSize : ℕ := 32

def readBitIndex (index : UInt16) : ℕ := index.toNat % wordSize

def readWordIndex (index : UInt16) : ℕ := index.toNat / wordSize

def isEnabled (m : PortMap) (index : UInt16) : Bool :=
  m.word (readWordIndex index) &&& bit (readBitIndex index) == 0#32

/-- `word[k] = value`. -/
def write (m : PortMap) (k : ℕ) (value : BitVec 32) : PortMap :=
  ⟨Function.update m.word k value⟩

def new (behind : ℕ → BitVec 32) : PortMap :=
  ⟨fun k => if k < wordCount then 0xFFFFFFFF else behind k⟩

/-- What `disable` and `enable` do to the words. -/
structure Change where
  /-- To the bits of a mask. -/
  part : BitVec 32 → BitVec 32 → BitVec 32
  /-- To a word in the middle of the range. -/
  whole : BitVec 32

/-- The loop over the words in the middle, at most `fuel` of them; with the word and the count it
ends with. -/
def changeMiddle (c : Change) (m : PortMap) (wordIndex count : ℕ) : ℕ → PortMap × ℕ × ℕ
  | 0 => (m, wordIndex, count)
  | fuel + 1 =>
    if wordSize < count ∧ wordIndex < wordCount then
      changeMiddle c (m.write wordIndex c.whole) (wordIndex + 1) (count - wordSize) fuel
    else (m, wordIndex, count)

/-- `count` bits of one word, from `bitIndex` on. -/
def changePart (c : Change) (m : PortMap) (wordIndex bitIndex count : ℕ) : PortMap :=
  m.write wordIndex (c.part (m.word wordIndex) (makeMask32 bitIndex count))

/-- The words after the first one. -/
def changeFrom (c : Change) (m : PortMap) (wordIndex count : ℕ) : PortMap :=
  match changeMiddle c m wordIndex count wordCount with
  | (m, wordIndex, count) =>
    if count ≠ 0 ∧ wordIndex < wordCount then changePart c m wordIndex 0 count else m

def change (c : Change) (m : PortMap) (index count : UInt16) : PortMap :=
  let bitIndex := readBitIndex index
  let wordIndex := readWordIndex index
  if 0 < bitIndex then
    let partialCount := min count.toNat (wordSize - bitIndex)
    changeFrom c (changePart c m wordIndex bitIndex partialCount) (wordIndex + 1)
      (count.toNat - partialCount)
  else changeFrom c m wordIndex count.toNat

def disable (m : PortMap) (index count : UInt16) : PortMap :=
  change ⟨fun word mask => word ||| mask, 0xFF⟩ m index count

def enable (m : PortMap) (index count : UInt16) : PortMap :=
  change ⟨fun word mask => word &&& ~~~mask, 0⟩ m index count

/-! ### Bits -/

def forbidden (m : PortMap) (port : ℕ) : Bool := (m.word (port / 32)).getLsbD (port % 32)

/-- The bits of a mask get the value `b`, the other ones stay. -/
def Change.Puts (c : Change) (b : Bool) : Prop :=
  ∀ word mask j, j < 32 →
    (c.part word mask).getLsbD j = if mask.getLsbD j = true then b else word.getLsbD j

variable {c : Change} {b : Bool} {m : PortMap} {k i n port fuel : ℕ}

theorem isEnabled_eq (m : PortMap) (index : UInt16) :
    m.isEnabled index = !m.forbidden index.toNat := by
  have hlt : index.toNat % 32 < 32 := Nat.mod_lt _ (by decide)
  rw [isEnabled, forbidden, Bool.eq_iff_iff, beq_iff_eq, Bool.not_eq_true']
  constructor
  · intro h
    have hbit := congrArg (fun word => word.getLsbD (index.toNat % 32)) h
    simpa [readWordIndex, readBitIndex, wordSize, getLsbD_bit hlt] using hbit
  · intro h
    refine eq_of_getLsbD_eq fun j _ => ?_
    rw [getLsbD_and, readBitIndex, readWordIndex, wordSize, getLsbD_bit hlt, getLsbD_zero]
    by_cases hj : j = index.toNat % 32
    · rw [hj, h, Bool.false_and]
    · rw [decide_eq_false hj, Bool.and_false]

theorem word_write (k' : ℕ) (value : BitVec 32) :
    (m.write k value).word k' = if k' = k then value else m.word k' :=
  Function.update_apply m.word k value k'

theorem forbidden_changePart (hc : c.Puts b) (hn : i + n ≤ 32) :
    (changePart c m k i n).forbidden port =
      if k * 32 + i ≤ port ∧ port < k * 32 + i + n then b else m.forbidden port := by
  rw [forbidden, changePart, word_write]
  by_cases hk : port / 32 = k
  · have hin : (i ≤ port % 32 ∧ port % 32 < i + n) ↔
        k * 32 + i ≤ port ∧ port < k * 32 + i + n := by omega
    rw [if_pos hk, hc _ _ _ (Nat.mod_lt _ (by decide)), getLsbD_makeMask32 hn, forbidden, hk]
    exact if_congr (decide_eq_true_iff.trans hin) rfl rfl
  · have hout : ¬ (k * 32 + i ≤ port ∧ port < k * 32 + i + n) := by omega
    rw [if_neg hk, if_neg hout, forbidden]

/-- The loop stops before a word `k'`, and the words it has passed are written whole. -/
theorem changeMiddle_spec (c : Change) (m : PortMap) (k n fuel : ℕ) (hfuel : wordCount ≤ k + fuel) :
    ∃ m' k' n', changeMiddle c m k n fuel = (m', k', n') ∧ k' * 32 + n' = k * 32 + n ∧
      k ≤ k' ∧ (n' ≤ 32 ∨ wordCount ≤ k') ∧ (k' = k ∨ k' ≤ wordCount) ∧
      (k' = k ↔ ¬ (32 < n ∧ k < wordCount)) ∧
      ∀ j, m'.word j = if k ≤ j ∧ j < k' then c.whole else m.word j := by
  induction fuel generalizing m k n with
  | zero =>
    refine ⟨m, k, n, rfl, rfl, le_rfl, .inr hfuel, .inl rfl, ?_, fun j => ?_⟩
    · simp only [true_iff]
      omega
    · rw [if_neg (by omega)]
  | succ fuel ih =>
    rw [changeMiddle, wordSize]
    split
    case isTrue hcond =>
      obtain ⟨m', k', n', heq, hsum, hle, hend, hstop, -, hword⟩ :=
        ih (m.write k c.whole) (k + 1) (n - 32) (by omega)
      refine ⟨m', k', n', heq, by omega, by omega, hend, ?_, ?_, fun j => ?_⟩
      · omega
      · constructor
        · intro hk
          omega
        · intro hno
          exact absurd hcond hno
      · rw [hword, word_write]
        by_cases hj : j = k
        · rw [if_neg (by omega), if_pos hj, if_pos (by omega)]
        · rw [if_neg hj]
          exact if_congr (by omega) rfl rfl
    case isFalse hcond =>
      refine ⟨m, k, n, rfl, rfl, le_rfl, by omega, .inl rfl, ?_, fun j => ?_⟩
      · simp only [true_iff]
        exact hcond
      · rw [if_neg (by omega)]

/-- The words from `k` on: `k'` is the first word that is not written whole. -/
theorem changeFrom_spec (hc : c.Puts b) (m : PortMap) (k n : ℕ) :
    ∃ k', k ≤ k' ∧ (k' = k ↔ ¬ (32 < n ∧ k < wordCount)) ∧ k' * 32 ≤ k * 32 + n ∧
      (∀ j, wordCount ≤ j → (changeFrom c m k n).word j = m.word j) ∧
      ∀ port < 65536, (changeFrom c m k n).forbidden port =
        if k * 32 ≤ port ∧ port < k' * 32 then c.whole.getLsbD (port % 32)
        else if k * 32 ≤ port ∧ port < k * 32 + n then b
        else m.forbidden port := by
  have hcount : wordCount = 2048 := rfl
  obtain ⟨m', k', n', heq, hsum, hle, hend, hstop, hnone, hword⟩ :=
    changeMiddle_spec c m k n wordCount (by omega)
  have hbit : ∀ port, m'.forbidden port =
      if k * 32 ≤ port ∧ port < k' * 32 then c.whole.getLsbD (port % 32) else m.forbidden port := by
    intro port
    rw [forbidden, hword, forbidden, ← apply_ite (fun word : BitVec 32 => word.getLsbD (port % 32))]
    congr 1
    exact if_congr (by omega) rfl rfl
  rw [changeFrom, heq]
  dsimp only
  refine ⟨k', hle, hnone, by omega, ?_, ?_⟩
  · intro j hj
    have hunchanged : m'.word j = m.word j := by rw [hword, if_neg (by omega)]
    split
    case isTrue hcond => rw [changePart, word_write, if_neg (by omega), hunchanged]
    case isFalse => exact hunchanged
  · intro port hport
    split
    case isTrue hcond =>
      rw [forbidden_changePart hc (by omega), hbit]
      by_cases hmiddle : k * 32 ≤ port ∧ port < k' * 32
      · rw [if_neg (by omega), if_pos hmiddle, if_pos hmiddle]
      · rw [if_neg hmiddle, if_neg hmiddle]
        exact if_congr (by omega) rfl rfl
    case isFalse hcond =>
      rw [hbit]
      by_cases hmiddle : k * 32 ≤ port ∧ port < k' * 32
      · rw [if_pos hmiddle, if_pos hmiddle]
      · rw [if_neg hmiddle, if_neg hmiddle, if_neg (by omega)]

/-! ### Ranges of ports -/

/-- The number of ports in the first word, when the range begins within it. -/
def firstCount (index count : UInt16) : ℕ :=
  if index.toNat % 32 = 0 then 0 else min count.toNat (32 - index.toNat % 32)

def nextWord (index : UInt16) : ℕ :=
  if index.toNat % 32 = 0 then index.toNat / 32 else index.toNat / 32 + 1

/-- The range has a word in the middle, which the loop writes whole. -/
def HasMiddle (index count : UInt16) : Prop :=
  32 < count.toNat - firstCount index count ∧ nextWord index < wordCount
deriving Decidable

def InRange (index count : UInt16) (port : ℕ) : Prop :=
  index.toNat ≤ port ∧ port < index.toNat + count.toNat
deriving Decidable

/-- The bits after both operations; the words before `k'` are written whole. -/
theorem change_spec (hc : c.Puts b) (m : PortMap) (index count : UInt16) :
    ∃ k', nextWord index ≤ k' ∧ (k' = nextWord index ↔ ¬ HasMiddle index count) ∧
      (∀ port, nextWord index * 32 ≤ port → port < k' * 32 → InRange index count port) ∧
      (∀ j, wordCount ≤ j → (change c m index count).word j = m.word j) ∧
      ∀ port < 65536, (change c m index count).forbidden port =
        if nextWord index * 32 ≤ port ∧ port < k' * 32 then c.whole.getLsbD (port % 32)
        else if InRange index count port then b
        else m.forbidden port := by
  have hcount : wordCount = 2048 := rfl
  have hindex : index.toNat < 65536 := index.toNat_lt
  have hmem : ∀ port, InRange index count port ↔
      index.toNat ≤ port ∧ port < index.toNat + count.toNat := fun _ => Iff.rfl
  unfold HasMiddle
  rw [change, readBitIndex, readWordIndex, firstCount, nextWord, wordSize]
  by_cases hzero : index.toNat % 32 = 0
  · rw [if_pos hzero, if_pos hzero, if_neg (by omega), Nat.sub_zero]
    obtain ⟨k', hle, hnone, hend, hbehind, hbits⟩ :=
      changeFrom_spec hc m (index.toNat / 32) count.toNat
    have hstart : index.toNat / 32 * 32 = index.toNat := by omega
    rw [hstart] at hbits hend
    rw [hstart]
    exact ⟨k', hle, hnone, fun port hlow hhigh => (hmem port).2 (by omega), hbehind, hbits⟩
  · rw [if_neg hzero, if_neg hzero, if_pos (by omega)]
    generalize hfirst : min count.toNat (32 - index.toNat % 32) = first
    obtain ⟨k', hle, hnone, hend, hbehind, hbits⟩ := changeFrom_spec hc
      (changePart c m (index.toNat / 32) (index.toNat % 32) first) (index.toNat / 32 + 1)
      (count.toNat - first)
    refine ⟨k', hle, hnone, fun port hlow hhigh => (hmem port).2 (by omega), fun j hj => ?_,
      fun port hport => ?_⟩
    · rw [hbehind j hj, changePart, word_write, if_neg (by omega)]
    · rw [hbits port hport, forbidden_changePart hc (by omega)]
      by_cases hmiddle : (index.toNat / 32 + 1) * 32 ≤ port ∧ port < k' * 32
      · rw [if_pos hmiddle, if_pos hmiddle]
      · rw [if_neg hmiddle, if_neg hmiddle]
        by_cases hrange : InRange index count port
        · rw [if_pos hrange]
          rw [hmem] at hrange
          split
          · rfl
          · rw [if_pos (by omega)]
        · rw [if_neg hrange]
          rw [hmem] at hrange
          rw [if_neg (by omega), if_neg (by omega)]

theorem puts_enable : Change.Puts ⟨fun word mask => word &&& ~~~mask, 0⟩ false := by
  intro word mask j hj
  rw [getLsbD_and, getLsbD_not, decide_eq_true hj, Bool.true_and]
  cases mask.getLsbD j <;> simp

theorem puts_disable : Change.Puts ⟨fun word mask => word ||| mask, 0xFF⟩ true := by
  intro word mask j hj
  rw [getLsbD_or]
  cases mask.getLsbD j <;> simp

theorem isEnabled_enable (m : PortMap) (index count port : UInt16) :
    (m.enable index count).isEnabled port =
      (decide (InRange index count port.toNat) || m.isEnabled port) := by
  obtain ⟨k', -, -, hin, -, hbits⟩ := change_spec puts_enable m index count
  rw [isEnabled_eq, isEnabled_eq, enable, hbits port.toNat port.toNat_lt, ofNat_eq_ofNat,
    getLsbD_zero]
  by_cases hrange : InRange index count port.toNat
  · rw [if_pos hrange, ite_self, decide_eq_true hrange]
    rfl
  · have hmiddle : ¬ (nextWord index * 32 ≤ port.toNat ∧ port.toNat < k' * 32) := fun h =>
      hrange (hin _ h.1 h.2)
    rw [if_neg hmiddle, if_neg hrange, decide_eq_false hrange, Bool.false_or]

/-- `disable` forbids the ports of the range and no others, unless the range has a word in the
middle: its ninth port is allowed then. -/
theorem isEnabled_disable_iff (m : PortMap) (index count : UInt16) :
    (∀ port : UInt16, (m.disable index count).isEnabled port =
      (!decide (InRange index count port.toNat) && m.isEnabled port)) ↔ ¬ HasMiddle index count := by
  obtain ⟨k', hle, hnone, hin, -, hbits⟩ := change_spec puts_disable m index count
  constructor
  · intro h hmiddle
    have hlt : nextWord index * 32 + 8 < 65536 := by
      have hnext := hmiddle.2
      have hcount : wordCount = 2048 := rfl
      omega
    have hk' : nextWord index < k' := by
      have hne : k' ≠ nextWord index := fun heq => hnone.1 heq hmiddle
      omega
    have hport : (UInt16.ofNat (nextWord index * 32 + 8)).toNat = nextWord index * 32 + 8 :=
      UInt16.toNat_ofNat_of_lt hlt
    have hbit := h (.ofNat (nextWord index * 32 + 8))
    have hmod : (nextWord index * 32 + 8) % 32 = 8 := by omega
    rw [isEnabled_eq, disable, hport, hbits _ hlt, if_pos ⟨by omega, by omega⟩, hmod,
      decide_eq_true (hin _ (by omega) (by omega)), Bool.not_true, Bool.false_and] at hbit
    exact absurd hbit (by decide)
  · intro hmiddle port
    have hk' : k' = nextWord index := hnone.2 hmiddle
    rw [isEnabled_eq, isEnabled_eq, disable, hbits port.toNat port.toNat_lt, if_neg (by omega)]
    by_cases hrange : InRange index count port.toNat
    · rw [if_pos hrange, decide_eq_true hrange]
      rfl
    · rw [if_neg hrange, decide_eq_false hrange]
      rfl

/-- **Permissions of ports.** `enable` allows exactly the ports of the range besides those that were
allowed; `disable` forbids exactly the ports of the range besides those that were forbidden if and
only if the range has no word in the middle; and neither writes outside the map. -/
theorem port_permissions (m : PortMap) (index count : UInt16) :
    (∀ port : UInt16, (m.enable index count).isEnabled port =
      (decide (InRange index count port.toNat) || m.isEnabled port)) ∧
    ((∀ port : UInt16, (m.disable index count).isEnabled port =
      (!decide (InRange index count port.toNat) && m.isEnabled port)) ↔ ¬ HasMiddle index count) ∧
    ∀ j, wordCount ≤ j →
      (m.enable index count).word j = m.word j ∧ (m.disable index count).word j = m.word j := by
  refine ⟨isEnabled_enable m index count, isEnabled_disable_iff m index count, fun j hj => ?_⟩
  obtain ⟨-, -, -, -, henable, -⟩ := change_spec puts_enable m index count
  obtain ⟨-, -, -, -, hdisable, -⟩ := change_spec puts_disable m index count
  exact ⟨henable j hj, hdisable j hj⟩

/-- All ports are forbidden, and the first 64 ones are forbidden once more: port 8 is allowed. -/
theorem not_port_permissions :
    (new fun _ => 0).isEnabled 8 = false ∧ ((new fun _ => 0).disable 0 64).isEnabled 8 = true := by
  decide +kernel

end PortMap

end Dx.Memory
