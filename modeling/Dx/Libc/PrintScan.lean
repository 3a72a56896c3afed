import Dx.Libc.Render
import Dx.Libc.RoundTrip
import Dx.Libc.Scan

/-!
# Integers written by `snprintf` and read by `sscanf`

A list of integers is written with a `%d` for each, with a blank between two of them, and the text is
read with the same format. Each number that is written as digits is read as a whole, up to the blank or
to the terminator, which is put back or not read at all. The run is followed over any source that keeps
to the rules.

The field of a number consists of digits only, so that a negative number is not read: its sign stays
where it is, and so do all the conversions that follow (`reaches_stuck`). What is assigned are the
numbers in front of the first negative one (`sscanf_text`).
-/

namespace Dx.Libc

open Library User List

/-! ### The format and the text -/

/-- The conversion `%d`. -/
def percentD : Conversion := ⟨[], 0, .d⟩

/-- The format with so many conversions, and with blanks between them. -/
def dPieces : ℕ → List Piece
  | 0 => []
  | 1 => [.conversion percentD]
  | n + 2 => .conversion percentD :: .literal ' '.toUInt8 (by decide) (by decide) :: dPieces (n + 1)

def dText : List (BitVec 32) → List UInt8
  | [] => []
  | [v] => itoa v 10
  | v :: w :: values => itoa v 10 ++ ' '.toUInt8 :: dText (w :: values)

theorem c99_percentD (v : BitVec 32) : c99Argument percentD (.int v) = some (itoa v 10) := by
  rw [itoa_ten]
  simp [c99Argument, percentD, Conversion.alternate, Conversion.zeros, field]

theorem agrees_percentD (v : BitVec 32) : Agrees percentD (.int v) := by
  have hpadding : percentD.padding (.int v) = 0 := by
    rw [Conversion.padding]
    exact Nat.zero_sub _
  exact ⟨by rw [hpadding]; omega, fun _ _ => hpadding⟩

theorem piece_percentD (v : BitVec 32) (arguments : List Argument) :
    Piece.c99 (.conversion percentD) (.int v :: arguments) = some (itoa v 10) ∧
      Piece.rest (.conversion percentD) (.int v :: arguments) = arguments :=
  ⟨c99_percentD v, rfl⟩

theorem c99_dPieces (values : List (BitVec 32)) :
    c99 (dPieces values.length) (values.map .int) = some (dText values) := by
  fun_induction dText values with
  | case1 => rfl
  | case2 v =>
    obtain ⟨htext, hrest⟩ := piece_percentD v []
    simp [dPieces, c99, htext]
  | case3 v w values ih =>
    obtain ⟨htext, hrest⟩ := piece_percentD v ((w :: values).map .int)
    have hblank : ∀ arguments, Piece.rest (.literal ' '.toUInt8 (by decide) (by decide)) arguments =
        arguments := fun _ => rfl
    rw [length_cons, length_cons, dPieces, c99, map_cons, htext, hrest, c99, hblank]
    rw [length_cons] at ih
    rw [ih]
    rfl

theorem allAgree_dPieces (values : List (BitVec 32)) :
    AllAgree (dPieces values.length) (values.map .int) := by
  fun_induction dText values with
  | case1 => trivial
  | case2 v => exact ⟨fun _ => agrees_percentD v, trivial⟩
  | case3 v w values ih => exact ⟨fun _ => agrees_percentD v, trivial, ih⟩

theorem vsnprintf_dPieces (values : List (BitVec 32)) {size : BitVec 32}
    (hsize : (dText values).length < size.toNat) :
    vsnprintf size (formatString (dPieces values.length)) (values.map .int) =
      .ok (some (dText values)) := by
  have hne : size ≠ 0 := by
    rintro rfl
    simp at hsize
  have htoNat := toNat_sub_one hne
  have hroom : (size - 1).toNat < 2 ^ 32 := (size - 1).isLt
  obtain ⟨last, hlast, hdone⟩ := reaches_of_allAgree hroom (dPieces values.length) (values.map .int) []
    (dText values) (c99_dPieces values) (allAgree_dPieces values) (by rw [length_nil]; omega)
  rw [vsnprintf_eq_some_iff]
  exact iterate_eq_done (vsnprintfBody_shrinks _) (Nat.lt_succ_self _) hlast hdone

/-! ### Reading a number -/

/-- The style of `%d`. -/
def dStyle : InputStyle := ⟨10, 64, true, typeInt⟩

theorem styleOf_d (format : List UInt8) :
    StyleSafe ('d'.toUInt8 :: format) ∧
      styleOf ('d'.toUInt8 :: format) = (dStyle, format) := by
  have hstar : 'd'.toUInt8 ≠ '*'.toUInt8 := by decide
  have hascii : Ascii 'd'.toUInt8 := by decide
  have hdigit : between '0' '9' 'd'.toUInt8 = false := by decide
  have hlength : readLength 0#32 ('d'.toUInt8 :: format) = (0#32, 'd'.toUInt8 :: format) := by
    rw [readLength, if_neg (by decide), if_neg (by decide)]
  have hcode : conversionCode 'd'.toUInt8 = some (typeInt, 10) := by decide
  refine ⟨?_, ?_⟩
  · simp [StyleSafe, afterStar, current_cons, hstar, hascii, hdigit]
  · simp [styleOf, afterStar, current_cons, hstar, hdigit, readConversion, hlength, hcode, dStyle]

/-- Digits, and then no digit. -/
structure NumberField (field rest : List UInt8) : Prop where
  digits : ∀ d ∈ field, between '0' '9' d = true
  length : field.length < 63
  ends : ∀ d, rest.head? = some d → Ascii d ∧ between '0' '9' d = false

section

variable {σ : Type} {source : Source σ} {left : σ → List UInt8} {field rest : List UInt8}

theorem NumberField.safe (h : NumberField field rest) :
    FieldSafe (fieldCharacter dStyle) 63 (field ++ rest) ∧ conversionText dStyle (field ++ rest) = field := by
  have hgoes : fieldCharacter dStyle = between '0' '9' := rfl
  have htake : (field ++ rest).take 63 = field ++ rest.take (63 - field.length) := by
    rw [take_append, take_of_length_le h.length.le]
  obtain ⟨room, hroom⟩ : ∃ room, 63 - field.length = room + 1 :=
    Nat.exists_eq_succ_of_ne_zero (Nat.sub_ne_zero_of_lt h.length)
  have htext : conversionText dStyle (field ++ rest) = field ++ (rest.take (room + 1)).takeWhile (between '0' '9') := by
    rw [← hroom, ← takeWhile_append_of_pos h.digits, ← htake]
    rfl
  rw [htext, FieldSafe, htake, hgoes, dropWhile_append_of_pos h.digits, hroom]
  cases rest with
  | nil => exact ⟨.inl (by simp [current]), by simp⟩
  | cons d rest =>
    obtain ⟨hascii, hdigit⟩ := h.ends d rfl
    rw [take_succ_cons, dropWhile_cons_of_neg (Bool.eq_false_iff.1 hdigit),
      takeWhile_cons_of_neg (Bool.eq_false_iff.1 hdigit)]
    exact ⟨.inl hascii, append_nil field⟩

/-- The loop is in front of a text, with a format, arguments and items. -/
structure Tracker.At (source : Source σ) (left : σ → List UInt8) (text format : List UInt8)
    (arguments : List ℕ) (items : List Item) (t : Tracker σ) : Prop where
  ready : source.Ready left t.c t.source
  c : t.c = text.head?
  left : left t.source = text.tail
  format : t.format = format
  arguments : t.arguments = arguments
  items : t.items = items

variable {text format : List UInt8} {arguments : List ℕ} {items : List Item} {t : Tracker σ} {c : UInt8}
  {v : BitVec 32}

theorem Tracker.At.ahead (h : t.At source left text format arguments items) : t.ahead left = text := by
  rw [Tracker.ahead, h.c, h.left]
  cases text <;> rfl

theorem read_of_left (h : source.Lawful left) {s : σ} (hs : left s = text) (htext : 0xFF ∉ text) :
    (source.read s).1 = text.head? ∧ left (source.read s).2 = text.tail := by
  cases text with
  | nil => exact h.read_nil s hs
  | cons c text => exact h.read_eq hs fun heq => htext (heq ▸ mem_cons_self)

theorem Tracker.At.body (h : source.Lawful left) {f : UInt8}
    (ht : t.At source left (c :: text) (f :: format) arguments items)
    (htype : f = '%'.toUInt8 → (styleOf format).1.type ∈ supportedTypes)
    (hsafe : PassSafe c f format arguments (c :: text)) :
    ∃ pass, source.vcscanfBody t = .ok pass ∧ source.Passed left t c f format pass := by
  have hends := Source.endsIff_vcscanfPass h ht.c ht.ready fun _ _ => htype
  rw [ht.arguments, ht.ahead] at hends
  obtain ⟨pass, hpass, hpassed⟩ := hends.1 hsafe
  refine ⟨pass, ?_, hpassed⟩
  rw [Source.vcscanfBody, ht.c, ht.format]
  exact hpass

/-- **The conversion `%d`** reads the digits that it is in front of, up to what ends them. If there are
none, the input stays as it is. -/
theorem Tracker.At.number (h : source.Lawful left) (hdigits : NumberField field rest)
    (htext : field ++ rest = c :: text) (hc : Ascii c ∧ space c = false) (heof : 0xFF ∉ field ++ rest)
    (hvalue : field ≠ [] → strtol field 10 = .ok (v, []))
    (ht : t.At source left (c :: text) ('%'.toUInt8 :: 'd'.toUInt8 :: format) (4 :: arguments) items) :
    ∃ u, source.vcscanfBody t = .ok (.again u) ∧
      u.At source left rest format arguments (if field = [] then items else items ++ [.int v]) := by
  obtain ⟨hstyle, hd⟩ := styleOf_d format
  obtain ⟨hfield, hconversion⟩ := hdigits.safe
  have hspace : Ascii '%'.toUInt8 ∧ space '%'.toUInt8 = false := by decide
  have hsafe : ConversionSafe dStyle (4 :: arguments) (field ++ rest) :=
    fun _ => ⟨hfield, fun _ _ => le_of_eq rfl⟩
  obtain ⟨pass, hpass, hpassed⟩ := ht.body h (fun _ => by rw [hd]; exact (by decide : dStyle.type ∈ supportedTypes))
    ⟨hspace.1, fun _ => ⟨hc.1, fun _ _ => ⟨hstyle, by rw [hd, ← htext]; exact hsafe⟩⟩⟩
  cases hpassed with
  | blank hf => exact absurd (hspace.2.symm.trans hf) (by decide)
  | white _ hwhite => exact absurd (hc.2.symm.trans hwhite) (by decide)
  | same _ _ hne => exact absurd rfl hne
  | mismatch _ _ hne => exact absurd rfl hne
  | @conversion converted _ _ _ hspec =>
    rw [hd, ht.ahead, ← htext, ht.arguments, ht.items] at hspec
    have htext' : converted.text = field := hspec.text.trans hconversion
    have hnot : ¬Fills dStyle (field ++ rest) := fun hfills => by
      have hlength := hfills.2.2
      rw [hconversion] at hlength
      exact absurd hlength (Nat.ne_of_lt hdigits.length)
    have hleft : left converted.source = rest := by
      have hskips := (hspec.account.2 hnot).eq_of_not_mem heof
      rw [htext'] at hskips
      exact append_cancel_left hskips
    have hread := read_of_left h hleft fun hmem => heof (mem_append_right field hmem)
    refine ⟨_, hpass, h.ready_read _, hread.1, hread.2, by rw [hd]; rfl, hspec.arguments, ?_⟩
    by_cases hnil : field = []
    · rw [if_pos hnil]
      exact hspec.unassigned (htext'.trans hnil)
    · obtain ⟨item, hitem, hitems⟩ := hspec.assigned rfl mem_cons_self (by rwa [htext'])
      have hint : coerce dStyle field = .ok (.int v) := by
        rw [coerce, if_pos (show dStyle.type = typeInt from rfl), show (dStyle.base : ℤ) = 10 from rfl,
          hvalue hnil]
        rfl
      rw [htext', hint] at hitem
      cases hitem
      rwa [if_neg hnil]

theorem Tracker.At.blank (h : source.Lawful left)
    (ht : t.At source left (c :: text) (' '.toUInt8 :: format) arguments items) :
    ∃ u, source.vcscanfBody t = .ok (.again u) ∧ u.At source left (c :: text) format arguments items := by
  have hblank : Ascii ' '.toUInt8 ∧ space ' '.toUInt8 = true := by decide
  obtain ⟨pass, hpass, hpassed⟩ := ht.body h (fun heq => absurd heq (by decide))
    ⟨hblank.1, fun hf => absurd (hblank.2.symm.trans hf) (by decide)⟩
  cases hpassed with
  | blank => exact ⟨_, hpass, ht.ready, ht.c, ht.left, rfl, ht.arguments, ht.items⟩
  | white hf | same hf | mismatch hf | conversion hf => exact absurd (hblank.2.symm.trans hf) (by decide)

theorem Tracker.At.skip (h : source.Lawful left) (heof : 0xFF ∉ text)
    (ht : t.At source left (' '.toUInt8 :: text) ('%'.toUInt8 :: 'd'.toUInt8 :: format) arguments items) :
    ∃ u, source.vcscanfBody t = .ok (.again u) ∧
      u.At source left text ('%'.toUInt8 :: 'd'.toUInt8 :: format) arguments items := by
  have hblank : Ascii ' '.toUInt8 ∧ space ' '.toUInt8 = true := by decide
  have hpercent : Ascii '%'.toUInt8 ∧ space '%'.toUInt8 = false := by decide
  obtain ⟨pass, hpass, hpassed⟩ := ht.body h (fun _ => by
    rw [(styleOf_d format).2]
    exact (by decide : dStyle.type ∈ supportedTypes))
    ⟨hpercent.1, fun _ => ⟨hblank.1, fun hc => absurd (hblank.2.symm.trans hc) (by decide)⟩⟩
  cases hpassed with
  | blank hf => exact absurd (hpercent.2.symm.trans hf) (by decide)
  | white =>
    have hread := read_of_left h ht.left heof
    exact ⟨_, hpass, h.ready_read _, hread.1, hread.2, ht.format, ht.arguments, ht.items⟩
  | same _ hc | mismatch _ hc | conversion _ hc => exact absurd (hblank.2.symm.trans hc) (by decide)

/-- The loop is left at the end of the format or of the input. -/
theorem Tracker.At.done (ht : t.At source left text format arguments items) (h : text = [] ∨ format = []) :
    source.vcscanfBody t = .ok (.done t) := by
  rw [Source.vcscanfBody, ht.c, ht.format]
  rcases h with rfl | rfl
  · rfl
  · cases text <;> rfl

theorem itoa_of_nonneg (h : 0 ≤ v.toInt) : itoa v 10 = uitoa v 10 := by
  have hslt : ¬v.slt 0 = true := by
    rw [BitVec.slt_iff_toInt_lt]
    exact not_lt.2 h
  rw [itoa, if_neg (fun hneg => hslt hneg.1), if_neg hslt, nil_append]

/-- The text of a negative number starts with its sign. -/
theorem itoa_of_neg (h : v.toInt < 0) : ∃ s, itoa v 10 = '-'.toUInt8 :: s := by
  have hslt : v.slt 0 = true := by
    rw [BitVec.slt_iff_toInt_lt]
    exact h
  rw [itoa, if_pos ⟨hslt, rfl⟩]
  exact ⟨_, rfl⟩

end

/-! ### The run -/

section

variable {σ : Type} {source : Source σ} {left : σ → List UInt8} {items : List Item} {rest : List UInt8}
  {v : BitVec 32} {t : Tracker σ}

theorem formatBytes_succ (n : ℕ) : formatBytes (dPieces (n + 2)) =
    '%'.toUInt8 :: 'd'.toUInt8 :: ' '.toUInt8 :: formatBytes (dPieces (n + 1)) := rfl

theorem formatBytes_one : formatBytes (dPieces 1) = ['%'.toUInt8, 'd'.toUInt8] := rfl

/-- At a sign, nothing is assigned any more. -/
theorem reaches_stuck (h : source.Lawful left) (heof : 0xFF ∉ '-'.toUInt8 :: rest) (n : ℕ)
    (ht : t.At source left ('-'.toUInt8 :: rest) (formatBytes (dPieces (n + 1))) (.replicate (n + 1) 4)
      items) :
    ∃ last, Reaches source.vcscanfBody t last ∧ source.vcscanfBody last = .ok (.done last) ∧
      last.items = items := by
  have hdigits : NumberField [] ('-'.toUInt8 :: rest) :=
    ⟨by simp, by decide, fun d hd => by rw [← Option.some.inj hd]; decide⟩
  have hsign (format : List UInt8) (arguments : List ℕ) (t : Tracker σ)
      (ht : t.At source left ('-'.toUInt8 :: rest) ('%'.toUInt8 :: 'd'.toUInt8 :: format) (4 :: arguments)
        items) : ∃ u, source.vcscanfBody t = .ok (.again u) ∧
        u.At source left ('-'.toUInt8 :: rest) format arguments items :=
    ht.number (v := 0) h hdigits rfl (by decide) heof (fun hne => absurd rfl hne)
  induction n generalizing t with
  | zero =>
    obtain ⟨u, hu, hat⟩ := hsign [] [] t ht
    exact ⟨u, .single hu, hat.done (.inr rfl), hat.items⟩
  | succ n ih =>
    obtain ⟨u, hu, hat⟩ := hsign _ _ t ht
    obtain ⟨w, hw, hat⟩ := hat.blank h
    obtain ⟨last, hlast, hdone⟩ := ih hat
    exact ⟨last, .head hu (.head hw hlast), hdone⟩

theorem uitoa_ten_spec (v : BitVec 32) :
    (∀ d ∈ uitoa v 10, between '0' '9' d = true) ∧ (uitoa v 10).length < 63 := by
  refine ⟨fun d hd => ?_, ?_⟩
  · obtain ⟨r, hr, rfl⟩ := mem_uitoa v (by decide) hd
    have hdigits : ∀ r < 10, between '0' '9' (digitCharacter r) = true := by decide
    exact hdigits r hr
  · exact (length_uitoa_le 10 10 v (by decide) (by decide)).trans_lt (by decide)

/-- What follows a number: nothing, or a blank. -/
def Separated (rest : List UInt8) : Prop := rest = [] ∨ ∃ s, rest = ' '.toUInt8 :: s

theorem Separated.digits (h : Separated rest) (hv : 0 ≤ v.toInt) : NumberField (itoa v 10) rest := by
  obtain ⟨hdigits, hlength⟩ := uitoa_ten_spec v
  rw [itoa_of_nonneg hv]
  refine ⟨hdigits, hlength, fun d hd => ?_⟩
  rcases h with rfl | ⟨s, rfl⟩
  · cases hd
  · rw [← Option.some.inj hd]
    decide

theorem at_itoa (h : source.Lawful left) (hv : 0 ≤ v.toInt) (hrest : Separated rest)
    (heof : 0xFF ∉ itoa v 10 ++ rest) {format : List UInt8} {arguments : List ℕ}
    (ht : t.At source left (itoa v 10 ++ rest) ('%'.toUInt8 :: 'd'.toUInt8 :: format) (4 :: arguments)
      items) :
    ∃ u, source.vcscanfBody t = .ok (.again u) ∧
      u.At source left rest format arguments (items ++ [.int v]) := by
  have hdigits := hrest.digits hv
  have hne : itoa v 10 ≠ [] := by
    rw [itoa_of_nonneg hv]
    exact uitoa_ne_nil v
  obtain ⟨c, s, hcons⟩ := exists_cons_of_ne_nil hne
  have hc : between '0' '9' c = true := hdigits.digits c (by rw [hcons]; exact mem_cons_self)
  have htext : itoa v 10 ++ rest = c :: (s ++ rest) := by rw [hcons]; rfl
  rw [htext] at ht
  have hnumber := ht.number h hdigits htext ⟨ascii_of_digit c hc, digit_not_space c hc⟩ heof
    fun _ => strtol_itoa v
  rwa [if_neg hne] at hnumber

theorem formatBytes_cons_percent (n : ℕ) : ∃ format, formatBytes (dPieces (n + 1)) =
    '%'.toUInt8 :: 'd'.toUInt8 :: format := by
  cases n with
  | zero => exact ⟨_, formatBytes_one⟩
  | succ n => exact ⟨_, formatBytes_succ n⟩

/-- **The numbers in front of the first negative one are read.** -/
theorem reaches_values (h : source.Lawful left) (items : List Item) (values : List (BitVec 32))
    (hne : values ≠ []) (heof : 0xFF ∉ dText values) {t : Tracker σ}
    (ht : t.At source left (dText values) (formatBytes (dPieces values.length))
      (.replicate values.length 4) items) :
    ∃ last, Reaches source.vcscanfBody t last ∧ source.vcscanfBody last = .ok (.done last) ∧
      last.items = items ++ (values.takeWhile fun v => decide (0 ≤ v.toInt)).map .int := by
  fun_induction dText values generalizing t items with
  | case1 => exact absurd rfl hne
  | case2 v =>
    by_cases hv : 0 ≤ v.toInt
    · rw [← append_nil (itoa v 10)] at ht heof
      obtain ⟨u, hu, hat⟩ := at_itoa h hv (.inl rfl) heof ht
      exact ⟨u, .single hu, hat.done (.inl rfl), by simpa [hv] using hat.items⟩
    · obtain ⟨s, hs⟩ := itoa_of_neg (not_le.1 hv)
      rw [hs] at ht heof
      obtain ⟨last, hlast, hdone, hitems⟩ := reaches_stuck h heof 0 ht
      exact ⟨last, hlast, hdone, by simpa [hv] using hitems⟩
  | case3 v w values ih =>
    by_cases hv : 0 ≤ v.toInt
    · rw [length_cons, length_cons, formatBytes_succ, replicate_succ] at ht
      obtain ⟨format, hformat⟩ := formatBytes_cons_percent values.length
      have hrest : 0xFF ∉ dText (w :: values) := fun hmem =>
        heof (mem_append_right _ (mem_cons_of_mem _ hmem))
      obtain ⟨u, hu, hat⟩ := at_itoa h hv (.inr ⟨_, rfl⟩) heof ht
      obtain ⟨x, hx, hat⟩ := hat.blank h
      rw [length_cons] at ih
      rw [hformat] at hat ih
      obtain ⟨y, hy, hat⟩ := hat.skip h hrest
      obtain ⟨last, hlast, hdone, hitems⟩ := ih (items ++ [.int v]) (by simp) hrest hat
      exact ⟨last, .head hu (.head hx (.head hy hlast)), hdone, by simpa [hv] using hitems⟩
    · obtain ⟨s, hs⟩ := itoa_of_neg (not_le.1 hv)
      rw [hs] at ht heof
      obtain ⟨last, hlast, hdone, hitems⟩ := reaches_stuck h heof (values.length + 1) ht
      exact ⟨last, hlast, hdone, by simpa [hv] using hitems⟩

end

theorem mem_itoa {d : UInt8} (h : d ∈ itoa v 10) : d = '-'.toUInt8 ∨ between '0' '9' d = true := by
  rw [itoa] at h
  rcases mem_append.1 h with hsign | hdigit
  · left
    split at hsign
    · exact mem_singleton.1 hsign
    · cases hsign
  · exact .inr ((uitoa_ten_spec _).1 d hdigit)

theorem mem_dText {values : List (BitVec 32)} {d : UInt8} (h : d ∈ dText values) :
    d = ' '.toUInt8 ∨ d = '-'.toUInt8 ∨ between '0' '9' d = true := by
  fun_induction dText values with
  | case1 => cases h
  | case2 v => exact .inr (mem_itoa h)
  | case3 v w values ih =>
    rcases mem_append.1 h with h | h
    · exact .inr (mem_itoa h)
    · rcases mem_cons.1 h with rfl | h
      · exact .inl rfl
      · exact ih h

def dString (values : List (BitVec 32)) : CString :=
  ⟨dText values, fun h => absurd (mem_dText h) (by decide)⟩

/-- **What is assigned** are the numbers in front of the first negative one. -/
theorem sscanf_text (values : List (BitVec 32)) :
    sscanf (dString values) (formatString (dPieces values.length)) (.replicate values.length 4) =
      .ok (some ((values.takeWhile fun v => decide (0 ≤ v.toInt)).map .int)) := by
  by_cases hne : values = []
  · subst hne
    decide +kernel
  have hlawful := Source.string_lawful (dString values).1
  have heof : 0xFF ∉ dText values := fun h => absurd (mem_dText h) (by decide)
  have hread := read_of_left hlawful (s := 0) drop_zero heof
  have hstart : ((Source.string (dString values).1).start 0 (formatString (dPieces values.length)).1
      (.replicate values.length 4)).At (.string (dString values).1) (Source.after (dString values).1)
      (dText values) (formatBytes (dPieces values.length)) (.replicate values.length 4) [] :=
    ⟨hlawful.ready_read 0, hread.1, hread.2, rfl, rfl, rfl⟩
  obtain ⟨last, hlast, hdone, hitems⟩ := reaches_values hlawful [] values hne heof hstart
  obtain ⟨after, hafter, -⟩ := (hlawful.ready_of_reaches hlast).giveBack
  have hiterate := iterate_eq_done vcscanfBody_shrinks (Nat.lt_succ_self _) hlast hdone
  rw [sscanf, hiterate]
  simp only [ok_bind, hafter, hitems]
  rfl

/-- What `sscanf` returns: the number of the items, or `EOF`. -/
def itemsMatched (items : List Item) : ℤ := if 0 < items.length then items.length else -1

/-- **Integers that are written with `%d` are read back**, and their number is returned, if and only if
there is one and none of them is negative. -/
theorem print_scan (values : List (BitVec 32)) (size : BitVec 32)
    (hsize : (dText values).length < size.toNat) :
    ∃ text items,
      vsnprintf size (formatString (dPieces values.length)) (values.map .int) = .ok (some text.1) ∧
      sscanf text (formatString (dPieces values.length)) (.replicate values.length 4) = .ok (some items) ∧
      (items = values.map .int ∧ itemsMatched items = values.length ↔
        values ≠ [] ∧ ∀ v ∈ values, 0 ≤ v.toInt) := by
  refine ⟨dString values, _, vsnprintf_dPieces values hsize, sscanf_text values, ?_⟩
  have hall : (values.takeWhile fun v => decide (0 ≤ v.toInt)).map Item.int = values.map .int ↔
      ∀ v ∈ values, 0 ≤ v.toInt := by
    have hinjective : Function.Injective Item.int := fun _ _ h => Item.int.inj h
    rw [(map_injective_iff.2 hinjective).eq_iff, takeWhile_eq_self_iff]
    simp
  constructor
  · rintro ⟨hitems, hmatched⟩
    refine ⟨?_, hall.1 hitems⟩
    rintro rfl
    exact absurd hmatched (by decide)
  · rintro ⟨hne, hnonneg⟩
    have hitems := hall.2 hnonneg
    have hpos := length_pos_iff.2 hne
    rw [hitems, itemsMatched, length_map, if_pos hpos]
    exact ⟨rfl, rfl⟩

/-- Two numbers are written and read. -/
theorem print_scan_two :
    ∃ items, sscanf (dString [7, 12]) (formatString (dPieces 2)) [4, 4] = .ok (some items) ∧
      items = [.int 7, .int 12] ∧ itemsMatched items = 2 := by
  obtain ⟨text, items, hprint, hscan, hiff⟩ := print_scan [7, 12] 100 (by decide +kernel)
  have htext : vsnprintf 100 (formatString (dPieces 2)) [.int 7, .int 12] =
      .ok (some (dString [7, 12]).1) := by decide +kernel
  have hsame : dString [7, 12] = text := by
    have heq : (.ok (some (dString [7, 12]).1) : Except Fault (Option (List UInt8))) = .ok (some text.1) :=
      htext.symm.trans hprint
    exact Subtype.ext (Option.some.inj (Except.ok.inj heq))
  have hnonneg : ∀ v ∈ ([7, 12] : List (BitVec 32)), 0 ≤ v.toInt := by
    rw [forall_mem_cons, forall_mem_singleton]
    decide
  rw [hsame]
  exact ⟨items, hscan, hiff.2 ⟨by decide, hnonneg⟩⟩

/-- A negative number is written but not read, and neither are the ones that follow. Without a number,
`EOF` is returned. -/
theorem not_print_scan :
    (vsnprintf 100 (formatString (dPieces 3)) [.int 1, .int (-2), .int 3] =
        .ok (some ("1 -2 3".toList.map Char.toUInt8)) ∧
      sscanf (dString [1, -2, 3]) (formatString (dPieces 3)) [4, 4, 4] = .ok (some [.int 1])) ∧
    (sscanf (dString []) (formatString (dPieces 0)) [] = .ok (some []) ∧ itemsMatched [] = -1) := by
  decide +kernel

end Dx.Libc
