import Dx.Libc.Source

/-!
# What formatted input does

Over every source that keeps to the rules, each function of `vcscanf` is described by when it comes to
its end and by what it then leaves (`EndsIff`): a conversion uses a field of the input
(`conversionText`), and what it leaves in front are the other characters, or one of its own once more
(`Accounts`).

For a string this gives the exact condition under which `sscanf` stays inside of its strings, of the
table and of the objects of its arguments, to which those of the other functions are added that make an
index of a character (`lookups_inside_iff`).
-/

namespace Dx.Libc

open Library User List Nat

/-! ### The format -/

/-- The characters of the format that are looked up for a conversion are 7-bit ones. -/
def StyleSafe (format : List UInt8) : Prop :=
  Ascii (current (afterStar format)) ∧
    (between '0' '9' (current (afterStar format)) = true →
      Ascii (current (strtoulEnd (afterStar format) 10)))

/-- The style that the format asks for, and what follows. -/
def styleOf (format : List UInt8) : InputStyle × List UInt8 :=
  let assign := decide (current format ≠ '*'.toUInt8)
  if between '0' '9' (current (afterStar format)) then
    readConversion assign (strtoulValue (afterStar format) 10) (strtoulEnd (afterStar format) 10)
  else readConversion assign 64 (afterStar format)

theorem readFormatStyle_ok {format : List UInt8} (h : StyleSafe format) :
    readFormatStyle format = .ok (styleOf format) := by
  rw [readFormatStyle, isdigit_eq, if_pos h.1, styleOf]
  simp only [ok_bind]
  split
  · rw [strtoul_eq, if_pos (h.2 ‹_›)]
    rfl
  · rfl

theorem readFormatStyle_error {format : List UInt8} (h : ¬StyleSafe format) :
    readFormatStyle format = .error .outside := by
  rw [readFormatStyle, isdigit_eq]
  by_cases hc : Ascii (current (afterStar format))
  · have hdigit : between '0' '9' (current (afterStar format)) = true ∧
        ¬Ascii (current (strtoulEnd (afterStar format) 10)) := by
      by_contra hnot
      exact h ⟨hc, fun hd => not_not.1 fun hend => hnot ⟨hd, hend⟩⟩
    rw [if_pos hc]
    simp only [bind, Except.bind, hdigit.1, if_true]
    rw [strtoul_eq, if_neg hdigit.2]
  · rw [if_neg hc]
    rfl

theorem readLength_length (type : BitVec 32) (format : List UInt8) :
    (readLength type format).2.length ≤ format.length := by
  induction format generalizing type with
  | nil => exact le_rfl
  | cons f format ih =>
    rw [readLength]
    split_ifs
    · exact (ih _).trans (le_succ _)
    · exact (ih _).trans (le_succ _)
    · exact le_rfl

theorem readConversion_length (assign : Bool) (width : BitVec 32) (format : List UInt8) :
    (readConversion assign width format).2.length ≤ format.length := by
  have hlength := readLength_length 0 format
  rw [readConversion]
  split
  · rw [length_tail]
    omega
  · exact hlength

/-- What follows a conversion is not longer than the format that it is in. -/
theorem styleOf_length (format : List UInt8) : (styleOf format).2.length ≤ format.length := by
  have hstar : (afterStar format).length ≤ format.length := by
    rw [afterStar]
    split
    · rw [length_tail]
      omega
    · exact le_rfl
  rw [styleOf]
  split
  · exact (readConversion_length ..).trans ((strtoulEnd_suffix _ _).length_le.trans hstar)
  · exact (readConversion_length ..).trans hstar

theorem endsIff_readFormatStyle {format : List UInt8} :
    EndsIff (readFormatStyle format) (StyleSafe format) fun style => style = styleOf format :=
  ⟨fun h => ⟨_, readFormatStyle_ok h, rfl⟩, readFormatStyle_error⟩

/-! ### The fields of the input -/

def inString (c : UInt8) : Bool := decide (Ascii c) && !space c

theorem ascii_of_inString (c : UInt8) (h : inString c = true) : Ascii c := by
  simp only [inString, Bool.and_eq_true, decide_eq_true_eq] at h
  exact h.1

theorem isspace_stops (c : UInt8) :
    isspace c = if Ascii c then .ok (!inString c) else .error .outside := by
  rw [isspace_eq]
  by_cases hc : Ascii c
  · simp [hc, inString]
  · simp [hc]

theorem digit_not_space (c : UInt8) (h : between '0' '9' c = true) : space c = false :=
  not_space_of_digitValue c (isSome_digitValue h)

theorem numberStops_eq (c : UInt8) :
    numberStops c = if Ascii c then .ok (!between '0' '9' c) else .error .outside := by
  rw [numberStops, isspace_eq, isdigit_eq]
  by_cases hc : Ascii c
  · have hdigit := digit_not_space c
    simp only [if_pos hc, ok_bind]
    cases hspace : space c with
    | false => rfl
    | true =>
      cases hd : between '0' '9' c with
      | false => rfl
      | true => simp [hdigit hd] at hspace
  · simp only [if_neg hc]
    rfl

def fieldTypes : List (BitVec 32) := [typeInt, typeDouble, typeString]

/-- The conversions that `vcscanf` supports. -/
def supportedTypes : List (BitVec 32) := typePercent :: fieldTypes

/-- The characters that may be in the field of a conversion. -/
def fieldCharacter (style : InputStyle) (c : UInt8) : Bool :=
  if style.type = typeString then inString c else between '0' '9' c

theorem ascii_of_fieldCharacter {style : InputStyle} {c : UInt8} (h : fieldCharacter style c = true) :
    Ascii c := by
  rw [fieldCharacter] at h
  split at h
  · exact ascii_of_inString c h
  · exact ascii_of_digit c h

theorem fieldCharacter_genuine {style : InputStyle} {c : UInt8} (h : fieldCharacter style c = true) :
    c ≠ 0xFF := by
  rintro rfl
  exact absurd (ascii_of_fieldCharacter h) (by decide)

/-- The characters that a conversion uses of those in front of it. -/
def conversionText (style : InputStyle) (ahead : List UInt8) : List UInt8 :=
  if style.type = typePercent then if ahead.head? = some '%'.toUInt8 then ['%'.toUInt8] else []
  else (ahead.take (style.fieldWidth.toNat - 1)).takeWhile (fieldCharacter style)

/-- The field of a conversion fills its array, up to the place of the terminator. -/
def Fills (style : InputStyle) (ahead : List UInt8) : Prop :=
  style.type ≠ typePercent ∧ 1 < style.fieldWidth.toNat ∧
    (conversionText style ahead).length = style.fieldWidth.toNat - 1

/-- The character that ends a field is a 7-bit one, or `EOF`. -/
def FieldSafe (goes : UInt8 → Bool) (room : ℕ) (ahead : List UInt8) : Prop :=
  Ascii (current ((ahead.take room).dropWhile goes)) ∨
    current ((ahead.take room).dropWhile goes) = 0xFF

section

variable {goes : UInt8 → Bool} {room : ℕ} {ahead : List UInt8} {c : UInt8}

theorem fieldSafe_nil : FieldSafe goes room [] := .inl (by simp [current])

theorem fieldSafe_zero : FieldSafe goes 0 ahead := .inl (by simp [current])

theorem fieldSafe_stop (h : goes c = false) :
    FieldSafe goes (room + 1) (c :: ahead) ↔ Ascii c ∨ c = 0xFF := by
  rw [FieldSafe, take_succ_cons, dropWhile_cons_of_neg (Bool.eq_false_iff.1 h)]
  rfl

theorem fieldSafe_go (h : goes c = true) :
    FieldSafe goes (room + 1) (c :: ahead) ↔ FieldSafe goes room ahead := by
  rw [FieldSafe, take_succ_cons, dropWhile_cons_of_pos h]
  rfl

end

/-! ### Characters that are taken for the end of the input -/

/-- The second list is the first, except that some characters 0xFF are left out. -/
def Skips (l m : List UInt8) : Prop := m.Sublist l ∧ m.filter (· ≠ 0xFF) = l.filter (· ≠ 0xFF)

/-- One character 0xFF may be left out in front. -/
def SkipsOne (l m : List UInt8) : Prop := l = m ∨ l = 0xFF :: m

def genuine (l : List UInt8) : ℕ := (l.filter (· ≠ 0xFF)).length

/-- From the characters in front of a pass to those that it uses and those in front of the next: they
are the same, or one is there twice. -/
def Accounts (fills : Prop) (l m : List UInt8) : Prop :=
  (fills → genuine m = genuine l + 1) ∧ (¬fills → Skips l m)

section

variable {l m n : List UInt8} {fills : Prop}

theorem Skips.refl (l : List UInt8) : Skips l l := ⟨.refl l, rfl⟩

theorem Skips.trans (hlm : Skips l m) (hmn : Skips m n) : Skips l n :=
  ⟨hmn.1.trans hlm.1, hmn.2.trans hlm.2⟩

theorem Skips.append_left (text : List UInt8) (h : Skips l m) : Skips (text ++ l) (text ++ m) := by
  refine ⟨h.1.append_left text, ?_⟩
  rw [filter_append, filter_append, h.2]

theorem SkipsOne.skips (h : SkipsOne l m) : Skips l m := by
  rcases h with rfl | rfl
  · exact .refl l
  · exact ⟨sublist_cons_self _ _, rfl⟩

theorem SkipsOne.eq_of_head {c : UInt8} (h : SkipsOne l m) (hl : l.head? = some c) (hc : c ≠ 0xFF) :
    m = l := by
  rcases h with rfl | rfl
  · rfl
  · exact absurd (Option.some.inj hl).symm hc

theorem Skips.genuine_eq (h : Skips l m) : genuine m = genuine l := by rw [genuine, genuine, h.2]

theorem genuine_append (l m : List UInt8) : genuine (l ++ m) = genuine l + genuine m := by
  rw [genuine, filter_append, length_append]
  rfl

theorem genuine_le_of_sublist (h : m.Sublist l) : genuine m ≤ genuine l := (h.filter _).length_le

theorem Accounts.of_not (hfills : ¬fills) (h : Skips l m) : Accounts fills l m :=
  ⟨fun hf => absurd hf hfills, fun _ => h⟩

theorem Accounts.skips {text : List UInt8} (h : Accounts fills l (text ++ m)) (hmn : Skips m n) :
    Accounts fills l (text ++ n) := by
  have happend := hmn.append_left text
  exact ⟨fun hf => happend.genuine_eq.trans (h.1 hf), fun hf => (h.2 hf).trans happend⟩

end

theorem Skips.eq_of_not_mem {l m : List UInt8} (h : Skips l m) (hl : 0xFF ∉ l) : m = l := by
  have hfilter : ∀ n : List UInt8, 0xFF ∉ n → n.filter (· ≠ 0xFF) = n := fun n hn =>
    filter_eq_self.2 fun c hc => decide_eq_true fun heq => hn (heq ▸ hc)
  rw [← hfilter m fun hm => hl (h.1.subset hm), h.2, hfilter l hl]

theorem conversionText_suffix (style : InputStyle) (ahead : List UInt8) (h : style.type ≠ typePercent) :
    conversionText style ahead ++ ahead.drop (conversionText style ahead).length = ahead := by
  have htext : conversionText style ahead <+: ahead := by
    rw [conversionText, if_neg h]
    exact ( takeWhile_prefix _).trans ( take_prefix _ _)
  exact prefix_iff_eq_append.1 htext

/-- The field is used, and what stays in the source is what follows it, or one character more. -/
theorem accounts_field {style : InputStyle} {ahead after : List UInt8} (h : style.type ≠ typePercent)
    (hafter : if (conversionText style ahead).length = style.fieldWidth.toNat - 1 then
        after = (conversionText style ahead).getLast?.toList ++ ahead.drop (style.fieldWidth.toNat - 1)
      else SkipsOne (ahead.drop (conversionText style ahead).length) after) :
    Accounts (Fills style ahead) ahead (conversionText style ahead ++ after) := by
  have hsuffix := conversionText_suffix style ahead h
  by_cases hfull : (conversionText style ahead).length = style.fieldWidth.toNat - 1
  swap
  · rw [if_neg hfull] at hafter
    refine .of_not (fun hfills => hfull hfills.2.2) ?_
    have hskips := hafter.skips.append_left (conversionText style ahead)
    rwa [hsuffix] at hskips
  rw [if_pos hfull, ← hfull] at hafter
  by_cases hwidth : 1 < style.fieldWidth.toNat
  · -- the last character of the field is there twice
    refine ⟨fun _ => ?_, fun hnot => absurd ⟨h, hwidth, hfull⟩ hnot⟩
    have hne : conversionText style ahead ≠ [] := ne_nil_of_length_pos (by omega)
    obtain ⟨last, hlast⟩ : ∃ last, (conversionText style ahead).getLast? = some last :=
      ⟨_, List.getLast?_eq_some_getLast hne⟩
    have hmem : fieldCharacter style last = true := by
      have hin := mem_of_getLast? hlast
      rw [conversionText, if_neg h] at hin
      exact mem_takeWhile_imp hin
    have hone : genuine [last] = 1 := by
      simp [genuine, fieldCharacter_genuine hmem]
    have hsum := congrArg genuine hsuffix
    rw [genuine_append] at hsum
    rw [hafter, hlast, genuine_append, genuine_append, Option.toList_some, hone]
    omega
  · have hnil : conversionText style ahead = [] := length_eq_zero_iff.1 (by omega)
    refine .of_not (fun hfills => hwidth hfills.2.1) ?_
    rw [hnil] at hafter ⊢
    rw [hafter]
    exact .refl _

/-! ### Reading a field -/

namespace Source

variable {σ : Type} {source : Source σ} {left : σ → List UInt8} {c : Option UInt8}

variable (source left) in
/-- The character, if it is not `EOF`, can be pushed back. -/
def Ready (c : Option UInt8) (s : σ) : Prop :=
  ∀ d, c = some d → ∃ t, source.pushback d s = some t ∧ left t = d :: left s

theorem Lawful.ready_read (h : source.Lawful left) (s : σ) :
    source.Ready left (source.read s).1 (source.read s).2 := h.restore s

theorem Lawful.skips_read (h : source.Lawful left) (s : σ) :
    SkipsOne (left s) ((source.read s).1.toList ++ left (source.read s).2) := by
  cases hs : left s with
  | nil =>
    obtain ⟨hnone, hleft⟩ := h.read_nil s hs
    rw [hnone, hleft]
    exact .inl rfl
  | cons c rest =>
    obtain ⟨hleft, hsome | ⟨rfl, hnone⟩⟩ := h.read_cons s c rest hs
    · rw [hsome, hleft]
      exact .inl rfl
    · rw [hnone, hleft]
      exact .inr rfl

theorem Lawful.read_eq (h : source.Lawful left) {s : σ} {c : UInt8} {rest : List UInt8}
    (hs : left s = c :: rest) (hc : c ≠ 0xFF) :
    (source.read s).1 = some c ∧ left (source.read s).2 = rest := by
  obtain ⟨hleft, hread⟩ := h.read_cons s c rest hs
  exact ⟨hread.resolve_right fun hnone => hc hnone.1, hleft⟩

theorem Ready.giveBack {s : σ} (h : source.Ready left c s) :
    ∃ t, source.giveBack c s = .ok t ∧ left t = c.toList ++ left s := by
  cases c with
  | none => exact ⟨s, rfl, rfl⟩
  | some d =>
    obtain ⟨t, ht, hleft⟩ := h d rfl
    exact ⟨t, by rw [giveBack, ht], hleft⟩

theorem ready_none (s : σ) : source.Ready left none s := fun _ h => nomatch h

/-- What the loop for a field does: every character up to the one that ends the field is looked up. The
field ends with the first character that does not belong to it, which stays in the source. If it does
not come to one, its last character stays there too. -/
theorem endsIff_readField {stops : UInt8 → Except Fault Bool} {goes : UInt8 → Bool}
    (h : source.Lawful left)
    (hstops : ∀ c, stops c = if Ascii c then .ok (!goes c) else .error .outside)
    (hgoes : ∀ {c}, goes c = true → Ascii c) (room : ℕ) {s : σ} (hc : source.Ready left c s) :
    EndsIff (source.readField stops room c s) (FieldSafe goes room (left s)) fun field =>
      field.1 = ((left s).take room).takeWhile goes ∧
        if field.1.length = room then
          left field.2 = (c.toList ++ field.1).getLast?.toList ++ (left s).drop room
        else SkipsOne ((left s).drop field.1.length) (left field.2) := by
  induction room generalizing c s with
  | zero =>
    obtain ⟨t, ht, hleft⟩ := hc.giveBack
    refine .of_ok (by rw [readField, ht]; rfl) fieldSafe_zero ⟨by simp, ?_⟩
    cases c <;> simpa using hleft
  | succ room ih =>
    cases hs : left s with
    | nil =>
      obtain ⟨hnone, hleft⟩ := h.read_nil s hs
      refine .of_ok (by simp only [readField, hnone]; rfl) fieldSafe_nil ⟨by simp, ?_⟩
      simp [hleft, SkipsOne]
    | cons d rest =>
      obtain ⟨hleft, hread⟩ := h.read_cons s d rest hs
      by_cases heof : d = 0xFF
      · subst heof
        have hgo : goes 0xFF = false := Bool.eq_false_iff.2 fun hgo => absurd (hgoes hgo) (by decide)
        refine .of_ok (a := ([], (source.read s).2)) ?_ ((fieldSafe_stop hgo).2 (.inr rfl)) ?_
        · rcases hread with hsome | ⟨-, hnone⟩
          · simp [readField, hsome]
          · simp [readField, hnone]
        · simp [hgo, hleft, SkipsOne]
      have hsome : (source.read s).1 = some d := (h.read_eq hs heof).1
      have hready : source.Ready left (some d) (source.read s).2 := hsome ▸ h.ready_read s
      by_cases hascii : Ascii d
      swap
      · have hgo : goes d = false := Bool.eq_false_iff.2 fun hgo => hascii (hgoes hgo)
        refine .of_error ?_ fun hsafe => ((fieldSafe_stop hgo).1 hsafe).elim hascii heof
        simp only [readField, hsome, if_neg heof, hstops, if_neg hascii]
        rfl
      cases hgo : goes d with
      | false =>
        obtain ⟨t, ht, hback⟩ := hready.giveBack
        refine .of_ok (a := ([], t)) ?_ ((fieldSafe_stop hgo).2 (.inl hascii)) ?_
        · simp only [readField, hsome, if_neg heof, hstops, if_pos hascii, hgo]
          simp [ht]
        · simp [hgo, hback, hleft, SkipsOne]
      | true =>
        have hfield : source.readField stops (room + 1) c s =
            (do let field ← source.readField stops room (some d) (source.read s).2
                return (d :: field.1, field.2)) := by
          simp only [readField, hsome, if_neg heof, hstops, if_pos hascii, hgo]
          rfl
        have hrest := ih hready
        rw [hleft] at hrest
        rw [hfield, fieldSafe_go hgo]
        refine hrest.map fun field hspec => ?_
        obtain ⟨htext, hback⟩ := hspec
        have hlast : ∀ run : List UInt8, (c.toList ++ d :: run).getLast? = (d :: run).getLast? :=
          fun run => by simp [List.getLast?_cons]
        refine ⟨by simp [htext, hgo], ?_⟩
        simpa [hlast] using hback

end Source

/-! ### Conversions -/

/-- The size of the object that the item of a field needs. -/
def itemSize (style : InputStyle) (text : List UInt8) : ℕ :=
  if style.type = typeInt then 4 else if style.type = typeDouble then 8
  else (text.takeWhile (· ≠ 0)).length + 1

/-- There is an argument for the field, and it points to an object that is large enough if the item is
assigned. -/
def Assignable (style : InputStyle) (text : List UInt8) : List ℕ → Prop
  | [] => False
  | size :: _ => style.assign = true → text ≠ [] → itemSize style text ≤ size

/-- The conversion finds a 7-bit character, or `EOF`, where its field ends, and an argument for it. -/
def ConversionSafe (style : InputStyle) (arguments : List ℕ) (ahead : List UInt8) : Prop :=
  style.type ∈ fieldTypes →
    FieldSafe (fieldCharacter style) (style.fieldWidth.toNat - 1) ahead ∧
      Assignable style (conversionText style ahead) arguments

/-- The arguments behind a conversion. -/
def remaining (style : InputStyle) (arguments : List ℕ) : List ℕ :=
  if style.type = typePercent then arguments else arguments.tail

/-- What a conversion does with the characters in front of it, with the arguments and with what has been
assigned. -/
structure Converted.Spec {σ : Type} (left : σ → List UInt8) (style : InputStyle) (arguments : List ℕ)
    (items : List Item) (ahead : List UInt8) (converted : Converted σ) : Prop where
  text : converted.text = conversionText style ahead
  account : Accounts (Fills style ahead) ahead (converted.text ++ left converted.source)
  /-- Without a text the characters stay in front, or all but an `EOF`. -/
  kept : converted.text = [] → SkipsOne ahead (left converted.source)
  success : converted.success = true ↔ converted.text ≠ []
  arguments : converted.arguments = remaining style arguments
  unassigned : converted.text = [] → converted.items = items
  assigned : style.assign = true → style.type ∈ fieldTypes → converted.text ≠ [] →
    ∃ item, coerce style converted.text = .ok item ∧ converted.items = items ++ [item]

theorem ne_typePercent {style : InputStyle} (h : style.type ∈ fieldTypes) : style.type ≠ typePercent := by
  rintro heq
  rw [heq] at h
  exact absurd h (by decide)

theorem coerce_ok {style : InputStyle} {text : List UInt8}
    (h : ∀ d ∈ text, fieldCharacter style d = true) :
    ∃ item, coerce style text = .ok item ∧ item.size = itemSize style text := by
  have hascii : ∀ d ∈ text, Ascii d := fun d hd => ascii_of_fieldCharacter (h d hd)
  rw [coerce, itemSize]
  by_cases hint : style.type = typeInt
  · obtain ⟨value, hvalue⟩ := (inside_strtol_iff text style.base).2
      (ascii_current_of_suffix (strtolEnd_suffix text _) hascii)
    rw [if_pos hint, if_pos hint, hvalue]
    exact ⟨_, rfl, rfl⟩
  rw [if_neg hint, if_neg hint]
  by_cases hdouble : style.type = typeDouble
  · obtain ⟨value, hvalue⟩ := (scans_strtod text).inside_iff.2
      (ascii_current_of_suffix (strtodEnd_suffix text) hascii)
    rw [if_pos hdouble, if_pos hdouble, hvalue]
    exact ⟨_, rfl, rfl⟩
  · rw [if_neg hdouble, if_neg hdouble]
    exact ⟨_, rfl, rfl⟩

theorem fieldCharacter_of_mem {style : InputStyle} {ahead : List UInt8} (h : style.type ≠ typePercent) :
    ∀ d ∈ conversionText style ahead, fieldCharacter style d = true := by
  intro d hd
  rw [conversionText, if_neg h] at hd
  exact mem_takeWhile_imp hd

namespace Source

variable {σ : Type} {source : Source σ} {left : σ → List UInt8} {style : InputStyle}
  {arguments : List ℕ} {items : List Item} {s : σ}

theorem endsIff_convertField {read : ℕ → σ → Except Fault (List UInt8 × σ)}
    (htype : style.type ∈ fieldTypes)
    (hread : EndsIff (read style.fieldWidth.toNat s)
      (FieldSafe (fieldCharacter style) (style.fieldWidth.toNat - 1) (left s)) fun field =>
        field.1 = conversionText style (left s) ∧
          Accounts (Fills style (left s)) (left s) (field.1 ++ left field.2) ∧
          (field.1 = [] → SkipsOne (left s) (left field.2))) :
    EndsIff (convertField read style arguments items s) (ConversionSafe style arguments (left s))
      (Converted.Spec left style arguments items (left s)) := by
  have hpercent := ne_typePercent htype
  rw [ConversionSafe, imp_iff_right htype]
  cases arguments with
  | nil => exact .of_error rfl fun h => h.2
  | cons size arguments =>
    have hrest : arguments = remaining style (size :: arguments) := (if_neg hpercent).symm
    refine hread.bind fun field hspec => ?_
    obtain ⟨htext, haccount, hkept⟩ := hspec
    by_cases hnil : field.1 = []
    · rw [if_pos hnil]
      rw [hnil] at htext haccount
      exact .of_ok rfl (fun _ hne => absurd htext.symm hne) ⟨htext, haccount, fun _ => hkept hnil, by simp,
        hrest, fun _ => rfl, fun _ _ hne => absurd rfl hne⟩
    rw [if_neg hnil]
    cases hassign : style.assign with
    | false =>
      exact .of_ok rfl (fun h => absurd (hassign.symm.trans h) (by decide))
        ⟨htext, haccount, hkept, iff_of_true rfl hnil, hrest, fun _ => rfl,
          fun h => absurd (hassign.symm.trans h) (by decide)⟩
    | true =>
      obtain ⟨item, hitem, hsize⟩ := coerce_ok (htext ▸ fieldCharacter_of_mem hpercent)
      rw [if_pos rfl, hitem]
      simp only [ok_bind, hsize, Assignable, ← htext]
      by_cases hfits : itemSize style field.1 ≤ size
      · rw [if_pos hfits]
        exact .of_ok rfl (fun _ _ => hfits) ⟨htext, haccount, hkept, iff_of_true rfl hnil, hrest,
          fun h => absurd h hnil, fun _ _ _ => ⟨item, hitem, rfl⟩⟩
      · rw [if_neg hfits]
        exact .of_error rfl fun h => hfits (h hassign hnil)

theorem endsIff_readInput (h : source.Lawful left) (htype : style.type ∈ fieldTypes)
    {stops : UInt8 → Except Fault Bool}
    (hstops : ∀ c, stops c = if Ascii c then .ok (!fieldCharacter style c) else .error .outside) :
    EndsIff (source.readField stops (style.fieldWidth.toNat - 1) none s)
      (FieldSafe (fieldCharacter style) (style.fieldWidth.toNat - 1) (left s)) fun field =>
        field.1 = conversionText style (left s) ∧
          Accounts (Fills style (left s)) (left s) (field.1 ++ left field.2) ∧
          (field.1 = [] → SkipsOne (left s) (left field.2)) := by
  have hpercent := ne_typePercent htype
  have htext : conversionText style (left s) = ((left s).take (style.fieldWidth.toNat - 1)).takeWhile
      (fieldCharacter style) := if_neg hpercent
  refine (endsIff_readField h hstops ascii_of_fieldCharacter _ (ready_none s)).imp fun field hspec => ?_
  obtain ⟨hfield, hleft⟩ := hspec
  rw [← htext] at hfield
  rw [hfield] at hleft ⊢
  refine ⟨rfl, accounts_field hpercent hleft, fun hnil => ?_⟩
  rw [hnil] at hleft
  split at hleft
  case isTrue hroom => exact .inl (by simpa [← hroom] using hleft.symm)
  case isFalse => exact hleft

/-- **A supported conversion** uses a field of the input, or fails, and never asks the source for
more than it promises. -/
theorem endsIff_convertInput (h : source.Lawful left) (c : UInt8) (htype : style.type ∈ supportedTypes) :
    EndsIff (source.convertInput style c arguments items s) (ConversionSafe style arguments (left s))
      (Converted.Spec left style arguments items (left s)) := by
  rw [convertInput]
  by_cases hnumber : style.type = typeInt ∨ style.type = typeDouble
  · have hin : style.type ∈ fieldTypes := by rcases hnumber with heq | heq <;> simp [fieldTypes, heq]
    have hdigits : fieldCharacter style = between '0' '9' := by
      funext d
      rw [fieldCharacter, if_neg]
      rcases hnumber with heq | heq <;> rw [heq] <;> decide
    rw [if_pos hnumber]
    refine endsIff_convertField hin (endsIff_readInput h hin fun d => ?_)
    rw [numberStops_eq, hdigits]
  rw [if_neg hnumber]
  by_cases hstring : style.type = typeString
  · have hin : style.type ∈ fieldTypes := by simp [fieldTypes, hstring]
    rw [if_pos hstring]
    refine endsIff_convertField hin (endsIff_readInput h hin fun d => ?_)
    rw [isspace_stops, fieldCharacter, if_pos hstring]
  have hpercent : style.type = typePercent := by
    rw [not_or] at hnumber
    simpa [supportedTypes, fieldTypes, hnumber.1, hnumber.2, hstring] using htype
  have hnot : ¬Fills style (left s) := fun hfills => hfills.1 hpercent
  have hsafe : ConversionSafe style arguments (left s) := fun hin => absurd hpercent (ne_typePercent hin)
  have hrest : arguments = remaining style arguments := (if_pos hpercent).symm
  have hassigned (p : Prop) : style.type ∈ fieldTypes → p := fun hin => absurd hpercent (ne_typePercent hin)
  rw [if_neg hstring, if_pos hpercent]
  by_cases hread : (source.read s).1 = some '%'.toUInt8
  · have hleft : left s = '%'.toUInt8 :: left (source.read s).2 := by
      cases hs : left s with
      | nil => rw [(h.read_nil s hs).1] at hread; cases hread
      | cons d rest =>
        obtain ⟨hrest, hsome | ⟨-, hnone⟩⟩ := h.read_cons s d rest hs
        · rw [hread] at hsome
          cases hsome
          rw [hrest]
        · rw [hnone] at hread
          cases hread
    rw [if_pos hread]
    refine .of_ok rfl hsafe ⟨?_, .of_not hnot ?_, fun heq => absurd heq (cons_ne_nil _ _), by simp, hrest,
      fun heq => absurd heq (cons_ne_nil _ _), fun _ => hassigned _⟩
    · simp [conversionText, hpercent, hleft]
    · rw [hleft]
      exact .refl _
  · obtain ⟨t, ht, hleft⟩ := (h.ready_read s).giveBack
    have hskips := h.skips_read s
    have hhead : (left s).head? ≠ some '%'.toUInt8 := by
      intro heq
      cases hs : left s with
      | nil => rw [hs] at heq; cases heq
      | cons d rest =>
        rw [hs] at heq
        cases heq
        rcases (h.read_cons s _ rest hs).2 with hsome | ⟨heof, -⟩
        · exact hread hsome
        · exact absurd heof (by decide)
    rw [if_neg hread, ht]
    rw [← hleft] at hskips
    refine .of_ok rfl hsafe ⟨?_, .of_not hnot hskips.skips, fun _ => hskips, by simp, hrest, fun _ => rfl,
      fun _ => hassigned _⟩
    simp [conversionText, hpercent, hhead]

end Source

/-! ### A pass -/

/-- The characters that a pass looks up are 7-bit ones, and the conversion that it comes to, if any, has
a safe end. -/
def PassSafe (c f : UInt8) (format : List UInt8) (arguments : List ℕ) (ahead : List UInt8) : Prop :=
  Ascii f ∧ (space f = false → Ascii c ∧ (space c = false → f = '%'.toUInt8 →
    StyleSafe format ∧ ConversionSafe (styleOf format).1 arguments ahead))

/-- The characters in front of the loop: the one in `c`, and those in the source. -/
def Tracker.ahead {σ : Type} (left : σ → List UInt8) (t : Tracker σ) : List UInt8 :=
  t.c.toList ++ left t.source

/-- The next pass, after a conversion. -/
def Source.resume {σ : Type} (source : Source σ) (t : Tracker σ) (format : List UInt8)
    (converted : Converted σ) : Tracker σ :=
  { c := (source.read converted.source).1
    source := (source.read converted.source).2
    format
    arguments := converted.arguments
    items := converted.items
    used := t.used ++ converted.text
    failed := if converted.success ∨ t.failed.isSome then t.failed else some (t.items, t.used) }

/-- What a pass leads to, if it comes to its end. -/
inductive Source.Passed {σ : Type} (source : Source σ) (left : σ → List UInt8) (t : Tracker σ)
    (c f : UInt8) (format : List UInt8) : Pass (Tracker σ) (Tracker σ) → Prop
  /-- White space of the format is skipped. -/
  | blank : space f = true → Passed source left t c f format (.again { t with format })
  /-- White space of the input is skipped. -/
  | white : space f = false → space c = true → Passed source left t c f format (.again
      { t with c := (source.read t.source).1, source := (source.read t.source).2, used := t.used ++ [c] })
  /-- The characters are the same. -/
  | same : space f = false → space c = false → f ≠ '%'.toUInt8 → f = c →
      Passed source left t c f format (.again { t with
        c := (source.read t.source).1, source := (source.read t.source).2, format, used := t.used ++ [c] })
  | mismatch : space f = false → space c = false → f ≠ '%'.toUInt8 → f ≠ c →
      Passed source left t c f format (.done t)
  | conversion {converted : Converted σ} : space f = false → space c = false → f = '%'.toUInt8 →
      converted.Spec left (styleOf format).1 t.arguments t.items (t.ahead left) →
      Passed source left t c f format (.again (source.resume t (styleOf format).2 converted))

namespace Source

variable {σ : Type} {source : Source σ} {left : σ → List UInt8} {t : Tracker σ} {c f : UInt8}
  {format : List UInt8}

/-- **What one pass does.** It is never refused by the source. -/
theorem endsIff_vcscanfPass (h : source.Lawful left) (hc : t.c = some c)
    (hready : source.Ready left t.c t.source)
    (htype : Ascii c → space c = false → f = '%'.toUInt8 → (styleOf format).1.type ∈ supportedTypes) :
    EndsIff (source.vcscanfPass t c f format) (PassSafe c f format t.arguments (t.ahead left))
      (source.Passed left t c f format) := by
  rw [vcscanfPass, isspace_eq, isspace_eq]
  by_cases hf : Ascii f
  swap
  · rw [if_neg hf]
    exact .of_error rfl fun h => hf h.1
  rw [if_pos hf]
  cases hspace : space f with
  | true => exact .of_ok rfl ⟨hf, fun h => absurd (hspace.symm.trans h) (by decide)⟩ (.blank hspace)
  | false =>
  by_cases hascii : Ascii c
  swap
  · rw [if_neg hascii]
    exact .of_error rfl fun h => hascii (h.2 hspace).1
  rw [if_pos hascii]
  cases hwhite : space c with
  | true =>
    exact .of_ok rfl ⟨hf, fun _ => ⟨hascii, fun h => absurd (hwhite.symm.trans h) (by decide)⟩⟩
      (.white hspace hwhite)
  | false =>
  simp only [ok_bind, Bool.false_eq_true, if_false]
  by_cases hpercent : f = '%'.toUInt8
  swap
  · have hsafe : PassSafe c f format t.arguments (t.ahead left) :=
      ⟨hf, fun _ => ⟨hascii, fun _ heq => absurd heq hpercent⟩⟩
    rw [if_pos hpercent]
    by_cases heq : f = c
    · rw [if_pos heq]
      exact .of_ok rfl hsafe (.same hspace hwhite hpercent heq)
    · rw [if_neg heq]
      exact .of_ok rfl hsafe (.mismatch hspace hwhite hpercent heq)
  -- the conversion finds the character in the source again
  have hiff : StyleSafe format ∧ ConversionSafe (styleOf format).1 t.arguments (t.ahead left) ↔
      PassSafe c f format t.arguments (t.ahead left) :=
    ⟨fun h => ⟨hf, fun _ => ⟨hascii, fun _ _ => h⟩⟩, fun h => (h.2 hspace).2 hwhite hpercent⟩
  rw [hc] at hready
  obtain ⟨s, hs, hleft⟩ := hready.giveBack
  have hleft : left s = t.ahead left := by rw [hleft, Tracker.ahead, hc]
  rw [if_neg (not_not.2 hpercent), hs, ok_bind]
  refine (endsIff_readFormatStyle.bind fun style hstyle => ?_).congr hiff
  subst hstyle
  rw [← hleft]
  refine (endsIff_convertInput h c (htype hascii hwhite hpercent)).map fun converted hspec => ?_
  rw [hleft] at hspec
  exact .conversion hspace hwhite hpercent hspec

end Source

/-! ### The loop -/

theorem ok_of_bind {ε α β : Type} {call : Except ε α} {next : α → Except ε β} {b : β}
    (h : call >>= next = .ok b) : ∃ a, call = .ok a ∧ next a = .ok b := by
  cases call with
  | ok a => exact ⟨a, rfl, h⟩
  | error e => cases h

namespace Source

variable {σ : Type} {source : Source σ} {left : σ → List UInt8} {t u : Tracker σ} {c f : UInt8}
  {format : List UInt8}

/-- A pass leaves the loop, or it has skipped white space of the format, or it has read a character and
consumed a part of the format or white space of the input. -/
theorem vcscanfPass_cases {pass : Pass (Tracker σ) (Tracker σ)}
    (h : source.vcscanfPass t c f format = .ok pass) :
    pass = .done t ∨ pass = .again { t with format } ∨
      ∃ s u, pass = .again u ∧ u.c = (source.read s).1 ∧ u.source = (source.read s).2 ∧
        (u.format.length ≤ format.length ∨ u.format = t.format ∧ s = t.source) := by
  obtain ⟨blank, -, h⟩ := ok_of_bind h
  split at h
  · cases h
    exact .inr (.inl rfl)
  obtain ⟨white, -, h⟩ := ok_of_bind h
  split at h
  · cases h
    exact .inr (.inr ⟨_, _, rfl, rfl, rfl, .inr ⟨rfl, rfl⟩⟩)
  split at h
  · split at h
    · cases h
      exact .inr (.inr ⟨_, _, rfl, rfl, rfl, .inl le_rfl⟩)
    · cases h
      exact .inl rfl
  · obtain ⟨back, -, h⟩ := ok_of_bind h
    obtain ⟨style, hstyle, h⟩ := ok_of_bind h
    obtain ⟨converted, -, h⟩ := ok_of_bind h
    cases h
    have hstyle := endsIff_readFormatStyle.post_of_ok hstyle
    subst hstyle
    exact .inr (.inr ⟨_, _, rfl, rfl, rfl, .inl (styleOf_length format)⟩)

/-- In each pass the character can be pushed back. -/
theorem Lawful.ready_of_reaches (h : source.Lawful left) {s : σ} {arguments : List ℕ}
    (ht : Reaches source.vcscanfBody (source.start s format arguments) t) :
    source.Ready left t.c t.source := by
  induction ht with
  | refl => exact h.ready_read s
  | @tail t u _ hu ih =>
    rw [vcscanfBody] at hu
    split at hu
    case h_2 => cases hu
    rcases vcscanfPass_cases hu with heq | heq | ⟨s, _, heq, hc, hsource, -⟩
    · cases heq
    · cases heq
      exact ih
    · cases heq
      rw [hc, hsource]
      exact h.ready_read s

end Source

/-! ### Strings -/

section

variable {input : List UInt8} {t : Tracker (Fin (input.length + 1))}

theorem vcscanfBody_shrinks : Shrinks (Source.string input).vcscanfBody Tracker.left := by
  intro t u h
  rw [Source.vcscanfBody] at h
  split at h
  case h_2 => cases h
  case h_1 c f format hc hformat =>
    have hflag : (if u.c = none then 0 else 1) ≤ 1 := by split <;> omega
    have hshorter : u.format.length ≤ format.length → u.left < t.left := fun hle => by
      have hmul := mul_le_mul_right (input.length + 2) hle
      simp only [Tracker.left, hformat, length_cons, add_mul, one_mul]
      omega
    rcases Source.vcscanfPass_cases h with heq | heq | ⟨s, v, heq, hnext, hsource, hrest⟩
    · cases heq
    · cases heq
      exact hshorter le_rfl
    cases heq
    rcases hrest with hle | ⟨hsame, rfl⟩
    · exact hshorter hle
    · -- the character that was read, if any, is behind the place of the last one
      simp only [Tracker.left, hsame, hc, reduceCtorEq, if_false]
      by_cases hlt : t.source.1 < input.length
      · have hplace : u.source.1 = t.source.1 + 1 := by rw [hsource]; simp [Source.string, hlt]
        omega
      · have hend : u.c = none ∧ u.source = t.source := by
          rw [hnext, hsource]
          simp [Source.string, hlt]
        rw [hend.1, hend.2]
        simp

/-- The next pass, if any, is safe. A conversion that is not supported comes after the first character
of the string, since it puts its character back twice. -/
def Tracker.Safe (t : Tracker (Fin (input.length + 1))) : Prop :=
  match t.c, t.format with
  | some c, f :: format => PassSafe c f format t.arguments (t.ahead (Source.after input)) ∧
    (space c = false → f = '%'.toUInt8 → (styleOf format).1.type ∉ supportedTypes → 1 < t.source.1)
  | _, _ => True

end

end Dx.Libc
