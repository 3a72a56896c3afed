import Dx.Libc.Scan

/-!
# What formatted input consumes

The loop of `vcscanf` never asks its source for more than a source promises: it pushes back the
character that it has just read, and no second one. Apart from that, two things go wrong. A field that
fills its array leaves its last character both in the array and in the source, and a conversion that
has failed does not end the loop.
-/

namespace Dx.Libc

open Library User List Source

/-! ### What a pass uses -/

def directives : List UInt8 → List InputStyle
  | [] => []
  | f :: format =>
    if f = '%'.toUInt8 then (styleOf format).1 :: directives (styleOf format).2 else directives format
termination_by format => format.length
decreasing_by
  · exact Nat.lt_succ_of_le (styleOf_length format)
  · exact Nat.lt_succ_self _

def Supported (format : List UInt8) : Prop := ∀ style ∈ directives format, style.type ∈ supportedTypes

variable {format : List UInt8}

theorem Supported.styleOf (h : Supported ('%'.toUInt8 :: format)) :
    (styleOf format).1.type ∈ supportedTypes ∧ Supported (styleOf format).2 := by
  rw [Supported, directives, if_pos rfl] at h
  exact ⟨h _ (mem_cons_self ..), fun style hstyle => h style (mem_cons_of_mem _ hstyle)⟩

theorem Supported.tail {f : UInt8} (h : Supported (f :: format)) (hf : f ≠ '%'.toUInt8) :
    Supported format := by
  rw [Supported, directives, if_neg hf] at h
  exact h

def passText (c f : UInt8) (format ahead : List UInt8) : List UInt8 :=
  if space f then []
  else if space c then [c]
  else if f ≠ '%'.toUInt8 then if f = c then [c] else []
  else conversionText (styleOf format).1 ahead

def PassFills (c f : UInt8) (format ahead : List UInt8) : Prop :=
  space f = false ∧ space c = false ∧ f = '%'.toUInt8 ∧ Fills (styleOf format).1 ahead

/-- What follows in the format when a pass goes on that skips no white space of the input. -/
def formatAfter (f : UInt8) (format : List UInt8) : List UInt8 :=
  if f = '%'.toUInt8 then (styleOf format).2 else format

/-- The arguments that are left then. -/
def argumentsAfter (f : UInt8) (format : List UInt8) (arguments : List ℕ) : List ℕ :=
  if f = '%'.toUInt8 then remaining (styleOf format).1 arguments else arguments

theorem formatAfter_length (f : UInt8) (format : List UInt8) :
    (formatAfter f format).length < (f :: format).length := by
  rw [formatAfter]
  split
  · exact Nat.lt_succ_of_le (styleOf_length format)
  · exact Nat.lt_succ_self _

/-- The rest of a format uses nothing of an input that it finds at the character `c`: no pass that comes
to its end does, up to the first character of the format that does not match. -/
def Idle (c : UInt8) (ahead : List UInt8) : List UInt8 → List ℕ → Prop
  | [], _ => True
  | f :: format, arguments => PassSafe c f format arguments ahead →
    passText c f format ahead = [] ∧ (space f = true ∨ f = '%'.toUInt8 →
      Idle c ahead (formatAfter f format) (argumentsAfter f format arguments))
termination_by format => format.length
decreasing_by exact formatAfter_length f format

namespace Tracker

variable {σ : Type} (left : σ → List UInt8)

/-- **What is expected of every state**: each character of the input is used at most once, in its
order, or is still in front; and since a conversion has failed nothing was used and nothing was
assigned. -/
def Good (input : List UInt8) (t : Tracker σ) : Prop :=
  (t.used ++ t.ahead left).Sublist input ∧ ∀ p, t.failed = some p → (t.items, t.used) = p

/-- The pass does not go wrong: its conversion, if any, does not fill its array, and if the conversion
fails then the rest of the format uses nothing of the rest of the input. -/
def Careful (t : Tracker σ) : Prop :=
  match t.c, t.format with
  | some c, f :: format =>
    ¬PassFills c f format (t.ahead left) ∧
      (space c = false → f = '%'.toUInt8 → conversionText (styleOf format).1 (t.ahead left) = [] →
        Idle c (t.ahead left) (styleOf format).2 (remaining (styleOf format).1 t.arguments))
  | _, _ => True

end Tracker

/-! ### What a pass does -/

/-- What a pass does that goes on to the next one, from the character `c` of the input and the
character `f` of the format. -/
structure Tracker.Step {σ : Type} (left : σ → List UInt8) (t : Tracker σ) (c f : UInt8)
    (format : List UInt8) (u : Tracker σ) : Prop where
  used : u.used = t.used ++ passText c f format (t.ahead left)
  account : Accounts (PassFills c f format (t.ahead left)) (t.ahead left)
    (passText c f format (t.ahead left) ++ u.ahead left)
  items : passText c f format (t.ahead left) = [] → u.items = t.items
  failed : u.failed = t.failed ∨ t.failed = none ∧ u.failed = some (u.items, u.used)

theorem percent_not_space : space '%'.toUInt8 = false := by decide

section

variable {c f : UInt8} {format ahead : List UInt8}

theorem passText_blank (hf : space f = true) : passText c f format ahead = [] := if_pos hf

theorem passText_white (hf : space f = false) (hc : space c = true) :
    passText c f format ahead = [c] := by
  rw [passText, if_neg (Bool.eq_false_iff.1 hf), if_pos hc]

theorem passText_match (hf : space f = false) (hc : space c = false) (hpercent : f ≠ '%'.toUInt8)
    (h : f = c) : passText c f format ahead = [c] := by
  rw [passText, if_neg (Bool.eq_false_iff.1 hf), if_neg (Bool.eq_false_iff.1 hc), if_pos hpercent,
    if_pos h]

theorem passText_conversion (hf : space f = false) (hc : space c = false)
    (hpercent : f = '%'.toUInt8) :
    passText c f format ahead = conversionText (styleOf format).1 ahead := by
  rw [passText, if_neg (Bool.eq_false_iff.1 hf), if_neg (Bool.eq_false_iff.1 hc),
    if_neg (not_not.2 hpercent)]

end

namespace Source

variable {σ : Type} {source : Source σ} {left : σ → List UInt8} {t u : Tracker σ} {c f : UInt8}

theorem Passed.step (h : source.Lawful left) (hc : t.c = some c)
    (hpass : source.Passed left t c f format (.again u)) : t.Step left c f format u := by
  have hahead : t.ahead left = c :: left t.source := by rw [Tracker.ahead, hc]; rfl
  have hskips := ((h.skips_read t.source).skips).append_left [c]
  cases hpass with
  | blank hspace =>
    have htext : passText c f format (t.ahead left) = [] := passText_blank hspace
    refine ⟨by rw [htext, append_nil], .of_not ?_ (by rw [htext]; exact .refl _), fun _ => rfl, .inl rfl⟩
    exact fun hfills => absurd (hspace.symm.trans hfills.1) (by decide)
  | white hspace hwhite =>
    have htext : passText c f format (t.ahead left) = [c] := passText_white hspace hwhite
    refine ⟨by rw [htext], .of_not ?_ (by rw [htext, hahead]; exact hskips), fun _ => rfl, .inl rfl⟩
    exact fun hfills => absurd (hwhite.symm.trans hfills.2.1) (by decide)
  | same hspace hwhite hpercent heq =>
    have htext : passText c f format (t.ahead left) = [c] := passText_match hspace hwhite hpercent heq
    exact ⟨by rw [htext], .of_not (fun hfills => hpercent hfills.2.2.1) (by rw [htext, hahead]; exact hskips),
      fun _ => rfl, .inl rfl⟩
  | @conversion converted hspace hwhite hpercent hspec =>
    have htext : passText c f format (t.ahead left) = converted.text :=
      (passText_conversion hspace hwhite hpercent).trans hspec.text.symm
    have hfills : PassFills c f format (t.ahead left) ↔ Fills (styleOf format).1 (t.ahead left) :=
      ⟨fun hfills => hfills.2.2.2, fun hfills => ⟨hspace, hwhite, hpercent, hfills⟩⟩
    refine ⟨by rw [htext]; rfl, ?_, fun hnil => hspec.unassigned (htext ▸ hnil), ?_⟩
    · rw [htext, show PassFills c f format (t.ahead left) = _ from propext hfills]
      exact hspec.account.skips (h.skips_read _).skips
    · by_cases hfirst : converted.success ∨ t.failed.isSome
      · exact .inl (if_pos hfirst)
      · have hnil : converted.text = [] :=
          not_not.1 fun hne => hfirst (.inl (hspec.success.2 hne))
        refine .inr ⟨Option.not_isSome_iff_eq_none.1 fun heq => hfirst (.inr heq), ?_⟩
        show (if converted.success ∨ t.failed.isSome then t.failed else some (t.items, t.used)) =
          some (converted.items, t.used ++ converted.text)
        rw [if_neg hfirst, hnil, hspec.unassigned hnil, append_nil]

theorem Passed.quiet (h : source.Lawful left) (hc : t.c = some c) (hwhite : space c = false)
    (heof : c ≠ 0xFF) (hpass : source.Passed left t c f format (.again u))
    (hnil : passText c f format (t.ahead left) = []) :
    (space f = true ∨ f = '%'.toUInt8) ∧ u.c = some c ∧ u.ahead left = t.ahead left ∧
      u.format = formatAfter f format ∧ u.arguments = argumentsAfter f format t.arguments ∧
      (f = '%'.toUInt8 → u.failed ≠ none) ∧ (f ≠ '%'.toUInt8 → u.failed = t.failed) := by
  cases hpass with
  | blank hspace =>
    have hne : f ≠ '%'.toUInt8 := by
      rintro rfl
      rw [percent_not_space] at hspace
      cases hspace
    exact ⟨.inl hspace, hc, rfl, (if_neg hne).symm, (if_neg hne).symm, fun heq => absurd heq hne,
      fun _ => rfl⟩
  | white _ hspace => exact absurd (hwhite.symm.trans hspace) (by decide)
  | same hspace _ hpercent heq =>
    rw [passText_match hspace hwhite hpercent heq] at hnil
    cases hnil
  | @conversion converted hspace _ hpercent hspec =>
    have hahead : t.ahead left = c :: left t.source := by rw [Tracker.ahead, hc]; rfl
    have htext : converted.text = [] := by
      rw [hspec.text, ← passText_conversion hspace hwhite hpercent, hnil]
    have hkept : left converted.source = t.ahead left :=
      (hspec.kept htext).eq_of_head (by rw [hahead]; rfl) heof
    obtain ⟨hread, hleft⟩ := h.read_eq (hkept.trans hahead) heof
    refine ⟨.inr hpercent, hread, ?_, (if_pos hpercent).symm, ?_, fun _ => ?_, fun hne => absurd hpercent hne⟩
    · rw [hahead, Tracker.ahead, ← hleft]
      exact congrArg (fun d : Option UInt8 => d.toList ++ left (source.read converted.source).2) hread
    · exact hspec.arguments.trans (if_pos hpercent).symm
    · show (if converted.success ∨ t.failed.isSome then t.failed else some (t.items, t.used)) ≠ none
      split
      case isTrue hor =>
        have hnot : converted.success ≠ true := fun heq => hspec.success.1 heq htext
        exact Option.isSome_iff_ne_none.1 (hor.resolve_left hnot)
      case isFalse => exact Option.some_ne_none _

/-- The character in `c` can be pushed back, and the conversions that are left are supported. -/
def Sound (source : Source σ) (left : σ → List UInt8) (t : Tracker σ) : Prop :=
  source.Ready left t.c t.source ∧ Supported t.format

theorem endsIff_pass (h : source.Lawful left) (ht : source.Sound left t) (hc : t.c = some c)
    (hformat : t.format = f :: format) :
    EndsIff (source.vcscanfPass t c f format) (PassSafe c f format t.arguments (t.ahead left))
      (source.Passed left t c f format) :=
  endsIff_vcscanfPass h hc ht.1 fun _ _ hf => (Supported.styleOf (hf ▸ hformat ▸ ht.2)).1

theorem passed_of_again (h : source.Lawful left) (ht : source.Sound left t)
    (hu : source.vcscanfBody t = .ok (.again u)) :
    ∃ c f format, t.c = some c ∧ t.format = f :: format ∧
      PassSafe c f format t.arguments (t.ahead left) ∧ source.Passed left t c f format (.again u) := by
  rw [vcscanfBody] at hu
  split at hu
  case h_2 => cases hu
  case h_1 c f format hc hformat =>
    have hends := endsIff_pass h ht hc hformat
    refine ⟨c, f, format, hc, hformat, ?_, hends.post_of_ok hu⟩
    by_contra hnot
    rw [hends.2 hnot] at hu
    cases hu

theorem Sound.again (h : source.Lawful left) (ht : source.Sound left t) (hready : source.Ready left u.c u.source)
    (hu : source.vcscanfBody t = .ok (.again u)) : source.Sound left u := by
  refine ⟨hready, ?_⟩
  obtain ⟨c, f, format, -, hformat, -, hpass⟩ := passed_of_again h ht hu
  have hsupported := ht.2
  rw [hformat] at hsupported
  cases hpass with
  | blank hspace =>
    exact Supported.tail hsupported fun hf => absurd hspace (by rw [hf, percent_not_space]; decide)
  | white => exact ht.2
  | same _ _ hpercent => exact Supported.tail hsupported hpercent
  | conversion _ _ hpercent => exact (Supported.styleOf (hpercent ▸ hsupported)).2

/-- No pass has a pushback refused. -/
theorem Sound.ne_refused (h : source.Lawful left) (hsound : source.Sound left t) :
    source.vcscanfBody t ≠ .error .refused := by
  intro hrefused
  rw [vcscanfBody] at hrefused
  split at hrefused
  case h_2 => cases hrefused
  case h_1 c f rest hc hf =>
    have hends := endsIff_pass h hsound hc hf
    by_cases hsafe : PassSafe c f rest t.arguments (t.ahead left)
    · obtain ⟨pass, hpass, -⟩ := hends.1 hsafe
      rw [hpass] at hrefused
      cases hrefused
    · rw [hends.2 hsafe] at hrefused
      cases hrefused

theorem sound_of_reaches (h : source.Lawful left) {s : σ} {arguments : List ℕ} (hformat : Supported format)
    (ht : Reaches source.vcscanfBody (source.start s format arguments) t) : source.Sound left t := by
  induction ht with
  | refl => exact ⟨h.ready_read s, hformat⟩
  | tail ht hu ih => exact ih.again h (h.ready_of_reaches (ht.tail hu)) hu

end Source

namespace Tracker

variable {σ : Type} {left : σ → List UInt8} {input : List UInt8} {t u : Tracker σ} {c f : UInt8}
  {format : List UInt8}

section

variable (hstep : t.Step left c f format u)
include hstep

/-- Each character stays used once, or in front, in a pass that does not fill an array. -/
theorem Step.skips (h : Skips input (t.used ++ t.ahead left))
    (hfills : ¬PassFills c f format (t.ahead left)) : Skips input (u.used ++ u.ahead left) := by
  rw [hstep.used, append_assoc]
  exact h.trans ((hstep.account.2 hfills).append_left t.used)

/-- A pass that fills an array uses a character that is in front of the next pass again. -/
theorem Step.not_fills (h : Skips input (t.used ++ t.ahead left))
    (hu : (u.used ++ u.ahead left).Sublist input) : ¬PassFills c f format (t.ahead left) := by
  intro hfills
  have hone := hstep.account.1 hfills
  have hinput := h.genuine_eq
  have hle := genuine_le_of_sublist hu
  rw [hstep.used, append_assoc, genuine_append, hone] at hle
  rw [genuine_append] at hinput
  omega

theorem Step.stops (h : ∀ p, t.failed = some p → (t.items, t.used) = p)
    (htext : t.failed ≠ none → passText c f format (t.ahead left) = []) (p : List Item × List UInt8)
    (hp : u.failed = some p) : (u.items, u.used) = p := by
  rcases hstep.failed with heq | ⟨-, heq⟩
  · rw [heq] at hp
    have hnil := htext (by rw [hp]; simp)
    rw [hstep.items hnil, hstep.used, hnil, append_nil]
    exact h p hp
  · rw [heq] at hp
    cases hp
    rfl

/-- What a pass uses after a conversion has failed shows in the next state. -/
theorem Step.text_eq_nil (ht : t.Good left input) (hu : u.Good left input)
    (hfailed : t.failed ≠ none) : passText c f format (t.ahead left) = [] := by
  obtain ⟨p, hp⟩ := Option.ne_none_iff_exists'.1 hfailed
  have heq : u.failed = some p := by
    rcases hstep.failed with heq | ⟨hnone, -⟩
    · exact heq.trans hp
    · exact absurd hnone hfailed
  have hsame : t.used = u.used := congrArg Prod.snd ((ht.2 p hp).trans (hu.2 p heq).symm)
  rw [hstep.used] at hsame
  exact self_eq_append_right.1 hsame

end

end Tracker

theorem passText_length {c f : UInt8} {ahead : List UInt8}
    (hwidth : 0 < (styleOf format).1.fieldWidth.toNat) :
    (passText c f format ahead).length ≤ (styleOf format).1.fieldWidth.toNat := by
  have htake : ((ahead.take ((styleOf format).1.fieldWidth.toNat - 1)).takeWhile
      (fieldCharacter (styleOf format).1)).length ≤ (styleOf format).1.fieldWidth.toNat - 1 :=
    ( takeWhile_prefix _).length_le.trans (length_take_le _ _)
  rw [passText, conversionText]
  split_ifs <;> simp <;> omega

theorem passText_mismatch {c f : UInt8} {ahead : List UInt8} (hpercent : f ≠ '%'.toUInt8) (hne : f ≠ c)
    (hc : space c = false) : passText c f format ahead = [] := by
  rw [passText, if_neg (Bool.eq_false_iff.1 hc), if_pos hpercent, if_neg hne, ite_self]

section

variable {σ : Type} {source : Source σ} {left : σ → List UInt8} {s : σ} {arguments : List ℕ}
  {t : Tracker σ} {c : UInt8}

/-- If all is well in every state, then the rest of the format uses nothing after a failure. -/
theorem idle_of_good (h : source.Lawful left) (hformat : Supported format)
    (hgood : ∀ t, Reaches source.vcscanfBody (source.start s format arguments) t → t.Good left (left s))
    (ht : Reaches source.vcscanfBody (source.start s format arguments) t) (hc : t.c = some c)
    (hwhite : space c = false) (heof : c ≠ 0xFF) (hfailed : t.failed ≠ none) :
    Idle c (t.ahead left) t.format t.arguments := by
  induction hn : t.format.length using Nat.strong_induction_on generalizing t with
  | _ n ih =>
    cases hf : t.format with
    | nil =>
      rw [Idle]
      trivial
    | cons f rest =>
      rw [Idle]
      intro hsafe
      obtain ⟨pass, hpass, hpassed⟩ := (endsIff_pass h (sound_of_reaches h hformat ht) hc hf).1 hsafe
      have hbody : source.vcscanfBody t = .ok pass := by
        rw [vcscanfBody, hc, hf]
        exact hpass
      cases pass with
      | done v =>
        cases hpassed with
        | mismatch hspace _ hpercent hne =>
          refine ⟨passText_mismatch hpercent hne hwhite, fun hor => absurd hor (not_or.2 ⟨?_, hpercent⟩)⟩
          exact Bool.eq_false_iff.1 hspace
      | again u =>
        have hnil := (hpassed.step h hc).text_eq_nil (hgood t ht) (hgood u (ht.tail hbody)) hfailed
        obtain ⟨-, hcu, hahead, hrest, harguments, hfails, hsame⟩ := hpassed.quiet h hc hwhite heof hnil
        have hstill : u.failed ≠ none := by
          by_cases hpercent : f = '%'.toUInt8
          · exact hfails hpercent
          · rwa [hsame hpercent]
        have hshorter : u.format.length < n := by
          rw [hrest, ← hn, hf]
          exact formatAfter_length f rest
        have hidle := ih _ hshorter (ht.tail hbody) hcu hstill rfl
        rw [hahead, hrest, harguments] at hidle
        exact ⟨hnil, fun _ => hidle⟩

/-- A state in which each character was used once, or is in front, and after a failure nothing is used
any more. -/
structure Tracker.Quiet (left : σ → List UInt8) (input : List UInt8) (t : Tracker σ) : Prop where
  skips : Skips input (t.used ++ t.ahead left)
  stopped : ∀ p, t.failed = some p → (t.items, t.used) = p
  idle : t.failed ≠ none → ∃ c, t.c = some c ∧ space c = false ∧ c ≠ 0xFF ∧
    Idle c (t.ahead left) t.format t.arguments

theorem Tracker.Quiet.again {input : List UInt8} {u : Tracker σ} (h : source.Lawful left)
    (ht : source.Sound left t) (hquiet : t.Quiet left input) (hcareful : t.Careful left)
    (hu : source.vcscanfBody t = .ok (.again u)) : u.Quiet left input := by
  obtain ⟨c, f, rest, hc, hf, hsafe, hpassed⟩ := passed_of_again h ht hu
  have hstep := hpassed.step h hc
  rw [Tracker.Careful, hc, hf] at hcareful
  obtain ⟨hfills, hfailure⟩ := hcareful
  -- what `Idle` says of the pass, once a conversion has failed
  have hidle : t.failed ≠ none → space c = false ∧ c ≠ 0xFF ∧
      passText c f rest (t.ahead left) = [] ∧ (space f = true ∨ f = '%'.toUInt8 →
        Idle c (t.ahead left) (formatAfter f rest) (argumentsAfter f rest t.arguments)) := by
    intro hfailed
    obtain ⟨d, hd, hwhite, heof, hidle⟩ := hquiet.idle hfailed
    cases hc.symm.trans hd
    rw [hf, Idle] at hidle
    exact ⟨hwhite, heof, hidle hsafe⟩
  refine ⟨hstep.skips hquiet.skips hfills, hstep.stops hquiet.stopped fun hne => (hidle hne).2.2.1, ?_⟩
  intro hne
  by_cases hfailed : t.failed = none
  · -- the conversion of this pass has failed
    cases hpassed with
    | blank | white | same => exact absurd hfailed hne
    | @conversion converted hspace hwhite hpercent hspec =>
      have hascii : Ascii c := (hsafe.2 hspace).1
      have heof : c ≠ 0xFF := by
        rintro rfl
        exact absurd hascii (by decide)
      have hnil : converted.text = [] := by
        by_contra htext
        exact hne ((if_pos (.inl (hspec.success.2 htext))).trans hfailed)
      have hconversion : conversionText (styleOf rest).1 (t.ahead left) = [] := hspec.text ▸ hnil
      obtain ⟨-, hcu, hahead, hrest, harguments, -⟩ := Passed.quiet h hc hwhite heof
        (.conversion hspace hwhite hpercent hspec)
        ((passText_conversion hspace hwhite hpercent).trans hconversion)
      refine ⟨c, hcu, hwhite, heof, ?_⟩
      rw [hahead, hrest, harguments, formatAfter, argumentsAfter, if_pos hpercent, if_pos hpercent]
      exact hfailure hwhite hpercent hconversion
  · obtain ⟨hwhite, heof, hnil, hnext⟩ := hidle hfailed
    obtain ⟨hor, hcu, hahead, hrest, harguments, -⟩ := hpassed.quiet h hc hwhite heof hnil
    refine ⟨c, hcu, hwhite, heof, ?_⟩
    rw [hahead, hrest, harguments]
    exact hnext hor

/-- If all is well in every state, then every pass meets the condition. -/
theorem careful_of_good {u : Tracker σ} (h : source.Lawful left) (hformat : Supported format)
    (hgood : ∀ t, Reaches source.vcscanfBody (source.start s format arguments) t → t.Good left (left s))
    (ht : Reaches source.vcscanfBody (source.start s format arguments) t)
    (hu : source.vcscanfBody t = .ok (.again u)) : t.Careful left := by
  -- as long as all is well, a character that is used twice shows at once
  have hskips : Skips (left s) (t.used ++ t.ahead left) := by
    clear hu
    induction ht with
    | refl => exact (h.skips_read s).skips
    | tail ht hu ih =>
      obtain ⟨c, f, format, hc, -, -, hpassed⟩ := passed_of_again h (sound_of_reaches h hformat ht) hu
      have hstep := hpassed.step h hc
      exact hstep.skips ih (hstep.not_fills ih (hgood _ (ht.tail hu)).1)
  obtain ⟨c, f, rest, hc, hf, hsafe, hpassed⟩ := passed_of_again h (sound_of_reaches h hformat ht) hu
  rw [Tracker.Careful, hc, hf]
  refine ⟨(hpassed.step h hc).not_fills hskips (hgood u (ht.tail hu)).1,
    fun hwhite hpercent hnil => ?_⟩
  have hspace : space f = false := by rw [hpercent, percent_not_space]
  have heof : c ≠ 0xFF := by
    rintro rfl
    exact absurd (hsafe.2 hspace).1 (by decide)
  obtain ⟨-, hcu, hahead, hrest, harguments, hfails, -⟩ := hpassed.quiet h hc hwhite heof
    ((passText_conversion hspace hwhite hpercent).trans hnil)
  have hidle := idle_of_good h hformat hgood (ht.tail hu) hcu hwhite heof (hfails hpercent)
  rwa [hahead, hrest, harguments, formatAfter, argumentsAfter, if_pos hpercent, if_pos hpercent] at hidle

end

open Source in
/-- **What formatted input consumes**, from every source that keeps to the rules. The source is never
asked to take back a character other than the one that was just read, nor a second one, in no pass and
not at the end. A conversion uses no more characters than its width. Each character is used at most
once and in its order, and nothing is used or assigned after a conversion has failed, in all states
that are reached, if and only if no conversion fills its array and, where a conversion fails, the rest
of the format uses nothing of the rest of the input. -/
theorem scanf_consumption {σ : Type} {source : Source σ} {left : σ → List UInt8}
    (h : source.Lawful left) (s : σ) (format : CString) (arguments : List ℕ)
    (hformat : Supported format.1) :
    (∀ t, Reaches source.vcscanfBody (source.start s format.1 arguments) t →
      source.vcscanfBody t ≠ .error .refused ∧ ∃ after, source.giveBack t.c t.source = .ok after) ∧
    (∀ t u rest, Reaches source.vcscanfBody (source.start s format.1 arguments) t →
      source.vcscanfBody t = .ok (.again u) → t.format = '%'.toUInt8 :: rest →
      0 < (styleOf rest).1.fieldWidth.toNat →
      u.used.length ≤ t.used.length + (styleOf rest).1.fieldWidth.toNat) ∧
    ((∀ t, Reaches source.vcscanfBody (source.start s format.1 arguments) t → t.Good left (left s)) ↔
      ∀ t u, Reaches source.vcscanfBody (source.start s format.1 arguments) t →
        source.vcscanfBody t = .ok (.again u) → t.Careful left) := by
  refine ⟨fun t ht => ?_, fun t u rest ht hu hrest hwidth => ?_, fun hgood => ?_, fun hcareful => ?_⟩
  · have hsound := sound_of_reaches h hformat ht
    obtain ⟨after, hafter, -⟩ := hsound.1.giveBack
    exact ⟨hsound.ne_refused h, after, hafter⟩
  · obtain ⟨c, f, format, hc, hf, -, hpassed⟩ := passed_of_again h (sound_of_reaches h hformat ht) hu
    rw [hrest] at hf
    cases hf
    rw [(hpassed.step h hc).used, length_append]
    exact Nat.add_le_add_left (passText_length hwidth) _
  · exact fun t u => careful_of_good h hformat hgood
  · have hquiet : ∀ t, Reaches source.vcscanfBody (source.start s format.1 arguments) t →
        t.Quiet left (left s) := by
      intro t ht
      induction ht with
      | refl =>
        exact ⟨(h.skips_read s).skips, fun p hp => (Option.some_ne_none p hp.symm).elim,
          fun hne => absurd rfl hne⟩
      | tail ht hu ih => exact ih.again h (sound_of_reaches h hformat ht) (hcareful _ _ ht hu) hu
    exact fun t ht => ⟨(hquiet t ht).skips.1, (hquiet t ht).stopped⟩

/-- Some input for `%d`, from a string, from a stream and from the source that refuses what it does not
have to do. -/
theorem scanf_consumption_d :
    Supported ['%'.toUInt8, 'd'.toUInt8] ∧
    (∀ t, Reaches (string ['1'.toUInt8, '2'.toUInt8]).vcscanfBody
        ((string ['1'.toUInt8, '2'.toUInt8]).start 0 ['%'.toUInt8, 'd'.toUInt8] [4]) t →
      (string ['1'.toUInt8, '2'.toUInt8]).vcscanfBody t ≠ .error .refused ∧
        ∃ after, (string ['1'.toUInt8, '2'.toUInt8]).giveBack t.c t.source = .ok after) ∧
    (∀ t, Reaches stream.vcscanfBody
        (stream.start ⟨['1'.toUInt8], some '2'.toUInt8, false⟩ ['%'.toUInt8, 'd'.toUInt8] [4]) t →
      stream.vcscanfBody t ≠ .error .refused ∧
        ∃ after, stream.giveBack t.c t.source = .ok after) ∧
    ∀ t, Reaches checked.vcscanfBody
        (checked.start (['1'.toUInt8, '2'.toUInt8], none) ['%'.toUInt8, 'd'.toUInt8] [4]) t →
      checked.vcscanfBody t ≠ .error .refused ∧
        ∃ after, checked.giveBack t.c t.source = .ok after := by
  have hformat : Supported ['%'.toUInt8, 'd'.toUInt8] := by
    rw [Supported, directives, if_pos rfl, show (styleOf ['d'.toUInt8]).2 = [] by decide +kernel,
      directives, forall_mem_singleton]
    decide +kernel
  exact ⟨hformat, (scanf_consumption (string_lawful _) 0 ⟨_, by decide⟩ [4] hformat).1,
    (scanf_consumption stream_lawful _ ⟨_, by decide⟩ [4] hformat).1,
    (scanf_consumption checked_lawful _ ⟨_, by decide⟩ [4] hformat).1⟩

/-- From "123" the conversion `%2d` takes the digit 1, which is in front of the next pass again. From
"a5" the format "%da%d" assigns the 5 after its first conversion has failed. -/
theorem not_scanf_consumption :
    (∃ t, Reaches (string ['1'.toUInt8, '2'.toUInt8, '3'.toUInt8]).vcscanfBody
        ((string ['1'.toUInt8, '2'.toUInt8, '3'.toUInt8]).start 0
          ['%'.toUInt8, '2'.toUInt8, 'd'.toUInt8] [4]) t ∧
      t.used = ['1'.toUInt8] ∧ t.items = [.int 1] ∧
      t.ahead (after ['1'.toUInt8, '2'.toUInt8, '3'.toUInt8]) =
        ['1'.toUInt8, '2'.toUInt8, '3'.toUInt8] ∧
      ¬t.Good (after ['1'.toUInt8, '2'.toUInt8, '3'.toUInt8])
        ['1'.toUInt8, '2'.toUInt8, '3'.toUInt8]) ∧
    ∃ t, Reaches (string ['a'.toUInt8, '5'.toUInt8]).vcscanfBody
        ((string ['a'.toUInt8, '5'.toUInt8]).start 0
          ['%'.toUInt8, 'd'.toUInt8, 'a'.toUInt8, '%'.toUInt8, 'd'.toUInt8] [4, 4]) t ∧
      t.failed = some ([], []) ∧ t.items = [.int 5] ∧
      ¬t.Good (after ['a'.toUInt8, '5'.toUInt8]) ['a'.toUInt8, '5'.toUInt8] := by
  refine ⟨⟨⟨some '1'.toUInt8, 1, [], [], [.int 1], ['1'.toUInt8], none⟩, .single (by decide +kernel), rfl,
    rfl, by decide, fun hgood => absurd hgood.1 (by decide)⟩,
    ⟨none, 2, [], [], [.int 5], ['a'.toUInt8, '5'.toUInt8], some ([], [])⟩, ?_, rfl, rfl,
    fun hgood => absurd (hgood.2 _ rfl) (by decide)⟩
  refine .head (b := ⟨some 'a'.toUInt8, 1, ['a'.toUInt8, '%'.toUInt8, 'd'.toUInt8], [4], [], [],
    some ([], [])⟩) (by decide +kernel) (.head (b := ⟨some '5'.toUInt8, 2, ['%'.toUInt8, 'd'.toUInt8], [4],
    [], ['a'.toUInt8], some ([], [])⟩) (by decide +kernel) (.single (by decide +kernel)))

end Dx.Libc
