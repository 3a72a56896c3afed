import Mathlib.Data.FinEnum

/-!
# Classification of characters

The functions of `ctype.h` look the character up in a table of masks (`ctype_table`). The index is
the character as a byte, so that the index can be up to 255; the table was written for the 7-bit
characters and has 128 entries.

A function that would read or write outside of an object stops with `Fault.outside` here. Of a string
the characters before its terminator are given: a pointer into the string is what is left of it, and
the terminator is read where nothing is left (`current`).
-/

namespace Dx.Libc

/-- Why a call does not come to its end. -/
inductive Fault where
  /-- It would read or write outside of an object. -/
  | outside
  /-- It asks for an argument that the caller has not passed. -/
  | argument
  /-- It pushes back a character for which there is no place. -/
  | refused
  deriving DecidableEq

@[simp]
theorem ok_bind {ε α β : Type} (a : α) (f : α → Except ε β) : (Except.ok a >>= f) = f a := rfl

@[simp]
theorem error_bind {ε α β : Type} (e : ε) (f : α → Except ε β) :
    (Except.error e >>= f) = .error e := rfl

@[simp]
theorem pure_eq_ok {ε α : Type} (a : α) : (pure a : Except ε α) = .ok a := rfl

/-- A call that comes to its end. -/
def Inside {α : Type*} (call : Except Fault α) : Prop := ∃ a, call = .ok a

theorem inside_ok {α : Type*} (a : α) : Inside (.ok a : Except Fault α) := ⟨a, rfl⟩

theorem not_inside_error {α : Type*} (e : Fault) : ¬Inside (.error e : Except Fault α) :=
  fun ⟨_, h⟩ => nomatch h

/-- The call comes to its end, with a result of which `post` holds, if `safe` holds; otherwise it
leaves its objects. -/
def EndsIff {α : Type} (call : Except Fault α) (safe : Prop) (post : α → Prop) : Prop :=
  (safe → ∃ a, call = .ok a ∧ post a) ∧ (¬safe → call = .error .outside)

namespace EndsIff

variable {α β : Type} {call : Except Fault α} {safe safe' : Prop} {post : α → Prop} {post' : β → Prop}

theorem of_ok {a : α} (h : call = .ok a) (hsafe : safe) (hpost : post a) : EndsIff call safe post :=
  ⟨fun _ => ⟨a, h, hpost⟩, fun hnot => absurd hsafe hnot⟩

theorem of_error (h : call = .error .outside) (hnot : ¬safe) : EndsIff call safe post :=
  ⟨fun hsafe => absurd hsafe hnot, fun _ => h⟩

section

variable (h : EndsIff call safe post)
include h

theorem congr (hiff : safe ↔ safe') : EndsIff call safe' post :=
  ⟨fun hsafe => h.1 (hiff.2 hsafe), fun hnot => h.2 (hiff.not.2 hnot)⟩

theorem imp {post₁ : α → Prop} (hpost : ∀ a, post a → post₁ a) : EndsIff call safe post₁ :=
  ⟨fun hsafe => (h.1 hsafe).imp fun a ha => ⟨ha.1, hpost a ha.2⟩, h.2⟩

theorem post_of_ok {a : α} (hok : call = .ok a) : post a := by
  by_cases hsafe : safe
  · obtain ⟨b, hb, hpost⟩ := h.1 hsafe
    rw [hok] at hb
    cases hb
    exact hpost
  · rw [h.2 hsafe] at hok
    cases hok

theorem bind {next : α → Except Fault β} (hnext : ∀ a, post a → EndsIff (next a) safe' post') :
    EndsIff (call >>= next) (safe ∧ safe') post' := by
  by_cases hsafe : safe
  · obtain ⟨a, rfl, ha⟩ := h.1 hsafe
    rw [and_iff_right hsafe]
    exact hnext a ha
  · exact .of_error (by rw [h.2 hsafe]; rfl) fun hboth => hsafe hboth.1

theorem map {f : α → β} (hf : ∀ a, post a → post' (f a)) :
    EndsIff (do let a ← call; return f a) safe post' := by
  have hboth : EndsIff (call >>= fun a => pure (f a)) (safe ∧ True) post' :=
    h.bind fun a ha => .of_ok rfl trivial (hf a ha)
  rwa [and_true] at hboth

end

end EndsIff

abbrev Ascii (c : UInt8) : Prop := c < 0x80

def current (s : List UInt8) : UInt8 := s.headD 0

/-! ### The table -/

def control : UInt8 := 0x01
def digit : UInt8 := 0x02
def hexDigit : UInt8 := 0x04
def graphic : UInt8 := 0x08
def lower : UInt8 := 0x10
def punctuation : UInt8 := 0x20
def upper : UInt8 := 0x40
def whitespace : UInt8 := 0x80

def ctypeTable : List UInt8 :=
  .replicate 9 control ++                                -- 0x00
  .replicate 5 (control ||| whitespace) ++               -- 0x09
  .replicate 18 control ++                               -- 0x0E
  [whitespace] ++                                        -- 0x20
  .replicate 15 (graphic ||| punctuation) ++             -- 0x21
  .replicate 10 (digit ||| graphic ||| hexDigit) ++      -- 0x30
  .replicate 7 (graphic ||| punctuation) ++              -- 0x3A
  .replicate 6 (graphic ||| hexDigit ||| upper) ++       -- 0x41
  .replicate 20 (graphic ||| upper) ++                   -- 0x47
  .replicate 6 (graphic ||| punctuation) ++              -- 0x5B
  .replicate 26 (graphic ||| lower) ++                   -- 0x61
  .replicate 4 (graphic ||| punctuation) ++              -- 0x7B
  [control]                                              -- 0x7F

/-- `CTYPE_TABLE(c) & mask`. -/
def classify (mask c : UInt8) : Except Fault Bool :=
  match ctypeTable[c.toNat]? with
  | some entry => .ok (entry &&& mask != 0)
  | none => .error .outside

def isspace (c : UInt8) : Except Fault Bool := classify whitespace c
def isdigit (c : UInt8) : Except Fault Bool := classify digit c
def isupper (c : UInt8) : Except Fault Bool := classify upper c
def islower (c : UInt8) : Except Fault Bool := classify lower c

/-! ### What the table says -/

def between (first last : Char) (c : UInt8) : Bool := first.toUInt8 ≤ c && c ≤ last.toUInt8

def space (c : UInt8) : Bool := between '\t' '\r' c || c == ' '.toUInt8

theorem classify_of_not_ascii {mask c : UInt8} (hc : ¬Ascii c) : classify mask c = .error .outside := by
  have hlen : ctypeTable.length ≤ c.toNat := UInt8.le_iff_toNat_le.1 (UInt8.not_lt.1 hc)
  rw [classify, List.getElem?_eq_none hlen]

/-- The classification of a 7-bit character is found by a search of the table. -/
theorem classify_of_ascii {mask : UInt8} {p : UInt8 → Bool}
    (h : ∀ c : UInt8, Ascii c → classify mask c = .ok (p c)) (c : UInt8) :
    classify mask c = if Ascii c then .ok (p c) else .error .outside := by
  split
  · exact h c ‹_›
  · exact classify_of_not_ascii ‹_›

theorem isspace_eq (c : UInt8) : isspace c = if Ascii c then .ok (space c) else .error .outside :=
  classify_of_ascii (by decide +kernel) c

theorem isdigit_eq (c : UInt8) :
    isdigit c = if Ascii c then .ok (between '0' '9' c) else .error .outside :=
  classify_of_ascii (by decide +kernel) c

theorem isupper_eq (c : UInt8) :
    isupper c = if Ascii c then .ok (between 'A' 'Z' c) else .error .outside :=
  classify_of_ascii (by decide +kernel) c

theorem islower_eq (c : UInt8) :
    islower c = if Ascii c then .ok (between 'a' 'z' c) else .error .outside :=
  classify_of_ascii (by decide +kernel) c

end Dx.Libc
