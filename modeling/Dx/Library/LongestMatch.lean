import Mathlib.Data.List.TakeWhile

/-!
# Longest matches

A language is a set of words over an alphabet. At the start of a text there may be several words of it,
one the start of the next, or none: `Matches L s rest` says that `rest` is what follows the longest
one, and `NoMatch L s` that there is none. A scanner has to stop behind the longest word, or at the
start of the text (`StopsAt`), and this place is unique (`Matches.stopsAt_iff`, `NoMatch.stopsAt_iff`).

The longest word of a sequence of two languages is made of the longest word of the first one and of
what matches behind it, if a shorter word of the first one cannot be followed by the second one
(`Matches.seq`, `NoMatch.seq`). This is so when the first one is a repetition of characters of a class
with which no word of the second one starts (`Matches.allOf_seq`).
-/

namespace Dx.Library

open List

universe u

variable {α : Type u} {L M : List α → Prop} {p : α → Bool} {s t r rest : List α}

/-- What is left of the text behind the longest word of the language at its start. -/
structure Matches (L : List α → Prop) (s rest : List α) : Prop where
  word : ∃ w, s = w ++ rest ∧ L w
  longest : ∀ w r, s = w ++ r → L w → rest.length ≤ r.length

/-- No word of the language is at the start of the text. -/
def NoMatch (L : List α → Prop) (s : List α) : Prop := ∀ w r, s = w ++ r → ¬L w

/-- Where a scanner stops: behind the longest word, or at the start of the text if there is none. -/
def StopsAt (L : List α → Prop) (s rest : List α) : Prop :=
  Matches L s rest ∨ (NoMatch L s ∧ rest = s)

theorem Matches.suffix (h : Matches L s rest) : rest <:+ s := by
  obtain ⟨w, rfl, -⟩ := h.word
  exact suffix_append w rest

theorem Matches.not_noMatch (h : Matches L s rest) : ¬NoMatch L s := by
  obtain ⟨w, hw, hL⟩ := h.word
  exact fun hno => hno w rest hw hL

theorem Matches.unique (h : Matches L s rest) (h' : Matches L s r) : rest = r := by
  obtain ⟨w, hw, hL⟩ := h.word
  obtain ⟨w', hw', hL'⟩ := h'.word
  have hle := h.longest w' r hw' hL'
  have hge := h'.longest w rest hw hL
  exact (suffix_of_suffix_length_le h.suffix h'.suffix hle).eq_of_length (by omega)

theorem Matches.stopsAt_iff (h : Matches L s rest) : StopsAt L s r ↔ r = rest := by
  constructor
  · rintro (hr | ⟨hno, -⟩)
    · exact hr.unique h
    · exact absurd hno h.not_noMatch
  · rintro rfl
    exact .inl h

theorem NoMatch.stopsAt_iff (h : NoMatch L s) : StopsAt L s r ↔ r = s := by
  constructor
  · rintro (hr | ⟨-, heq⟩)
    · exact absurd h hr.not_noMatch
    · exact heq
  · rintro rfl
    exact .inr ⟨h, rfl⟩

/-! ### Sequences -/

/-- A word of the one language, and then a word of the other. -/
def Seq (L M : List α → Prop) (w : List α) : Prop := ∃ x y, w = x ++ y ∧ L x ∧ M y

/-- Words of `L` other than the longest one are followed by no word of `M` but the empty one. -/
def Eager (L M : List α → Prop) (s t : List α) : Prop :=
  ∀ x t', s = x ++ t' → L x → t' ≠ t → ∀ y r, t' = y ++ r → M y → y = []

theorem Matches.seq (hL : Matches L s t) (hM : Matches M t r) (heager : Eager L M s t) :
    Matches (Seq L M) s r := by
  obtain ⟨x, hx, hLx⟩ := hL.word
  obtain ⟨y, hy, hMy⟩ := hM.word
  refine ⟨⟨x ++ y, by rw [hx, hy, append_assoc], x, y, rfl, hLx, hMy⟩, ?_⟩
  rintro w r' hw ⟨x', y', rfl, hLx', hMy'⟩
  rw [append_assoc] at hw
  by_cases heq : y' ++ r' = t
  · exact hM.longest y' r' heq.symm hMy'
  · have hempty := heager x' (y' ++ r') hw hLx' heq y' r' rfl hMy'
    subst hempty
    have hle := hL.longest x' ([] ++ r') hw hLx'
    exact hM.suffix.length_le.trans hle

theorem NoMatch.seq (hM : NoMatch M t) (hne : ¬M []) (heager : Eager L M s t) :
    NoMatch (Seq L M) s := by
  rintro w r' hw ⟨x', y', rfl, hLx', hMy'⟩
  rw [append_assoc] at hw
  by_cases heq : y' ++ r' = t
  · exact hM y' r' heq.symm hMy'
  · have hempty := heager x' (y' ++ r') hw hLx' heq y' r' rfl hMy'
    exact hne (hempty ▸ hMy')

/-! ### Repetitions -/

def AllOf (p : α → Bool) (w : List α) : Prop := ∀ c ∈ w, p c = true

def SomeOf (p : α → Bool) (w : List α) : Prop := w ≠ [] ∧ AllOf p w

/-- The words of the language do not start with a character of the class. -/
def StartsOutside (p : α → Bool) (M : List α → Prop) : Prop :=
  ∀ c w, M (c :: w) → p c = false

theorem StartsOutside.seq (hL : StartsOutside p L) (hM : StartsOutside p M) :
    StartsOutside p (Seq L M) := by
  rintro c w ⟨x, y, hw, hLx, hMy⟩
  cases x with
  | nil =>
    rw [nil_append] at hw
    exact hM c w (hw ▸ hMy)
  | cons d x =>
    cases hw
    exact hL c x hLx

theorem allOf_takeWhile (p : α → Bool) (s : List α) : AllOf p (s.takeWhile p) :=
  fun _ hc => mem_takeWhile_imp hc

theorem matches_allOf (p : α → Bool) (s : List α) : Matches (AllOf p) s (s.dropWhile p) := by
  refine ⟨⟨_, takeWhile_append_dropWhile.symm, allOf_takeWhile p s⟩, ?_⟩
  rintro w r rfl hw
  rw [dropWhile_append_of_pos hw]
  exact (dropWhile_suffix p).length_le

theorem matches_someOf (h : s.takeWhile p ≠ []) : Matches (SomeOf p) s (s.dropWhile p) :=
  ⟨⟨_, takeWhile_append_dropWhile.symm, h, allOf_takeWhile p s⟩,
    fun w r hw hsome => (matches_allOf p s).longest w r hw hsome.2⟩

theorem noMatch_someOf (h : s.takeWhile p = []) : NoMatch (SomeOf p) s := by
  rintro w r rfl ⟨hne, hw⟩
  rw [takeWhile_append_of_pos hw, append_eq_nil_iff] at h
  exact hne h.1

theorem eager_allOf (hM : StartsOutside p M) : Eager (AllOf p) M s (s.dropWhile p) := by
  rintro x t' rfl hx hne y r rfl hMy
  cases y with
  | nil => rfl
  | cons c y =>
    rw [dropWhile_append_of_pos hx, cons_append,
      dropWhile_cons_of_neg (by rw [hM c y hMy]; simp)] at hne
    exact absurd rfl hne

theorem Matches.allOf_seq (hM : StartsOutside p M) (h : Matches M (s.dropWhile p) r) :
    Matches (Seq (AllOf p) M) s r := (matches_allOf p s).seq h (eager_allOf hM)

theorem NoMatch.allOf_seq (hM : StartsOutside p M) (hne : ¬M []) (h : NoMatch M (s.dropWhile p)) :
    NoMatch (Seq (AllOf p) M) s := h.seq hne (eager_allOf hM)

theorem Matches.someOf_seq (hM : StartsOutside p M) (hs : s.takeWhile p ≠ [])
    (h : Matches M (s.dropWhile p) r) : Matches (Seq (SomeOf p) M) s r :=
  (matches_someOf hs).seq h fun x t' hx hsome hne y r' => eager_allOf hM x t' hx hsome.2 hne y r'

end Dx.Library
