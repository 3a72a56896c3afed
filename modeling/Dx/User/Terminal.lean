import Dx.Library.Walk
import Mathlib.Data.List.Basic

/-!
# The text screen

Two drivers write to the text screen, each to a page of its own: `display_c` of the kernel and
`vga.c`. Both put every character at the output position in the bottom line, and scroll the page up
by one line for a newline. The position is kept from one text to the next.

The output is compared with the rows of a page of paper (`type`), the row that is being written
first. `vga.c` starts a new row when one is full; what it shows is the last 25 rows, but characters
are signed, so that a byte from 0x80 on also sets the attributes. The kernel does not look at the
length of a line.
-/

namespace Dx.User

open Library Function List

def vgaTextColumnCount : ℕ := 80
def vgaTextRowCount : ℕ := 25
/-- `VGA_TEXT_LAST_LINE_OFFSET`, in words. -/
def lastLine : ℕ := (vgaTextRowCount - 1) * vgaTextColumnCount
/-- `VGA_TEXT_OVERFLOW_LINE_OFFSET`, in words. -/
def overflowLine : ℕ := lastLine + vgaTextColumnCount

structure Screen where
  memory : ℕ → UInt16
  /-- `offset`, or `current_offset`. -/
  offset : ℕ
  /-- Every word that has been stored so far is in the page. -/
  confined : Bool

namespace Screen

def store (k : ℕ) (word : UInt16) (s : Screen) : Screen :=
  { s with
    memory := Function.update s.memory k word
    confined := s.confined && k < vgaTextRowCount * vgaTextColumnCount }

def storeRange (destination n : ℕ) (memory : ℕ → UInt16) (s : Screen) : Screen :=
  { s with
    memory := memory
    confined := s.confined && destination + n ≤ vgaTextRowCount * vgaTextColumnCount }

/-- `memmove` to a lower address: the first word is copied first. -/
def memmove (destination source n : ℕ) (s : Screen) : Screen :=
  s.storeRange destination n (copy 1 n destination source s.memory)

def fill (word : UInt16) (destination n : ℕ) (s : Screen) : Screen :=
  s.storeRange destination n (Library.fill word (List.range' destination n) s.memory)

/-- `scroll_up`, and `vga_scroll_up`. -/
def scrollUp (blank : UInt16) (s : Screen) : Screen :=
  (s.memmove 0 vgaTextColumnCount lastLine).fill blank lastLine vgaTextColumnCount

def newLine (blank : UInt16) (s : Screen) : Screen :=
  { s.scrollUp blank with offset := lastLine }

def put (word : UInt16) (s : Screen) : Screen :=
  { s.store s.offset word with offset := s.offset + 1 }

/-- A character with `VGA_TEXT_ATTRIBUTE_WHITE_ON_BLACK`. -/
def normal (character : UInt8) : UInt16 := 0x0700 ||| character.toUInt16

/-- `display_c::display_c`. -/
def display (memory : ℕ → UInt16) : Screen := newLine 0 ⟨memory, lastLine, true⟩

/-- `display_c::write`, for one character. -/
def displayWrite (s : Screen) (character : UInt8) : Screen :=
  if character ≠ 10 then s.put (normal character) else s.newLine 0

/-- The word of `vga_write`, where the character is an `int`. -/
def signed (character : UInt8) : UInt16 := 0x0700 ||| character.toInt8.toInt16.toUInt16

def blankWord : UInt16 := normal 0x20

def vgaClear (s : Screen) : Screen :=
  { (List.range vgaTextRowCount).foldl
      (fun s line => s.fill blankWord (line * vgaTextColumnCount) vgaTextColumnCount) s with
    offset := lastLine }

/-- `vga_write`, for one character. -/
def vgaWrite (s : Screen) (character : UInt8) : Screen :=
  if character ≠ 10 then
    let s := s.put (signed character)
    if overflowLine ≤ s.offset then s.newLine blankWord else s
  else s.newLine blankWord

/-- The display of the kernel, after the given texts. -/
def displayed (memory : ℕ → UInt16) (texts : List (List UInt8)) : Screen :=
  texts.foldl (List.foldl displayWrite) (display memory)

/-- The screen of the driver, after the given texts. -/
def shown (memory : ℕ → UInt16) (texts : List (List UInt8)) : Screen :=
  texts.foldl (List.foldl vgaWrite) (vgaClear ⟨memory, lastLine, true⟩)

/-- The output position is in the bottom line, and all that has been stored is in the page. -/
def InBottomLine (s : Screen) : Prop :=
  s.confined = true ∧ lastLine ≤ s.offset ∧ s.offset < overflowLine

end Screen

/-- The row that is being written, and the rows before it, after one more character; `wraps` is
whether a new row is started when one is full. -/
def type (wraps : Bool) (page : List UInt8 × List (List UInt8)) (character : UInt8) :
    List UInt8 × List (List UInt8) :=
  if character = 10 then ([], page.1 :: page.2)
  else if wraps ∧ page.1.length + 1 = vgaTextColumnCount then
    ([], (page.1 ++ [character]) :: page.2)
  else (page.1 ++ [character], page.2)

/-- The rows of an output. -/
def page (wraps : Bool) (texts : List (List UInt8)) : List UInt8 × List (List UInt8) :=
  texts.flatten.foldl (type wraps) ([], [])

namespace Screen

variable {s : Screen} {d source n k : ℕ} {word blank : UInt16} {row : List UInt8}
  {rows : List (List UInt8)} {character : UInt8}

theorem memory_memmove (h : d ≤ source) : (s.memmove d source n).memory k =
    if d ≤ k ∧ k < d + n then s.memory (k - d + source) else s.memory k := by
  have hpassed : Passed 1 n d k ↔ d ≤ k ∧ k < d + n := by
    simp only [Passed, Nat.nsmul_eq_mul, Nat.mul_one]
    exact ⟨fun ⟨i, hi, hk⟩ => by omega, fun hk => ⟨k - d, by omega, by omega⟩⟩
  split_ifs with hk
  · have hcopy : Library.copy 1 n d source s.memory (d + (k - d) • 1) = _ := copy_of_passed
      (fun i j hij _ => by simp only [Nat.nsmul_eq_mul]; omega) (by omega)
    rw [Nat.nsmul_eq_mul, Nat.mul_one, Nat.add_sub_cancel' hk.1, Nat.add_comm source] at hcopy
    exact hcopy
  · exact copy_of_not_passed (hpassed.not.2 hk)

theorem memory_fill :
    (s.fill word d n).memory k = if d ≤ k ∧ k < d + n then word else s.memory k := by
  simp only [fill, storeRange, fill_apply, mem_range'_1]

theorem confined_storeRange {memory : ℕ → UInt16}
    (h : d + n ≤ vgaTextRowCount * vgaTextColumnCount) :
    (s.storeRange d n memory).confined = s.confined := by
  rw [storeRange, decide_eq_true h, Bool.and_true]

@[simp] theorem confined_newLine : (s.newLine blank).confined = s.confined := by
  rw [newLine, scrollUp, fill, confined_storeRange (by decide), memmove,
    confined_storeRange (by decide)]

theorem memory_newLine : (s.newLine blank).memory k =
    if k < lastLine then s.memory (k + vgaTextColumnCount)
    else if k < overflowLine then blank else s.memory k := by
  rw [newLine, scrollUp, memory_fill, memory_memmove (Nat.zero_le _), overflowLine]
  split_ifs <;> first | omega | rfl

/-! ### The display of the kernel -/

/-- The output position is as far in the bottom line as the current line is long, and the stores
are in the page as long as no line is longer than the screen. -/
structure Displays (s : Screen) (page : List UInt8 × List (List UInt8)) : Prop where
  offset : s.offset = lastLine + page.1.length
  confined : s.confined = true ↔ ∀ line ∈ page.1 :: page.2, line.length ≤ vgaTextColumnCount

theorem Displays.write {page : List UInt8 × List (List UInt8)} (h : s.Displays page)
    (character : UInt8) :
    (s.displayWrite character).Displays (type false page character) := by
  unfold displayWrite type
  by_cases hnl : character = 10
  · rw [if_neg (not_not.2 hnl), if_pos hnl]
    refine ⟨rfl, ?_⟩
    rw [confined_newLine, h.confined]
    simp
  · rw [if_pos hnl, if_neg hnl, if_neg (by simp)]
    refine ⟨?_, ?_⟩
    · simp [put, h.offset, Nat.add_assoc]
    · have hlt : s.offset < vgaTextRowCount * vgaTextColumnCount ↔
          page.1.length + 1 ≤ vgaTextColumnCount := by
        rw [h.offset, lastLine, vgaTextRowCount, vgaTextColumnCount]
        omega
      simp only [put, store, Bool.and_eq_true, decide_eq_true_eq, h.confined, hlt, mem_cons,
        forall_eq_or_imp, length_append, length_singleton]
      constructor
      · rintro ⟨⟨-, hrows⟩, hrow⟩
        exact ⟨hrow, hrows⟩
      · rintro ⟨hrow, hrows⟩
        exact ⟨⟨Nat.le_of_succ_le hrow, hrows⟩, hrow⟩

theorem inBottomLine_displayed_iff (memory : ℕ → UInt16) (texts : List (List UInt8)) :
    (displayed memory texts).InBottomLine ↔
      (page false texts).1.length < vgaTextColumnCount ∧
        ∀ line ∈ (page false texts).2, line.length ≤ vgaTextColumnCount := by
  have hstart : (display memory).Displays ([], []) := by
    refine ⟨rfl, ?_⟩
    rw [display, confined_newLine]
    simp
  have hs : (displayed memory texts).Displays (page false texts) := by
    have hflat := foldl_rel (l := texts.flatten) hstart fun c _ _ _ h => h.write c
    rwa [foldl_flatten] at hflat
  rw [InBottomLine, hs.confined, hs.offset, forall_mem_cons, overflowLine]
  constructor
  · rintro ⟨⟨-, hrows⟩, -, hrow⟩
    exact ⟨Nat.lt_of_add_lt_add_left hrow, hrows⟩
  · rintro ⟨hrow, hrows⟩
    exact ⟨⟨Nat.le_of_lt hrow, hrows⟩, Nat.le_add_right _ _, Nat.add_lt_add_left hrow _⟩

theorem rows_subset_of_isPrefix {before texts : List (List UInt8)} (h : before <+: texts) :
    (page false before).2 ⊆ (page false texts).2 := by
  obtain ⟨after, rfl⟩ := h
  rw [page, page, flatten_append, foldl_append]
  refine foldlRecOn (motive := fun x => (page false before).2 ⊆ x.2) after.flatten (type false)
    (Subset.refl _) ?_
  intro x hx character _
  unfold type
  split_ifs
  exacts [subset_cons_of_subset _ hx, subset_cons_of_subset _ hx, hx]

/-- **The display of the kernel.** While the texts are written the output position is in the bottom
line after each of them, and all stores are in the page, exactly when no line is longer than the
screen is wide, and the one at the end of each text is shorter. -/
theorem display_confined_iff (memory : ℕ → UInt16) (texts : List (List UInt8)) :
    (∀ before, before <+: texts → (displayed memory before).InBottomLine) ↔
      (∀ before, before <+: texts → (page false before).1.length < vgaTextColumnCount) ∧
        ∀ line ∈ (page false texts).2, line.length ≤ vgaTextColumnCount := by
  simp only [inBottomLine_displayed_iff]
  constructor
  · exact fun h => ⟨fun before hb => (h before hb).1, (h texts (prefix_refl texts)).2⟩
  · exact fun ⟨hlast, hrows⟩ before hb =>
      ⟨hlast before hb, fun line hl => hrows line (rows_subset_of_isPrefix hb hl)⟩

/-- The last one of 81 characters without a newline is stored behind the page. -/
theorem not_display_confined : ¬∀ texts, (displayed (fun _ => 0) texts).InBottomLine := by
  intro h
  exact absurd (h [List.replicate 81 97]).1 (by decide +kernel)

/-! ### The driver -/

/-- What is shown in a column of a row, for the words the characters are stored as. -/
def cell (word : UInt8 → UInt16) (row : List UInt8) (column : ℕ) : UInt16 :=
  (row[column]?.map word).getD blankWord

/-- The screen shows the last rows of the page. -/
def Shows (word : UInt8 → UInt16) (s : Screen) (page : List UInt8 × List (List UInt8)) : Prop :=
  ∀ i < vgaTextRowCount, ∀ column < vgaTextColumnCount,
    s.memory ((vgaTextRowCount - 1 - i) * vgaTextColumnCount + column) =
      cell word ((page.1 :: page.2).getD i []) column

/-- The output position is in the bottom row, which is not full. -/
structure Types (s : Screen) (page : List UInt8 × List (List UInt8)) : Prop where
  offset : s.offset = lastLine + page.1.length
  row : page.1.length < vgaTextColumnCount
  rows : ∀ line ∈ page.2, line.length ≤ vgaTextColumnCount
  shows : s.Shows signed page
  confined : s.confined = true

theorem Shows.newLine (h : s.Shows signed (row, rows)) :
    (s.newLine blankWord).Shows signed ([], row :: rows) := by
  intro i hi column hcolumn
  rw [memory_newLine]
  unfold Shows lastLine overflowLine lastLine vgaTextRowCount vgaTextColumnCount at *
  rcases i with _ | i
  · rw [if_neg (by omega), if_pos (by omega)]
    rfl
  · rw [if_pos (by omega)]
    have hprevious := h i (by omega) column hcolumn
    rw [← show (25 - 1 - (i + 1)) * 80 + column + 80 = (25 - 1 - i) * 80 + column by omega] at hprevious
    exact hprevious

theorem Shows.put (h : s.Shows signed (row, rows)) (hoffset : s.offset = lastLine + row.length)
    (hrow : row.length < vgaTextColumnCount) (character : UInt8) :
    (s.put (signed character)).Shows signed (row ++ [character], rows) := by
  intro i hi column hcolumn
  have hcell := h i hi column hcolumn
  unfold lastLine vgaTextRowCount vgaTextColumnCount at *
  rcases i with _ | i
  · by_cases heq : column = row.length
    · subst heq
      simp [Screen.put, store, hoffset, cell]
    · have hne : (25 - 1 - 0) * 80 + column ≠ s.offset := by omega
      simp only [Screen.put, store, update_of_ne hne, hcell]
      simp only [cell, getD_cons_zero, List.getElem?_append]
      split_ifs
      · rfl
      · rw [List.getElem?_eq_none (by omega), List.getElem?_eq_none (by simp; omega)]
  · have hne : (25 - 1 - (i + 1)) * 80 + column ≠ s.offset := by omega
    simp only [Screen.put, store, update_of_ne hne]
    exact hcell

theorem Types.write {page : List UInt8 × List (List UInt8)} (h : s.Types page) (character : UInt8) :
    (s.vgaWrite character).Types (type true page character) := by
  obtain ⟨row, rows⟩ := page
  obtain ⟨hoffset, hrow, hrows, hshows, hconfined⟩ := h
  unfold vgaWrite type
  by_cases hnl : character = 10
  · rw [if_neg (not_not.2 hnl), if_pos hnl]
    refine ⟨rfl, Nat.zero_lt_succ _, ?_, hshows.newLine, ?_⟩
    · exact forall_mem_cons.2 ⟨Nat.le_of_lt hrow, hrows⟩
    · rw [confined_newLine, hconfined]
  · rw [if_pos hnl, if_neg hnl]
    have hput := hshows.put hoffset hrow character
    have hin : (s.put (signed character)).confined = true := by
      have hlt : s.offset < vgaTextRowCount * vgaTextColumnCount := by
        unfold lastLine vgaTextRowCount vgaTextColumnCount at *
        omega
      simp [put, store, hconfined, hlt]
    have hnext : (s.put (signed character)).offset = lastLine + row.length + 1 := by
      rw [put, hoffset]
    dsimp only at hrow ⊢
    simp only [hnext, overflowLine, true_and]
    split_ifs with hfull hwrap hwrap
    · refine ⟨rfl, Nat.zero_lt_succ _, ?_, hput.newLine, ?_⟩
      · refine forall_mem_cons.2 ⟨?_, hrows⟩
        rw [length_append, length_singleton]
        exact hrow
      · rw [confined_newLine, hin]
    · omega
    · omega
    · refine ⟨?_, ?_, hrows, hput, hin⟩
      · rw [hnext, length_append, length_singleton, Nat.add_assoc]
      · rw [length_append, length_singleton]
        omega

theorem clear_lines (s : Screen) : ∀ n ≤ vgaTextRowCount,
    let s' := (List.range n).foldl
      (fun s line => s.fill blankWord (line * vgaTextColumnCount) vgaTextColumnCount) s
    s'.confined = s.confined ∧ ∀ k < n * vgaTextColumnCount, s'.memory k = blankWord := by
  intro n hn
  induction n with
  | zero => exact ⟨rfl, fun k hk => absurd hk (by omega)⟩
  | succ n ih =>
    obtain ⟨hconfined, hblank⟩ := ih (Nat.le_of_succ_le hn)
    rw [range_succ, foldl_append]
    refine ⟨(confined_storeRange ?_).trans hconfined, fun k hk => ?_⟩
    · unfold vgaTextRowCount vgaTextColumnCount at *
      omega
    · rw [foldl_cons, foldl_nil, memory_fill]
      split_ifs with hlast
      · rfl
      · exact hblank k (by rw [Nat.succ_mul] at hk; omega)

theorem types_vgaClear (memory : ℕ → UInt16) :
    (vgaClear ⟨memory, lastLine, true⟩).Types ([], []) := by
  obtain ⟨hconfined, hblank⟩ := clear_lines ⟨memory, lastLine, true⟩ vgaTextRowCount (Nat.le_refl _)
  refine ⟨rfl, Nat.zero_lt_succ _, (fun _ h => nomatch h), fun i hi column hcolumn => ?_, ?_⟩
  all_goals simp only [vgaClear]
  · rw [hblank]
    · cases i <;> rfl
    · unfold vgaTextRowCount vgaTextColumnCount at *
      omega
  · rw [hconfined]

theorem signed_eq_normal : signed character = normal character ↔ character < 0x80 := by
  have hall : ∀ n < 256, signed (.ofNat n) = normal (.ofNat n) ↔ UInt8.ofNat n < 0x80 := by
    decide +kernel
  have h := hall character.toNat character.toNat_lt
  rwa [UInt8.ofNat_toNat] at h

theorem cell_signed_eq_normal (h : row.length ≤ vgaTextColumnCount) :
    (∀ column < vgaTextColumnCount, cell signed row column = cell normal row column) ↔
      ∀ character ∈ row, character < 0x80 := by
  constructor
  · intro hcells character hmem
    obtain ⟨column, hcolumn, rfl⟩ := getElem_of_mem hmem
    have hcell := hcells column (Nat.lt_of_lt_of_le hcolumn h)
    simp only [cell, List.getElem?_eq_getElem hcolumn] at hcell
    exact signed_eq_normal.1 hcell
  · intro hrow column _
    unfold cell
    rcases hget : row[column]? with _ | character
    · rfl
    · exact signed_eq_normal.2 (hrow character (mem_of_getElem? hget))

/-- **The text screen.** After any texts, the output position is in the bottom row, and nothing has
been stored outside of the page. The screen shows the last rows of the output exactly when all the
bytes in them are below 0x80. -/
theorem vga_terminal (memory : ℕ → UInt16) (texts : List (List UInt8)) :
    (shown memory texts).InBottomLine ∧
      ((shown memory texts).Shows normal (page true texts) ↔ ∀ i < vgaTextRowCount,
        ∀ character ∈ ((page true texts).1 :: (page true texts).2).getD i [], character < 0x80) := by
  have hs : (shown memory texts).Types (page true texts) := by
    have hflat := foldl_rel (l := texts.flatten) (types_vgaClear memory)
      fun c _ _ _ h => h.write c
    rwa [foldl_flatten] at hflat
  have hlines : ∀ i, (((page true texts).1 :: (page true texts).2).getD i []).length ≤
      vgaTextColumnCount := by
    intro i
    rcases i with _ | i
    · exact Nat.le_of_lt hs.row
    · rw [getD_cons_succ, getD_eq_getElem?_getD]
      rcases hget : (page true texts).2[i]? with _ | line
      · exact Nat.zero_le _
      · exact hs.rows line (mem_of_getElem? hget)
  refine ⟨⟨hs.confined, ?_, ?_⟩, forall₂_congr fun i hi => ?_⟩
  · rw [hs.offset]
    exact Nat.le_add_right _ _
  · rw [hs.offset]
    exact Nat.add_lt_add_left hs.row _
  · rw [← cell_signed_eq_normal (hlines i)]
    exact forall₂_congr fun column hcolumn => by rw [hs.shows i hi column hcolumn]

/-- The word of the byte 0x80 has all bits of its attribute set. -/
theorem not_vga_terminal :
    ¬∀ texts, (shown (fun _ => 0) texts).Shows normal (page true texts) := by
  intro h
  have hcell := h [[0x80]] 0 (by decide) 0 (by decide)
  exact absurd hcell (by decide +kernel)

end Screen

end Dx.User
