import Dx.Memory.PageDirectory
import Mathlib.Data.Nat.Find

/-!
# Searching the page directory

`find_present_entry`: the destructor of an address space, and the check before an expansion, look for
the next page that is mapped. The search goes through the directory, and through a page table where
there is one, and comes around at the end of the address space.

The running address is that of the first page of a directory entry only if the search began with one.
From an address in the middle of an entry that is absent, it stays in the middle of every entry the
search comes to, and what is before that is skipped; a superpage is skipped altogether when the search
begins in the middle of it; and a page table that has no pages is reported as if it were a page
(`not_findPresentEntry`). What is found is the next page exactly when none of this happens
(`Searchable`).
-/

namespace Dx.Memory

open Option Nat

namespace PageDirectory

variable {d : PageDirectory} {address page i j k m n t : ℕ}

/-! ### Pages in address order -/

/-- The page with these indices is mapped. -/
def mapped (d : PageDirectory) (i j : ℕ) : Bool :=
  (d.entry i).present && ((d.entry i).superPage || (d.table i j).present)

theorem isSome_lookup (d : PageDirectory) (v : ℕ) :
    (d.lookup v).isSome = d.mapped (calculateIndex v) (calculateTableIndex v) := by
  rw [lookup, mapped]
  cases hp : (d.entry (calculateIndex v)).present with
  | false =>
    rw [findEntry_of_absent hp, get, hp]
    rfl
  | true =>
    cases hs : (d.entry (calculateIndex v)).superPage with
    | false =>
      rw [findEntry_of_table hp hs, get]
      cases (d.table (calculateIndex v) (calculateTableIndex v)).present <;> rfl
    | true =>
      rw [findEntry_of_superPage hs, get, hp]
      rfl

/-- Where a page is, counted from the first page of the entry of `address`. -/
theorem indices_pageAfter (haddress : address % pageSize = 0)
    (hm : calculateTableIndex address + m = k * 1024 + j) (hj : j < 1024) :
    calculateIndex (pageAfter address m) = (calculateIndex address + k) % 1024 ∧
      calculateTableIndex (pageAfter address m) = j := by
  unfold calculateIndex calculateTableIndex pageAfter at *
  rw [pageSize_eq] at *
  rw [show entriesPerPageTable = 1024 from rfl] at *
  rw [show superPageSize = 4194304 from rfl]
  omega

theorem calculateTableIndex_lt (v : ℕ) : calculateTableIndex v < 1024 := mod_lt _ (by decide)

theorem calculateIndex_lt (h : page < 2 ^ 32) : calculateIndex page < 1024 := by
  unfold calculateIndex
  rw [show superPageSize = 4194304 from rfl]
  omega

/-- What the search should find: the first page that is mapped, from `address` on. -/
def FirstPresent (d : PageDirectory) (address : ℕ) (result : EntryRef × ℕ) : Prop :=
  ∃ n < 2 ^ 20, result = (d.findEntry (pageAfter address n), pageAfter address n) ∧
    (d.lookup (pageAfter address n)).isSome ∧ ∀ m < n, d.lookup (pageAfter address m) = none

theorem firstPresent_iff {ref : EntryRef} (hn : n < 2 ^ 20) :
    d.FirstPresent address (ref, pageAfter address n) ↔
      ref = d.findEntry (pageAfter address n) ∧ (d.lookup (pageAfter address n)).isSome ∧
        ∀ m < n, d.lookup (pageAfter address m) = none := by
  constructor
  · rintro ⟨n', hn', heq, hrest⟩
    obtain ⟨href, hpage⟩ := Prod.mk.inj heq
    obtain rfl := pageAfter_inj hn hn' hpage
    exact ⟨href, hrest⟩
  · rintro ⟨rfl, hrest⟩
    exact ⟨n, hn, rfl, hrest⟩

/-! ### What the loops find -/

/-- The loop over a page table stops at the first page that is present. -/
theorem findPresentLoop_spec (table : ℕ → PageTableEntry) (hpage : page < 2 ^ 32) :
    (∃ m < n, findPresentLoop table n j page = some (j + m, pageAfter page m) ∧
        (table (j + m)).present = true ∧ ∀ q < m, (table (j + q)).present = false) ∨
      findPresentLoop table n j page = none ∧ ∀ m < n, (table (j + m)).present = false := by
  induction n generalizing j page with
  | zero => exact .inr ⟨rfl, fun m hm => absurd hm (not_lt_zero m)⟩
  | succ n ih =>
    rw [findPresentLoop]
    cases hp : (table j).present with
    | true =>
      refine .inl ⟨0, succ_pos n, ?_, hp, fun q hq => absurd hq (not_lt_zero q)⟩
      rw [if_pos rfl, pageAfter_zero hpage]
      rfl
    | false =>
      have hnext : (page + pageSize) % 2 ^ 32 = pageAfter page 1 := by rw [pageAfter, one_mul]
      rw [if_neg Bool.false_ne_true, hnext]
      rcases ih (pageAfter_lt : pageAfter page 1 < 2 ^ 32) with
        ⟨m, hm, hfound, hpresent, hbefore⟩ | ⟨hnone, hall⟩
      · refine .inl ⟨m + 1, succ_lt_succ hm, ?_, ?_, fun q hq => ?_⟩
        · rw [hfound, pageAfter_pageAfter, add_comm 1 m, add_right_comm, add_assoc]
        · rwa [add_right_comm, add_assoc] at hpresent
        · cases q with
          | zero => exact hp
          | succ q =>
            have hq := hbefore q (lt_of_succ_lt_succ hq)
            rwa [add_right_comm, add_assoc] at hq
      · refine .inr ⟨hnone, fun m hm => ?_⟩
        cases m with
        | zero => exact hp
        | succ m =>
          have hm := hall m (lt_of_succ_lt_succ hm)
          rwa [add_right_comm, add_assoc] at hm

/-- The search of one page table, from the index of `page` on. -/
theorem findPresentInTable_spec (hpage : page < 2 ^ 32) :
    ((d.entry i).superPage = false ∧ ∃ m, calculateTableIndex page + m < 1024 ∧
        d.findPresentInTable i page =
          some (.table i (calculateTableIndex page + m), pageAfter page m) ∧
        (d.table i (calculateTableIndex page + m)).present = true ∧
        ∀ q < m, (d.table i (calculateTableIndex page + q)).present = false) ∨
      d.findPresentInTable i page = none ∧ ((d.entry i).superPage = true ∨
        ∀ m, calculateTableIndex page + m < 1024 →
          (d.table i (calculateTableIndex page + m)).present = false) := by
  rw [findPresentInTable, show entriesPerPageTable = 1024 from rfl]
  cases hs : (d.entry i).superPage with
  | true => exact .inr ⟨rfl, .inl rfl⟩
  | false =>
    rw [if_neg Bool.false_ne_true]
    rcases findPresentLoop_spec (d.table i)
      hpage with ⟨m, hm, hfound, hpresent, hbefore⟩ | ⟨hnone, hall⟩
    · rw [hfound]
      exact .inl ⟨rfl, m, by omega, rfl, hpresent, hbefore⟩
    · rw [hnone]
      exact .inr ⟨rfl, .inr fun m hm => hall m (by omega)⟩

/-- `k` entries after the entry `i` is the first that is present. -/
structure FirstEntry (d : PageDirectory) (i k : ℕ) : Prop where
  lt : k < 1024
  present : (d.entry ((i + k) % 1024)).present = true
  /-- The others are not. -/
  before : ∀ q < k, (d.entry ((i + q) % 1024)).present = false

/-- The kernel code page is always present, so the search ends. -/
theorem exists_firstEntry (hkernel : (d.entry 0).present = true) (i : ℕ) : ∃ k, d.FirstEntry i k := by
  have hsome : ∃ k, (d.entry ((i + k) % 1024)).present = true :=
    ⟨1024 - i % 1024, by rwa [show (i + (1024 - i % 1024)) % 1024 = 0 by omega]⟩
  have hfind := Nat.find_spec hsome
  have hmin := fun q (hq : q < Nat.find hsome) => Nat.find_min hsome hq
  refine ⟨Nat.find hsome, ?_, hfind, fun q hq => eq_false_of_ne_true (hmin q hq)⟩
  by_contra hge
  refine hmin (Nat.find hsome % 1024) (by omega) ?_
  rwa [Nat.add_mod_mod]

theorem FirstEntry.unique (h : d.FirstEntry i k) (h' : d.FirstEntry i m) : k = m := by
  rcases lt_trichotomy k m with hlt | heq | hgt
  · exact absurd (h.present.symm.trans (h'.before k hlt)) Bool.noConfusion
  · exact heq
  · exact absurd (h'.present.symm.trans (h.before m hgt)) Bool.noConfusion

theorem FirstEntry.forall_iff {P : ℕ → Prop} (h : d.FirstEntry i k) :
    (∀ m, d.FirstEntry i m → P m) ↔ P k :=
  ⟨fun hall => hall k h, fun hk _ hm => h.unique hm ▸ hk⟩

/-- The loop over the directory stops at the first entry that is present, with any fuel that reaches
there. -/
theorem findPresentInDirectory_eq (h : d.FirstEntry i k) (hk : k < n) (hi : i < 1024)
    (hpage : page < 2 ^ 32) :
    d.findPresentInDirectory n i page =
      (d.findPresentInTable ((i + k) % 1024) (pageAfter page (k * 1024))).getD
        (.directory ((i + k) % 1024), pageAfter page (k * 1024)) := by
  induction k generalizing n i page with
  | zero =>
    obtain ⟨n, rfl⟩ := Nat.exists_eq_add_of_lt hk
    have hindex : (i + 0) % 1024 = i := Nat.mod_eq_of_lt hi
    have hpresent := h.present
    rw [hindex] at hpresent
    rw [Nat.zero_mul, pageAfter_zero hpage, hindex]
    exact if_pos hpresent
  | succ k ih =>
    obtain ⟨n, rfl⟩ := Nat.exists_eq_add_of_lt hk
    have habsent := h.before 0 (Nat.succ_pos k)
    rw [Nat.add_zero, Nat.mod_eq_of_lt hi] at habsent
    have hindex : ∀ q, ((i + 1) % 1024 + q) % 1024 = (i + (q + 1)) % 1024 := fun q => by omega
    have hnext : d.FirstEntry ((i + 1) % 1024) k := by
      refine ⟨Nat.lt_of_succ_lt h.lt, ?_, fun q hq => ?_⟩
      · rw [hindex]
        exact h.present
      · rw [hindex]
        exact h.before (q + 1) (Nat.succ_lt_succ hq)
    have hsuper : (page + superPageSize) % 2 ^ 32 = pageAfter page 1024 := rfl
    have hstep : d.findPresentInDirectory (k + 1 + n + 1) i page =
        d.findPresentInDirectory (k + 1 + n) ((i + 1) % 1024) (pageAfter page 1024) := by
      rw [findPresentInDirectory, habsent, if_neg Bool.false_ne_true, hsuper]
      rfl
    rw [hstep, ih hnext (by omega) (Nat.mod_lt _ (by decide)) pageAfter_lt, hindex,
      pageAfter_pageAfter, show 1024 + k * 1024 = (k + 1) * 1024 by omega]

/-! ### What the search finds -/

/-- The search, which comes to the entry `i` with the running address on its page `t`, finds the first
page of the entry. -/
def FoundFrom (d : PageDirectory) (i t : ℕ) : Prop :=
  if (d.entry i).superPage then t = 0
  else (∃ j < 1024, t ≤ j ∧ (d.table i j).present = true) ∧
    ∀ j < t, (d.table i j).present = false

/-- The search from `address` on finds the next page. -/
def Searchable (d : PageDirectory) (address : ℕ) : Prop :=
  let i := calculateIndex address
  let t := calculateTableIndex address
  if t ≠ 0 ∧ (d.entry i).present then
    (d.entry i).superPage = false ∧
      ((∃ j < 1024, t ≤ j ∧ (d.table i j).present = true) ∨
        ∀ k, d.FirstEntry ((i + 1) % 1024) k → d.FoundFrom (((i + 1) % 1024 + k) % 1024) 0)
  else ∀ k, d.FirstEntry i k → d.FoundFrom ((i + k) % 1024) t

section From

variable (haddress : address % pageSize = 0) (hindex : calculateIndex address = i)
  (htable : calculateTableIndex address = t)
include haddress hindex htable

theorem isSome_lookup_at (h : (d.entry ((i + k) % 1024)).present = true)
    (hm : t + m = k * 1024 + j) (hj : j < 1024) :
    (d.lookup (pageAfter address m)).isSome =
      ((d.entry ((i + k) % 1024)).superPage || (d.table ((i + k) % 1024) j).present) := by
  subst hindex htable
  obtain ⟨hi, hj⟩ := indices_pageAfter haddress hm hj
  rw [isSome_lookup, hi, hj, mapped, h, Bool.true_and]

theorem lookup_at_eq_none (h : (d.entry ((i + k) % 1024)).present = true)
    (hs : (d.entry ((i + k) % 1024)).superPage = false) (hm : t + m = k * 1024 + j) (hj : j < 1024) :
    d.lookup (pageAfter address m) = none ↔ (d.table ((i + k) % 1024) j).present = false := by
  rw [← isNone_iff_eq_none, ← isSome_eq_false_iff,
    isSome_lookup_at haddress hindex htable h hm hj, hs, Bool.false_or]

theorem lookup_before (h : d.FirstEntry i k) (hm : t + m < k * 1024) :
    d.lookup (pageAfter address m) = none := by
  subst hindex htable
  refine lookup_of_absent ?_
  rw [(indices_pageAfter haddress (div_add_mod' _ 1024).symm (mod_lt _ (by decide))).1]
  exact h.before _ (by omega)

theorem findEntry_at (h : (d.entry ((i + k) % 1024)).present = true)
    (hm : t + m = k * 1024 + j) (hj : j < 1024) :
    d.findEntry (pageAfter address m) = if (d.entry ((i + k) % 1024)).superPage then
      .directory ((i + k) % 1024) else .table ((i + k) % 1024) j := by
  subst hindex htable
  obtain ⟨hi, hj⟩ := indices_pageAfter haddress hm hj
  rw [← hi] at h ⊢
  split
  · rw [findEntry_of_superPage ‹_›]
  · rw [findEntry_of_table h (eq_false_of_ne_true ‹_›), hj]

/-- The search over the directory finds the first page if and only if it finds the first page of the
first entry that is present. -/
theorem firstPresent_directory_iff (h : d.FirstEntry i k) (hlt : address < 2 ^ 32)
    (hfirst : t = 0 ∨ 0 < k) :
    d.FirstPresent address (d.findPresentInDirectory 1024 i address) ↔
      d.FoundFrom ((i + k) % 1024) t := by
  have hk := h.lt
  have hi : i < 1024 := hindex ▸ calculateIndex_lt hlt
  have ht : t < 1024 := htable ▸ calculateTableIndex_lt address
  have hsame : calculateTableIndex (pageAfter address (k * 1024)) = t :=
    (indices_pageAfter haddress (by rw [htable, Nat.add_comm]) ht).2
  rw [findPresentInDirectory_eq h h.lt hi hlt, FoundFrom]
  rcases findPresentInTable_spec
    (pageAfter_lt : pageAfter address (k * 1024) < 2 ^ 32) with
    ⟨hs, m, hm, hfound, hpresent, hbefore⟩ | ⟨hnone, hempty⟩
  · -- a page of the table is found
    rw [hsame] at hm hfound hpresent hbefore
    have habsent : ∀ {q j}, t + q = k * 1024 + j → j < 1024 →
        (d.lookup (pageAfter address q) = none ↔ (d.table ((i + k) % 1024) j).present = false) :=
      lookup_at_eq_none haddress hindex htable h.present hs
    have hsum : t + (k * 1024 + m) = k * 1024 + (t + m) := by omega
    rw [hfound, getD_some, pageAfter_pageAfter, firstPresent_iff (by omega),
      findEntry_at haddress hindex htable h.present hsum hm,
      isSome_lookup_at haddress hindex htable h.present hsum hm, hs, hpresent]
    simp only [Bool.false_eq_true, if_false, Bool.or_true, true_and]
    constructor
    · intro hnone
      refine ⟨⟨_, hm, Nat.le_add_right _ _, hpresent⟩, fun j hj => ?_⟩
      exact (habsent (q := k * 1024 + j - t) (by omega) (by omega)).1 (hnone _ (by omega))
    · rintro ⟨-, hbelow⟩ q hq
      by_cases hq' : t + q < k * 1024
      · exact lookup_before haddress hindex htable h hq'
      · obtain ⟨j, hj⟩ := Nat.exists_eq_add_of_le (not_lt.1 hq')
        rw [habsent hj (by omega)]
        by_cases hj' : j < t
        · exact hbelow j hj'
        · obtain ⟨q', rfl⟩ := Nat.exists_eq_add_of_le (not_lt.1 hj')
          exact hbefore q' (by omega)
  · -- the entry itself is reported
    rw [hsame] at hempty
    have hsum : t + k * 1024 = k * 1024 + t := Nat.add_comm _ _
    rw [hnone, getD_none, firstPresent_iff (by omega),
      findEntry_at haddress hindex htable h.present hsum ht,
      isSome_lookup_at haddress hindex htable h.present hsum ht]
    cases hs : (d.entry ((i + k) % 1024)).superPage with
    | true =>
      simp only [if_true, Bool.true_or, true_and]
      constructor
      · intro hnone
        by_contra hne
        have hbase := isSome_lookup_at (m := k * 1024 - t) (j := 0) haddress hindex htable h.present
          (by omega) (by omega)
        rw [hnone _ (by omega), hs] at hbase
        cases hbase
      · exact fun hzero q hq => lookup_before haddress hindex htable h (by omega)
    | false =>
      have hall := hempty.resolve_left (by rw [hs]; exact Bool.false_ne_true)
      rw [if_neg Bool.false_ne_true]
      refine iff_of_false ?_ ?_
      · rintro ⟨heq, -⟩
        cases heq
      · rintro ⟨⟨j, hj, hle, hpresent⟩, -⟩
        obtain ⟨q, rfl⟩ := Nat.exists_eq_add_of_le hle
        rw [hall q hj] at hpresent
        cases hpresent

end From

theorem firstPresent_pageAfter_iff {c : ℕ} {result : EntryRef × ℕ} (hc : c < 2 ^ 20)
    (h : ∀ m < c, d.lookup (pageAfter address m) = none) :
    d.FirstPresent (pageAfter address c) result ↔ d.FirstPresent address result := by
  unfold FirstPresent
  simp only [pageAfter_pageAfter]
  constructor
  · rintro ⟨n, hn, heq, hsome, hnone⟩
    refine ⟨c + n, ?_, heq, hsome, fun m hm => ?_⟩
    · -- a page more than one turn away would be one of those that are not mapped
      by_contra hge
      have hturn : pageAfter address (c + n) = pageAfter address (c + n - 2 ^ 20) := by
        unfold pageAfter
        rw [pageSize_eq]
        omega
      rw [hturn, h _ (by omega)] at hsome
      cases hsome
    · by_cases hlt : m < c
      · exact h m hlt
      · obtain ⟨q, rfl⟩ := Nat.exists_eq_add_of_le (Nat.le_of_not_lt hlt)
        exact hnone q (by omega)
  · rintro ⟨n, hn, heq, hsome, hnone⟩
    have hle : c ≤ n := by
      by_contra hlt
      rw [h n (by omega)] at hsome
      cases hsome
    obtain ⟨q, rfl⟩ := Nat.exists_eq_add_of_le hle
    exact ⟨q, by omega, heq, hsome, fun m hm => hnone _ (by omega)⟩

theorem superPage_mod_iff (haddress : address % pageSize = 0) :
    address % superPageSize ≠ 0 ↔ calculateTableIndex address ≠ 0 := by
  unfold calculateTableIndex
  rw [pageSize_eq] at *
  rw [show superPageSize = 4194304 from rfl, show entriesPerPageTable = 1024 from rfl]
  omega

section Entry

variable (haddress : address % pageSize = 0) (hlt : address < 2 ^ 32)
include haddress hlt

/-- `align_address(page, SUPER_PAGE_SIZE)`, of a page in the middle of an entry. -/
theorem alignAddress_eq (ht : calculateTableIndex address ≠ 0) :
    (address + superPageSize - 1) % 2 ^ 32 / superPageSize * superPageSize =
      pageAfter address (1024 - calculateTableIndex address) := by
  unfold calculateTableIndex pageAfter at *
  rw [pageSize_eq] at *
  rw [show superPageSize = 4194304 from rfl]
  rw [show entriesPerPageTable = 1024 from rfl] at *
  omega

/-- The search from the middle of an entry that is present. -/
theorem firstPresent_table_iff (hindex : calculateIndex address = i)
    (htable : calculateTableIndex address = t) (hkernel : (d.entry 0).present = true) (ht : t ≠ 0)
    (hp : (d.entry i).present = true) :
    d.FirstPresent address (d.findPresentEntry address) ↔ d.Searchable address := by
  have htlt : t < 1024 := htable ▸ calculateTableIndex_lt address
  have hzero : (i + 0) % 1024 = i := Nat.mod_eq_of_lt (hindex ▸ calculateIndex_lt hlt)
  have hp' : (d.entry ((i + 0) % 1024)).present = true := hzero.symm ▸ hp
  obtain ⟨k, hk⟩ := exists_firstEntry hkernel ((i + 1) % 1024)
  have hup := indices_pageAfter haddress (m := 1024 - t) (k := 1) (j := 0) (by omega) (by decide)
  have halign := alignAddress_eq haddress hlt (htable ▸ ht)
  rw [htable] at halign
  rw [hindex] at hup
  simp only [Searchable, findPresentEntry, hindex, htable, if_pos (And.intro ht hp),
    if_pos (And.intro ((superPage_mod_iff haddress).2 (htable ▸ ht)) hp), halign,
    show entriesPerPageTable = 1024 from rfl]
  rcases findPresentInTable_spec hlt with
    ⟨hs, m, hm, hfound, hpresent, hbefore⟩ | ⟨hnone, hempty⟩
  · -- there is another page in the same table
    rw [htable] at hm hfound hpresent hbefore
    have hsum : t + m = 0 * 1024 + (t + m) := by omega
    have hmapped := isSome_lookup_at haddress hindex htable hp' hsum hm
    have hentry := findEntry_at haddress hindex htable hp' hsum hm
    rw [hzero, hs] at hmapped hentry
    rw [hfound, getD_some, firstPresent_iff (by omega)]
    refine iff_of_true ⟨hentry.symm, by rw [hmapped, hpresent]; rfl, fun q hq => ?_⟩
      ⟨hs, .inl ⟨_, hm, Nat.le_add_right _ _, hpresent⟩⟩
    have habsent := lookup_at_eq_none (m := q) (j := t + q) haddress hindex htable hp'
      (hzero.symm ▸ hs) (by omega) (by omega)
    rw [habsent, hzero]
    exact hbefore q hq
  rw [hnone, getD_none]
  cases hs : (d.entry i).superPage with
  | true =>
    -- the search began in the middle of a superpage, which is skipped
    refine iff_of_false ?_ fun h => absurd h.1 Bool.noConfusion
    rintro ⟨n, hn, heq, -, hbefore⟩
    have hn : n = 0 := by
      by_contra hne
      have hfirst := isSome_lookup_at (m := 0) haddress hindex htable hp' (by omega) htlt
      rw [hzero, hs, hbefore 0 (by omega)] at hfirst
      cases hfirst
    subst hn
    rw [pageAfter_zero hlt, findEntry_of_superPage (hindex ▸ hs),
      findPresentInDirectory_eq hk hk.lt (Nat.mod_lt _ (by decide)) pageAfter_lt,
      pageAfter_pageAfter] at heq
    rcases findPresentInTable_spec
      (pageAfter_lt : pageAfter address (1024 - t + k * 1024) < 2 ^ 32) with
      ⟨-, m, -, hfound, -⟩ | ⟨hnone, -⟩
    · rw [hfound, getD_some] at heq
      cases heq
    · rw [hnone, getD_none] at heq
      have hbase := congrArg (fun r : EntryRef × ℕ => calculateTableIndex r.2) heq
      dsimp only at hbase
      rw [(indices_pageAfter haddress (k := k + 1) (j := 0) (by omega) (by decide)).2] at hbase
      omega
  | false =>
    rw [htable] at hempty
    have hall := hempty.resolve_left (by rw [hs]; exact Bool.false_ne_true)
    have habsent : ∀ m < 1024 - t, d.lookup (pageAfter address m) = none := by
      intro m hm
      rw [lookup_at_eq_none (j := t + m) haddress hindex htable hp' (hzero.symm ▸ hs) (by omega)
        (by omega), hzero]
      exact hall m (by omega)
    rw [← firstPresent_pageAfter_iff (by omega) habsent,
      firstPresent_directory_iff (pageAfter_mod haddress) hup.1 hup.2 hk pageAfter_lt (.inl rfl)]
    rw [hk.forall_iff, or_iff_right, and_iff_right rfl]
    rintro ⟨j, hj, hle, hpresent⟩
    obtain ⟨q, rfl⟩ := Nat.exists_eq_add_of_le hle
    rw [hall q hj] at hpresent
    cases hpresent

theorem firstPresent_findPresentEntry_iff (hkernel : (d.entry 0).present = true) :
    d.FirstPresent address (d.findPresentEntry address) ↔ d.Searchable address := by
  by_cases hmiddle : calculateTableIndex address ≠ 0 ∧
      (d.entry (calculateIndex address)).present = true
  · exact firstPresent_table_iff haddress hlt rfl rfl hkernel hmiddle.1 hmiddle.2
  · have hnot := hmiddle
    rw [← superPage_mod_iff haddress] at hnot
    obtain ⟨k, hk⟩ := exists_firstEntry hkernel (calculateIndex address)
    have hfirst : calculateTableIndex address = 0 ∨ 0 < k := by
      by_contra h
      rw [not_or] at h
      obtain rfl : k = 0 := by omega
      have hpresent := hk.present
      rw [add_zero, mod_eq_of_lt (calculateIndex_lt hlt)] at hpresent
      exact hmiddle ⟨h.1, hpresent⟩
    rw [Searchable, if_neg hmiddle, findPresentEntry, if_neg hnot,
      show entriesPerPageTable = 1024 from rfl,
      firstPresent_directory_iff haddress rfl rfl hk hlt hfirst, hk.forall_iff]

end Entry

/-- **The search for a page.** In every directory that has the kernel code page, the loop comes to an
end within one turn, and what is found is the next page that is mapped, with its entry, if and only
if the directory is searchable from there. -/
theorem findPresentEntry_iff_searchable (d : PageDirectory) (address : ℕ)
    (hkernel : (d.entry 0).present = true) (haddress : address % pageSize = 0)
    (hlt : address < 2 ^ 32) :
    (∀ n ≥ 1024, ∀ i < 1024, ∀ page < 2 ^ 32,
        d.findPresentInDirectory n i page = d.findPresentInDirectory 1024 i page) ∧
      (d.FirstPresent address (d.findPresentEntry address) ↔ d.Searchable address) := by
  refine ⟨fun n hn i hi page hpage => ?_, firstPresent_findPresentEntry_iff haddress hlt hkernel⟩
  obtain ⟨k, hk⟩ := exists_firstEntry hkernel i
  rw [findPresentInDirectory_eq hk (lt_of_lt_of_le hk.lt hn) hi hpage,
    findPresentInDirectory_eq hk hk.lt hi hpage]

/-- In a new address space, the search from the beginning of the user's part comes around to the
kernel. -/
theorem findPresentEntry_new : new.FirstPresent userBase (new.findPresentEntry userBase) := by
  refine (findPresentEntry_iff_searchable new userBase rfl (by decide) (by decide)).2.2 ?_
  have hfirst : new.FirstEntry 256 768 := by
    refine ⟨by decide, rfl, ?_⟩
    decide +kernel
  exact hfirst.forall_iff.2 rfl

/-- A directory with the first and the third page of the entry 257, and a table without pages in the
entry after that. -/
def sparse : PageDirectory where
  entry := Function.update (Function.update new.entry 257 ⟨0, true, true, true, false, false, false⟩)
    258 ⟨0, true, true, true, false, false, false⟩
  table i j := if i = 257 ∧ (j = 0 ∨ j = 2) then .ofFrame 0x1000000 memoryUserDefault else .clear

/-- The search from the second page of the entry 256, which is absent, skips the first page of the
entry 257; the search from the entry 258 reports a page table as a page that is not mapped; and the
search from the second page of a superpage skips that page. -/
theorem not_findPresentEntry :
    (sparse.findPresentEntry 0x40001000 = (.table 257 2, 0x40402000) ∧
      (sparse.lookup 0x40400000).isSome) ∧
    (sparse.findPresentEntry 0x40800000 = (.directory 258, 0x40800000) ∧
      (sparse.lookup 0x40800000).isSome = false) ∧
    (sparse.findPresentEntry 0x1000 = (.directory 1, 0x400000) ∧
      (sparse.lookup 0x1000).isSome) ∧
    ¬ sparse.FirstPresent 0x40001000 (sparse.findPresentEntry 0x40001000) := by
  have hfound : sparse.findPresentEntry 0x40001000 = (.table 257 2, 0x40402000) := by decide +kernel
  have hskipped : (sparse.lookup (pageAfter 0x40001000 1023)).isSome := by decide +kernel
  refine ⟨⟨hfound, by decide +kernel⟩, by decide +kernel, by decide +kernel, ?_⟩
  rintro ⟨n, hn, heq, -, hbefore⟩
  rw [hfound] at heq
  have hn : n = 1025 := pageAfter_inj hn (by decide) (congrArg Prod.snd heq).symm
  rw [hbefore 1023 (by omega)] at hskipped
  cases hskipped

end PageDirectory

end Dx.Memory
