import Dx.Memory.Region

/-!
# Page tables

`page_table_entry.hpp`, `page_table.hpp`, `page_directory.cpp` and the layout of an address space:
how the processor, and the kernel with it, finds the frame behind a virtual address.

A page directory has an entry for every 4 MB. The first three map the kernel, as superpages; the
others are not present until a page table is needed. `findEntry` returns a place in this tree, and
the kernel then reads and writes the entry in that place, so a place (`EntryRef`) is an object of
its own: the same function gives the entry of a page, of a whole superpage, or of a page table that
does not exist yet, and it is for its callers to tell these apart.

What the directory maps is `lookup`, and each operation on the tree is described by what it does to
`lookup` (`lookup_expand`, `lookup_commitPage`, `lookup_set_table`).
-/

namespace Dx.Memory

open Function Nat

/-! ### The layout of an address space -/

/-- The words of the processor, and so its virtual addresses. -/
abbrev Word := BitVec 32

def superPageSize : ℕ := 0x400000

/-- `PAYLOAD_AREA_BASE`: below is the kernel. -/
def payloadAreaBase : ℕ := 0x20000000

def mediumPayloadPoolBase : ℕ := payloadAreaBase

def payloadPoolSize : ℕ := superPageSize

def largePayloadPoolBase : ℕ := mediumPayloadPoolBase + payloadPoolSize

def largePayloadPoolCount : ℕ := 8

def userBase : ℕ := 0x40000000

/-- `memory_manager_c::is_user_address(address)`. -/
def isUserAddress (address : ℕ) : Bool := decide (payloadAreaBase ≤ address)

def pageBase (v : ℕ) : ℕ := v / pageSize * pageSize

def pageOffset (v : ℕ) : ℕ := v % pageSize

def pageAlign (p : ℕ) : ℕ := pageBase ((p + pageSize - 1) % 2 ^ 32)

/-- `PAGE_COUNT(b, s)`. -/
@[irreducible]
def pageCount (b s : ℕ) : ℕ :=
  (pageAlign ((b + s) % 2 ^ 32) + 2 ^ 32 - pageBase b) % 2 ^ 32 / pageSize

/-- The page `n` pages after `page`. -/
def pageAfter (page n : ℕ) : ℕ := (page + n * pageSize) % 2 ^ 32

section Pages

variable {page m n : ℕ}

theorem pageAfter_mod (h : page % pageSize = 0) : pageAfter page n % pageSize = 0 := by
  unfold pageAfter
  rw [pageSize_eq] at *
  omega

theorem pageAfter_lt : pageAfter page n < 2 ^ 32 := mod_lt _ (by decide)

theorem pageAfter_pageAfter : pageAfter (pageAfter page m) n = pageAfter page (m + n) := by
  unfold pageAfter
  rw [pageSize_eq]
  omega

theorem pageAfter_zero (h : page < 2 ^ 32) : pageAfter page 0 = page := by
  rw [pageAfter, zero_mul, add_zero, mod_eq_of_lt h]

theorem pageAfter_inj (hm : m < 2 ^ 20) (hn : n < 2 ^ 20) (h : pageAfter page m = pageAfter page n) :
    m = n := by
  unfold pageAfter at h
  rw [pageSize_eq] at h
  omega

theorem pageAfter_succ (page i : ℕ) :
    pageAfter ((page + pageSize) % 2 ^ 32) i = pageAfter page (i + 1) := by
  rw [pageAfter, pageAfter, mod_add_mod, succ_mul]
  congr 1
  omega

end Pages

/-! ### Entries -/

/-- `status_t`, as far as the memory manager returns it. -/
inductive Status
  | success
  | accessDenied
  | insufficientMemory
  | invalidData
  | ioError
  | resourceConflict
deriving DecidableEq, Repr

/-- The flags of `commit_frame` that reach a page table entry. -/
structure MemoryFlags where
  writable : Bool
  user : Bool
  shared : Bool
  copyOnWrite : Bool
deriving DecidableEq, Repr

def memoryUserDefault : MemoryFlags := ⟨true, true, false, false⟩

/-- The flags `deliver_payload` maps the frames of a message with. -/
def memoryPayload : MemoryFlags := ⟨false, true, true, true⟩

/-- `page_table_entry_c`, its bits. -/
structure PageTableEntry where
  /-- `PAGE_BASE_ADDRESS_MASK`. -/
  frame : ℕ
  present : Bool
  writable : Bool
  user : Bool
  /-- `PAGE_4M`. -/
  superPage : Bool
  shared : Bool
  copyOnWrite : Bool
deriving DecidableEq, Repr

namespace PageTableEntry

/-- All bits zero: what `decommit_frame` and `unshare_frame` leave behind. -/
def clear : PageTableEntry := ⟨0, false, false, false, false, false, false⟩

/-- The entry `commit_frame(frame, flags)` writes. -/
def ofFrame (frame : ℕ) (flags : MemoryFlags) : PageTableEntry :=
  ⟨pageBase frame, true, flags.writable, flags.user, false, flags.shared, flags.copyOnWrite⟩

/-- `share_frame`, of a page that is present. -/
def share (e : PageTableEntry) : PageTableEntry :=
  { e with shared := true, copyOnWrite := true, writable := false }

end PageTableEntry

/-! ### The directory -/

/-- `ENTRIES_PER_PAGE_TABLE` and `ENTRIES_PER_PAGE_DIRECTORY`. -/
def entriesPerPageTable : ℕ := 1024

/-- `page_directory_c`, and the page tables it points to. -/
structure PageDirectory where
  entry : ℕ → PageTableEntry
  /-- The page table each entry points to, when it does. -/
  table : ℕ → ℕ → PageTableEntry

/-- `page_table_entry_cp`: the place of an entry. -/
inductive EntryRef
  | directory (i : ℕ)
  | table (i j : ℕ)
deriving DecidableEq, Repr

namespace PageDirectory

/-- `page_directory_c::calculate_index(address)`. -/
def calculateIndex (address : ℕ) : ℕ := address / superPageSize

/-- `page_table_c::calculate_index(address)`. -/
def calculateTableIndex (address : ℕ) : ℕ := address / pageSize % entriesPerPageTable

/-- The constructor: `KERNEL_CODE_PAGE`, `KERNEL_RAMDISK_PAGE` and `KERNEL_DATA_PAGE`. -/
def new : PageDirectory where
  entry
    | 0 => ⟨0, true, true, false, true, false, false⟩
    | 1 => ⟨0x400000, true, false, false, true, false, false⟩
    | 2 => ⟨0x800000, true, true, false, true, false, false⟩
    | _ => .clear
  table _ _ := .clear

def get (d : PageDirectory) : EntryRef → PageTableEntry
  | .directory i => d.entry i
  | .table i j => d.table i j

def set (d : PageDirectory) (e : PageTableEntry) : EntryRef → PageDirectory
  | .directory i => { d with entry := update d.entry i e }
  | .table i j => { d with table := update d.table i (update (d.table i) j e) }

def findEntry (d : PageDirectory) (address : ℕ) : EntryRef :=
  if (d.entry (calculateIndex address)).present && !(d.entry (calculateIndex address)).superPage then
    .table (calculateIndex address) (calculateTableIndex address)
  else .directory (calculateIndex address)

/-- `expand(directory_entry)`, when there is memory for the page table. The tables are in the
kernel's heap, so where they are makes no difference. -/
def expand (d : PageDirectory) (i : ℕ) : PageDirectory where
  entry := update d.entry i (.ofFrame 0 ⟨true, true, false, false⟩)
  table := update d.table i fun _ => .clear

/-- The tree after `find_entry(address, EXPAND_TREE)`; the place is then what `findEntry` finds.
`heap` says for which entries of the directory there is memory for a page table. -/
def findEntryExpand (heap : ℕ → Bool) (d : PageDirectory) (address : ℕ) : Option PageDirectory :=
  if (d.entry (calculateIndex address)).present then some d
  else if heap (calculateIndex address) then some (d.expand (calculateIndex address))
  else none

/-- `decommit_frame(page)` and `unshare_frame(page)`, of the entry of a page. -/
def clearPage (d : PageDirectory) (address : ℕ) : PageDirectory := d.set .clear (d.findEntry address)

/-- `share_frame(page)`, of the entry of a page that is present. -/
def sharePage (d : PageDirectory) (address : ℕ) : PageDirectory :=
  d.set (d.get (d.findEntry address)).share (d.findEntry address)

/-- `find_entry(address, EXPAND_TREE)` and `commit_frame(frame, flags)` of the entry. -/
def commitPage (heap : ℕ → Bool) (d : PageDirectory) (address frame : ℕ) (flags : MemoryFlags) :
    Except Status PageDirectory :=
  match d.findEntryExpand heap address with
  | none => .error .insufficientMemory
  | some d =>
    if (d.get (d.findEntry address)).present then .error .resourceConflict
    else .ok (d.set (.ofFrame frame flags) (d.findEntry address))

/-- The loop of `page_table_c::find_present_entry`, with `n` entries left. -/
def findPresentLoop (table : ℕ → PageTableEntry) : ℕ → ℕ → ℕ → Option (ℕ × ℕ)
  | 0, _, _ => none
  | n + 1, j, page =>
    if (table j).present then some (j, page)
    else findPresentLoop table n (j + 1) ((page + pageSize) % 2 ^ 32)

/-- `find_present_entry(address, index)`: the search of one page table. -/
def findPresentInTable (d : PageDirectory) (i page : ℕ) : Option (EntryRef × ℕ) :=
  if (d.entry i).superPage then none
  else (findPresentLoop (d.table i) (entriesPerPageTable - calculateTableIndex page)
    (calculateTableIndex page) page).map fun (j, page) => (.table i j, page)

/-- The loop of `find_present_entry(address)`. The kernel code page is always present, so it never
goes through the whole directory. -/
def findPresentInDirectory (d : PageDirectory) : ℕ → ℕ → ℕ → EntryRef × ℕ
  | 0, i, page => (.directory i, page)
  | n + 1, i, page =>
    if (d.entry i).present then (d.findPresentInTable i page).getD (.directory i, page)
    else d.findPresentInDirectory n ((i + 1) % entriesPerPageTable) ((page + superPageSize) % 2 ^ 32)

/-- `find_present_entry(&address)`: the place it finds, and the address. -/
def findPresentEntry (d : PageDirectory) (address : ℕ) : EntryRef × ℕ :=
  if address % superPageSize ≠ 0 ∧ (d.entry (calculateIndex address)).present then
    (d.findPresentInTable (calculateIndex address) address).getD
      (d.findPresentInDirectory entriesPerPageTable
        ((calculateIndex address + 1) % entriesPerPageTable)
        ((address + superPageSize - 1) % 2 ^ 32 / superPageSize * superPageSize))
  else d.findPresentInDirectory entriesPerPageTable (calculateIndex address) address

def translate (d : PageDirectory) (address : ℕ) : Option ℕ :=
  let e := d.get (d.findEntry address)
  if e.present then
    some (e.frame + if e.superPage then address % superPageSize else address % pageSize)
  else none

/-! ### What is mapped -/

/-- The entry that maps an address, if one does. -/
def lookup (d : PageDirectory) (address : ℕ) : Option PageTableEntry :=
  let e := d.get (d.findEntry address)
  if e.present then some e else none

variable {d d' : PageDirectory} {v w i : ℕ} {e : PageTableEntry} {heap : ℕ → Bool} {frame : ℕ}
  {flags : MemoryFlags}

theorem calculateIndex_eq (v : ℕ) : calculateIndex v = v / pageSize / entriesPerPageTable := by
  rw [Nat.div_div_eq_div_mul]
  rfl

/-- A page is known by its index in the directory and its index in the table. -/
theorem same_page_iff : v / pageSize = w / pageSize ↔
    calculateIndex v = calculateIndex w ∧ calculateTableIndex v = calculateTableIndex w := by
  rw [calculateIndex_eq, calculateIndex_eq, calculateTableIndex, calculateTableIndex]
  constructor
  · intro h
    rw [h]
    exact ⟨rfl, rfl⟩
  · rintro ⟨hdiv, hmod⟩
    rw [← div_add_mod (v / pageSize) entriesPerPageTable, hdiv, hmod, div_add_mod]

theorem findEntry_congr (h : v / pageSize = w / pageSize) : d.findEntry v = d.findEntry w := by
  obtain ⟨hi, hj⟩ := same_page_iff.1 h
  rw [findEntry, findEntry, hi, hj]

theorem lookup_congr (h : v / pageSize = w / pageSize) : d.lookup v = d.lookup w := by
  rw [lookup, lookup, findEntry_congr h]

theorem lookup_eq_some : d.lookup v = some e ↔
    d.get (d.findEntry v) = e ∧ e.present = true := by
  rw [lookup]
  constructor
  · intro h
    obtain ⟨hp, h⟩ := Option.ite_none_right_eq_some.1 h
    obtain rfl := Option.some.inj h
    exact ⟨rfl, hp⟩
  · rintro ⟨rfl, hp⟩
    exact if_pos hp

theorem lookup_eq_none : d.lookup v = none ↔ (d.get (d.findEntry v)).present = false := by
  rw [lookup]
  split
  case isTrue hp => simp [hp]
  case isFalse hp => simp [hp]

theorem findEntry_of_table (hp : (d.entry (calculateIndex v)).present = true)
    (hs : (d.entry (calculateIndex v)).superPage = false) :
    d.findEntry v = .table (calculateIndex v) (calculateTableIndex v) := by
  rw [findEntry, hp, hs]
  rfl

theorem findEntry_of_absent (hp : (d.entry (calculateIndex v)).present = false) :
    d.findEntry v = .directory (calculateIndex v) := by
  rw [findEntry, hp]
  rfl

theorem findEntry_of_superPage (hs : (d.entry (calculateIndex v)).superPage = true) :
    d.findEntry v = .directory (calculateIndex v) := by
  rw [findEntry, hs, Bool.not_true, Bool.and_false]
  rfl

theorem lookup_of_absent (hp : (d.entry (calculateIndex v)).present = false) :
    d.lookup v = none := by
  rw [lookup_eq_none, findEntry_of_absent hp]
  exact hp

/-! ### Writing an entry -/

@[simp]
theorem get_set (d : PageDirectory) (e : PageTableEntry) (r : EntryRef) : (d.set e r).get r = e := by
  cases r with
  | directory i => exact update_self i e d.entry
  | table i j =>
    have hi : (d.set e (.table i j)).table i = update (d.table i) j e := update_self ..
    rw [get, hi, update_self]

theorem get_set_of_ne {r r' : EntryRef} (h : r' ≠ r) : (d.set e r).get r' = d.get r' := by
  cases r with
  | directory i =>
    cases r' with
    | directory i' => exact update_of_ne (fun heq => h (by rw [heq])) _ _
    | table i' j' => rfl
  | table i j =>
    cases r' with
    | directory i' => rfl
    | table i' j' =>
      by_cases hi : i' = i
      · subst hi
        have hi : (d.set e (.table i' j)).table i' = update (d.table i') j e := update_self ..
        rw [get, hi, update_of_ne (fun heq => h (by rw [heq]))]
        rfl
      · exact congrFun (update_of_ne hi _ _) j'

theorem lookup_set_table
    (h : d.findEntry v = .table (calculateIndex v) (calculateTableIndex v)) :
    (d.set e (d.findEntry v)).lookup w =
      if w / pageSize = v / pageSize then (if e.present then some e else none)
      else d.lookup w := by
  have hfind : (d.set e (d.findEntry v)).findEntry w = d.findEntry w := by
    rw [h]
    rfl
  split
  case isTrue hw =>
    rw [lookup, hfind, findEntry_congr hw, get_set]
  case isFalse hw =>
    have hne : d.findEntry w ≠ d.findEntry v := by
      rw [h, findEntry]
      split
      case isTrue =>
        intro heq
        injection heq with hi hj
        exact hw (same_page_iff.2 ⟨hi, hj⟩)
      case isFalse => exact fun heq => nomatch heq
    rw [lookup, lookup, hfind, get_set_of_ne hne]

theorem lookup_expand (hp : (d.entry i).present = false) : (d.expand i).lookup w = d.lookup w := by
  by_cases hw : calculateIndex w = i
  · have hentry : (d.expand i).entry (calculateIndex w) =
        .ofFrame 0 ⟨true, true, false, false⟩ := by
      rw [hw]
      exact update_self ..
    have htable : (d.expand i).table (calculateIndex w) = fun _ => .clear := by
      rw [hw]
      exact update_self ..
    have hnone : d.lookup w = none := lookup_of_absent (by rw [hw, hp])
    rw [hnone, lookup_eq_none,
      findEntry_of_table (by rw [hentry]; rfl) (by rw [hentry]; rfl), get, htable]
    rfl
  · have hentry : (d.expand i).entry (calculateIndex w) = d.entry (calculateIndex w) :=
      update_of_ne hw _ _
    have hfind : (d.expand i).findEntry w = d.findEntry w := by
      rw [findEntry, findEntry, hentry]
    have hget : (d.expand i).get (d.findEntry w) = d.get (d.findEntry w) := by
      rw [findEntry]
      split
      case isTrue =>
        have htable : (d.expand i).table (calculateIndex w) = d.table (calculateIndex w) :=
          update_of_ne hw _ _
        rw [get, get, htable]
      case isFalse => exact hentry
    rw [lookup, lookup, hfind, hget]

theorem findEntryExpand_cases (h : d.findEntryExpand heap v = some d') :
    ((d.entry (calculateIndex v)).present = true ∧ d' = d) ∨
      ((d.entry (calculateIndex v)).present = false ∧ d' = d.expand (calculateIndex v)) := by
  rw [findEntryExpand] at h
  split at h
  case isTrue hp => exact .inl ⟨hp, (Option.some.inj h).symm⟩
  case isFalse hp =>
    split at h
    case isTrue => exact .inr ⟨Bool.eq_false_of_not_eq_true hp, (Option.some.inj h).symm⟩
    case isFalse => cases h

theorem lookup_findEntryExpand (h : d.findEntryExpand heap v = some d') :
    d'.lookup w = d.lookup w := by
  rcases findEntryExpand_cases h with ⟨-, rfl⟩ | ⟨hp, rfl⟩
  · rfl
  · exact lookup_expand hp

/-- What `commitPage` does when it succeeds: the page was not mapped, and now it is. -/
theorem lookup_commitPage (h : d.commitPage heap v frame flags = .ok d') :
    d.lookup v = none ∧ ∀ w, d'.lookup w =
      if w / pageSize = v / pageSize then some (.ofFrame frame flags) else d.lookup w := by
  rw [commitPage] at h
  split at h
  case h_1 => cases h
  case h_2 d₁ hexpand =>
    split at h
    case isTrue => cases h
    case isFalse hp =>
      cases h
      have habsent : d₁.lookup v = none := lookup_eq_none.2 (Bool.eq_false_of_not_eq_true hp)
      have htable : d₁.findEntry v = .table (calculateIndex v) (calculateTableIndex v) := by
        rcases findEntryExpand_cases hexpand with ⟨he, rfl⟩ | ⟨he, rfl⟩
        · refine findEntry_of_table he (Bool.eq_false_of_not_eq_true fun hs => hp ?_)
          rw [findEntry_of_superPage hs]
          exact he
        · have hentry : (d.expand (calculateIndex v)).entry (calculateIndex v) =
              .ofFrame 0 ⟨true, true, false, false⟩ := update_self ..
          exact findEntry_of_table (by rw [hentry]; rfl) (by rw [hentry]; rfl)
      refine ⟨(lookup_findEntryExpand hexpand).symm.trans habsent, fun w => ?_⟩
      rw [lookup_set_table htable, lookup_findEntryExpand hexpand]
      rfl

/-! ### The entries of the directory -/

theorem entry_set_findEntry (h : calculateIndex v ≠ i) :
    (d.set e (d.findEntry v)).entry i = d.entry i := by
  rw [findEntry]
  split
  case isTrue => rfl
  case isFalse => exact update_of_ne (Ne.symm h) _ _

theorem entry_findEntryExpand (h : d.findEntryExpand heap v = some d') (hne : calculateIndex v ≠ i) :
    d'.entry i = d.entry i := by
  rcases findEntryExpand_cases h with ⟨-, rfl⟩ | ⟨-, rfl⟩
  · rfl
  · exact update_of_ne (Ne.symm hne) _ _

theorem entry_commitPage (h : d.commitPage heap v frame flags = .ok d')
    (hne : calculateIndex v ≠ i) : d'.entry i = d.entry i := by
  rw [commitPage] at h
  split at h
  case h_1 => cases h
  case h_2 d₁ hexpand =>
    split at h
    case isTrue => cases h
    cases h
    rw [entry_set_findEntry hne, entry_findEntryExpand hexpand hne]

/-! ### Unmapping -/

theorem lookup_clearPage (h : (d.clearPage v).lookup w = some e) :
    d.lookup w = some e ∧ w / pageSize ≠ v / pageSize := by
  unfold clearPage at h
  by_cases htable : d.findEntry v = .table (calculateIndex v) (calculateTableIndex v)
  · rw [lookup_set_table htable] at h
    split at h
    case isTrue => cases h
    case isFalse hw => exact ⟨h, hw⟩
  · have hdirectory : d.findEntry v = .directory (calculateIndex v) := by
      unfold findEntry at htable ⊢
      split_ifs at htable ⊢ with hp
      · exact absurd rfl htable
      · rfl
    rw [hdirectory] at h
    by_cases hindex : calculateIndex w = calculateIndex v
    · have hcleared : (d.set .clear (.directory (calculateIndex v))).entry (calculateIndex v) =
          .clear := update_self ..
      have habsent : ((d.set .clear (.directory (calculateIndex v))).entry
          (calculateIndex w)).present = false := by
        rw [hindex, hcleared]
        rfl
      rw [lookup_of_absent habsent] at h
      cases h
    · have hentry : (d.set .clear (.directory (calculateIndex v))).entry (calculateIndex w) =
          d.entry (calculateIndex w) := update_of_ne hindex _ _
      have hfind : (d.set .clear (.directory (calculateIndex v))).findEntry w = d.findEntry w := by
        rw [findEntry, findEntry, hentry]
      have hne : d.findEntry w ≠ .directory (calculateIndex v) := by
        rw [findEntry]
        split
        · exact fun heq => nomatch heq
        · exact fun heq => hindex (by injection heq)
      rw [lookup, hfind, get_set_of_ne hne] at h
      exact ⟨h, fun hpage => hindex (same_page_iff.1 hpage).1⟩

/-- An entry that is not present has no frame. -/
def Blank (d : PageDirectory) : Prop := ∀ r, (d.get r).present = false → (d.get r).frame = 0

namespace Blank

theorem new : Blank new := by
  rintro (i | ⟨i, j⟩) h
  · match i with
    | 0 | 1 | 2 => cases h
    | _ + 3 => rfl
  · rfl

section

variable (h : d.Blank)
include h

theorem set {r : EntryRef} (he : e.present = false → e.frame = 0) : (d.set e r).Blank := by
  intro r'
  by_cases hr : r' = r
  · rw [hr, get_set]
    exact he
  · rw [get_set_of_ne hr]
    exact h r'

theorem findEntryExpand (hd : d.findEntryExpand heap v = some d') : d'.Blank := by
  rcases findEntryExpand_cases hd with ⟨-, rfl⟩ | ⟨-, rfl⟩
  · exact h
  · rintro (i | ⟨i, j⟩)
    · exact Library.update_intro (P := fun e : PageTableEntry => e.present = false → e.frame = 0)
        (fun _ hp => nomatch hp) fun _ => h (.directory i)
    · exact Library.update_intro
        (P := fun f : ℕ → PageTableEntry => (f j).present = false → (f j).frame = 0)
        (fun _ _ => rfl) fun _ => h (.table i j)

theorem commitPage (hd : d.commitPage heap v frame flags = .ok d') : d'.Blank := by
  rw [PageDirectory.commitPage] at hd
  split at hd
  case h_1 => cases hd
  case h_2 d₁ hexpand =>
    split at hd
    case isTrue => cases hd
    cases hd
    exact (h.findEntryExpand hexpand).set fun hp => nomatch hp

theorem frame_eq (v : ℕ) : (d.get (d.findEntry v)).frame = 0 ∨
    ∃ e, d.lookup v = some e ∧ (d.get (d.findEntry v)).frame = e.frame := by
  cases hp : (d.get (d.findEntry v)).present with
  | false => exact .inl (h _ hp)
  | true => exact .inr ⟨_, lookup_eq_some.2 ⟨rfl, hp⟩, rfl⟩

end

end Blank

/-! ### The kernel's part -/

/-- The entries below the payload area are those of the constructor. -/
def KernelMapped (d : PageDirectory) : Prop :=
  ∀ i < calculateIndex payloadAreaBase, d.entry i = new.entry i

theorem KernelMapped.new : KernelMapped new := fun _ _ => rfl

/-- The pages of the payload area and above are not in these entries. -/
theorem calculateIndex_ne (hv : payloadAreaBase ≤ v) (hi : i < calculateIndex payloadAreaBase) :
    calculateIndex v ≠ i := by
  have := Nat.div_le_div_right (c := superPageSize) hv
  rw [calculateIndex] at hi ⊢
  omega

section

variable (h : d.KernelMapped)
include h

namespace KernelMapped

theorem set (hv : payloadAreaBase ≤ v) :
    (d.set e (d.findEntry v)).KernelMapped := fun i hi =>
  (entry_set_findEntry (calculateIndex_ne hv hi)).trans (h i hi)

theorem findEntryExpand (hv : payloadAreaBase ≤ v)
    (hd : d.findEntryExpand heap v = some d') : d'.KernelMapped := fun i hi =>
  (entry_findEntryExpand hd (calculateIndex_ne hv hi)).trans (h i hi)

theorem commitPage (hv : payloadAreaBase ≤ v)
    (hd : d.commitPage heap v frame flags = .ok d') :
    d'.KernelMapped := fun i hi =>
  (entry_commitPage hd (calculateIndex_ne hv hi)).trans (h i hi)

/-- What is mapped below the payload area are the kernel's superpages, which users cannot reach. -/
theorem of_lookup (he : d.lookup v = some e) (hv : v < payloadAreaBase) :
    e.superPage = true ∧ e.user = false := by
  have hindex : calculateIndex v < calculateIndex payloadAreaBase := by
    have hbase : payloadAreaBase = 0x20000000 := rfl
    have hsize : superPageSize = 0x400000 := rfl
    rw [hbase] at hv
    rw [calculateIndex, calculateIndex, hsize, hbase]
    omega
  have hnew : ∀ i, (PageDirectory.new.entry i).present = true →
      (PageDirectory.new.entry i).superPage = true ∧ (PageDirectory.new.entry i).user = false := by
    rintro (_ | _ | _ | i) hp
    · exact ⟨rfl, rfl⟩
    · exact ⟨rfl, rfl⟩
    · exact ⟨rfl, rfl⟩
    · cases hp
  by_cases hp : (d.entry (calculateIndex v)).present = true
  · rw [h _ hindex] at hp
    obtain ⟨hsuper, huser⟩ := hnew _ hp
    rw [← h _ hindex] at hsuper huser
    obtain ⟨rfl, -⟩ := lookup_eq_some.1 he
    rw [findEntry_of_superPage hsuper, get]
    exact ⟨hsuper, huser⟩
  · rw [lookup_of_absent (Bool.eq_false_of_not_eq_true hp)] at he
    cases he

theorem le_of_lookup (he : d.lookup v = some e) (hs : e.superPage = false) :
    payloadAreaBase ≤ v := by
  by_contra hlt
  rw [(h.of_lookup he (Nat.lt_of_not_le hlt)).1] at hs
  cases hs

theorem le_of_user (he : d.lookup v = some e) (hu : e.user = true) : payloadAreaBase ≤ v := by
  by_contra hlt
  rw [(h.of_lookup he (Nat.lt_of_not_le hlt)).2] at hu
  cases hu

/-- The first page is in the kernel, so nothing can be committed there. -/
theorem commitPage_zero : d.commitPage heap 0 frame flags ≠ .ok d' := by
  have hentry : d.entry (calculateIndex 0) = ⟨0, true, true, false, true, false, false⟩ :=
    h 0 (by decide)
  have hlookup : d.lookup 0 ≠ none := by
    rw [Ne, lookup_eq_none, findEntry_of_superPage (by rw [hentry]), get, hentry]
    exact Bool.noConfusion
  exact fun hd => hlookup (lookup_commitPage hd).1

end KernelMapped

end

end PageDirectory

end Dx.Memory
