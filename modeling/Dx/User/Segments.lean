import Dx.Memory.PageDirectory
import Mathlib.Data.List.Nodup

/-!
# The segments of a new process

`send_segments` of `create_process.c` puts the segments of an ELF image into a new address space.
The part of a segment that is in the file goes there as the payload of a message with an explicit
destination (`send_segment`), and the kernel maps whole pages for it; the part after it, which is
not in the file, is made of new pages (`send_bss`). On the page where the first part ends the two
meet, and the second function has to find out by itself whether that page is already there.

It looks at the size of the first part, where it should look at its end. So `send_bss` and
`send_segment` agree exactly on the headers that are `Seamless`, and the pages of every other segment
are wrong: one is missing, or one is asked for twice.
-/

namespace Dx.User

open Memory List

/-- `elf_program_header_s`, the fields that are read. -/
structure ProgramHeader where
  type : Word
  offset : Word
  virtualAddress : Word
  fileSize : Word
  memorySize : Word
deriving DecidableEq, Repr

def elfProgramTypeLoad : Word := 1

inductive SegmentRequest
  /-- A `MESSAGE_TYPE_LOAD_ADDRESS_SPACE` message: `data`, `data_size`, `destination_address`. -/
  | load (data size destination : ℕ)
  /-- `expand_address_space(address, size)`. -/
  | expand (address size : ℕ)
deriving DecidableEq, Repr

namespace SegmentRequest

/-- The pages of the range of `size` bytes at `address`, as the kernel counts them. -/
def pagesOf (address size : ℕ) : List ℕ :=
  (List.range (pageCount address size)).map (pageAfter (pageBase address))

def pages : SegmentRequest → List ℕ
  | load _ size destination => pagesOf destination size
  | expand address size => pagesOf address size

end SegmentRequest

namespace ProgramHeader

/-- `send_segment(thread, elf_header, program_header)`, what it sends. The payload is first copied
when its offset in its page is not that of the destination (`send_misaligned_message`). -/
def sendSegment (elfHeader : ℕ) (header : ProgramHeader) : Option SegmentRequest :=
  if header.fileSize.toNat = 0 then none
  else
    some (.load ((elfHeader + header.offset.toNat) % 2 ^ 32) header.fileSize.toNat
      header.virtualAddress.toNat)

/-- `send_bss(address_space, program_header)`, what it asks for. -/
def sendBss (header : ProgramHeader) : Option SegmentRequest :=
  let bssStartAddress := (header.virtualAddress.toNat + header.fileSize.toNat) % 2 ^ 32
  let bssEndAddress := (header.virtualAddress.toNat + header.memorySize.toNat) % 2 ^ 32
  if bssStartAddress = bssEndAddress then none
  else
    let bssFirstPage := pageBase bssStartAddress
    let bssLastPage := pageAlign bssEndAddress
    let bssFirstPage :=
      if header.fileSize.toNat % pageSize ≠ 0 then (bssFirstPage + pageSize) % 2 ^ 32
      else bssFirstPage
    let bssSize := (bssLastPage + 2 ^ 32 - bssFirstPage) % 2 ^ 32
    if bssSize = 0 then none else some (.expand bssFirstPage bssSize)

/-- The headers `send_segments` does not skip. -/
def Loadable (header : ProgramHeader) : Prop :=
  header.type = elfProgramTypeLoad ∧ 0 < header.memorySize.toNat
deriving Decidable

def requests (elfHeader : ℕ) (header : ProgramHeader) : List SegmentRequest :=
  (header.sendSegment elfHeader).toList ++ header.sendBss.toList

/-- The pages of the message of `send_segment`. -/
def segmentPages (elfHeader : ℕ) (header : ProgramHeader) : List ℕ :=
  (header.sendSegment elfHeader).toList.flatMap SegmentRequest.pages

/-- The pages that `send_bss` asks for. -/
def bssPages (header : ProgramHeader) : List ℕ :=
  header.sendBss.toList.flatMap SegmentRequest.pages

def pages (elfHeader : ℕ) (header : ProgramHeader) : List ℕ :=
  (header.requests elfHeader).flatMap SegmentRequest.pages

/-- The segment is no smaller than its part in the file, and its range does not wrap. -/
structure Valid (header : ProgramHeader) : Prop where
  size : header.fileSize.toNat ≤ header.memorySize.toNat
  range : header.virtualAddress.toNat + header.memorySize.toNat ≤ 2 ^ 32

def Overlaps (header : ProgramHeader) (page : ℕ) : Prop :=
  ∃ v, header.virtualAddress.toNat ≤ v ∧
    v < header.virtualAddress.toNat + header.memorySize.toNat ∧ pageBase v = page

/-- The size of the part in the file ends on a page boundary exactly when the part itself does,
unless one of the two parts is empty; and no request is for all pages there are, for which
`PAGE_COUNT` is 0. -/
def Seamless (header : ProgramHeader) : Prop :=
  (header.fileSize.toNat = 0 ∨ header.fileSize = header.memorySize ∨
    (header.fileSize.toNat % pageSize = 0 ↔
      (header.virtualAddress.toNat + header.fileSize.toNat) % pageSize = 0)) ∧
  ¬ (header.virtualAddress.toNat < pageSize ∧
    2 ^ 32 - pageSize < header.virtualAddress.toNat +
      if header.fileSize.toNat = 0 then header.memorySize.toNat else header.fileSize.toNat)
deriving Decidable

end ProgramHeader

/-- `send_segments(thread, address_space, elf_header)` over the array of program headers: what it
asks for, and the base of the heap it returns, which is 0 (`NULL`) when a request failed. -/
def sendSegments (elfHeader : ℕ) (succeeds : SegmentRequest → Bool) :
    List ProgramHeader → ℕ → List SegmentRequest × ℕ
  | [], heap => ([], heap)
  | header :: headers, heap =>
    if header.Loadable then
      let requests := header.requests elfHeader
      if requests.all succeeds then
        let rest := sendSegments elfHeader succeeds headers
          (pageAlign ((header.virtualAddress.toNat + header.memorySize.toNat) % 2 ^ 32))
        (requests ++ rest.1, rest.2)
      else (requests.take (requests.findIdx (fun request => !succeeds request) + 1), 0)
    else sendSegments elfHeader succeeds headers heap

/-! ### The pages of a request -/

namespace SegmentRequest

variable {address size page : ℕ}

theorem pageCount_le : pageCount address size ≤ 2 ^ 20 := by
  unfold pageCount
  rw [pageSize_eq]
  omega

theorem nodup_pagesOf : (pagesOf address size).Nodup := by
  refine List.Nodup.map_on ?_ nodup_range
  intro i hi j hj h
  have hcount : pageCount address size ≤ 2 ^ 20 := pageCount_le
  rw [mem_range] at hi hj
  unfold pageAfter at h
  rw [pageSize_eq] at h
  omega

theorem pageCount_eq (hrange : address + size ≤ 2 ^ 32)
    (hall : ¬ (address < pageSize ∧ 2 ^ 32 - pageSize < address + size)) :
    pageCount address size = (address + size + 4095) / 4096 - address / 4096 := by
  unfold pageCount pageAlign pageBase
  rw [pageSize_eq] at hall ⊢
  omega

theorem pagesOf_all (hrange : address + size ≤ 2 ^ 32) (hfirst : address < pageSize)
    (hlast : 2 ^ 32 - pageSize < address + size) : pagesOf address size = [] := by
  have hcount : pageCount address size = 0 := by
    unfold pageCount pageAlign pageBase
    rw [pageSize_eq] at hfirst hlast ⊢
    omega
  rw [pagesOf, hcount]
  rfl

theorem mem_pagesOf (hrange : address + size ≤ 2 ^ 32) (hsize : 0 < size)
    (hall : ¬ (address < pageSize ∧ 2 ^ 32 - pageSize < address + size)) :
    page ∈ pagesOf address size ↔
      page % pageSize = 0 ∧ pageBase address ≤ page ∧ page < address + size := by
  rw [pagesOf, mem_map, pageCount_eq hrange hall]
  unfold pageAfter pageBase
  rw [pageSize_eq]
  constructor
  · rintro ⟨i, hi, rfl⟩
    rw [mem_range] at hi
    omega
  · rintro ⟨hpage, hfirst, hlast⟩
    exact ⟨page / 4096 - address / 4096, mem_range.2 (by omega), by omega⟩

end SegmentRequest

namespace ProgramHeader

open SegmentRequest

variable {header : ProgramHeader} {elfHeader page : ℕ}

theorem overlaps_iff (h : 0 < header.memorySize.toNat) :
    header.Overlaps page ↔ page % pageSize = 0 ∧ pageBase header.virtualAddress.toNat ≤ page ∧
      page < header.virtualAddress.toNat + header.memorySize.toNat := by
  unfold Overlaps pageBase
  rw [pageSize_eq]
  constructor
  · rintro ⟨v, hv, hv', rfl⟩
    omega
  · rintro ⟨hpage, hfirst, hlast⟩
    exact ⟨max page header.virtualAddress.toNat, by omega, by omega, by omega⟩

/-- The page where `send_bss` begins. -/
def bssFirst (header : ProgramHeader) : ℕ :=
  pageBase (header.virtualAddress.toNat + header.fileSize.toNat) +
    if header.fileSize.toNat % pageSize ≠ 0 then pageSize else 0

/-- The end of the last page of the segment. -/
def bssLast (header : ProgramHeader) : ℕ :=
  pageBase (header.virtualAddress.toNat + header.memorySize.toNat + pageSize - 1)

theorem bssFirst_le_bssLast (h : header.fileSize.toNat < header.memorySize.toNat) :
    header.bssFirst ≤ header.bssLast := by
  unfold bssFirst bssLast pageBase
  rw [pageSize_eq]
  split <;> omega

theorem bssFirst_mod : header.bssFirst % pageSize = 0 := by
  unfold bssFirst pageBase
  rw [pageSize_eq]
  split <;> omega

theorem bssLast_mod : header.bssLast % pageSize = 0 := by
  unfold bssLast pageBase
  rw [pageSize_eq]
  omega

theorem bssLast_le (hvalid : header.Valid) : header.bssLast ≤ 2 ^ 32 := by
  have hrange := hvalid.range
  unfold bssLast pageBase
  rw [pageSize_eq]
  omega

/-- A page is before the end of the last page when it begins before the end of the segment. -/
theorem lt_bssLast_iff (hpage : page % pageSize = 0) :
    page < header.bssLast ↔
      page < header.virtualAddress.toNat + header.memorySize.toNat := by
  unfold bssLast pageBase
  rw [pageSize_eq] at *
  omega

theorem sendBss_eq (hvalid : header.Valid) (h : header.fileSize.toNat < header.memorySize.toNat) :
    header.sendBss =
      if (header.bssLast - header.bssFirst) % 2 ^ 32 = 0 then none
      else some (.expand (header.bssFirst % 2 ^ 32)
        ((header.bssLast - header.bssFirst) % 2 ^ 32)) := by
  have hrange := hvalid.range
  have hle := bssFirst_le_bssLast h
  have hfirst : (if header.fileSize.toNat % pageSize ≠ 0 then
        (pageBase (header.virtualAddress.toNat + header.fileSize.toNat) + pageSize) % 2 ^ 32
      else pageBase (header.virtualAddress.toNat + header.fileSize.toNat)) =
      header.bssFirst % 2 ^ 32 := by
    unfold bssFirst pageBase
    rw [pageSize_eq]
    split <;> omega
  have hend : pageAlign ((header.virtualAddress.toNat + header.memorySize.toNat) % 2 ^ 32) =
      header.bssLast % 2 ^ 32 := by
    unfold pageAlign bssLast pageBase
    rw [pageSize_eq]
    omega
  have hsize : (header.bssLast % 2 ^ 32 + 2 ^ 32 - header.bssFirst % 2 ^ 32) % 2 ^ 32 =
      (header.bssLast - header.bssFirst) % 2 ^ 32 := by
    omega
  unfold sendBss
  rw [if_neg (by omega), Nat.mod_eq_of_lt (by omega)]
  dsimp only
  rw [hfirst, hend, hsize]

theorem bssFirst_eq_zero_iff :
    header.bssFirst = 0 ↔ header.fileSize.toNat = 0 ∧ header.virtualAddress.toNat < pageSize := by
  unfold bssFirst pageBase
  rw [pageSize_eq]
  split <;> omega

theorem bssLast_eq_iff (hvalid : header.Valid) :
    header.bssLast = 2 ^ 32 ↔
      2 ^ 32 - pageSize < header.virtualAddress.toNat + header.memorySize.toNat := by
  have hrange := hvalid.range
  unfold bssLast pageBase
  rw [pageSize_eq]
  omega

theorem mem_segmentPages (hvalid : header.Valid) (h : 0 < header.fileSize.toNat)
    (hall : ¬ (header.virtualAddress.toNat < pageSize ∧
      2 ^ 32 - pageSize < header.virtualAddress.toNat + header.fileSize.toNat)) :
    page ∈ header.segmentPages elfHeader ↔
      page % pageSize = 0 ∧ pageBase header.virtualAddress.toNat ≤ page ∧
        page < header.virtualAddress.toNat + header.fileSize.toNat := by
  have hsize := hvalid.size
  have hrange := hvalid.range
  rw [segmentPages, sendSegment, if_neg h.ne', Option.toList_some, flatMap_singleton]
  exact mem_pagesOf (by omega) h hall

theorem mem_bssPages (hvalid : header.Valid) (h : header.fileSize.toNat < header.memorySize.toNat)
    (hall : ¬ (header.bssFirst = 0 ∧ header.bssLast = 2 ^ 32)) :
    page ∈ header.bssPages ↔
      page % pageSize = 0 ∧ header.bssFirst ≤ page ∧
        page < header.virtualAddress.toNat + header.memorySize.toNat := by
  have hle := bssFirst_le_bssLast h
  have hlast := bssLast_le hvalid
  have hfirst : header.bssFirst % pageSize = 0 := bssFirst_mod
  have hmod : header.bssLast % pageSize = 0 := bssLast_mod
  have hend : page % pageSize = 0 → (page < header.bssLast ↔ _) := lt_bssLast_iff
  rw [bssPages, sendBss_eq hvalid h]
  by_cases heq : header.bssFirst = header.bssLast
  case pos =>
    rw [if_pos (by omega), Option.toList_none, flatMap_nil]
    refine iff_of_false not_mem_nil ?_
    omega
  case neg =>
    rw [pageSize_eq] at *
    have hbase : pageBase header.bssFirst = header.bssFirst := by
      unfold pageBase
      rw [pageSize_eq]
      omega
    rw [if_neg (by omega), Option.toList_some, flatMap_singleton, Nat.mod_eq_of_lt (by omega),
      Nat.mod_eq_of_lt (by omega)]
    change page ∈ pagesOf _ _ ↔ _
    rw [mem_pagesOf (by omega) (by omega), hbase, pageSize_eq,
      show header.bssFirst + (header.bssLast - header.bssFirst) = header.bssLast by omega]
    · exact and_congr_right fun hpage => and_congr_right fun _ => hend hpage
    · rw [pageSize_eq]
      omega

/-! ### The pages of a segment -/

/-- The requests together are for the pages of the segment, each once. -/
def Exact (elfHeader : ℕ) (header : ProgramHeader) : Prop :=
  (header.pages elfHeader).Nodup ∧ ∀ page, page ∈ header.pages elfHeader ↔ header.Overlaps page

theorem pages_eq : header.pages elfHeader = header.segmentPages elfHeader ++ header.bssPages :=
  flatMap_append

theorem nodup_pages (request : Option SegmentRequest) :
    (request.toList.flatMap SegmentRequest.pages).Nodup := by
  cases request with
  | none => exact nodup_nil
  | some request =>
    rw [Option.toList_some, flatMap_singleton]
    cases request <;> exact nodup_pagesOf

/-- The two requests do not overlap, and leave nothing out between them. -/
theorem exact_of (h : ∀ page, header.Overlaps page ↔
      page ∈ header.segmentPages elfHeader ∨ page ∈ header.bssPages)
    (hdisjoint : ∀ page, page ∈ header.segmentPages elfHeader → page ∉ header.bssPages) :
    header.Exact elfHeader := by
  unfold Exact
  rw [pages_eq]
  refine ⟨List.Nodup.append (nodup_pages _) (nodup_pages _) hdisjoint, fun page => ?_⟩
  rw [mem_append, h]

theorem segmentPages_of_zero (h : header.fileSize.toNat = 0) : header.segmentPages elfHeader = [] := by
  rw [segmentPages, sendSegment, if_pos h]
  rfl

theorem bssPages_of_eq (h : header.fileSize = header.memorySize) : header.bssPages = [] := by
  rw [bssPages, sendBss, h, if_pos rfl]
  rfl

theorem Valid.fileSize_lt (h : header.Valid) (hne : header.fileSize ≠ header.memorySize) :
    header.fileSize.toNat < header.memorySize.toNat :=
  lt_of_le_of_ne h.size fun heq => hne (BitVec.eq_of_toNat_eq heq)

theorem exact_of_seamless (hload : header.Loadable) (hvalid : header.Valid) (h : header.Seamless) :
    header.Exact elfHeader := by
  obtain ⟨hmeet, hall⟩ := h
  by_cases hzero : header.fileSize.toNat = 0
  case pos =>
    -- everything is asked for by `send_bss`
    rw [if_pos hzero, ← bssLast_eq_iff hvalid] at hall
    have hfirst : header.bssFirst = pageBase header.virtualAddress.toNat := by
      simp [bssFirst, hzero]
    have hbss : ∀ page, page ∈ header.bssPages ↔ _ := fun page => mem_bssPages hvalid (hzero ▸ hload.2)
      (by rw [bssFirst_eq_zero_iff]; exact fun h => hall ⟨h.1.2, h.2⟩)
    rw [hfirst] at hbss
    refine exact_of (fun page => ?_) (by simp [segmentPages_of_zero hzero])
    rw [segmentPages_of_zero hzero, hbss, overlaps_iff hload.2]
    simp
  case neg =>
    rw [if_neg hzero] at hall
    have hsegment : ∀ page, page ∈ header.segmentPages elfHeader ↔ _ := fun page =>
      mem_segmentPages hvalid (by omega) hall
    by_cases heq : header.fileSize = header.memorySize
    case pos =>
      refine exact_of (fun page => ?_) (by simp [bssPages_of_eq heq])
      rw [hsegment, bssPages_of_eq heq, overlaps_iff hload.2, heq]
      simp
    case neg =>
      have hlt := hvalid.fileSize_lt heq
      have hbss : ∀ page, page ∈ header.bssPages ↔ _ := fun page => mem_bssPages hvalid hlt
        fun h => hzero (bssFirst_eq_zero_iff.1 h.1).1
      -- the first page that is asked for is the one after the part in the file
      have hfirst : ∀ page, page % pageSize = 0 → (header.bssFirst ≤ page ↔
          header.virtualAddress.toNat + header.fileSize.toNat ≤ page) := by
        have hmeet := (hmeet.resolve_left hzero).resolve_left heq
        intro page hpage
        unfold bssFirst pageBase
        rw [pageSize_eq] at *
        split <;> omega
      have hbase : pageBase header.virtualAddress.toNat ≤ header.virtualAddress.toNat :=
        Nat.div_mul_le_self _ _
      refine exact_of (fun page => ?_) fun page hpage hpage' => ?_
      · rw [hsegment, hbss, overlaps_iff hload.2]
        have hfirst := hfirst page
        omega
      · rw [hsegment] at hpage
        rw [hbss, hfirst _ hpage.1] at hpage'
        omega

/-- A request for all pages there are is a request for none. -/
theorem pages_of_all (hvalid : header.Valid) (hfirst : header.virtualAddress.toNat < pageSize)
    (hlast : 2 ^ 32 - pageSize < header.virtualAddress.toNat +
      if header.fileSize.toNat = 0 then header.memorySize.toNat else header.fileSize.toNat) :
    0 ∉ header.segmentPages elfHeader ++ header.bssPages := by
  have hsize := hvalid.size
  have hrange := hvalid.range
  rw [mem_append, not_or]
  by_cases hzero : header.fileSize.toNat = 0
  case pos =>
    rw [if_pos hzero] at hlast
    have hlt : header.fileSize.toNat < header.memorySize.toNat := by
      rw [pageSize_eq] at *
      omega
    rw [segmentPages_of_zero hzero, bssPages, sendBss_eq hvalid hlt,
      bssFirst_eq_zero_iff.2 ⟨hzero, hfirst⟩, (bssLast_eq_iff hvalid).2 hlast]
    exact ⟨not_mem_nil, not_mem_nil⟩
  case neg =>
    rw [if_neg hzero] at hlast
    constructor
    · rw [segmentPages, sendSegment, if_neg hzero, Option.toList_some, flatMap_singleton]
      change 0 ∉ pagesOf _ _
      rw [pagesOf_all (by omega) hfirst hlast]
      exact not_mem_nil
    · by_cases heq : header.fileSize = header.memorySize
      · rw [bssPages_of_eq heq]
        exact not_mem_nil
      · have hlt := hvalid.fileSize_lt heq
        have hne : header.bssFirst ≠ 0 := fun h => hzero (bssFirst_eq_zero_iff.1 h).1
        rw [mem_bssPages hvalid hlt fun h => hne h.1]
        omega

theorem seamless_of_exact (hload : header.Loadable) (hvalid : header.Valid)
    (h : header.Exact elfHeader) : header.Seamless := by
  obtain ⟨hnodup, hmem⟩ := h
  rw [pages_eq] at hnodup hmem
  have hdisjoint := disjoint_of_nodup_append hnodup
  have hall : ¬ (header.virtualAddress.toNat < pageSize ∧
      2 ^ 32 - pageSize < header.virtualAddress.toNat +
        if header.fileSize.toNat = 0 then header.memorySize.toNat
        else header.fileSize.toNat) := by
    rintro ⟨hfirst, hlast⟩
    refine pages_of_all hvalid hfirst hlast ((hmem 0).2 ((overlaps_iff hload.2).2 ⟨rfl, ?_, ?_⟩))
    · rw [pageBase, Nat.div_eq_of_lt hfirst, Nat.zero_mul]
    · have := hload.2
      omega
  refine ⟨?_, hall⟩
  by_contra hmeet
  rw [not_or, not_or] at hmeet
  obtain ⟨hzero, heq, hmeet⟩ := hmeet
  rw [if_neg hzero] at hall
  have hlt := hvalid.fileSize_lt heq
  have hsegment : ∀ page, page ∈ header.segmentPages elfHeader ↔ _ := fun page =>
    mem_segmentPages hvalid (by omega) hall
  have hbss : ∀ page, page ∈ header.bssPages ↔ _ := fun page => mem_bssPages hvalid hlt
    fun h => hzero (bssFirst_eq_zero_iff.1 h.1).1
  by_cases hsum : (header.virtualAddress.toNat + header.fileSize.toNat) % pageSize = 0
  case pos =>
    -- the page at the end of the part in the file is in neither request
    have hpage := (hmem (header.virtualAddress.toNat + header.fileSize.toNat)).2 ?_
    · rw [mem_append, hsegment, hbss] at hpage
      unfold bssFirst pageBase at hpage
      rw [pageSize_eq] at *
      split at hpage <;> omega
    · rw [overlaps_iff hload.2]
      unfold pageBase
      rw [pageSize_eq] at *
      omega
  case neg =>
    -- the page that has the end of the part in the file is in both requests
    refine hdisjoint (a := pageBase (header.virtualAddress.toNat + header.fileSize.toNat)) ?_ ?_
    · rw [hsegment]
      unfold pageBase
      rw [pageSize_eq] at *
      omega
    · rw [hbss]
      unfold bssFirst pageBase
      rw [pageSize_eq] at *
      split <;> omega

/-- **The pages of a segment.** The message with the part of a segment that is in the file, and the
request for the part that is not, are together for exactly the pages of the segment, each of them
once, if and only if the header is seamless. -/
theorem pages_exact_iff_seamless (elfHeader : ℕ) (header : ProgramHeader) (hload : header.Loadable)
    (hvalid : header.Valid) :
    ((header.pages elfHeader).Nodup ∧
        ∀ page, page ∈ header.pages elfHeader ↔ header.Overlaps page) ↔ header.Seamless :=
  ⟨seamless_of_exact hload hvalid, exact_of_seamless hload hvalid⟩

/-- A segment of a whole number of pages, with more pages after it. -/
theorem pages_exact_at_aligned :
    (⟨1, 0, 0x40000000, 0x1000, 0x1800⟩ : ProgramHeader).Loadable ∧
    (⟨1, 0, 0x40000000, 0x1000, 0x1800⟩ : ProgramHeader).Valid ∧
    (⟨1, 0, 0x40000000, 0x1000, 0x1800⟩ : ProgramHeader).Exact 0x50000000 :=
  ⟨by decide, ⟨by decide, by decide⟩,
    (pages_exact_iff_seamless _ _ (by decide) ⟨by decide, by decide⟩).2 (by decide)⟩

/-- A segment whose part in the file begins in the middle of a page and ends with it: the next page
is skipped. -/
def skippedPage : ProgramHeader := ⟨1, 0, 0x40000800, 0x800, 0x1000⟩

/-- A segment whose part in the file begins in the middle of a page and is one page long: the page it
ends on is asked for again. -/
def repeatedPage : ProgramHeader := ⟨1, 0, 0x40000800, 0x1000, 0x1400⟩

/-- One page of a segment is left out, and one is asked for twice. -/
theorem pages_not_exact :
    (skippedPage.Loadable ∧ skippedPage.Valid ∧ skippedPage.Overlaps 0x40001000 ∧
      0x40001000 ∉ skippedPage.pages 0x50000000) ∧
    repeatedPage.Loadable ∧ repeatedPage.Valid ∧
      repeatedPage.pages 0x50000000 = [0x40000000, 0x40001000, 0x40001000] :=
  ⟨⟨by decide, ⟨by decide, by decide⟩, ⟨0x40001000, by decide⟩, by decide +kernel⟩,
    by decide, ⟨by decide, by decide⟩, by decide +kernel⟩

/-! ### The pages of an image -/

variable {succeeds : SegmentRequest → Bool} {headers : List ProgramHeader} {heap : ℕ}

/-- When no request fails, each loadable segment has been asked for, in the order of the headers. -/
theorem sendSegments_of_succeeds
    (h : ∀ header ∈ headers, ∀ request ∈ header.requests elfHeader, succeeds request) :
    (sendSegments elfHeader succeeds headers heap).1 =
      (headers.filter (·.Loadable)).flatMap (·.requests elfHeader) := by
  induction headers generalizing heap with
  | nil => rfl
  | cons header headers ih =>
    rw [forall_mem_cons] at h
    unfold sendSegments
    by_cases hload : header.Loadable
    · rw [if_pos hload, if_pos (all_eq_true.2 h.1),
        filter_cons_of_pos (by simpa using hload), flatMap_cons]
      exact congrArg (header.requests elfHeader ++ ·) (ih h.2)
    · rw [if_neg hload, filter_cons_of_neg (by simpa using hload), ih h.2]

/-- **The pages of an image.** When its loadable segments are valid and seamless and no request fails,
`send_segments` asks for exactly their pages, and for none twice if and only if no two segments share
one. -/
theorem image_pages_exact
    (h : ∀ header ∈ headers, ∀ request ∈ header.requests elfHeader, succeeds request)
    (hvalid : ∀ header ∈ headers, header.Loadable → header.Valid ∧ header.Seamless) :
    let pages := (sendSegments elfHeader succeeds headers heap).1.flatMap SegmentRequest.pages
    (∀ page, page ∈ pages ↔ ∃ header ∈ headers, header.Loadable ∧ header.Overlaps page) ∧
      (pages.Nodup ↔ (headers.filter (·.Loadable)).Pairwise fun a b =>
        ∀ page, a.Overlaps page → ¬ b.Overlaps page) := by
  have hexact : ∀ header ∈ headers.filter (·.Loadable), header.Exact elfHeader := by
    intro header hmem
    simp only [mem_filter, decide_eq_true_eq] at hmem
    obtain ⟨hvalid, hseamless⟩ := hvalid header hmem.1 hmem.2
    exact exact_of_seamless hmem.2 hvalid hseamless
  intro pages
  have hpages : pages = (headers.filter (·.Loadable)).flatMap (·.pages elfHeader) :=
    (congrArg _ (sendSegments_of_succeeds h)).trans (flatMap_assoc ..)
  rw [hpages]
  refine ⟨fun page => mem_flatMap.trans (exists_congr fun header => ?_), ?_⟩
  · rw [and_congr_right fun hmem => (hexact header hmem).2 page, mem_filter, and_assoc,
      decide_eq_true_iff]
  · rw [nodup_flatMap, and_iff_right fun header hmem => (hexact header hmem).1]
    exact Pairwise.iff_of_mem fun ha hb => forall_congr' fun page =>
      imp_congr ((hexact _ ha).2 page) ((hexact _ hb).2 page).not

/-- The pages of two segments, each of which is asked for once. -/
theorem image_pages_exact_two :
    let headers : List ProgramHeader := [⟨1, 0, 0x40000000, 0x1000, 0x1800⟩, ⟨1, 0, 0x40002000, 4, 4⟩]
    let pages := (sendSegments 0 (fun _ => true) headers 0).1.flatMap SegmentRequest.pages
    pages = [0x40000000, 0x40001000, 0x40002000] ∧
      (∀ page, page ∈ pages ↔ ∃ header ∈ headers, header.Loadable ∧ header.Overlaps page) ∧
      (headers.filter (·.Loadable)).Pairwise fun a b =>
        ∀ page, a.Overlaps page → ¬ b.Overlaps page := by
  intro headers pages
  have heval : pages = [0x40000000, 0x40001000, 0x40002000] := by decide +kernel
  have hvalid : ∀ header ∈ headers, header.Loadable → header.Valid ∧ header.Seamless :=
    forall_mem_cons.2 ⟨fun _ => ⟨⟨by decide, by decide⟩, by decide⟩,
      forall_mem_singleton.2 fun _ => ⟨⟨by decide, by decide⟩, by decide⟩⟩
  obtain ⟨hpages, hnodup⟩ := @image_pages_exact 0 (fun _ => true) headers 0 (by simp) hvalid
  exact ⟨heval, hpages, hnodup.1 (by decide +kernel)⟩

end ProgramHeader

end Dx.User
