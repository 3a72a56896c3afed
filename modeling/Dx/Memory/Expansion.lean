import Dx.Memory.Changes
import Dx.Memory.Search

/-!
# Expanding an address space

`expand` adds new pages. It first makes sure that no page of the range is mapped, then allocates the
frames, and then binds one page after the other. When a page cannot be bound, everything is undone by
`decommit_frame` over the whole range. That goes wrong in two ways: what `decommit_frame` finds there
takes the place of the frames that were allocated, so those that were not yet bound are never freed;
and a page that was there before is unmapped and its frame is freed with the others.

So `expand` does all or nothing exactly when every page can be bound once the frames are allocated
(`expand_all_or_nothing`). Of the two ways to fail, one is the memory for a page table. The other is a
page that the search before it has missed (`findPresentEntry_iff_searchable`).
-/

namespace Dx.Memory

open Function

open PageDirectory Library

namespace State

variable {a t first size page n : ℕ} {heap : Heap} {flags : MemoryFlags} {s s' : State}
  {frames : List ℕ}

/-- The pages can be bound: none of them is mapped, and there is memory for the page tables they
need. -/
def Vacant (a page n : ℕ) (heap : Heap) (s : State) : Prop :=
  ∀ i < n, s.lookup a (pageAfter page i) = none ∧
    (((s.space a).directory.entry (calculateIndex (pageAfter page i))).present = true ∨
      heap.table (calculateIndex (pageAfter page i)) = true)

/-- Every check before the frames are allocated is passed. -/
structure Commits (t first size : ℕ) (s : State) : Prop where
  capability : .expandAddressSpace ∈ (s.thread t).capabilities
  pos : pageCount 0 size ≠ 0
  le : pageCount 0 size ≤ expandAddressSpacePageCount
  /-- The range begins with a page, -/
  aligned : first % pageSize = 0
  /-- which is not the kernel's, -/
  user : payloadAreaBase ≤ first
  /-- and does not wrap around. -/
  last : first ≤ (first + (pageCount 0 size - 1) * pageSize) % 2 ^ 32
  /-- No page is found in it. -/
  search : ¬ (first ≤ ((s.space (s.thread t).addressSpace).directory.findPresentEntry first).2 ∧
    ((s.space (s.thread t).addressSpace).directory.findPresentEntry first).2 ≤
      (first + (pageCount 0 size - 1) * pageSize) % 2 ^ 32)

/-- `expand` adds the pages, or it is refused. -/
theorem expand_eq (t first size : ℕ) (frames : Option (List ℕ)) (heap : Heap) (s : State) :
    (s.Commits t first size ∧ s.expand t first size frames heap =
        s.addPages (s.thread t).addressSpace first (pageCount 0 size) frames heap) ∨
      ¬ s.Commits t first size ∧
        ∃ status, status ≠ .success ∧ s.expand t first size frames heap = some (s.finish status) := by
  unfold expand
  dsimp only
  split
  case isTrue hcapability =>
    exact .inr ⟨fun h => hcapability h.capability, .accessDenied, by decide, rfl⟩
  case isFalse hcapability =>
    split
    case isTrue hcount =>
      exact .inr ⟨fun h => hcount.elim h.pos h.le.not_gt, .insufficientMemory, by decide, rfl⟩
    case isFalse hcount =>
      split
      case isTrue hvalid =>
        refine .inr ⟨fun h => ?_, .invalidData, by decide, rfl⟩
        exact hvalid.elim (fun hno => hno h.aligned) fun hno =>
          hno.elim (fun hno => hno (decide_eq_true h.user)) h.last.not_gt
      case isFalse hvalid =>
        split
        case isTrue hfound =>
          exact .inr ⟨fun h => h.search hfound, .resourceConflict, by decide, rfl⟩
        case isFalse hsearch =>
          rw [not_or] at hcount
          rw [not_or, not_or, not_not, not_not] at hvalid
          obtain ⟨haligned, huser, hlast⟩ := hvalid
          exact .inl ⟨⟨not_not.1 hcapability, hcount.1, Nat.le_of_not_lt hcount.2, haligned,
            of_decide_eq_true huser, Nat.le_of_not_lt hlast, hsearch⟩, rfl⟩

/-! ### Binding the pages -/

theorem setDirectory_setDirectory (a : ℕ) (d d' : PageDirectory) (s : State) :
    (s.setDirectory a d).setDirectory a d' = s.setDirectory a d' := by
  unfold setDirectory setSpace
  dsimp only
  rw [update_self, update_idem]

theorem pageAfter_div_ne (hpage : page % pageSize = 0) {i j : ℕ} (hi : i < 2 ^ 20) (hj : j < 2 ^ 20)
    (hne : i ≠ j) : pageAfter page i / pageSize ≠ pageAfter page j / pageSize := by
  intro heq
  have hi' := pageAfter_mod (n := i) hpage
  have hj' := pageAfter_mod (n := j) hpage
  have hsame : pageAfter page i = pageAfter page j := by
    rw [pageSize_eq] at *
    omega
  exact hne (pageAfter_inj hi hj hsame)

theorem Vacant.commitPage (frame : ℕ) (flags : MemoryFlags) (h : s.Vacant a page (n + 1) heap)
    (hpage : page % pageSize = 0) (hlt : page < 2 ^ 32) (hn : n < 2 ^ 20) :
    ∃ d, (s.space a).directory.commitPage heap.table page frame flags = .ok d ∧
      (s.setDirectory a d).Vacant a ((page + pageSize) % 2 ^ 32) n heap ∧
      ∀ v, d.lookup v =
        if v / pageSize = page / pageSize then some (.ofFrame frame flags) else s.lookup a v := by
  obtain ⟨habsent, htable⟩ := h 0 (Nat.succ_pos n)
  rw [pageAfter_zero hlt] at habsent htable
  cases hd : (s.space a).directory.commitPage heap.table page frame flags with
  | error status =>
    exfalso
    unfold PageDirectory.commitPage at hd
    split at hd
    case h_1 hnone =>
      unfold findEntryExpand at hnone
      rcases htable with htable | htable
      · rw [if_pos htable] at hnone
        cases hnone
      · rw [htable] at hnone
        split at hnone <;> cases hnone
    case h_2 d hexpand =>
      have hlookup := (lookup_findEntryExpand hexpand).trans habsent
      rw [lookup_eq_none] at hlookup
      rw [hlookup] at hd
      cases hd
  | ok d =>
    obtain ⟨-, hlookup⟩ := lookup_commitPage hd
    refine ⟨d, rfl, fun i hi => ?_, hlookup⟩
    obtain ⟨habsent', htable'⟩ := h (i + 1) (Nat.succ_lt_succ hi)
    have hne : pageAfter page (i + 1) / pageSize ≠ page / pageSize := by
      have hdiv := pageAfter_div_ne hpage (i := i + 1) (j := 0) (by omega) (by omega) (by omega)
      rwa [pageAfter_zero hlt] at hdiv
    rw [pageAfter_succ, lookup_setDirectory, space_setDirectory]
    refine ⟨by rw [hlookup, if_neg hne]; exact habsent', ?_⟩
    by_cases hindex : calculateIndex (pageAfter page (i + 1)) = calculateIndex page
    · -- the page table has just been used
      refine .inl ?_
      rw [hindex]
      by_contra hpresent
      have hnone := lookup_of_absent (Bool.eq_false_of_not_eq_true hpresent)
      rw [hlookup, if_pos rfl] at hnone
      cases hnone
    · rw [entry_commitPage hd fun h => hindex h.symm]
      exact htable'

/-- All pages of a vacant range are bound, each to its own frame. -/
theorem commitFrames_of_vacant (flags : MemoryFlags) (h : s.Vacant a page frames.length heap)
    (hpage : page % pageSize = 0) (hlt : page < 2 ^ 32) (hlength : frames.length ≤ 2 ^ 20) :
    ∃ d, s.commitFrames a heap flags frames page = (.success, s.setDirectory a d) ∧
      (∀ i frame, frames[i]? = some frame →
        d.lookup (pageAfter page i) = some (.ofFrame frame flags)) ∧
      ∀ v, ¬ InRange page frames.length v → d.lookup v = s.lookup a v := by
  induction frames generalizing page s with
  | nil =>
    refine ⟨(s.space a).directory, ?_, fun i frame hi => ?_, fun _ _ => rfl⟩
    · rw [commitFrames, setDirectory, setSpace, update_eq_self]
    · cases hi
  | cons frame frames ih =>
    rw [List.length_cons] at hlength h
    obtain ⟨d, hd, hvacant, hlookup⟩ := h.commitPage frame flags hpage hlt
      (by omega)
    have hnext : (page + pageSize) % 2 ^ 32 = pageAfter page 1 := by rw [pageAfter, Nat.one_mul]
    obtain ⟨d', hcommit, hbound, hothers⟩ := ih hvacant
      (by rw [hnext]; exact pageAfter_mod hpage) (Nat.mod_lt _ (by decide)) (by omega)
    simp only [lookup_setDirectory] at hothers
    refine ⟨d', ?_, fun i frame' hi => ?_, fun v hv => ?_⟩
    · rw [commitFrames, hd]
      dsimp only
      rw [hcommit, setDirectory_setDirectory]
    · cases i with
      | zero =>
        obtain rfl : frame = frame' := Option.some.inj hi
        have hout : ¬ InRange ((page + pageSize) % 2 ^ 32) frames.length page := by
          rintro ⟨j, hj, heq⟩
          rw [pageAfter_succ] at heq
          refine pageAfter_div_ne hpage (i := 0) (j := j + 1) (by omega) (by omega) (by omega) ?_
          rw [pageAfter_zero hlt, heq]
        rw [pageAfter_zero hlt, hothers _ hout, hlookup, if_pos rfl]
      | succ i =>
        rw [← pageAfter_succ]
        exact hbound i frame' hi
    · have hfirst : v / pageSize ≠ page / pageSize := fun heq =>
        hv ⟨0, Nat.succ_pos _, by rw [pageAfter_zero hlt, heq]⟩
      rw [hothers v fun hin => hv (inRange_rest hin), hlookup, if_neg hfirst]

/-! ### When a page cannot be bound -/

theorem commitPage_ne_success {d : PageDirectory} {table : ℕ → Bool} {frame : ℕ} :
    d.commitPage table page frame flags ≠ .error .success := by
  unfold PageDirectory.commitPage
  split
  · exact fun h => nomatch h
  · split <;> exact fun h => nomatch h

/-- All pages are bound only if the range was vacant. -/
theorem vacant_of_commitFrames (hlt : page < 2 ^ 32)
    (hs : s.commitFrames a heap flags frames page = (.success, s')) :
    s.Vacant a page frames.length heap := by
  induction frames generalizing s page with
  | nil => exact fun i hi => absurd hi (Nat.not_lt_zero i)
  | cons frame frames ih =>
    rw [commitFrames] at hs
    split at hs
    case h_1 status herror =>
      cases hs
      exact absurd herror commitPage_ne_success
    case h_2 d hd =>
      have htable : ((s.space a).directory.entry (calculateIndex page)).present = true ∨
          heap.table (calculateIndex page) = true := by
        by_contra hno
        obtain ⟨hpresent, hheap⟩ := not_or.1 hno
        simp only [PageDirectory.commitPage, findEntryExpand, if_neg hpresent, if_neg hheap] at hd
        cases hd
      obtain ⟨habsent, hlookup⟩ := lookup_commitPage hd
      have hrest := ih (add_pageSize_mod_lt page) hs
      intro i hi
      cases i with
      | zero =>
        rw [pageAfter_zero hlt]
        exact ⟨habsent, htable⟩
      | succ i =>
        obtain ⟨hnone, htable'⟩ := hrest i (Nat.lt_of_succ_lt_succ hi)
        rw [pageAfter_succ, lookup_setDirectory, hlookup] at hnone
        rw [pageAfter_succ, space_setDirectory] at htable'
        refine ⟨?_, ?_⟩
        · split at hnone
          · cases hnone
          · exact hnone
        · by_cases hindex : calculateIndex (pageAfter page (i + 1)) = calculateIndex page
          · rw [hindex]
            exact htable
          · rwa [entry_commitPage hd fun h => hindex h.symm] at htable'

theorem exists_unbound {status : Status} (hstatus : status ≠ .success) (hnodup : frames.Nodup)
    (haligned : ∀ frame ∈ frames, frame % pageSize = 0)
    (hs : s.commitFrames a heap flags frames page = (status, s')) :
    s'.free = s.free ∧ ((s.space a).directory.Blank → (s'.space a).directory.Blank) ∧
      ∃ frame ∈ frames, ∀ v e, s'.lookup a v = some e →
        s.lookup a v = some e ∨ e.frame ≠ frame := by
  induction frames generalizing s page with
  | nil =>
    cases hs
    exact absurd rfl hstatus
  | cons frame frames ih =>
    rw [commitFrames] at hs
    split at hs
    case h_1 =>
      cases hs
      exact ⟨rfl, id, frame, List.mem_cons_self, fun _ _ he => .inl he⟩
    case h_2 d hd =>
      rw [List.nodup_cons] at hnodup
      obtain ⟨hfree, hblank, lost, hlost, hbound⟩ :=
        ih hnodup.2 (fun x hx => haligned x (List.mem_cons_of_mem _ hx)) hs
      refine ⟨hfree, fun hb => hblank ?_, lost, List.mem_cons_of_mem _ hlost, fun v e he => ?_⟩
      · rw [space_setDirectory]
        exact hb.commitPage hd
      · rcases hbound v e he with he | hne
        · rw [lookup_setDirectory, (lookup_commitPage hd).2] at he
          split at he
          · cases he
            refine .inr fun heq => hnodup.1 ?_
            have hbase : pageBase frame = frame := Nat.div_mul_cancel
              (Nat.dvd_of_mod_eq_zero (haligned frame List.mem_cons_self))
            rwa [← hbase, show pageBase frame = lost from heq]
          · exact .inl he
        · exact .inr hne

theorem free_decommitFrames (a n page : ℕ) (s : State) :
    (s.decommitFrames a n page).2.free = s.free := by
  induction n generalizing page s with
  | zero => rfl
  | succ n ih => exact ih _ _

theorem lookup_decommitFrames {v : ℕ} {e : PageTableEntry} (hlt : page < 2 ^ 32)
    (he : (s.decommitFrames a n page).2.lookup a v = some e) :
    s.lookup a v = some e ∧ ¬ InRange page n v := by
  induction n generalizing page s with
  | zero => exact ⟨he, fun ⟨i, hi, _⟩ => Nat.not_lt_zero i hi⟩
  | succ n ih =>
    obtain ⟨he, hrest⟩ := ih (add_pageSize_mod_lt page) he
    rw [lookup_setDirectory] at he
    obtain ⟨he, hne⟩ := lookup_clearPage he
    refine ⟨he, ?_⟩
    rintro ⟨_ | i, hi, heq⟩
    · rw [pageAfter_zero hlt] at heq
      exact hne heq
    · exact hrest ⟨i, Nat.lt_of_succ_lt_succ hi, by rw [pageAfter_succ, heq]⟩

theorem mem_decommitFrames {x : ℕ} (hblank : (s.space a).directory.Blank) (hlt : page < 2 ^ 32)
    (hx : x ∈ (s.decommitFrames a n page).1) :
    x = 0 ∨ ∃ v e, InRange page n v ∧ s.lookup a v = some e ∧ e.frame = x := by
  induction n generalizing page s with
  | zero => cases hx
  | succ n ih =>
    rcases List.mem_cons.1 hx with rfl | hx
    · rcases hblank.frame_eq page with hzero | ⟨e, he, hframe⟩
      · exact .inl hzero
      · exact .inr ⟨page, e, inRange_first hlt, he, hframe.symm⟩
    · have hblank' : ((s.setDirectory a ((s.space a).directory.clearPage page)).space a).directory.Blank := by
        rw [space_setDirectory]
        exact hblank.set fun _ => rfl
      rcases ih hblank' (add_pageSize_mod_lt page) hx with hzero | ⟨v, e, hv, he, hframe⟩
      · exact .inl hzero
      · rw [lookup_setDirectory] at he
        exact .inr ⟨v, e, inRange_rest hv, (lookup_clearPage he).1, hframe⟩

theorem free_freeFrames {x : ℕ} (hx : x ∉ frames) : (s.freeFrames frames).free x = s.free x := by
  induction frames generalizing s with
  | nil => rfl
  | cons frame frames ih =>
    rw [List.mem_cons, not_or] at hx
    refine (ih hx.2).trans ?_
    show (s.freeFrame frame).free x = s.free x
    rw [freeFrame]
    split
    · rfl
    · exact update_of_ne hx.1 _ _

/-! ### All or nothing -/

/-- The pages from `first` on are new, and are bound to frames that were free. -/
structure Expanded (a first : ℕ) (frames : List ℕ) (s s' : State) : Prop where
  /-- The frames are different, and were free. -/
  available : s.Available frames
  /-- The pages were not mapped. -/
  absent : ∀ i < frames.length, s.lookup a (pageAfter first i) = none
  /-- Each of them has its frame. -/
  mapped : ∀ i frame, frames[i]? = some frame →
    s'.lookup a (pageAfter first i) = some (.ofFrame frame memoryUserDefault)
  /-- No other page has changed. -/
  others : ∀ b v, ¬ (b = a ∧ InRange first frames.length v) → s'.lookup b v = s.lookup b v
  /-- No other frame is allocated. -/
  free : ∀ frame, s'.free frame = (s.free frame && decide (frame ∉ frames))

/-- Every mapping and every frame is as it was. -/
structure Unchanged (s s' : State) : Prop where
  lookup : ∀ b v, s'.lookup b v = s.lookup b v
  free : s'.free = s.free

theorem addPages_of_vacant (h : s.Vacant a first n heap) (hfirst : first % pageSize = 0)
    (hlt : first < 2 ^ 32) (hn : n ≤ 2 ^ 20)
    (hs : s.addPages a first n (some frames) heap = some s') :
    s'.result.status = .success ∧ frames.length = n ∧ s.Expanded a first frames s' := by
  unfold addPages at hs
  dsimp only at hs
  obtain ⟨hframes, hs⟩ := Option.ite_none_right_eq_some.1 hs
  obtain ⟨rfl, havailable⟩ := hframes
  have hvacant : (s.allocateFrames frames).Vacant a first frames.length heap := h
  obtain ⟨d, hcommit, hbound, hothers⟩ :=
    commitFrames_of_vacant memoryUserDefault hvacant hfirst hlt hn
  rw [hcommit, if_pos rfl] at hs
  cases hs
  refine ⟨rfl, rfl, havailable, fun i hi => (h i hi).1, fun i frame hi => ?_, fun b v hbv => ?_,
    fun frame => rfl⟩
  · exact (lookup_setDirectory a d _ _).trans (hbound i frame hi)
  · by_cases hb : b = a
    · subst hb
      exact (lookup_setDirectory b d _ _).trans (hothers v fun hin => hbv ⟨rfl, hin⟩)
    · exact congrArg (fun sp : AddressSpace => sp.directory.lookup v)
        (update_of_ne hb _ _)

/-- If the range is not vacant, a page that was mapped is lost, or a frame. -/
theorem not_unchanged_of_addPages (h : ¬ s.Vacant a first n heap)
    (hblank : (s.space a).directory.Blank) (hlt : first < 2 ^ 32)
    (hs : s.addPages a first n (some frames) heap = some s') :
    s'.result.status ≠ .success ∧ ¬ s.Unchanged s' := by
  unfold addPages at hs
  dsimp only at hs
  obtain ⟨⟨rfl, hnodup, havailable⟩, hs⟩ := Option.ite_none_right_eq_some.1 hs
  obtain ⟨status, s₁, hcommit⟩ : ∃ status s₁, (s.allocateFrames frames).commitFrames a heap
      memoryUserDefault frames first = (status, s₁) := ⟨_, _, rfl⟩
  have hstatus : status ≠ .success := by
    rintro rfl
    have hvacant : (s.allocateFrames frames).Vacant a first frames.length heap :=
      vacant_of_commitFrames hlt hcommit
    exact h hvacant
  obtain ⟨hfree, hblank', lost, hlost, hbound⟩ := exists_unbound hstatus hnodup
    (fun x hx => (havailable x hx).2.1) hcommit
  have hs' : s' = ((s₁.decommitFrames a frames.length first).2.freeFrames
      (s₁.decommitFrames a frames.length first).1).finish status := by
    rw [hcommit] at hs
    exact (Option.some.inj ((if_neg hstatus).symm.trans hs)).symm
  refine ⟨by rw [hs']; exact hstatus, fun hsame => ?_⟩
  by_cases hmapped : ∃ i < frames.length, s.lookup a (pageAfter first i) ≠ none
  · -- a page that was mapped is unmapped
    obtain ⟨i, hi, hmapped⟩ := hmapped
    obtain ⟨e, he⟩ := Option.ne_none_iff_exists'.1 hmapped
    have hafter : s'.lookup a (pageAfter first i) = some e := (hsame.lookup _ _).trans he
    have hspace : s'.space = (s₁.decommitFrames a frames.length first).2.space := by
      rw [hs']
      exact (sameSpaces_freeFrames _ _).space
    rw [lookup, hspace] at hafter
    exact (lookup_decommitFrames hlt hafter).2 ⟨i, hi, rfl⟩
  · -- a frame that was not bound is not freed
    have hnot : lost ∉ (s₁.decommitFrames a frames.length first).1 := by
      intro hmem
      rcases mem_decommitFrames (hblank' hblank) hlt hmem with rfl | ⟨v, e, ⟨i, hi, hv⟩, he, hframe⟩
      · exact absurd (havailable 0 hlost).2.2 (by decide)
      · refine (hbound v e he).elim (fun hold => hmapped ⟨i, hi, fun hnone => ?_⟩)
          fun hne => hne hframe
        cases (hold.symm.trans (lookup_congr hv)).trans hnone
    have hafter : s'.free lost = s₁.free lost := by
      rw [hs']
      exact (free_freeFrames hnot).trans (congrFun (free_decommitFrames ..) lost)
    rw [hsame.free, (havailable lost hlost).1, hfree] at hafter
    simp [allocateFrames, hlost] at hafter

/-- **Expansion is all or nothing** exactly if every page of the range can be bound once the checks
are passed and the frames are allocated: new pages are bound to free frames, and nothing else changes;
or nothing changes at all. The entries that are not present have no frame, as in every state that is
reached (`Formed.blank`). -/
theorem expand_all_or_nothing (t : ℕ) (first size : Word) (frames : Option (List ℕ)) (heap : Heap)
    (s s' : State) (hblank : (s.space (s.thread t).addressSpace).directory.Blank)
    (h : s.expand t first.toNat size.toNat frames heap = some s') :
    ((s'.result.status = .success ∧ ∃ new, frames = some new ∧
        new.length = pageCount 0 size.toNat ∧
        s.Expanded (s.thread t).addressSpace first.toNat new s') ∨
      (s'.result.status ≠ .success ∧ s.Unchanged s')) ↔
    (s.Commits t first.toNat size.toNat → frames ≠ none →
      s.Vacant (s.thread t).addressSpace first.toNat (pageCount 0 size.toNat) heap) := by
  rcases expand_eq t first.toNat size.toNat frames heap s with
    ⟨hcommits, heq⟩ | ⟨hrefused, status, hstatus, heq⟩
  · rw [heq] at h
    cases frames with
    | none =>
      cases h
      exact iff_of_true (.inr ⟨Status.noConfusion, fun _ _ => rfl, rfl⟩) fun _ hne => absurd rfl hne
    | some new =>
      have hle := hcommits.le
      rw [show expandAddressSpacePageCount = 96 from rfl] at hle
      constructor
      · intro hdone _ _
        by_contra hvacant
        obtain ⟨hfailed, hchanged⟩ := not_unchanged_of_addPages hvacant hblank first.isLt h
        exact hdone.elim (fun hsuccess => hfailed hsuccess.1) fun hsame => hchanged hsame.2
      · intro hvacant
        obtain ⟨hsuccess, hlength, hexpanded⟩ := addPages_of_vacant
          (hvacant hcommits fun hnone => nomatch hnone) hcommits.aligned first.isLt (by omega) h
        exact .inl ⟨hsuccess, new, rfl, hlength, hexpanded⟩
  · rw [heq] at h
    cases h
    exact iff_of_true (.inr ⟨hstatus, fun _ _ => rfl, rfl⟩) fun hcommits => absurd hcommits hrefused

/-- The small machine, with a thread that may expand its address space. -/
def expanding : State := Boot.small.initial.createThread 1 0 [.expandAddressSpace]

/-- Two pages are added on both sides of a boundary between page tables. -/
theorem expand_all_or_nothing_boundary : ∃ s' new,
    expanding.expand 1 (0x403FF000 : Word).toNat (0x2000 : Word).toNat
      (some [0xC00000, 0xC01000]) Heap.plenty = some s' ∧
    s'.result.status = .success ∧ new = [0xC00000, 0xC01000] ∧
    expanding.Expanded (expanding.thread 1).addressSpace (0x403FF000 : Word).toNat new s' := by
  have heval : ∃ s' ∈ expanding.expand 1 (0x403FF000 : Word).toNat (0x2000 : Word).toNat
      (some [0xC00000, 0xC01000]) Heap.plenty, s'.result.status = .success := by
    decide +kernel
  have hcount : pageCount 0 (0x2000 : Word).toNat = 2 := by decide +kernel
  have hvacant : ∀ i < 2, expanding.lookup 0 (pageAfter 0x403FF000 i) = none := by decide +kernel
  obtain ⟨s', hs', hstatus⟩ := heval
  have hdone := (expand_all_or_nothing 1 0x403FF000 0x2000 (some [0xC00000, 0xC01000]) Heap.plenty
    expanding s' .new hs').2 fun _ _ i hi => ⟨hvacant i (hcount ▸ hi), .inr rfl⟩
  rcases hdone with ⟨-, new, hnew, -, hexpanded⟩ | ⟨hfail, -⟩
  · exact ⟨s', new, hs', hstatus, (Option.some.inj hnew).symm, hexpanded⟩
  · exact absurd hstatus hfail

/-- A page at a boundary between page tables is missed by the search from the page before it. The
expansion over both of them fails, and the page is gone, its frame is free and the frame that was
allocated for it is lost. And without memory for a page table every frame that was allocated is
lost. -/
theorem not_expand_all_or_nothing : ∃ s, Run step Always Boot.small.initial s ∧
    (∃ s' ∈ s.expand 1 0x403FF000 0x2000 (some [0xC01000, 0xC02000]) Heap.plenty,
      s'.result.status = .resourceConflict ∧ s.translate 0 0x40400000 = some 0xC00000 ∧
      s'.translate 0 0x40400000 = none ∧ s'.free 0xC00000 = true ∧
      s.free 0xC02000 = true ∧ s'.free 0xC02000 = false) ∧
    ∃ s' ∈ s.expand 1 0x50000000 0x1000 (some [0xC01000]) { Heap.plenty with table := fun _ => false },
      s'.result.status = .insufficientMemory ∧ s.free 0xC01000 = true ∧
      s'.free 0xC01000 = false :=
  exists_run [.createThread 1 0 [.expandAddressSpace],
    .expand 1 0x40400000 0x1000 (some [0xC00000]) Heap.plenty] (by decide +kernel)

end State

end Dx.Memory
